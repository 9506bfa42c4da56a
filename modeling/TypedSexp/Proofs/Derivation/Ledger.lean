import TypedSexp.Derivation.Derive
import TypedSexp.Proofs.Derivation.Built
/-!
# What a deriver remembers is right

Converters are remembered under the identities of their arguments, so an identity must tell which
converter it is. A `Ledger` says that of the numbers of derived converters. `Deriver.Kept` is the
invariant of a deriver: every converter that is remembered was built from what it is remembered for,
with the arguments of the ledger. `Derivation.Keeps` is the rule by which derivations are shown to
keep it, also when they are refused.
-/

namespace TypedSexp

/-- Which converter each number stands for; numbers from `next` on are free. `outside` tells which
ready-made converters there are. -/
structure Ledger where
  find : Nat → Converter
  next : Nat
  outside : Text → Option Custom

namespace Ledger

/-- The converter is the one of its identity. -/
def Knows (l : Ledger) (c : Converter) : Prop :=
  match c.identity with
  | .builtin p => c = .ofPrimitive p
  | .given name => (l.outside name).map (.ofCustom name) = some c
  | .derived k => k < l.next ∧ l.find k = c

/-- Every converter is known. -/
def Trusts (l : Ledger) (cs : List Converter) : Prop := ∀ c ∈ cs, l.Knows c

/-- A later ledger: numbers that were taken stand for what they stood for. -/
structure Extends (later earlier : Ledger) : Prop where
  le : earlier.next ≤ later.next
  same : ∀ k < earlier.next, later.find k = earlier.find k
  outside : later.outside = earlier.outside

theorem Extends.refl (l : Ledger) : l.Extends l := ⟨Nat.le_refl _, fun _ _ => rfl, rfl⟩

theorem Extends.trans {a b c : Ledger} (hc : c.Extends b) (hb : b.Extends a) : c.Extends a := by
  refine ⟨Nat.le_trans hb.le hc.le, fun k hk => ?_, hc.outside.trans hb.outside⟩
  rw [hc.same k (Nat.lt_of_lt_of_le hk hb.le), hb.same k hk]

theorem Knows.mono {earlier later : Ledger} (h : later.Extends earlier) {c : Converter}
    (hc : earlier.Knows c) : later.Knows c := by
  unfold Knows at hc ⊢
  cases hi : c.identity with
  | builtin p => rw [hi] at hc; exact hc
  | given name =>
    rw [hi] at hc
    simpa only [h.outside] using hc
  | derived k =>
    rw [hi] at hc
    exact ⟨Nat.lt_of_lt_of_le hc.1 h.le, by rw [h.same k hc.1, hc.2]⟩

theorem Trusts.mono {earlier later : Ledger} (h : later.Extends earlier) {cs : List Converter}
    (hcs : earlier.Trusts cs) : later.Trusts cs := fun c hc => (hcs c hc).mono h

/-- Known converters of one identity are one converter. -/
theorem Knows.eq {l : Ledger} {a b : Converter} (ha : l.Knows a) (hb : l.Knows b)
    (hi : a.identity = b.identity) : a = b := by
  unfold Knows at ha hb
  rw [hi] at ha
  cases hb' : b.identity with
  | builtin p => rw [hb'] at ha hb; rw [ha, hb]
  | given name => rw [hb'] at ha hb; exact Option.some.inj (ha.symm.trans hb)
  | derived k => rw [hb'] at ha hb; rw [← ha.2, ← hb.2]

theorem Trusts.eq {l : Ledger} : ∀ {as bs : List Converter}, l.Trusts as → l.Trusts bs →
    as.map Keyed.identity = bs.map Keyed.identity → as = bs
  | [], [], _, _, _ => rfl
  | [], _ :: _, _, _, h => by simp at h
  | _ :: _, [], _, _, h => by simp at h
  | a :: as, b :: bs, ha, hb, h => by
    obtain ⟨hi, his⟩ := List.cons.inj h
    rw [(ha a List.mem_cons_self).eq (hb b List.mem_cons_self) hi,
      Trusts.eq (fun c hc => ha c (List.mem_cons_of_mem _ hc))
        (fun c hc => hb c (List.mem_cons_of_mem _ hc)) his]

/-- A built-in converter is known. -/
theorem knows_ofPrimitive (l : Ledger) (p : Primitive) : l.Knows (.ofPrimitive p) := rfl

/-- A ready-made converter is known if it is the one of its name. -/
theorem knows_ofCustom {l : Ledger} {name : Text} {k : Custom} (h : l.outside name = some k) :
    l.Knows (.ofCustom name k) := by
  show (l.outside name).map _ = some _
  rw [h]
  rfl

/-- The ledger with its next number taken. -/
def push (l : Ledger) (c : Converter) : Ledger :=
  ⟨fun k => if k = l.next then c else l.find k, l.next + 1, l.outside⟩

theorem extends_push (l : Ledger) (c : Converter) : (l.push c).Extends l := by
  refine ⟨Nat.le_succ _, fun k hk => ?_, rfl⟩
  exact if_neg (Nat.ne_of_lt hk)

theorem knows_push (l : Ledger) (name : Text) (plan : Plan) :
    (l.push ⟨.derived l.next, name, plan⟩).Knows ⟨.derived l.next, name, plan⟩ :=
  ⟨Nat.lt_succ_self _, if_pos rfl⟩

end Ledger

/-! ## The invariant -/

/-- The plan is one of a definition that is applied to converters. -/
def Defines (catalog : Catalog) (Trusted : List Converter → Prop) (id : DefinitionId)
    (args : List Converter) (plan : Plan) : Prop :=
  ∃ body, catalog.body? id = some body ∧ Built catalog Trusted args body plan

/-- The plan is one of what it was derived from; `numbering` tells which description has a
number. -/
def Answers (catalog : Catalog) (numbering : Nat → Description) (Trusted : List Converter → Prop)
    (subject : Subject) (args : List Converter) (plan : Plan) : Prop :=
  match subject with
  | .definition id | .cell _ id => Defines catalog Trusted id args plan
  | .description n => Built catalog Trusted args (numbering n) plan

theorem Answers.mono {catalog later : Catalog} {Trusted Trusted' : List Converter → Prop}
    (hcatalog : later.Extends catalog) (htrusted : ∀ cs, Trusted cs → Trusted' cs)
    {numbering : Nat → Description} {subject : Subject} {args : List Converter} {plan : Plan}
    (h : Answers catalog numbering Trusted subject args plan) :
    Answers later numbering Trusted' subject args plan := by
  cases subject with
  | description n => exact Built.mono hcatalog htrusted h
  | _ =>
    obtain ⟨body, hb, h⟩ := h
    exact ⟨body, hcatalog _ _ hb, h.mono hcatalog htrusted⟩

/-- What is remembered is right. -/
structure Deriver.Kept (catalog : Catalog) (numbering : Nat → Description) (l : Ledger)
    (d : Deriver) : Prop where
  next : d.next = l.next
  cached : ∀ r c, (r, c) ∈ d.cache → l.Knows c ∧ ∃ args, l.Trusts args ∧
    r.args = args.map Keyed.identity ∧ Answers catalog numbering l.Trusts r.subject args c.plan

/-- What links came to is still right when the rest is forgotten. -/
theorem Deriver.Kept.clear {catalog : Catalog} {numbering : Nat → Description} {l : Ledger}
    {d : Deriver} (h : d.Kept catalog numbering l) : d.clear.Kept catalog numbering l :=
  ⟨h.next, fun r c hc => h.cached r c (List.mem_filter.1 hc).1⟩

/-! ## Derivations keep the invariant -/

namespace Derivation

variable {catalog : Catalog} {numbering : Nat → Description} {l : Ledger} {α β : Type}

/-- The derivation keeps the invariant, also when it is refused; what it gives is related to the
ledger that it leaves. -/
def Keeps (catalog : Catalog) (numbering : Nat → Description) (l : Ledger) (x : Derivation α)
    (Post : Ledger → α → Prop) : Prop :=
  ∀ d : Deriver, d.Kept catalog numbering l → ∃ l' : Ledger, l'.Extends l ∧
    (x d).2.Kept catalog numbering l' ∧ ∀ a, (x d).1 = .ok a → Post l' a

theorem Keeps.pure {a : α} {Post : Ledger → α → Prop} (h : Post l a) :
    Keeps catalog numbering l (pure a) Post := by
  intro d hd
  refine ⟨l, .refl l, hd, fun b hb => ?_⟩
  obtain rfl : a = b := Except.ok.inj hb
  exact h

theorem Keeps.throw {e : DescriptionFault} {Post : Ledger → α → Prop} :
    Keeps catalog numbering l (throw e) Post := by
  intro d hd
  exact ⟨l, .refl l, hd, fun a ha => nomatch ha⟩

theorem Keeps.bind {x : Derivation α} {f : α → Derivation β} {Mid : Ledger → α → Prop}
    {Post : Ledger → β → Prop} (hx : Keeps catalog numbering l x Mid)
    (hf : ∀ l' a, l'.Extends l → Mid l' a → Keeps catalog numbering l' (f a) Post) :
    Keeps catalog numbering l (x >>= f) Post := by
  intro d hd
  obtain ⟨l', hl', hd', hmid⟩ := hx d hd
  have hrun : (x >>= f) d =
      match x d with
      | (.ok a, d') => f a d'
      | (.error e, d') => (.error e, d') := by
    show ExceptT.bind x f d = _
    unfold ExceptT.bind ExceptT.mk
    show (match x d with | (r, d') => ExceptT.bindCont f r d') = _
    cases x d with
    | mk r d' => cases r <;> rfl
  rw [hrun]
  cases hr : x d with
  | mk r d' =>
    rw [hr] at hd' hmid
    cases r with
    | error e => exact ⟨l', hl', hd', fun a ha => nomatch ha⟩
    | ok a =>
      obtain ⟨l'', hl'', hd'', hpost⟩ := hf l' a hl' (hmid a rfl) d' hd'
      exact ⟨l'', hl''.trans hl', hd'', hpost⟩

theorem Keeps.weaken {x : Derivation α} {Post Post' : Ledger → α → Prop}
    (hx : Keeps catalog numbering l x Post)
    (h : ∀ l' a, l'.Extends l → Post l' a → Post' l' a) : Keeps catalog numbering l x Post' := by
  intro d hd
  obtain ⟨l', hl', hd', hpost⟩ := hx d hd
  exact ⟨l', hl', hd', fun a ha => h l' a hl' (hpost a ha)⟩

theorem Keeps.lift {x : Except DescriptionFault α} {Post : Ledger → α → Prop}
    (h : ∀ a, x = .ok a → Post l a) : Keeps catalog numbering l (liftExcept x) Post := by
  cases x with
  | error e => exact .throw
  | ok a => exact .pure (h a rfl)

/-- A check in front of a derivation. -/
theorem Keeps.check {x : Except DescriptionFault α} {f : α → Derivation β}
    {Post : Ledger → β → Prop} (h : ∀ a, x = .ok a → Keeps catalog numbering l (f a) Post) :
    Keeps catalog numbering l (liftExcept x >>= f) Post := by
  cases x with
  | error e => exact Keeps.bind .throw fun _ _ _ h => h
  | ok a => exact h a rfl

theorem Keeps.fresh (name : Text) (plan : Plan) :
    Keeps catalog numbering l (fresh name plan) fun l' c => l'.Knows c ∧ c.plan = plan := by
  intro d hd
  refine ⟨l.push ⟨.derived l.next, name, plan⟩, l.extends_push _, ?_, fun c hc => ?_⟩
  · refine ⟨congrArg Nat.succ hd.next, fun r c hc => ?_⟩
    obtain ⟨hknown, args, hargs, hr, hanswer⟩ := hd.cached r c hc
    have hext := l.extends_push ⟨.derived l.next, name, plan⟩
    exact ⟨hknown.mono hext, args, hargs.mono hext, hr,
      hanswer.mono (fun _ _ h => h) fun _ h => h.mono hext⟩
  · obtain rfl : _ = c := Except.ok.inj hc
    rw [hd.next]
    exact ⟨l.knows_push name plan, rfl⟩

/-- A link has the number of its cell. -/
theorem Keeps.link (name : Text) (id : DefinitionId) (args : List Converter) :
    Keeps catalog numbering l (link name id args) fun l' c =>
      l'.Knows c ∧ ∃ cell, c.plan = .link cell id args := by
  intro d hd
  obtain ⟨l', hext, hkept, hpost⟩ := Keeps.fresh name (.link d.next id args) d hd
  exact ⟨l', hext, hkept, fun c hc => (hpost c hc).imp_right fun hplan => ⟨_, hplan⟩⟩

theorem Keeps.cached? (r : Request) :
    Keeps catalog numbering l (cached? r) fun l' found => ∀ c, found = some c → l'.Knows c ∧
      ∃ args, l'.Trusts args ∧ r.args = args.map Keyed.identity ∧
        Answers catalog numbering l'.Trusts r.subject args c.plan := by
  intro d hd
  refine ⟨l, .refl l, hd, fun found hfound c hc => ?_⟩
  obtain rfl : d.cache.lookup r = found := Except.ok.inj hfound
  obtain ⟨front, back, hcache, _⟩ := List.lookup_eq_some_iff.1 hc
  exact hd.cached r c (by rw [hcache]; simp)

theorem Keeps.remember (r : Request) (args : List Converter) {c : Converter} (hc : l.Knows c)
    (hargs : l.Trusts args) (hr : r.args = args.map Keyed.identity)
    (h : Answers catalog numbering l.Trusts r.subject args c.plan) :
    Keeps catalog numbering l (remember r c) fun _ _ => True := by
  intro d hd
  refine ⟨l, .refl l, ⟨hd.next, fun r' c' hc' => ?_⟩, fun _ _ => trivial⟩
  rcases List.mem_cons.1 hc' with heq | hc'
  · obtain ⟨rfl, rfl⟩ := Prod.mk.inj heq
    exact ⟨hc, args, hargs, hr, h⟩
  · exact hd.cached r' c' hc'

end Derivation

end TypedSexp
