import TypedSexp.Proofs.Derivation.Realises
import TypedSexp.Proofs.Derivation.Reliable
import TypedSexp.Proofs.Derivation.Steps
/-!
# Following links

A link is followed by deriving its definition, with fresh numbers above those of the arguments; what
it came to stays in its cell (`Derivation.ofLink_filled`). The arguments may have been derived while
another link was followed, so they are known to a ledger after that of the session
(`Ledger.Foresees`).

`Plan.Pursues` says how memory goes on while a conversion follows the links of a plan, and the links
of what they come to, one after another, until one is refused. What is remembered stays right
(`Plan.Pursues.kept`) and reliable (`Plan.Pursues.sturdy`), and cells that are filled stay filled
(`Plan.Pursues.recalls_start`).
-/

namespace TypedSexp

/-! ## One link -/

/-- Some later ledger knows the converters. -/
def Ledger.Foresees (l : Ledger) (cs : List Converter) : Prop :=
  ∃ l' : Ledger, l'.Extends l ∧ l'.Trusts cs

theorem Ledger.Trusts.foresees {l l' : Ledger} {cs : List Converter} (h : l'.Trusts cs)
    (hl : l'.Extends l) : l.Foresees cs := ⟨l', hl, h⟩

namespace Derivation

theorem le_numberAbove : ∀ (cs : List Converter) (n : Nat), n ≤ numberAbove n cs
  | [], n => Nat.le_refl n
  | c :: cs, n => by
    refine Nat.le_trans ?_ (le_numberAbove cs _)
    cases hi : c.identity with
    | derived k =>
      simp only [hi]
      exact Nat.le_max_left ..
    | builtin _ => simp [hi]
    | given _ => simp [hi]

theorem lt_numberAbove {k : Nat} : ∀ {cs : List Converter} {n : Nat},
    ∀ c ∈ cs, c.identity = .derived k → k < numberAbove n cs
  | [], _, _, hc, _ => absurd hc List.not_mem_nil
  | b :: cs, n, c, hc, hk => by
    rcases List.mem_cons.1 hc with rfl | hc
    · refine Nat.lt_of_lt_of_le ?_ (le_numberAbove cs _)
      simp only [hk]
      omega
    · show k < numberAbove _ cs
      exact lt_numberAbove c hc hk

variable {catalog : Catalog} {numbering : Nat → Description} {l : Ledger} {deriver : Deriver}

/-- A ledger after that of the session, in which the arguments are known and the numbers above them
are free. -/
theorem kept_above (hkept : deriver.Kept catalog numbering l) {args : List Converter}
    (hargs : l.Foresees args) :
    ∃ b : Ledger, b.Extends l ∧ b.Trusts args ∧
      Deriver.Kept catalog numbering b { deriver with next := numberAbove deriver.next args } := by
  obtain ⟨l', hext, htrusts⟩ := hargs
  have hb : Ledger.Extends ⟨l'.find, numberAbove deriver.next args, l'.outside⟩ l := by
    refine ⟨?_, fun k hk => hext.same k hk, hext.outside⟩
    rw [← hkept.next]
    exact le_numberAbove args _
  refine ⟨⟨l'.find, numberAbove deriver.next args, l'.outside⟩, hb, fun c hc => ?_, rfl,
    fun r c hc => ?_⟩
  · have hknown := htrusts c hc
    unfold Ledger.Knows at hknown ⊢
    cases hi : c.identity with
    | builtin p =>
      rw [hi] at hknown
      exact hknown
    | given name =>
      rw [hi] at hknown
      exact hknown
    | derived k =>
      rw [hi] at hknown
      exact ⟨lt_numberAbove c hc hi, hknown.2⟩
  · obtain ⟨hknown, as, has, hr, hanswer⟩ := hkept.cached r c hc
    exact ⟨hknown.mono hb, as, has.mono hb, hr,
      hanswer.mono (fun _ _ h => h) fun _ hcs => hcs.mono hb⟩

/-- What a link comes to is built from the body of the definition, and what is remembered stays
right. -/
theorem ofLink_keeps (hcatalog : catalog.AdmittedBy l) (cell : Nat) (id : DefinitionId)
    {args : List Converter} (hargs : l.Foresees args) :
    Keeps catalog numbering l (ofLink catalog cell id args) fun l' c =>
      l'.Knows c ∧ Defines catalog l'.Trusts id args c.plan := by
  intro deriver hkept
  obtain ⟨b, hb, htrusts, hkept⟩ := kept_above hkept hargs
  cases hcell : deriver.cache.lookup (linkRequestOf cell id args) with
  | some c =>
    obtain ⟨front, back, hcache, -⟩ := List.lookup_eq_some_iff.1 hcell
    obtain ⟨hknown, args', hargs', hids, hanswer⟩ :=
      hkept.cached (linkRequestOf cell id args) c (by simp [hcache])
    obtain rfl : args = args' := htrusts.eq hargs' hids
    rw [ofLink_filled hcell]
    refine ⟨b, hb, hkept, fun a ha => ?_⟩
    obtain rfl := Except.ok.inj ha
    exact ⟨hknown, hanswer⟩
  | none =>
    have hrest : Keeps catalog numbering b (do
        let c ← ofDefinition catalog id args
        remember (linkRequestOf cell id args) c
        pure c) fun l' c => l'.Knows c ∧ Defines catalog l'.Trusts id args c.plan := by
      refine (ofDefinition_keeps (hcatalog.later hb) id htrusts).bind fun l₁ c hext₁ hc => ?_
      refine (Keeps.remember (linkRequestOf cell id args) args hc.1 (htrusts.mono hext₁) rfl hc.2).bind
        fun l₂ _ hext₂ _ => ?_
      exact .pure ⟨hc.1.mono hext₂, hc.2.later hext₂⟩
    obtain ⟨l', hext, hkept', hpost⟩ := hrest _ hkept
    rw [ofLink_empty hcell]
    exact ⟨l', hext.trans hb, hkept', hpost⟩

/-- Where links are followed, what is remembered stays reliable. -/
theorem ofLink_sturdy (cell : Nat) (id : DefinitionId) (args : List Converter) :
    Runs (Sturdy catalog numbering []) (ofLink catalog cell id args)
      fun _ cache => Sturdy catalog numbering [] cache := by
  have habove : Runs (Sturdy catalog numbering [])
      (modify fun d => { d with next := numberAbove d.next args } : Derivation Unit)
      fun _ cache => Sturdy catalog numbering [] cache := fun _ _ h _ => h
  refine habove.bind fun _ => (Runs.cached? _).bind fun found => ?_
  cases found with
  | some c => exact .pure fun _ h => h.1
  | none =>
    have hdefine : Runs (Sturdy catalog numbering []) (ofDefinition catalog id args) _ :=
      define_sturdy (depthBound catalog 0 args.length) [] id args
    refine (hdefine.weaken (fun _ h => h.1) fun _ _ h => h.1).bind fun c => ?_
    refine (Runs.remember _ c fun cache h r k hk => ?_).bind fun _ => .pure fun _ h => h
    rcases List.mem_cons.1 hk with heq | hk
    · obtain ⟨rfl, rfl⟩ := Prod.mk.inj heq
      trivial
    · exact h r k hk

/-! ### Cells -/

/-- The cells of links are filled in this way. -/
def Cells (find : Request → Option Converter) (cache : List (Request × Converter)) : Prop :=
  ∀ r, r.subject.isCell → cache.lookup r = find r

variable {find : Request → Option Converter}

theorem Cells.cons {cache : List (Request × Converter)} (h : Cells find cache) {r : Request}
    (hr : r.subject.isCell = false) (c : Converter) : Cells find ((r, c) :: cache) := by
  intro q hq
  have hne : q ≠ r := by
    rintro rfl
    exact absurd hq (by simp [hr])
  rw [List.lookup_cons, beq_false_of_ne hne]
  exact h q hq

/-- Deriving a definition fills no cell. -/
theorem define_cells : ∀ (depth : Nat) (inProgress : List Request) (id : DefinitionId)
    (args : List Converter),
    Runs (Cells find) (define catalog depth inProgress id args) fun _ cache => Cells find cache
  | 0, _, _, _ => by
    rw [define]
    exact .throw
  | depth + 1, inProgress, id, args => by
    rw [define]
    refine .check fun d hd => .check fun body hbody => (Runs.cached? _).bind fun found => ?_
    cases found with
    | some c => exact .pure fun _ h => h.1
    | none =>
      by_cases hprogress : inProgress.contains ⟨.definition id, args.map Keyed.identity⟩
      · simp only [hprogress, if_true]
        exact (Runs.link _ _ _).weaken (fun _ h => h.1) fun _ _ h => h
      · simp only [hprogress, if_false, Bool.false_eq_true]
        -- only the first of the two runs that are compared matters: any second one will do
        have halike : Description.DefinesAlike (Cells find)
            (define catalog depth (⟨.definition id, args.map Keyed.identity⟩ :: inProgress))
            (fun _ _ => throw .endless) := fun id as _ _ =>
          (define_cells depth _ id as).weaken (fun _ h => h) fun _ _ h => ⟨h, fun _ => .inl rfl⟩
        have hfills : Description.Fills catalog (fun _ _ => throw .endless) ⟨args, none⟩ none
            args.length := rfl
        have hbuild : Carries (Cells find) (fun _ => ()) (Description.build catalog _
            ⟨args, some d.name⟩ body) _ := Description.build_carries hfills halike body (.inl rfl)
        refine (hbuild.weaken (fun _ h => h.1) fun _ _ h => h.1).bind fun built => ?_
        refine (Runs.fresh _ _).bind fun c => ?_
        exact (Runs.remember _ c fun _ h => h.cons rfl c).bind fun _ => .pure fun _ h => h

end Derivation

/-- Links that have come to something come to the same later. -/
def Deriver.Recalls (later earlier : Deriver) : Prop :=
  ∀ r c, r.subject.isCell → earlier.cache.lookup r = some c → later.cache.lookup r = some c

theorem Deriver.Recalls.refl (d : Deriver) : d.Recalls d := fun _ _ _ h => h

theorem Deriver.Recalls.trans {a b c : Deriver} (hc : c.Recalls b) (hb : b.Recalls a) :
    c.Recalls a := fun r k hr h => hc r k hr (hb r k hr h)

namespace Derivation

variable {catalog : Catalog} {cell : Nat} {id : DefinitionId} {args : List Converter} {d d' : Deriver}
  {c : Converter}

/-- What a link came to is kept in its cell, and the other cells keep what they hold. -/
theorem recalls_of_ofLink (h : ofLink catalog cell id args d = (.ok c, d')) :
    d'.Recalls d ∧ d'.cache.lookup (linkRequestOf cell id args) = some c := by
  cases hcell : d.cache.lookup (linkRequestOf cell id args) with
  | some k =>
    rw [ofLink_filled hcell] at h
    obtain ⟨hk, rfl⟩ := Prod.mk.inj h
    obtain rfl := Except.ok.inj hk
    exact ⟨.refl d, hcell⟩
  | none =>
    cases hrun : ofDefinition catalog id args { d with next := numberAbove d.next args } with
    | mk r s =>
      cases r with
      | error e =>
        rw [ofLink_run_error hcell hrun] at h
        exact nomatch congrArg Prod.fst h
      | ok k =>
        rw [ofLink_run hcell hrun] at h
        obtain ⟨hk, rfl⟩ := Prod.mk.inj h
        obtain rfl := Except.ok.inj hk
        have hcells : Cells (fun r => d.cache.lookup r) s.cache := by
          have hkeeps := define_cells (depthBound catalog 0 args.length) [] id args
            { d with next := numberAbove d.next args } k (fun _ _ => rfl) (congrArg Prod.fst hrun)
          have hs : (define catalog (depthBound catalog 0 args.length) [] id args
            { d with next := numberAbove d.next args }).2 = s := congrArg Prod.snd hrun
          rwa [hs] at hkeeps
        refine ⟨fun r x hr hx => ?_, List.lookup_cons_self⟩
        have hne : r ≠ linkRequestOf cell id args := by
          rintro rfl
          exact nomatch hcell.symm.trans hx
        rw [List.lookup_cons, beq_false_of_ne hne]
        exact (hcells r hr).trans hx

/-- A link that has been followed comes to the same whenever it is followed again. -/
theorem result_of_recalls (h : ofLink catalog cell id args d = (.ok c, d')) {m : Deriver}
    (hm : m.Recalls d') : (ofLink catalog cell id args).result m = .ok c := by
  have hcell := hm _ c rfl (recalls_of_ofLink h).2
  rw [result, ofLink_filled hcell]

end Derivation

/-! ## One link after another -/

/-- Following links of the plan, and links of what they come to, one after another leads from the
first memory to the second one; `stopped` tells whether the last link was refused. -/
inductive Plan.Pursues (catalog : Catalog) : Plan → Deriver → Bool → Deriver → Prop
  | refl (plan : Plan) (d : Deriver) : Pursues catalog plan d false d
  | link {plan : Plan} {d d' m : Deriver} {stopped : Bool} {cell : Nat} {id : DefinitionId}
      {args : List Converter} {c : Converter} (hlink : plan.Holds cell id args)
      (hrun : Derivation.ofLink catalog cell id args d = (.ok c, d'))
      (h : Pursues catalog c.plan d' stopped m) : Pursues catalog plan d stopped m
  | refused {plan : Plan} {d d' : Deriver} {cell : Nat} {id : DefinitionId} {args : List Converter}
      {e : DescriptionFault} (hlink : plan.Holds cell id args)
      (hrun : Derivation.ofLink catalog cell id args d = (.error e, d')) :
      Pursues catalog plan d true d'
  | trans {plan : Plan} {d d' m : Deriver} {stopped : Bool} (h : Pursues catalog plan d false d')
      (h' : Pursues catalog plan d' stopped m) : Pursues catalog plan d stopped m

namespace Plan.Pursues

variable {catalog : Catalog} {numbering : Nat → Description} {plan : Plan} {d m : Deriver}
  {stopped : Bool}

theorem mono {plan' : Plan} (h : plan.Pursues catalog d stopped m)
    (hlinks : ∀ cell id args, plan.Holds cell id args → plan'.Holds cell id args) :
    plan'.Pursues catalog d stopped m := by
  induction h with
  | refl _ d => exact .refl plan' d
  | link hlink hrun h _ => exact .link (hlinks _ _ _ hlink) hrun h
  | refused hlink hrun => exact .refused (hlinks _ _ _ hlink) hrun
  | trans _ _ ih ih' => exact .trans (ih hlinks) (ih' hlinks)

/-- Unless a link is refused, filled cells stay filled. -/
theorem recalls_start (h : plan.Pursues catalog d stopped m) : stopped = false → m.Recalls d := by
  induction h with
  | refl _ d => exact fun _ => .refl d
  | link _ hrun _ ih => exact fun hs => (ih hs).trans (Derivation.recalls_of_ofLink hrun).1
  | refused _ _ => exact nofun
  | trans _ _ ih ih' => exact fun hs => (ih' hs).trans (ih rfl)

/-- Unless a link is refused, all that is remembered stays reliable. -/
theorem sturdy (h : plan.Pursues catalog d stopped m) : stopped = false →
    Derivation.Sturdy catalog numbering [] d.cache → Derivation.Sturdy catalog numbering [] m.cache := by
  induction h with
  | refl _ _ => exact fun _ h => h
  | @link _ d d' _ _ cell id args c _ hrun _ ih =>
    intro hs h
    have hsturdy := Derivation.ofLink_sturdy cell id args d c h (congrArg Prod.fst hrun)
    rw [hrun] at hsturdy
    exact ih hs hsturdy
  | refused _ _ => exact nofun
  | trans _ _ ih ih' => exact fun hs h => ih' hs (ih rfl h)

/-- **What is remembered stays right**, also where a link is refused: the links in a plan of a type
lead to plans of types. -/
theorem kept (h : plan.Pursues catalog d stopped m) : ∀ {l : Ledger} {t : BoundType},
    catalog.AdmittedBy l → d.Kept catalog numbering l → Realises catalog l.Trusts t plan →
    ∃ l' : Ledger, l'.Extends l ∧ m.Kept catalog numbering l' := by
  induction h with
  | refl _ _ => exact fun _ hkept _ => ⟨_, .refl _, hkept⟩
  | @link _ d d' _ _ cell id args c hlink hrun _ ih =>
    intro l t hcatalog hkept ht
    obtain ⟨hargs, env, henv⟩ := ht.linked _ _ _ hlink
    obtain ⟨l', hext, hkept', hpost⟩ :=
      Derivation.ofLink_keeps hcatalog cell id (hargs.foresees (.refl l)) d hkept
    rw [hrun] at hkept' hpost
    obtain ⟨-, body, -, hbuilt⟩ := hpost c rfl
    obtain ⟨l'', hext', hkept''⟩ := ih (hcatalog.later hext) hkept' ((henv.mono hext).mk hbuilt)
    exact ⟨l'', hext'.trans hext, hkept''⟩
  | @refused _ d d' cell id args e hlink hrun =>
    intro l t hcatalog hkept ht
    obtain ⟨hargs, -⟩ := ht.linked _ _ _ hlink
    obtain ⟨l', hext, hkept', -⟩ :=
      Derivation.ofLink_keeps hcatalog cell id (hargs.foresees (.refl l)) d hkept
    rw [hrun] at hkept'
    exact ⟨l', hext, hkept'⟩
  | trans _ _ ih ih' =>
    intro l t hcatalog hkept ht
    obtain ⟨l', hext, hkept'⟩ := ih hcatalog hkept ht
    obtain ⟨l'', hext', hkept''⟩ := ih' (hcatalog.later hext) hkept'
      (ht.mono (fun _ _ h => h) fun _ hcs => hcs.mono hext)
    exact ⟨l'', hext'.trans hext, hkept''⟩

end Plan.Pursues

end TypedSexp
