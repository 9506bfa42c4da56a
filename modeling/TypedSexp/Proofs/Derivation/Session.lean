import TypedSexp.Proofs.Derivation.Links
/-!
# Sessions

A session declares definitions, states their bodies, derives converters and converts with them, in any
order; some derivations may be refused, and so may links that a conversion follows. `Session` collects
the converters with the types that they were derived for. Whatever was derived before, each of them is
built from its type (`Session.kept`).
-/

namespace TypedSexp

/-- What a target means where it is applied to types; converters are those of a session. -/
inductive Target.Means (numbering : Nat → Description) (converters : List (BoundType × Converter)) :
    Target → List BoundType → BoundType → Prop
  | definition (id : DefinitionId) (env : List BoundType) :
      Means numbering converters (.definition id) env (.mk (.recursive id none) env)
  | description (number : Nat) (env : List BoundType) (hplain : (numbering number).isPlain) :
      Means numbering converters (.description number (numbering number)) env
        (.mk (numbering number) env)
  | builtin (p : Primitive) :
      Means numbering converters (.converter (.ofPrimitive p)) [] (.mk (.primitive p.name) [])
  | converter {t : BoundType} {c : Converter} (hc : (t, c) ∈ converters) :
      Means numbering converters (.converter c) [] t

/-- The definitions, what is remembered, and the converters derived so far with their types.
`numbering` tells which description has a number. -/
inductive Session (numbering : Nat → Description) :
    Catalog → Deriver → List (BoundType × Converter) → Prop
  | start : Session numbering [] {} []
  | declare {catalog : Catalog} {d : Deriver} {converters : List (BoundType × Converter)}
      (name : Text) (params : List Text) (h : Session numbering catalog d converters) :
      Session numbering (catalog ++ [⟨name, params, none⟩]) d converters
  | define {catalog later : Catalog} {d : Deriver} {converters : List (BoundType × Converter)}
      {id : DefinitionId} {body : Description} (hplain : body.isPlain)
      (hdefine : catalog.define id (some body) = .ok later)
      (h : Session numbering catalog d converters) : Session numbering later d converters
  | derive {catalog : Catalog} {d : Deriver} {converters : List (BoundType × Converter)}
      {target : Target} {args : List Target} {env : List BoundType} {t : BoundType}
      (hargs : List.Forall₂ (fun a t => a.Means numbering converters [] t) args env)
      (ht : target.Means numbering converters env t)
      (h : Session numbering catalog d converters) :
      Session numbering catalog (Derivation.derive catalog target args d).2
        (match (Derivation.derive catalog target args d).1 with
          | .ok c => (t, c) :: converters
          | .error _ => converters)
  | pursue {catalog : Catalog} {d m : Deriver} {converters : List (BoundType × Converter)}
      {t : BoundType} {c : Converter} {stopped : Bool} (hc : (t, c) ∈ converters)
      (hlinks : c.plan.Pursues catalog d stopped m) (h : Session numbering catalog d converters) :
      Session numbering catalog m converters
  | clear {catalog : Catalog} {d : Deriver} {converters : List (BoundType × Converter)}
      (h : Session numbering catalog d converters) : Session numbering catalog d.clear converters

/-- What a target stands for where it is applied to types; the ledger tells which ready-made
converters there are. -/
inductive Target.Denotes (l : Ledger) (numbering : Nat → Description)
    (converters : List (BoundType × Converter)) : Target → List BoundType → BoundType → Prop
  | definition (id : DefinitionId) (env : List BoundType) :
      Denotes l numbering converters (.definition id) env (.mk (.recursive id none) env)
  | description (number : Nat) (env : List BoundType) (h : l.Admits (numbering number).givens) :
      Denotes l numbering converters (.description number (numbering number)) env
        (.mk (numbering number) env)
  | builtin (p : Primitive) :
      Denotes l numbering converters (.converter (.ofPrimitive p)) [] (.mk (.primitive p.name) [])
  | custom {c : Converter} (h : l.Admits [c]) :
      Denotes l numbering converters (.converter c) [] (.mk (.given c) [])
  | converter {t : BoundType} {c : Converter} (hc : (t, c) ∈ converters) :
      Denotes l numbering converters (.converter c) [] t

/-- Converters that are known and built from their types. -/
def Ledger.Holds (catalog : Catalog) (l : Ledger) (converters : List (BoundType × Converter)) :
    Prop := ∀ t c, (t, c) ∈ converters → l.Knows c ∧ Realises catalog l.Trusts t c.plan

/-! ## The invariant -/

variable {numbering : Nat → Description} {catalog later : Catalog} {d : Deriver} {l l' : Ledger}
  {converters : List (BoundType × Converter)}

theorem Ledger.Holds.mono (h : l.Holds catalog converters) (hcatalog : later.Extends catalog)
    (hl : l'.Extends l) : l'.Holds later converters := by
  intro t c hc
  obtain ⟨hknown, hreal⟩ := h t c hc
  exact ⟨hknown.mono hl, hreal.mono hcatalog fun _ hcs => hcs.mono hl⟩

theorem Target.Means.denotes {target : Target} {env : List BoundType} {t : BoundType}
    (h : target.Means numbering converters env t) (l : Ledger) :
    target.Denotes l numbering converters env t := by
  cases h with
  | definition id => exact .definition id env
  | description number env hplain => exact .description number env (l.admits_of_isPlain hplain)
  | builtin p => exact .builtin p
  | converter hc => exact .converter hc

theorem Target.Denotes.mono {target : Target} {env : List BoundType} {t : BoundType}
    (h : target.Denotes l numbering converters env t) (hl : l'.Extends l) :
    target.Denotes l' numbering converters env t := by
  cases h with
  | definition id => exact .definition id env
  | description number env hgivens => exact .description number env (hgivens.later hl)
  | builtin p => exact .builtin p
  | custom hc => exact .custom (hc.later hl)
  | converter hc => exact .converter hc

theorem Deriver.Kept.extend (h : d.Kept catalog numbering l) (hcatalog : later.Extends catalog) :
    d.Kept later numbering l := by
  refine ⟨h.next, fun r c hc => ?_⟩
  obtain ⟨hknown, args, hargs, hr, hanswer⟩ := h.cached r c hc
  exact ⟨hknown, args, hargs, hr, hanswer.mono hcatalog fun _ h => h⟩

namespace Catalog

theorem body?_append (catalog : Catalog) (name : Text) (params : List Text) (id : DefinitionId) :
    Catalog.body? (catalog ++ [⟨name, params, none⟩]) id = catalog.body? id := by
  unfold Catalog.body?
  rcases Nat.lt_trichotomy id catalog.length with h | rfl | h
  · rw [List.getElem?_append_left h]
  · simp
  · rw [List.getElem?_eq_none (by simp; omega), List.getElem?_eq_none (by omega)]

/-- Stating a body changes that one only, and it had none before. -/
theorem body?_of_define {id : DefinitionId} {body : Description}
    (h : catalog.define id (some body) = .ok later) :
    later.Extends catalog ∧
      ∀ k b, later.body? k = some b → catalog.body? k = some b ∨ b = body := by
  unfold Catalog.define at h
  cases hid : catalog[id]? with
  | none =>
    rw [hid] at h
    obtain rfl : catalog = later := Except.ok.inj h
    exact ⟨fun _ _ h => h, fun _ _ h => .inl h⟩
  | some d =>
    rw [hid] at h
    cases hbody : d.body with
    | some b => simp [hbody] at h
    | none =>
      obtain rfl : catalog.set id { d with body := some body } = later := by simpa [hbody] using h
      obtain ⟨hlt, _⟩ := List.getElem?_eq_some_iff.1 hid
      refine ⟨fun k b hb => ?_, fun k b hb => ?_⟩
      · have hk : id ≠ k := by
          rintro rfl
          simp [Catalog.body?, hid, hbody] at hb
        rw [Catalog.body?, List.getElem?_set_ne hk]
        exact hb
      · by_cases hk : id = k
        · subst hk
          right
          simpa [Catalog.body?, hlt] using hb.symm
        · rw [Catalog.body?, List.getElem?_set_ne hk] at hb
          exact .inl hb

end Catalog

/-- A definition can be stated with its body. -/
theorem Session.add {name : Text} {params : List Text} {body : Description}
    (h : Session numbering catalog d converters) (hplain : body.isPlain) :
    Session numbering (catalog ++ [⟨name, params, some body⟩]) d converters := by
  have hdefine : Catalog.define (catalog ++ [⟨name, params, none⟩]) catalog.length (some body) =
      .ok (catalog ++ [⟨name, params, some body⟩]) := by
    simp [Catalog.define]
  exact .define hplain hdefine (h.declare name params)

/-- Converters of several types. -/
abbrev Realised (catalog : Catalog) (l : Ledger) (env : List BoundType) (cs : List Converter) :
    Prop := List.Forall₂ (fun t (c : Converter) => Realises catalog l.Trusts t c.plan) env cs

theorem Realised.realises {env : List BoundType} {cs : List Converter} {d : Description}
    {plan : Plan} (h : Realised catalog l env cs) (hb : Built catalog l.Trusts cs d plan) :
    Realises catalog l.Trusts (.mk d env) plan := by
  obtain ⟨hlen, hzip⟩ := List.forall₂_iff_zip.1 h
  exact .mk hlen (fun _ _ hmem => hzip hmem) hb

namespace Derivation

/-- A target applied to converters gives a converter of what it means. -/
theorem ofTarget_keeps (hcatalog : catalog.AdmittedBy l) (hl : l.Holds catalog converters)
    {target : Target} {env : List BoundType} {t : BoundType} {cs : List Converter}
    (ht : target.Denotes l numbering converters env t) (hcs : l.Trusts cs)
    (henv : Realised catalog l env cs) :
    Keeps catalog numbering l (ofTarget catalog cs target) fun l' c =>
      l'.Knows c ∧ Realises catalog l'.Trusts t c.plan := by
  have henv' {l' : Ledger} (h : l'.Extends l) : Realised catalog l' env cs :=
    henv.imp fun _ _ hr => hr.mono (fun _ _ h => h) fun _ hcs => hcs.mono h
  cases ht with
  | definition id =>
    refine (ofDefinition_keeps hcatalog id hcs).weaken fun l' c hext hc => ⟨hc.1, ?_⟩
    obtain ⟨body, hb, hbuilt⟩ := hc.2
    exact (henv' hext).realises (.body hb hbuilt)
  | description number env hdescription =>
    refine (ofDescription_keeps hcatalog number hdescription hcs).weaken
      fun l' c hext hc => ⟨hc.1, ?_⟩
    exact (henv' hext).realises hc.2
  | builtin p =>
    refine .pure ⟨l.knows_ofPrimitive p, ?_⟩
    cases henv
    exact Realised.realises .nil (.primitive (by cases p <;> decide))
  | custom hc =>
    cases henv
    obtain ⟨name, k, hk, rfl⟩ := hc _ List.mem_cons_self
    have hknown := Ledger.knows_ofCustom hk
    refine .pure ⟨hknown, Realised.realises .nil (.custom fun c hc => ?_)⟩
    exact List.mem_singleton.1 hc ▸ hknown
  | converter hc => exact .pure (hl _ _ hc)

theorem ofTargets_keeps : ∀ {l : Ledger} {targets : List Target} {env : List BoundType},
    catalog.AdmittedBy l → l.Holds catalog converters →
    List.Forall₂ (fun a t => a.Denotes l numbering converters [] t) targets env →
    Keeps catalog numbering l (ofTargets catalog targets) fun l' cs =>
      l'.Trusts cs ∧ Realised catalog l' env cs
  | _, _, _, _, _, .nil => .pure ⟨by simp [Ledger.Trusts], .nil⟩
  | l, _, _, hcatalog, hl, .cons ht hts => by
    rw [ofTargets]
    have hnone : l.Trusts [] := by simp [Ledger.Trusts]
    refine (ofTarget_keeps hcatalog hl ht hnone .nil).bind fun l₁ c hext₁ hc => ?_
    refine (ofTargets_keeps (hcatalog.later hext₁) (hl.mono (fun _ _ h => h) hext₁)
      (hts.imp fun _ _ h => h.mono hext₁)).bind fun l₂ cs hext₂ hcs => .pure ⟨?_, ?_⟩
    · intro k hk
      rcases List.mem_cons.1 hk with rfl | hk
      · exact hc.1.mono hext₂
      · exact hcs.1 k hk
    · exact .cons (hc.2.mono (fun _ _ h => h) fun _ hcs => hcs.mono hext₂) hcs.2

theorem derive_keeps (hcatalog : catalog.AdmittedBy l) (hl : l.Holds catalog converters)
    {target : Target} {args : List Target} {env : List BoundType} {t : BoundType}
    (hargs : List.Forall₂ (fun a t => a.Denotes l numbering converters [] t) args env)
    (ht : target.Denotes l numbering converters env t) :
    Keeps catalog numbering l (derive catalog target args) fun l' c =>
      l'.Knows c ∧ Realises catalog l'.Trusts t c.plan := by
  have hrun : Keeps catalog numbering l (ofTargets catalog args >>= fun cs =>
      ofTarget catalog cs target) fun l' c => l'.Knows c ∧ Realises catalog l'.Trusts t c.plan :=
    (ofTargets_keeps hcatalog hl hargs).bind fun l' cs hext hcs =>
      ofTarget_keeps (hcatalog.later hext) (hl.mono (fun _ _ h => h) hext) (ht.mono hext)
        hcs.1 hcs.2
  unfold derive
  cases target with
  | converter c =>
    cases args with
    | nil => exact hrun
    | cons a args => exact .throw
  | _ => exact hrun

end Derivation

/-- **Whatever a session does, its converters are built from their types**, without any from
outside. -/
theorem Session.kept (h : Session numbering catalog d converters) :
    catalog.isPlain ∧ ∃ l : Ledger, l.outside = (fun _ => none) ∧ d.Kept catalog numbering l ∧
      l.Holds catalog converters := by
  induction h with
  | start =>
    refine ⟨fun id body h => absurd h (by simp [Catalog.body?]),
      ⟨fun _ => .ofPrimitive .unit, 0, fun _ => none⟩, rfl, ⟨rfl, fun r c hc => ?_⟩,
      fun t c hc => ?_⟩
    · exact absurd hc (List.not_mem_nil)
    · exact absurd hc (List.not_mem_nil)
  | @declare catalog _ _ name params _ ih =>
    obtain ⟨hplain, l, hout, hkept, hl⟩ := ih
    have hext : Catalog.Extends (catalog ++ [⟨name, params, none⟩]) catalog := fun id body h => by
      rw [Catalog.body?_append]
      exact h
    refine ⟨fun id body h => hplain id body ?_, l, hout, hkept.extend hext,
      hl.mono hext (.refl l)⟩
    rw [Catalog.body?_append] at h
    exact h
  | define hbody hdefine _ ih =>
    obtain ⟨hplain, l, hout, hkept, hl⟩ := ih
    obtain ⟨hext, hstated⟩ := Catalog.body?_of_define hdefine
    refine ⟨fun id b h => ?_, l, hout, hkept.extend hext, hl.mono hext (.refl l)⟩
    rcases hstated id b h with h | rfl
    · exact hplain id b h
    · exact hbody
  | @derive catalog d _ target args _ _ hargs ht _ ih =>
    obtain ⟨hplain, l, hout, hkept, hl⟩ := ih
    obtain ⟨l', hext, hkept', hpost⟩ := Derivation.derive_keeps (hplain.admittedBy l) hl
      (hargs.imp fun _ _ h => h.denotes l) (ht.denotes l) d hkept
    refine ⟨hplain, l', hext.outside.trans hout, hkept', ?_⟩
    have hl' : l'.Holds catalog _ := hl.mono (fun _ _ h => h) hext
    cases hr : (Derivation.derive catalog target args d).1 with
    | error e => exact hl'
    | ok c =>
      intro t' c' hmem
      rcases List.mem_cons.1 hmem with heq | hmem
      · obtain ⟨rfl, rfl⟩ := Prod.mk.inj heq
        exact hpost c' hr
      · exact hl' t' c' hmem
  | pursue hc hlinks _ ih =>
    obtain ⟨hplain, l, hout, hkept, hl⟩ := ih
    obtain ⟨l', hext, hkept'⟩ := hlinks.kept (hplain.admittedBy l) hkept (hl _ _ hc).2
    exact ⟨hplain, l', hext.outside.trans hout, hkept', hl.mono (fun _ _ h => h) hext⟩
  | clear _ ih =>
    obtain ⟨hplain, l, hout, hkept, hl⟩ := ih
    exact ⟨hplain, l, hout, hkept.clear, hl⟩

end TypedSexp
