import TypedSexp.Proofs.Derivation.Sound
/-!
# Derivation of definitions and descriptions

A definition gives a converter that is built from its body, or a link where the definition is just
being derived (`define_keeps`). So do descriptions (`ofDescription_keeps`). What was remembered
before makes no difference to what is built.
-/

namespace TypedSexp

theorem Defines.later {catalog : Catalog} {l l' : Ledger} (h : l'.Extends l) {id : DefinitionId}
    {args : List Converter} {plan : Plan} (hd : Defines catalog l.Trusts id args plan) :
    Defines catalog l'.Trusts id args plan := by
  obtain ⟨body, hb, hbuilt⟩ := hd
  exact ⟨body, hb, hbuilt.later h⟩

/-- A definition that is found has the number, and takes so many arguments. -/
theorem Description.of_lookup {catalog : Catalog} {id : DefinitionId} {count : Nat} {d : Definition}
    (h : Description.lookup catalog id count = .ok d) : catalog[id]? = some d ∧ count = d.arity := by
  unfold Description.lookup Description.checkArity at h
  cases hid : catalog[id]? with
  | none => simp [hid] at h
  | some d' =>
    rw [hid] at h
    by_cases hcount : count = d'.arity
    · obtain rfl : d' = d := by simpa [hcount, Except.map] using h
      exact ⟨rfl, hcount⟩
    · simp [hcount, Except.map] at h

namespace Derivation

variable {catalog : Catalog} {numbering : Nat → Description} {l : Ledger}

theorem body?_of_bodyOf {id : DefinitionId} {count : Nat} {d : Definition} {body : Description}
    (hd : Description.lookup catalog id count = .ok d) (hb : bodyOf d = .ok body) :
    catalog.body? id = some body := by
  unfold bodyOf at hb
  cases hbody : d.body with
  | none => simp [hbody] at hb
  | some body' =>
    obtain rfl : body' = body := by simpa [hbody] using hb
    simp [Catalog.body?, (Description.of_lookup hd).1, hbody]

/-- A link to a definition, or a plan of its body, is a plan of the definition. -/
theorem built_of_define {id : DefinitionId} {args : List Converter} {plan : Plan} {p : Prop}
    (ht : l.Trusts args)
    (h : (∃ cell, plan = .link cell id args) ∧ p ∨ Defines catalog l.Trusts id args plan) :
    Built catalog l.Trusts args (.recursive id none) plan := by
  rcases h with ⟨⟨cell, rfl⟩, _⟩ | ⟨body, hb, hbuilt⟩
  · exact .link ht
  · exact .body hb hbuilt

/-- **The converter of a definition is built from its body**, unless the definition is just being
derived: then it is a link. -/
theorem define_keeps : ∀ (depth : Nat) (inProgress : List Request) (l : Ledger)
    (id : DefinitionId) (args : List Converter), catalog.AdmittedBy l → l.Trusts args →
    Keeps catalog numbering l (define catalog depth inProgress id args) fun l' c =>
      l'.Knows c ∧ ((∃ cell, c.plan = .link cell id args) ∧
          inProgress.contains ⟨.definition id, args.map Keyed.identity⟩ ∨
        Defines catalog l'.Trusts id args c.plan)
  | 0, _, _, _, _, _, _ => by rw [define]; exact .throw
  | depth + 1, inProgress, l, id, args, hcatalog, ht => by
    rw [define]
    refine .check fun d hd => .check fun body hb => ?_
    have hbody := body?_of_bodyOf hd hb
    refine (Keeps.cached? _).bind fun l₁ found hext₁ hfound => ?_
    have ht₁ := ht.mono hext₁
    cases found with
    | some c =>
      obtain ⟨hknown, args', hargs', hids, hanswer⟩ := hfound c rfl
      obtain rfl : args = args' := ht₁.eq hargs' hids
      exact .pure ⟨hknown, .inr hanswer⟩
    | none =>
      by_cases hprogress : inProgress.contains ⟨.definition id, args.map Keyed.identity⟩
      · simp only [hprogress, if_true]
        exact (Keeps.link _ _ _).weaken fun l' c _ hc => ⟨hc.1, .inl ⟨hc.2, trivial⟩⟩
      · simp only [hprogress, if_false, Bool.false_eq_true]
        have hwell : Description.DefinesWell catalog numbering l₁
            (define catalog depth (⟨.definition id, args.map Keyed.identity⟩ :: inProgress)) := by
          intro l' id' args' hext' ht'
          have hcatalog' := (hcatalog.later hext₁).later hext'
          exact (define_keeps depth _ l' id' args' hcatalog' ht').weaken fun l'' c hext hc =>
            ⟨hc.1, built_of_define (ht'.mono hext) hc.2⟩
        refine (Description.build_keeps hwell body l₁ (.refl l₁) ht₁
          (hcatalog.later hext₁ id body hbody)).bind
          fun l₂ built hext₂ hbuilt => ?_
        refine (Keeps.fresh _ _).bind fun l₃ c hext₃ hc => ?_
        have hdefines : Defines catalog l₃.Trusts id args c.plan := by
          rw [hc.2]
          exact ⟨body, hbody, hbuilt.2.later hext₃⟩
        have ht₃ := (ht₁.mono hext₂).mono hext₃
        refine (Keeps.remember ⟨.definition id, _⟩ args hc.1 ht₃ rfl hdefines).bind
          fun l₄ _ hext₄ _ => ?_
        exact .pure ⟨hc.1.mono hext₄, .inr (hdefines.later hext₄)⟩

theorem ofDefinition_keeps (hcatalog : catalog.AdmittedBy l) (id : DefinitionId) {args : List Converter}
    (ht : l.Trusts args) :
    Keeps catalog numbering l (ofDefinition catalog id args) fun l' c =>
      l'.Knows c ∧ Defines catalog l'.Trusts id args c.plan := by
  refine (define_keeps _ [] l id args hcatalog ht).weaken fun l' c _ hc => ⟨hc.1, ?_⟩
  rcases hc.2 with ⟨_, hprogress⟩ | hdefines
  · exact absurd hprogress (by simp)
  · exact hdefines

theorem ofDescription_keeps (hcatalog : catalog.AdmittedBy l) (number : Nat)
    {args : List Converter} (hgivens : l.Admits (numbering number).givens) (ht : l.Trusts args) :
    Keeps catalog numbering l (ofDescription catalog number (numbering number) args) fun l' c =>
      l'.Knows c ∧ Built catalog l'.Trusts args (numbering number) c.plan := by
  unfold ofDescription
  refine (Keeps.cached? _).bind fun l₁ found hext₁ hfound => ?_
  have ht₁ := ht.mono hext₁
  cases found with
  | some c =>
    obtain ⟨hknown, args', hargs', hids, hanswer⟩ := hfound c rfl
    obtain rfl : args = args' := ht₁.eq hargs' hids
    exact .pure ⟨hknown, hanswer⟩
  | none =>
    have hwell : Description.DefinesWell catalog numbering l₁
        (define catalog (depthBound catalog (numbering number).size args.length)
          [⟨.description number, args.map Keyed.identity⟩]) := by
      intro l' id' args' hext' ht'
      have hcatalog' := (hcatalog.later hext₁).later hext'
      exact (define_keeps _ _ l' id' args' hcatalog' ht').weaken fun l'' c hext hc =>
        ⟨hc.1, built_of_define (ht'.mono hext) hc.2⟩
    refine (Description.build_keeps hwell _ l₁ (.refl l₁) ht₁ (hgivens.later hext₁)).bind
      fun l₂ c hext₂ hc => ?_
    have ht₂ := ht₁.mono hext₂
    refine (Keeps.remember ⟨.description number, _⟩ args hc.1 ht₂ rfl hc.2).bind
      fun l₃ _ hext₃ _ => ?_
    exact .pure ⟨hc.1.mono hext₃, hc.2.later hext₃⟩

end Derivation

end TypedSexp
