import TypedSexp.Conversion.Basic
import TypedSexp.Proofs.Derivation.History
/-!
# What stands behind a link

What is found behind a link is built from the body of the definition, and its links can be followed in
turn (`Setting.resolve_defines`).
-/

namespace TypedSexp

/-- Without converters from outside none is foreseen. -/
theorem Ledger.not_foresees_custom {l : Ledger} (h : l.outside = fun _ => none) (name : Text)
    (k : Custom) : ¬ l.Foresees [.ofCustom name k] := by
  rintro ⟨l', hext, htrusts⟩
  have hknown : (l'.outside name).map (Converter.ofCustom name) =
      some (.ofCustom name k) :=
    htrusts _ List.mem_cons_self
  rw [hext.outside, h] at hknown
  exact absurd hknown (by simp)

/-- What conversion relies on: definitions whose ready-made converters are known, and a deriver
whose memory is right. -/
structure Setting.Sound (numbering : Nat → Description) (l : Ledger) (s : Setting) : Prop where
  admitted : s.catalog.AdmittedBy l
  kept : s.deriver.Kept s.catalog numbering l

theorem Realises.foreseen {catalog : Catalog} {l : Ledger} {t : BoundType} {plan : Plan}
    (h : Realises catalog l.Trusts t plan) : Realises catalog l.Foresees t plan :=
  h.mono (fun _ _ h => h) fun _ hcs => hcs.foresees (.refl l)

/-- What was derived in a history is built from its type. -/
theorem History.realises {catalog : Catalog} {numbering : Nat → Description}
    {outside : Text → Option Custom} {failed : Bool} {deriver : Deriver}
    {converters : List (BoundType × Converter)} (hcatalog : catalog.AdmittedBy (.first outside))
    (h : History catalog numbering outside failed deriver converters) {t : BoundType} {c : Converter}
    (hc : (t, c) ∈ converters) (switches : Switches) :
    ∃ l : Ledger, Setting.Sound numbering l ⟨catalog, deriver, switches⟩ ∧
      Realises catalog l.Foresees t c.plan := by
  obtain ⟨l, hl, hkept, hholds⟩ := h.kept hcatalog
  exact ⟨l, ⟨hcatalog.later hl, hkept⟩, (hholds t c hc).2.foreseen⟩

/-- What a session derived is built from its type, without converters from outside. -/
theorem Session.realises {numbering : Nat → Description} {catalog : Catalog} {deriver : Deriver}
    {converters : List (BoundType × Converter)} (h : Session numbering catalog deriver converters)
    {t : BoundType} {c : Converter} (hc : (t, c) ∈ converters) (switches : Switches) :
    ∃ l : Ledger, l.outside = (fun _ => none) ∧
      Setting.Sound numbering l ⟨catalog, deriver, switches⟩ ∧
      Realises catalog l.Foresees t c.plan := by
  obtain ⟨hplain, l, hout, hkept, hholds⟩ := h.kept
  exact ⟨l, hout, ⟨hplain.admittedBy l, hkept⟩, (hholds _ _ hc).2.foreseen⟩

namespace Setting

variable {numbering : Nat → Description} {l : Ledger} {s : Setting}

/-- The converter behind a link is built from the body of the definition. -/
theorem resolve_defines (hs : s.Sound numbering l) {cell : Nat} {id : DefinitionId}
    {args : List Converter} (hargs : l.Foresees args) {c : Converter}
    (hr : s.resolve cell id args = .ok c) : Defines s.catalog l.Foresees id args c.plan := by
  obtain ⟨l', hext, -, hpost⟩ := Derivation.ofLink_keeps hs.admitted cell id hargs _ hs.kept
  obtain ⟨body, hbody, hbuilt⟩ := (hpost c hr).2
  exact ⟨body, hbody, hbuilt.mono (fun _ _ h => h) fun _ hcs => hcs.foresees hext⟩

end Setting

end TypedSexp
