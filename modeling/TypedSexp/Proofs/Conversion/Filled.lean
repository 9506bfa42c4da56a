import TypedSexp.Proofs.Conversion.Entries
/-!
# Records and the fields that they need

Which fields of a described record must be there, and what a record is read from, from the fields that
are described (`Setting.exists_readBy_iff_needed`, `Setting.readBy_missing_needed`).
-/

namespace TypedSexp

/-- The field must be there: it is required and has no default. -/
def Field.isNeeded (f : Field Description) : Bool := f.presence == .required && f.default.isNone

theorem FieldPlan.Fits.absent_eq_none_iff {f : Field Description} {p : FieldPlan Plan}
    (h : p.Fits f) : p.absent = none ↔ f.isNeeded := by
  rw [h.absent]
  unfold Description.absentValue Field.isNeeded
  cases f.presence <;> simp

namespace Setting

variable {s : Setting}

/-! ## Filled fields -/

/-- A field is filled with one value if it has an entry where it must, and if each entry that it has
gives it a value. -/
theorem exists_fills_iff {names : List Text} {tolerant : Bool} {items : List Node}
    {p : FieldPlan Plan} (h : Entries.Headed names tolerant items) (hp : p.name ∈ names) :
    (∃ x, s.Fills items p x) ↔
      (p.absent = none → ∃ node ∈ items, Entries.isNamed p.name node) ∧
      ∀ node ∈ items, Entries.isNamed p.name node → ∃ x, s.Gives p.form node x := by
  constructor
  · rintro ⟨x, hx⟩
    refine ⟨hx.exists_node, fun node hnode hname => ?_⟩
    cases hx with
    | given hnode' hname' hgives =>
      obtain rfl := h.eq_of_isNamed hp hnode hnode' hname hname'
      exact ⟨x, hgives⟩
    | absent hnone _ => exact absurd hname (by simp [hnone node hnode])
  · rintro ⟨hneeded, hgives⟩
    by_cases hentry : ∃ node ∈ items, Entries.isNamed p.name node
    · obtain ⟨node, hnode, hname⟩ := hentry
      obtain ⟨x, hx⟩ := hgives node hnode hname
      exact ⟨x, .given hnode hname hx⟩
    · obtain ⟨a, ha⟩ : ∃ a, p.absent = some a := by
        rw [← Option.isSome_iff_exists, ← Option.ne_none_iff_isSome]
        exact fun hnone => hentry (hneeded hnone)
      have hnone : ∀ node ∈ items, Entries.isNamed p.name node = false := fun node hnode => by
        simpa using fun hname => hentry ⟨node, hnode, hname⟩
      exact ⟨a, .absent hnone ha⟩

/-! ## Records -/

section

variable {fields : List (Field Description)} {plans : List (FieldPlan Plan)}

theorem names_of_fits (hfits : List.Forall₂ (fun f p => FieldPlan.Fits f p) fields plans) :
    plans.map FieldPlan.name = fields.map Field.name := by
  induction hfits with
  | nil => rfl
  | cons hp _ ih => rw [List.map_cons, List.map_cons, hp.name, ih]

/-- The plans of the fields that must be there and have no entry. -/
theorem missing_of_fits (items : List Node)
    (hfits : List.Forall₂ (fun f p => FieldPlan.Fits f p) fields plans) :
    (plans.filter fun p => p.absent.isNone && !items.any (Entries.isNamed p.name)).map
        FieldPlan.name =
      (fields.filter fun f => f.isNeeded && !items.any (Entries.isNamed f.name)).map
        Field.name := by
  induction hfits with
  | nil => rfl
  | @cons f p fields plans hp _ ih =>
    have habsent : p.absent.isNone = f.isNeeded := by
      rw [Bool.eq_iff_iff, Option.isNone_iff_eq_none]
      exact hp.absent_eq_none_iff
    rw [List.filter_cons, List.filter_cons, habsent, hp.name]
    split
    · rw [List.map_cons, List.map_cons, hp.name, ih]
    · exact ih

/-- The needed fields have entries. -/
theorem forall_needed_iff {items : List Node}
    (hfits : List.Forall₂ (fun f p => FieldPlan.Fits f p) fields plans) :
    (∀ p ∈ plans, p.absent = none → ∃ node ∈ items, Entries.isNamed p.name node) ↔
      ∀ f ∈ fields, f.isNeeded → ∃ node ∈ items, Entries.isNamed f.name node := by
  induction hfits with
  | nil => simp
  | cons hp _ ih =>
    rw [List.forall_mem_cons, List.forall_mem_cons, ih, hp.absent_eq_none_iff, hp.name]

/-- A record is read exactly if its entries are headed well, the fields that must be there are there,
each entry of a field gives it a value, and its class takes the fields. -/
theorem exists_readBy_iff_needed {r : RecordPlan Plan} {items : List Node} {l : Option Location}
    (hfits : List.Forall₂ (fun f p => FieldPlan.Fits f p) fields r.fields) :
    (∃ v, s.readBy (.record r) (.list items l) = .ok v) ↔
      Entries.Headed (fields.map Field.name) (s.tolerates r.extra) items ∧
      (∀ f ∈ fields, f.isNeeded → ∃ node ∈ items, Entries.isNamed f.name node) ∧
      (∀ p ∈ r.fields, ∀ node ∈ items, Entries.isNamed p.name node → ∃ x, s.Gives p.form node x) ∧
      ∀ k, r.instanceOf = some k → k.Takes (fields.map Field.name) := by
  rw [exists_readBy_record_iff, names_of_fits hfits, ← forall_needed_iff hfits]
  refine and_congr_right fun hheaded => ?_
  rw [← and_assoc]
  refine and_congr_left fun _ => ?_
  rw [← forall₂_and]
  exact forall₂_congr fun p hp =>
    exists_fills_iff hheaded (names_of_fits hfits ▸ List.mem_map_of_mem hp)

/-- The needed fields that have no entry are reported. -/
theorem readBy_missing_needed {r : RecordPlan Plan} {items : List Node} {l : Option Location}
    (hfits : List.Forall₂ (fun f p => FieldPlan.Fits f p) fields r.fields)
    (hheaded : Entries.Headed (fields.map Field.name) (s.tolerates r.extra) items)
    (hnames : (fields.filter fun f =>
      f.isNeeded && !items.any (Entries.isNamed f.name)).map Field.name ≠ []) :
    s.readBy (.record r) (.list items l) =
      .error (.about (.list items l) (.missingFields (Converter.readerName r.label)
        ((fields.filter fun f => f.isNeeded && !items.any (Entries.isNamed f.name)).map
          Field.name))) := by
  rw [← names_of_fits hfits] at hheaded
  rw [← missing_of_fits items hfits] at hnames ⊢
  rw [readBy_record_missing hheaded]
  simpa [List.filter_eq_nil_iff] using hnames

end

end Setting

end TypedSexp
