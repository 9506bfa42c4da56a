import TypedSexp.Description.Basic
import TypedSexp.Proofs.Derivation.Givens
import TypedSexp.Proofs.Description.Replacement
/-!
# What stands in a description

A description occurs in another one if it is the same or occurs in one of the parts
(`Description.Occurs`). A property of everything that occurs in a description is one of everything
that occurs in a part (`Everywhere.part`). No more ready-made converters stand in a description than
descriptions (`length_givens_le_size`).
-/

namespace TypedSexp

/-- The descriptions that stand in a case. -/
def Case.parts {δ : Type} : Case δ → List δ
  | .constructor c => c.args ++ c.record.toList
  | .nested d => [d]

namespace Description

/-- The descriptions that stand directly in a description. -/
def parts : Description → List Description
  | .product ds => ds
  | .record fields _ _ => fields.filterMap Field.type
  | .sum cases => cases.flatMap Case.parts
  | .polyVariant cases => cases.flatMap Case.parts
  | .list d => [d]
  | .array d _ => [d]
  | .option d => [d]
  | .recursive _ (some args) => args
  | .applied _ args => args
  | _ => []

/-- The first description is the second one, or stands somewhere in it. -/
inductive Occurs : Description → Description → Prop
  | here {d : Description} : Occurs d d
  | inside {x p d : Description} (hp : p ∈ d.parts) (h : Occurs x p) : Occurs x d

/-- The property holds of the description and of all that stands in it. -/
def Everywhere (P : Description → Prop) (d : Description) : Prop := ∀ x, x.Occurs d → P x

variable {P : Description → Prop} {d p : Description}

theorem Everywhere.here (h : d.Everywhere P) : P d := h d .here

theorem Everywhere.part (h : d.Everywhere P) (hp : p ∈ d.parts) : p.Everywhere P :=
  fun x hx => h x (.inside hp hx)

theorem Everywhere.intro (h : P d) (hparts : ∀ p ∈ d.parts, p.Everywhere P) : d.Everywhere P := by
  intro x hx
  cases hx with
  | here => exact h
  | inside hp hx => exact hparts _ hp x hx

/-! ## Ready-made converters -/

theorem givensOf_eq (ds : List Description) : givensOf ds = ds.flatMap givens := by
  induction ds with
  | nil => rfl
  | cons d ds ih => rw [givensOf, List.flatMap_cons, ih]

theorem fieldGivens_eq (fields : List (Field Description)) :
    fieldGivens fields = (fields.filterMap Field.type).flatMap givens := by
  induction fields with
  | nil => rfl
  | cons f fs ih =>
    obtain ⟨_, type, _, _, _, _⟩ := f
    cases type <;> (rw [fieldGivens, ih]; rfl)

theorem caseGivens_eq (cases : List (Case Description)) :
    caseGivens cases = (cases.flatMap Case.parts).flatMap givens := by
  induction cases with
  | nil => rfl
  | cons c cs ih =>
    rw [List.flatMap_cons, List.flatMap_append]
    cases c with
    | nested d =>
      rw [caseGivens, ih]
      simp [Case.parts]
    | constructor c =>
      obtain ⟨_, args, _, record, _⟩ := c
      cases record <;> (rw [caseGivens, ih, givensOf_eq]; simp [Case.parts])

/-- The ready-made converters of a description that is none itself are those of its parts. -/
theorem givens_part {c : Converter} (hp : p ∈ d.parts) (hc : c ∈ p.givens) :
    c ∈ d.givens := by
  have hparts : c ∈ d.parts.flatMap givens := List.mem_flatMap.2 ⟨p, hp, hc⟩
  cases d with
  | product ds => rwa [givens, givensOf_eq]
  | record fields instanceOf extra => rwa [givens, fieldGivens_eq]
  | sum cases => rwa [givens, caseGivens_eq]
  | polyVariant cases => rwa [givens, caseGivens_eq]
  | list d => simpa [givens, parts] using hparts
  | array d stored => simpa [givens, parts] using hparts
  | option d => simpa [givens, parts] using hparts
  | recursive id args =>
    cases args with
    | none => exact absurd hp List.not_mem_nil
    | some args => rwa [givens, givensOf_eq]
  | applied id args => rwa [givens, givensOf_eq]
  | _ => exact absurd hp List.not_mem_nil

theorem Occurs.mem_givens {c : Converter} {x : Description} (h : x.Occurs d)
    (hx : c ∈ x.givens) : c ∈ d.givens := by
  induction h with
  | here => exact hx
  | inside hp _ ih => exact givens_part hp ih

mutual

theorem length_givens_le_size : ∀ d : Description, d.givens.length ≤ d.size
  | .product parts => by
    rw [givens, size]
    exact Nat.le_succ_of_le (length_givensOf_le_sizes parts)
  | .record fields _ _ => by
    rw [givens, size]
    exact Nat.le_succ_of_le (length_fieldGivens_le_fieldSizes fields)
  | .sum cases => by
    rw [givens, size]
    exact Nat.le_succ_of_le (length_caseGivens_le_caseSizes cases)
  | .polyVariant cases => by
    rw [givens, size]
    exact Nat.le_succ_of_le (length_caseGivens_le_caseSizes cases)
  | .list element => by
    rw [givens, size]
    exact Nat.le_succ_of_le (length_givens_le_size element)
  | .array element _ => by
    rw [givens, size]
    exact Nat.le_succ_of_le (length_givens_le_size element)
  | .option inner => by
    rw [givens, size]
    exact Nat.le_succ_of_le (length_givens_le_size inner)
  | .recursive _ (some args) => by
    rw [givens, size]
    exact Nat.le_succ_of_le (length_givensOf_le_sizes args)
  | .applied _ args => by
    rw [givens, size]
    exact Nat.le_succ_of_le (length_givensOf_le_sizes args)
  | .given _ => Nat.le_refl 1
  | .recursive _ none => Nat.zero_le _
  | .primitive _ => Nat.zero_le _
  | .sealed => Nat.zero_le _
  | .parameter .. => Nat.zero_le _
  | .notConverter _ => Nat.zero_le _
  | .foreign _ => Nat.zero_le _

theorem length_givensOf_le_sizes : ∀ ds : List Description, (givensOf ds).length ≤ sizes ds
  | [] => Nat.zero_le _
  | d :: ds => by
    rw [givensOf, sizes, List.length_append]
    exact Nat.add_le_add (length_givens_le_size d) (length_givensOf_le_sizes ds)

theorem length_fieldGivens_le_fieldSizes : ∀ fields : List (Field Description),
    (fieldGivens fields).length ≤ fieldSizes fields
  | [] => Nat.zero_le _
  | ⟨_, some d, _, _, _, _⟩ :: fs => by
    have hd := length_givens_le_size d
    have hfs := length_fieldGivens_le_fieldSizes fs
    rw [fieldGivens, fieldSizes, List.length_append]
    omega
  | ⟨_, none, _, _, _, _⟩ :: fs => length_fieldGivens_le_fieldSizes fs

theorem length_caseGivens_le_caseSizes : ∀ cases : List (Case Description),
    (caseGivens cases).length ≤ caseSizes cases
  | [] => Nat.zero_le _
  | .nested d :: cs => by
    rw [caseGivens, caseSizes, List.length_append]
    exact Nat.add_le_add (length_givens_le_size d) (length_caseGivens_le_caseSizes cs)
  | .constructor ⟨_, args, _, some r, _⟩ :: cs => by
    have hargs := length_givensOf_le_sizes args
    have hr := length_givens_le_size r
    have hcs := length_caseGivens_le_caseSizes cs
    rw [caseGivens, caseSizes, List.length_append, List.length_append]
    omega
  | .constructor ⟨_, args, _, none, _⟩ :: cs => by
    rw [caseGivens, caseSizes, List.length_append]
    exact Nat.add_le_add (length_givensOf_le_sizes args) (length_caseGivens_le_caseSizes cs)

end

/-! ## References -/

/-- The arguments that a reference states. -/
def arguments : Description → List Description
  | .recursive _ (some args) => args
  | .applied _ args => args
  | _ => []

/-- A parameter, a built-in type, or what is given as a converter. -/
def IsLeaf : Description → Prop
  | .primitive _ => True
  | .parameter .. => True
  | .given _ => True
  | .notConverter _ => True
  | _ => False

/-- The arguments of a reference are leaves. -/
def RefersToLeaves (d : Description) : Prop := ∀ a ∈ d.arguments, a.IsLeaf

end Description

namespace Catalog

/-- The property holds of all that stands in the bodies of the definitions. -/
def Everywhere (P : Description → Prop) (catalog : Catalog) : Prop :=
  ∀ id body, catalog.body? id = some body → body.Everywhere P

/-- The ready-made converters that stand in the bodies of the definitions. -/
def givens (catalog : Catalog) : List Converter :=
  catalog.flatMap fun d => (d.body.map Description.givens).getD []

theorem length_givens_le_size (catalog : Catalog) : catalog.givens.length ≤ catalog.size := by
  induction catalog with
  | nil => exact Nat.zero_le _
  | cons d ds ih =>
    have hd : ((d.body.map Description.givens).getD []).length ≤
        (d.body.map Description.size).getD 0 := by
      cases d.body with
      | none => exact Nat.zero_le _
      | some body => exact body.length_givens_le_size
    have hsize : Catalog.size (d :: ds) =
        (d.body.map Description.size).getD 0 + 1 + Catalog.size ds := rfl
    rw [givens, List.flatMap_cons, List.length_append, hsize]
    exact Nat.add_le_add (Nat.le_succ_of_le hd) ih

theorem mem_givens {catalog : Catalog} {id : DefinitionId} {body : Description} {c : Converter}
    (hbody : catalog.body? id = some body) (hc : c ∈ body.givens) : c ∈ catalog.givens := by
  obtain ⟨d, hd, hb⟩ := Option.bind_eq_some_iff.1 hbody
  refine List.mem_flatMap.2 ⟨d, List.mem_of_getElem? hd, ?_⟩
  rw [hb]
  exact hc

end Catalog

end TypedSexp
