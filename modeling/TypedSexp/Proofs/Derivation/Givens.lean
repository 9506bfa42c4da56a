import TypedSexp.Proofs.Derivation.Ledger
/-!
# Ready-made converters in descriptions

A description may hold converters from outside (`Description.givens`); one without any is plain
(`Description.isPlain`). What a ledger says of them is that each is the one of its name
(`Ledger.Admits`).
-/

namespace TypedSexp

namespace Description

/-! ## Descriptions without ready-made converters -/

mutual

/-- No ready-made converter stands in the description. -/
def isPlain : Description → Bool
  | .product parts => arePlain parts
  | .record fields _ _ => fieldsPlain fields
  | .sum cases => casesPlain cases
  | .polyVariant cases => casesPlain cases
  | .list element => isPlain element
  | .array element _ => isPlain element
  | .option inner => isPlain inner
  | .recursive _ (some args) => arePlain args
  | .applied _ args => arePlain args
  | .given _ => false
  | _ => true

/-- No ready-made converter stands in the descriptions. -/
def arePlain : List Description → Bool
  | [] => true
  | d :: ds => isPlain d && arePlain ds

/-- No ready-made converter stands in the fields. -/
def fieldsPlain : List (Field Description) → Bool
  | [] => true
  | ⟨_, some d, _, _, _, _⟩ :: fs => isPlain d && fieldsPlain fs
  | ⟨_, none, _, _, _, _⟩ :: fs => fieldsPlain fs

/-- No ready-made converter stands in the cases. -/
def casesPlain : List (Case Description) → Bool
  | [] => true
  | .nested d :: cs => isPlain d && casesPlain cs
  | .constructor ⟨_, args, _, some r, _⟩ :: cs => arePlain args && isPlain r && casesPlain cs
  | .constructor ⟨_, args, _, none, _⟩ :: cs => arePlain args && casesPlain cs

end

end Description

/-- No ready-made converter stands in the bodies of the definitions. -/
def Catalog.isPlain (catalog : Catalog) : Prop :=
  ∀ id body, catalog.body? id = some body → body.isPlain

/-! ## Ready-made converters -/

namespace Description

mutual

/-- The ready-made converters that stand in the description. -/
def givens : Description → List Converter
  | .product parts => givensOf parts
  | .record fields _ _ => fieldGivens fields
  | .sum cases => caseGivens cases
  | .polyVariant cases => caseGivens cases
  | .list element => givens element
  | .array element _ => givens element
  | .option inner => givens inner
  | .recursive _ (some args) => givensOf args
  | .applied _ args => givensOf args
  | .given c => [c]
  | _ => []

/-- The ready-made converters that stand in the descriptions. -/
def givensOf : List Description → List Converter
  | [] => []
  | d :: ds => givens d ++ givensOf ds

/-- The ready-made converters that stand in the fields. -/
def fieldGivens : List (Field Description) → List Converter
  | [] => []
  | ⟨_, some d, _, _, _, _⟩ :: fs => givens d ++ fieldGivens fs
  | ⟨_, none, _, _, _, _⟩ :: fs => fieldGivens fs

/-- The ready-made converters that stand in the cases. -/
def caseGivens : List (Case Description) → List Converter
  | [] => []
  | .nested d :: cs => givens d ++ caseGivens cs
  | .constructor ⟨_, args, _, some r, _⟩ :: cs => givensOf args ++ (givens r ++ caseGivens cs)
  | .constructor ⟨_, args, _, none, _⟩ :: cs => givensOf args ++ caseGivens cs

end

mutual

theorem givens_of_isPlain : ∀ d : Description, d.isPlain → d.givens = []
  | .product parts, h => by
    rw [givens]
    exact givensOf_of_arePlain parts (by simpa [isPlain] using h)
  | .record fields _ _, h => by
    rw [givens]
    exact fieldGivens_of_fieldsPlain fields (by simpa [isPlain] using h)
  | .sum cases, h => by
    rw [givens]
    exact caseGivens_of_casesPlain cases (by simpa [isPlain] using h)
  | .polyVariant cases, h => by
    rw [givens]
    exact caseGivens_of_casesPlain cases (by simpa [isPlain] using h)
  | .list element, h => by
    rw [givens]
    exact givens_of_isPlain element (by simpa [isPlain] using h)
  | .array element _, h => by
    rw [givens]
    exact givens_of_isPlain element (by simpa [isPlain] using h)
  | .option inner, h => by
    rw [givens]
    exact givens_of_isPlain inner (by simpa [isPlain] using h)
  | .recursive _ (some args), h => by
    rw [givens]
    exact givensOf_of_arePlain args (by simpa [isPlain] using h)
  | .applied _ args, h => by
    rw [givens]
    exact givensOf_of_arePlain args (by simpa [isPlain] using h)
  | .given _, h => absurd h (by simp [isPlain])
  | .recursive _ none, _ => rfl
  | .primitive _, _ => rfl
  | .sealed, _ => rfl
  | .parameter .., _ => rfl
  | .notConverter _, _ => rfl
  | .foreign _, _ => rfl

theorem givensOf_of_arePlain : ∀ ds : List Description, arePlain ds → givensOf ds = []
  | [], _ => rfl
  | d :: ds, h => by
    simp only [arePlain, Bool.and_eq_true] at h
    rw [givensOf, givens_of_isPlain d h.1, givensOf_of_arePlain ds h.2]
    rfl

theorem fieldGivens_of_fieldsPlain : ∀ fields : List (Field Description), fieldsPlain fields →
    fieldGivens fields = []
  | [], _ => rfl
  | ⟨_, some d, _, _, _, _⟩ :: fs, h => by
    simp only [fieldsPlain, Bool.and_eq_true] at h
    rw [fieldGivens, givens_of_isPlain d h.1, fieldGivens_of_fieldsPlain fs h.2]
    rfl
  | ⟨_, none, _, _, _, _⟩ :: fs, h => by
    rw [fieldGivens]
    exact fieldGivens_of_fieldsPlain fs (by simpa [fieldsPlain] using h)

theorem caseGivens_of_casesPlain : ∀ cases : List (Case Description), casesPlain cases →
    caseGivens cases = []
  | [], _ => rfl
  | .nested d :: cs, h => by
    simp only [casesPlain, Bool.and_eq_true] at h
    rw [caseGivens, givens_of_isPlain d h.1, caseGivens_of_casesPlain cs h.2]
    rfl
  | .constructor ⟨_, args, _, some r, _⟩ :: cs, h => by
    simp only [casesPlain, Bool.and_eq_true] at h
    rw [caseGivens, givensOf_of_arePlain args h.1.1, givens_of_isPlain r h.1.2,
      caseGivens_of_casesPlain cs h.2]
    rfl
  | .constructor ⟨_, args, _, none, _⟩ :: cs, h => by
    simp only [casesPlain, Bool.and_eq_true] at h
    rw [caseGivens, givensOf_of_arePlain args h.1, caseGivens_of_casesPlain cs h.2]
    rfl

end

end Description

/-- The converters come from outside, and the ledger knows them. -/
def Ledger.Admits (l : Ledger) (cs : List Converter) : Prop :=
  ∀ c ∈ cs, ∃ name k, l.outside name = some k ∧ c = .ofCustom name k

theorem Ledger.Admits.later {l l' : Ledger} (h : l'.Extends l) {cs : List Converter}
    (hcs : l.Admits cs) : l'.Admits cs := fun c hc => by
  rw [h.outside]
  exact hcs c hc

theorem Ledger.admits_append {l : Ledger} {cs cs' : List Converter} :
    l.Admits (cs ++ cs') ↔ l.Admits cs ∧ l.Admits cs' := List.forall_mem_append

theorem Ledger.admits_givensOf {l : Ledger} : ∀ {ds : List Description},
    (∀ d ∈ ds, l.Admits d.givens) → l.Admits (Description.givensOf ds)
  | [], _ => fun c hc => absurd hc List.not_mem_nil
  | d :: ds, h => by
    rw [Description.givensOf, admits_append]
    exact ⟨h d List.mem_cons_self, admits_givensOf fun x hx => h x (List.mem_cons_of_mem _ hx)⟩

theorem Ledger.admits_of_isPlain (l : Ledger) {d : Description} (h : d.isPlain) :
    l.Admits d.givens := by
  rw [Description.givens_of_isPlain d h]
  exact fun c hc => absurd hc List.not_mem_nil

/-- The ready-made converters of all bodies come from outside. -/
def Catalog.AdmittedBy (catalog : Catalog) (l : Ledger) : Prop :=
  ∀ id body, catalog.body? id = some body → l.Admits body.givens

theorem Catalog.AdmittedBy.later {catalog : Catalog} {l l' : Ledger} (h : l'.Extends l)
    (hcatalog : catalog.AdmittedBy l) : catalog.AdmittedBy l' :=
  fun id body hb => (hcatalog id body hb).later h

theorem Catalog.isPlain.admittedBy {catalog : Catalog} (h : catalog.isPlain) (l : Ledger) :
    catalog.AdmittedBy l := fun id body hb => l.admits_of_isPlain (h id body hb)

theorem Catalog.admittedBy_nil (l : Ledger) : Catalog.AdmittedBy [] l :=
  fun _ _ hb => absurd hb (by simp [Catalog.body?])

end TypedSexp
