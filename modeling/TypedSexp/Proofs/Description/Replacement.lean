import TypedSexp.Proofs.Derivation.Givens
/-!
# Arguments in place of parameters

`Description.replace` puts descriptions in the place of the parameters, and makes them the arguments
of the definitions that the parameters would be handed on to. A description is looked into in a few
places: an option asks what it holds, an array asks for the type of its elements, and so does a field
that may be absent. What is found there does not change if no parameter stands directly there
(`Description.isSeparate`).
-/

namespace TypedSexp

/-- The descriptions that replace the parameters, if any do. -/
abbrev Replacement := Option (List Description)

/-- The field with another description. -/
def Field.map {δ ε : Type} (g : δ → ε) (f : Field δ) : Field ε :=
  ⟨f.name, f.type.map g, f.presence, f.default, f.statedRule, f.predicate⟩

/-- The constructor with other descriptions. -/
def Constructor.map {δ ε : Type} (g : δ → ε) (c : Constructor δ) : Constructor ε :=
  ⟨c.tag, c.args.map g, c.instanceOf, c.record.map g, c.spliced⟩

/-- The case with other descriptions. -/
def Case.map {δ ε : Type} (g : δ → ε) : Case δ → Case ε
  | .constructor c => .constructor (c.map g)
  | .nested d => .nested (g d)

namespace Description

/-- What stands in the place of a parameter. -/
def argument (r : Replacement) (index : Int) (name : Option Text) : Description :=
  (r.bind fun ds => if index < 0 then none else ds[index.toNat]?).getD (.parameter index name)

mutual

/-- The description with arguments in the place of its parameters. -/
def replace (r : Replacement) : Description → Description
  | .product parts => .product (replaceAll r parts)
  | .record fields instanceOf extra => .record (replaceFields r fields) instanceOf extra
  | .sum cases => .sum (replaceCases r cases)
  | .polyVariant cases => .polyVariant (replaceCases r cases)
  | .list element => .list (replace r element)
  | .array element stored => .array (replace r element) stored
  | .option inner => .option (replace r inner)
  | .parameter index name => argument r index name
  | .recursive id none => .recursive id r
  | .recursive id (some args) => .recursive id (some (replaceAll r args))
  | .applied id args => .applied id (replaceAll r args)
  | .primitive name => .primitive name
  | .sealed => .sealed
  | .given c => .given c
  | .notConverter v => .notConverter v
  | .foreign v => .foreign v

/-- Descriptions with arguments in the place of their parameters. -/
def replaceAll (r : Replacement) : List Description → List Description
  | [] => []
  | d :: ds => replace r d :: replaceAll r ds

/-- Fields with arguments in the place of their parameters. -/
def replaceFields (r : Replacement) : List (Field Description) → List (Field Description)
  | [] => []
  | ⟨name, some d, presence, default, rule, predicate⟩ :: fs =>
    ⟨name, some (replace r d), presence, default, rule, predicate⟩ :: replaceFields r fs
  | ⟨name, none, presence, default, rule, predicate⟩ :: fs =>
    ⟨name, none, presence, default, rule, predicate⟩ :: replaceFields r fs

/-- Cases with arguments in the place of their parameters. -/
def replaceCases (r : Replacement) : List (Case Description) → List (Case Description)
  | [] => []
  | .nested d :: cs => .nested (replace r d) :: replaceCases r cs
  | .constructor ⟨tag, args, instanceOf, some d, spliced⟩ :: cs =>
    .constructor ⟨tag, replaceAll r args, instanceOf, some (replace r d), spliced⟩
      :: replaceCases r cs
  | .constructor ⟨tag, args, instanceOf, none, spliced⟩ :: cs =>
    .constructor ⟨tag, replaceAll r args, instanceOf, none, spliced⟩ :: replaceCases r cs

end

/-- The description is a parameter. -/
def isParameter : Description → Bool
  | .parameter .. => true
  | _ => false

mutual

/-- No parameter stands directly in an option, as the elements of an array, or as a field that is
an option or holds an array. -/
def isSeparate : Description → Bool
  | .product parts => areSeparate parts
  | .record fields _ _ => fieldsSeparate fields
  | .sum cases => casesSeparate cases
  | .polyVariant cases => casesSeparate cases
  | .list element => isSeparate element
  | .array element _ => !element.isParameter && isSeparate element
  | .option inner => !inner.isParameter && isSeparate inner
  | .recursive _ (some args) => areSeparate args
  | .applied _ args => areSeparate args
  | _ => true

/-- All descriptions are separate. -/
def areSeparate : List Description → Bool
  | [] => true
  | d :: ds => isSeparate d && areSeparate ds

/-- All fields are separate. -/
def fieldsSeparate : List (Field Description) → Bool
  | [] => true
  | ⟨_, some d, presence, _, _, _⟩ :: fs =>
    !(d.isParameter && (presence == .option || presence == .sexpArray)) && isSeparate d
      && fieldsSeparate fs
  | ⟨_, none, _, _, _, _⟩ :: fs => fieldsSeparate fs

/-- All cases are separate. -/
def casesSeparate : List (Case Description) → Bool
  | [] => true
  | .nested d :: cs => isSeparate d && casesSeparate cs
  | .constructor ⟨_, args, _, some d, _⟩ :: cs => areSeparate args && isSeparate d && casesSeparate cs
  | .constructor ⟨_, args, _, none, _⟩ :: cs => areSeparate args && casesSeparate cs

end

/-! ## Part by part -/

variable {r : Replacement}

theorem replaceAll_eq (r : Replacement) : ∀ ds, replaceAll r ds = ds.map (replace r)
  | [] => rfl
  | d :: ds => by rw [replaceAll, replaceAll_eq r ds, List.map_cons]

theorem replaceFields_eq (r : Replacement) :
    ∀ fields, replaceFields r fields = fields.map (Field.map (replace r))
  | [] => rfl
  | ⟨_, some _, _, _, _, _⟩ :: fs => by rw [replaceFields, replaceFields_eq r fs]; rfl
  | ⟨_, none, _, _, _, _⟩ :: fs => by rw [replaceFields, replaceFields_eq r fs]; rfl

theorem replaceCases_eq (r : Replacement) :
    ∀ cases, replaceCases r cases = cases.map (Case.map (replace r))
  | [] => rfl
  | .nested _ :: cs => by rw [replaceCases, replaceCases_eq r cs]; rfl
  | .constructor ⟨_, _, _, some _, _⟩ :: cs => by
    rw [replaceCases, replaceCases_eq r cs, replaceAll_eq]; rfl
  | .constructor ⟨_, _, _, none, _⟩ :: cs => by
    rw [replaceCases, replaceCases_eq r cs, replaceAll_eq]; rfl

theorem length_replaceAll (r : Replacement) (ds : List Description) :
    (replaceAll r ds).length = ds.length := by rw [replaceAll_eq, List.length_map]

theorem replaceFields_cons (r : Replacement) (f : Field Description)
    (fields : List (Field Description)) :
    replaceFields r (f :: fields) = f.map (replace r) :: replaceFields r fields := by
  rw [replaceFields_eq, replaceFields_eq, List.map_cons]

theorem names_replaceFields (r : Replacement) (fields : List (Field Description)) :
    (replaceFields r fields).map Field.name = fields.map Field.name := by
  rw [replaceFields_eq, List.map_map]
  rfl

theorem replaceCases_constructor (r : Replacement) (c : Constructor Description)
    (cases : List (Case Description)) :
    replaceCases r (.constructor c :: cases) =
      .constructor (c.map (replace r)) :: replaceCases r cases := by
  rw [replaceCases_eq, replaceCases_eq, List.map_cons]
  rfl

mutual

/-- Without arguments nothing changes. -/
theorem replace_none : ∀ d, replace none d = d
  | .product parts => by rw [replace, replaceAll_none]
  | .record fields _ _ => by rw [replace, replaceFields_none]
  | .sum cases => by rw [replace, replaceCases_none]
  | .polyVariant cases => by rw [replace, replaceCases_none]
  | .list element => by rw [replace, replace_none element]
  | .array element _ => by rw [replace, replace_none element]
  | .option inner => by rw [replace, replace_none inner]
  | .recursive _ (some args) => by rw [replace, replaceAll_none]
  | .applied _ args => by rw [replace, replaceAll_none]
  | .parameter .. => rfl
  | .recursive _ none => rfl
  | .primitive _ => rfl
  | .sealed => rfl
  | .given _ => rfl
  | .notConverter _ => rfl
  | .foreign _ => rfl

theorem replaceAll_none : ∀ ds, replaceAll none ds = ds
  | [] => rfl
  | d :: ds => by rw [replaceAll, replace_none d, replaceAll_none ds]

theorem replaceFields_none : ∀ fields, replaceFields none fields = fields
  | [] => rfl
  | ⟨_, some d, _, _, _, _⟩ :: fs => by rw [replaceFields, replace_none d, replaceFields_none fs]
  | ⟨_, none, _, _, _, _⟩ :: fs => by rw [replaceFields, replaceFields_none fs]

theorem replaceCases_none : ∀ cases, replaceCases none cases = cases
  | [] => rfl
  | .nested d :: cs => by rw [replaceCases, replace_none d, replaceCases_none cs]
  | .constructor ⟨_, args, _, some d, _⟩ :: cs => by
    rw [replaceCases, replaceAll_none args, replace_none d, replaceCases_none cs]
  | .constructor ⟨_, args, _, none, _⟩ :: cs => by
    rw [replaceCases, replaceAll_none args, replaceCases_none cs]

end

/-! ## Ready-made converters -/

/-- The ready-made converters of the arguments come from outside. -/
def ArgumentsAdmitted (l : Ledger) (r : Replacement) : Prop :=
  ∀ ds, r = some ds → ∀ x ∈ ds, l.Admits x.givens

variable {l : Ledger}

theorem admits_argument (hr : ArgumentsAdmitted l r) (index : Int) (name : Option Text) :
    l.Admits (argument r index name).givens := by
  unfold argument
  cases harg : r.bind fun ds => if index < 0 then none else ds[index.toNat]? with
  | none => exact fun c hc => absurd hc List.not_mem_nil
  | some x =>
    obtain ⟨ds, rfl, hx⟩ := Option.bind_eq_some_iff.1 harg
    by_cases hi : index < 0
    · rw [if_pos hi] at hx
      cases hx
    · rw [if_neg hi] at hx
      exact hr ds rfl x (List.mem_of_getElem? hx)

theorem admits_inherited (hr : ArgumentsAdmitted l r) (id : DefinitionId) :
    l.Admits (Description.recursive id r).givens := by
  cases r with
  | none => exact fun c hc => absurd hc List.not_mem_nil
  | some ds =>
    rw [givens]
    exact Ledger.admits_givensOf (hr ds rfl)

mutual

/-- Ready-made converters stay admitted with arguments whose ready-made converters are. -/
theorem admits_replace (hr : ArgumentsAdmitted l r) : ∀ d, l.Admits d.givens →
    l.Admits (replace r d).givens
  | .product parts, h => by
    rw [replace, givens]
    exact admits_replaceAll hr parts (by simpa [givens] using h)
  | .record fields _ _, h => by
    rw [replace, givens]
    exact admits_replaceFields hr fields (by simpa [givens] using h)
  | .sum cases, h => by
    rw [replace, givens]
    exact admits_replaceCases hr cases (by simpa [givens] using h)
  | .polyVariant cases, h => by
    rw [replace, givens]
    exact admits_replaceCases hr cases (by simpa [givens] using h)
  | .list element, h => by
    rw [replace, givens]
    exact admits_replace hr element (by simpa [givens] using h)
  | .array element _, h => by
    rw [replace, givens]
    exact admits_replace hr element (by simpa [givens] using h)
  | .option inner, h => by
    rw [replace, givens]
    exact admits_replace hr inner (by simpa [givens] using h)
  | .recursive _ (some args), h => by
    rw [replace, givens]
    exact admits_replaceAll hr args (by simpa [givens] using h)
  | .applied _ args, h => by
    rw [replace, givens]
    exact admits_replaceAll hr args (by simpa [givens] using h)
  | .parameter index name, _ => by
    rw [replace]
    exact admits_argument hr index name
  | .recursive id none, _ => by
    rw [replace]
    exact admits_inherited hr id
  | .primitive _, h => h
  | .sealed, h => h
  | .given _, h => h
  | .notConverter _, h => h
  | .foreign _, h => h

theorem admits_replaceAll (hr : ArgumentsAdmitted l r) : ∀ ds, l.Admits (givensOf ds) →
    l.Admits (givensOf (replaceAll r ds))
  | [], h => h
  | d :: ds, h => by
    rw [givensOf, Ledger.admits_append] at h
    rw [replaceAll, givensOf, Ledger.admits_append]
    exact ⟨admits_replace hr d h.1, admits_replaceAll hr ds h.2⟩

theorem admits_replaceFields (hr : ArgumentsAdmitted l r) : ∀ fields, l.Admits (fieldGivens fields) →
    l.Admits (fieldGivens (replaceFields r fields))
  | [], h => h
  | ⟨_, some d, _, _, _, _⟩ :: fs, h => by
    rw [fieldGivens, Ledger.admits_append] at h
    rw [replaceFields, fieldGivens, Ledger.admits_append]
    exact ⟨admits_replace hr d h.1, admits_replaceFields hr fs h.2⟩
  | ⟨_, none, _, _, _, _⟩ :: fs, h => by
    rw [fieldGivens] at h
    rw [replaceFields, fieldGivens]
    exact admits_replaceFields hr fs h

theorem admits_replaceCases (hr : ArgumentsAdmitted l r) : ∀ cases, l.Admits (caseGivens cases) →
    l.Admits (caseGivens (replaceCases r cases))
  | [], h => h
  | .nested d :: cs, h => by
    rw [caseGivens, Ledger.admits_append] at h
    rw [replaceCases, caseGivens, Ledger.admits_append]
    exact ⟨admits_replace hr d h.1, admits_replaceCases hr cs h.2⟩
  | .constructor ⟨_, args, _, some d, _⟩ :: cs, h => by
    rw [caseGivens, Ledger.admits_append, Ledger.admits_append] at h
    rw [replaceCases, caseGivens, Ledger.admits_append, Ledger.admits_append]
    exact ⟨admits_replaceAll hr args h.1, admits_replace hr d h.2.1, admits_replaceCases hr cs h.2.2⟩
  | .constructor ⟨_, args, _, none, _⟩ :: cs, h => by
    rw [caseGivens, Ledger.admits_append] at h
    rw [replaceCases, caseGivens, Ledger.admits_append]
    exact ⟨admits_replaceAll hr args h.1, admits_replaceCases hr cs h.2⟩

end

/-! ## Where descriptions are looked into -/

/-- The replacement leaves alone what is found where the description is looked into. -/
def Allows (r : Replacement) (d : Description) : Prop := r = none ∨ d.isSeparate = true

/-- The description is no parameter, or it is not replaced. -/
def Keeps (r : Replacement) (d : Description) : Prop := r = none ∨ d.isParameter = false

/-- A parameter that is kept is not replaced. -/
theorem Keeps.parameter {index : Int} {name : Option Text} (h : Keeps r (.parameter index name)) :
    replace r (.parameter index name) = .parameter index name := by
  rcases h with rfl | h
  · exact replace_none _
  · cases h

theorem Keeps.isOption {d : Description} (h : Keeps r d) : (replace r d).isOption = d.isOption := by
  rcases h with rfl | h
  · rw [replace_none]
  · cases d with
    | parameter _ _ => exact absurd h (by simp [isParameter])
    | recursive _ args => cases args <;> rfl
    | _ => rfl

theorem Keeps.storedAs {d : Description} (h : Keeps r d) (stated : Option ElementType) :
    storedAs (replace r d) stated = storedAs d stated := by
  rcases h with rfl | h
  · rw [replace_none]
  · cases d with
    | parameter _ _ => exact absurd h (by simp [isParameter])
    | recursive _ args => cases args <;> cases stated <;> rfl
    | _ => cases stated <;> rfl

/-! What is no parameter keeps its kind. -/

theorem eq_of_replace_recursive {d : Description} {id : DefinitionId}
    {args : Option (List Description)} (h : Keeps r d) (heq : replace r d = .recursive id args) :
    d = .recursive id none ∧ args = r ∨
      ∃ ds, d = .recursive id (some ds) ∧ args = some (replaceAll r ds) := by
  cases d with
  | parameter index name =>
    rw [h.parameter] at heq
    cases heq
  | recursive id' ds =>
    cases ds with
    | none =>
      obtain ⟨rfl, rfl⟩ := Description.recursive.inj heq
      exact .inl ⟨rfl, rfl⟩
    | some ds =>
      obtain ⟨rfl, rfl⟩ := Description.recursive.inj heq
      exact .inr ⟨ds, rfl, rfl⟩
  | _ => exact absurd heq (by simp [replace])

theorem eq_of_replace_applied {d : Description} {id : DefinitionId} {args : List Description}
    (h : Keeps r d) (heq : replace r d = .applied id args) :
    ∃ ds, d = .applied id ds ∧ args = replaceAll r ds := by
  cases d with
  | parameter index name =>
    rw [h.parameter] at heq
    cases heq
  | recursive id' ds => cases ds <;> exact absurd heq (by simp [replace])
  | applied id' ds =>
    obtain ⟨rfl, rfl⟩ := Description.applied.inj heq
    exact ⟨ds, rfl, rfl⟩
  | _ => exact absurd heq (by simp [replace])

theorem eq_of_replace_option {d inner : Description} (h : Keeps r d)
    (heq : replace r d = .option inner) : ∃ x, d = .option x ∧ inner = replace r x := by
  cases d with
  | parameter index name =>
    rw [h.parameter] at heq
    cases heq
  | recursive id' ds => cases ds <;> exact absurd heq (by simp [replace])
  | option x =>
    obtain rfl := Description.option.inj heq
    exact ⟨x, rfl, rfl⟩
  | _ => exact absurd heq (by simp [replace])

namespace Allows

theorem list {d : Description} (h : Allows r (.list d)) : Allows r d :=
  h.imp_right fun h => by simpa [isSeparate] using h

theorem array {d : Description} {stored : Option ElementType} (h : Allows r (.array d stored)) :
    Keeps r d ∧ Allows r d := by
  rcases h with rfl | h
  · exact ⟨.inl rfl, .inl rfl⟩
  · rw [isSeparate, Bool.and_eq_true, Bool.not_eq_true'] at h
    exact ⟨.inr h.1, .inr h.2⟩

theorem option {d : Description} (h : Allows r (.option d)) : Keeps r d ∧ Allows r d := by
  rcases h with rfl | h
  · exact ⟨.inl rfl, .inl rfl⟩
  · rw [isSeparate, Bool.and_eq_true, Bool.not_eq_true'] at h
    exact ⟨.inr h.1, .inr h.2⟩

end Allows

theorem areSeparate_iff : ∀ {ds : List Description},
    areSeparate ds = true ↔ ∀ d ∈ ds, d.isSeparate = true
  | [] => by simp [areSeparate]
  | d :: ds => by
    have hds : areSeparate ds = true ↔ ∀ x ∈ ds, x.isSeparate = true := areSeparate_iff
    rw [areSeparate, Bool.and_eq_true, hds]
    simp

namespace Allows

theorem of_all {ds : List Description} (h : r = none ∨ areSeparate ds = true) {d : Description}
    (hd : d ∈ ds) : Allows r d := h.imp_right fun h => areSeparate_iff.1 h d hd

theorem product {parts : List Description} (h : Allows r (.product parts)) {d : Description}
    (hd : d ∈ parts) : Allows r d :=
  of_all (h.imp_right fun h => by simpa [isSeparate] using h) hd

theorem recursive {id : DefinitionId} {args : List Description}
    (h : Allows r (.recursive id (some args))) {d : Description} (hd : d ∈ args) : Allows r d :=
  of_all (h.imp_right fun h => by simpa [isSeparate] using h) hd

theorem applied {id : DefinitionId} {args : List Description} (h : Allows r (.applied id args))
    {d : Description} (hd : d ∈ args) : Allows r d :=
  of_all (h.imp_right fun h => by simpa [isSeparate] using h) hd

end Allows

/-! ### Cases -/

theorem casesSeparate_append : ∀ {cases cases' : List (Case Description)},
    casesSeparate (cases ++ cases') = (casesSeparate cases && casesSeparate cases')
  | [], _ => rfl
  | .nested d :: cs, cases' => by
    rw [List.cons_append, casesSeparate, casesSeparate, casesSeparate_append, Bool.and_assoc]
  | .constructor ⟨_, args, _, some d, _⟩ :: cs, cases' => by
    rw [List.cons_append, casesSeparate, casesSeparate, casesSeparate_append, ← Bool.and_assoc]
  | .constructor ⟨_, args, _, none, _⟩ :: cs, cases' => by
    rw [List.cons_append, casesSeparate, casesSeparate, casesSeparate_append, Bool.and_assoc]

/-- Cases that are put in place of a polymorphic variant are separate with it. -/
theorem flatCases_separate : ∀ {cases : List (Case Description)}, casesSeparate cases = true →
    casesSeparate (flatCases cases) = true
  | [], _ => rfl
  | .nested d :: cs, h => by
    rw [casesSeparate, Bool.and_eq_true] at h
    have hcs := flatCases_separate h.2
    rw [flatCases, flatCase, casesSeparate_append, hcs, Bool.and_true]
    cases d with
    | polyVariant inner =>
      rw [nestedCases]
      exact flatCases_separate (by simpa [isSeparate] using h.1)
    | _ => simpa [nestedCases, casesSeparate] using h.1
  | .constructor ⟨tag, args, instanceOf, some d, spliced⟩ :: cs, h => by
    rw [casesSeparate, Bool.and_eq_true] at h
    rw [flatCases, flatCase, List.singleton_append, casesSeparate, h.1, flatCases_separate h.2]
    rfl
  | .constructor ⟨tag, args, instanceOf, none, spliced⟩ :: cs, h => by
    rw [casesSeparate, Bool.and_eq_true] at h
    rw [flatCases, flatCase, List.singleton_append, casesSeparate, h.1, flatCases_separate h.2]
    rfl

/-- Replacing in the cases that are put in place gives the cases of the replaced ones, if only
constructors are left. -/
theorem flatCases_replace : ∀ {cases : List (Case Description)},
    (∀ c ∈ flatCases cases, ∃ k, c = .constructor k) →
    flatCases (replaceCases r cases) = (flatCases cases).map (Case.map (replace r))
  | [], _ => rfl
  | .nested d :: cs, h => by
    rw [flatCases, flatCase] at h
    have hcs := flatCases_replace fun c hc => h c (List.mem_append_right _ hc)
    rw [replaceCases, flatCases, flatCase, flatCases, flatCase, List.map_append, hcs]
    congr 1
    cases d with
    | polyVariant inner =>
      rw [nestedCases] at h
      rw [replace, nestedCases, nestedCases]
      exact flatCases_replace fun c hc => h c (List.mem_append_left _ hc)
    | _ =>
      obtain ⟨k, hk⟩ := h _ (List.mem_append_left _ List.mem_cons_self)
      cases hk
  | .constructor ⟨tag, args, instanceOf, some d, spliced⟩ :: cs, h => by
    rw [flatCases, flatCase] at h
    have hcs := flatCases_replace fun c hc => h c (List.mem_append_right _ hc)
    rw [replaceCases, flatCases, flatCase, flatCases, flatCase, List.map_append, hcs, replaceAll_eq]
    rfl
  | .constructor ⟨tag, args, instanceOf, none, spliced⟩ :: cs, h => by
    rw [flatCases, flatCase] at h
    have hcs := flatCases_replace fun c hc => h c (List.mem_append_right _ hc)
    rw [replaceCases, flatCases, flatCase, flatCases, flatCase, List.map_append, hcs, replaceAll_eq]
    rfl

/-- A variant stays one, with arguments in its constructors. -/
theorem IsVariant.replace {d : Description} {folding : Bool} {cs : List (Constructor Description)}
    (h : d.IsVariant folding cs) :
    (Description.replace r d).IsVariant folding (cs.map (Constructor.map (Description.replace r))) := by
  have hmap (cs : List (Constructor Description)) :
      (cs.map Case.constructor).map (Case.map (Description.replace r)) =
        (cs.map (Constructor.map (Description.replace r))).map .constructor := by
    rw [List.map_map, List.map_map]
    rfl
  cases h with
  | sum =>
    rw [Description.replace, replaceCases_eq, hmap]
    exact .sum
  | @polyVariant cases cs h =>
    rw [Description.replace]
    refine .polyVariant ?_
    rw [flatCases_replace fun c hc => ?_, h, hmap]
    rw [h] at hc
    obtain ⟨k, -, hk⟩ := List.mem_map.1 hc
    exact ⟨k, hk.symm⟩

end Description

/-! ### Fields and constructors -/

section Parts

variable {r : Replacement} {fields : List (Field Description)} {f : Field Description}
  {cases : List (Case Description)} {c : Constructor Description}

open Description (Allows Keeps replace fieldsSeparate casesSeparate)

/-- The replacement leaves alone what is found where the type of the field is looked into. -/
def Field.Allows (r : Replacement) (f : Field Description) : Prop :=
  ∀ d, f.type = some d → Description.Allows r d ∧
    (f.presence = .option ∨ f.presence = .sexpArray → Keeps r d)

/-- The replacement leaves alone what is found where the types of the constructor are looked into. -/
def Constructor.Allows (r : Replacement) (c : Constructor Description) : Prop :=
  (∀ d ∈ c.args, Description.Allows r d) ∧ ∀ d, c.record = some d → Description.Allows r d

theorem Field.allows_of_separate : ∀ {fields : List (Field Description)},
    fieldsSeparate fields = true → ∀ f ∈ fields, f.Allows r
  | [], _, f, hf => absurd hf List.not_mem_nil
  | ⟨name, some d, presence, default, rule, predicate⟩ :: fs, h, f, hf => by
    simp only [fieldsSeparate, Bool.and_eq_true, Bool.not_eq_true'] at h
    rcases List.mem_cons.1 hf with rfl | hf
    · intro x hx
      obtain rfl := Option.some.inj hx
      refine ⟨.inr h.1.2, fun hp => .inr ?_⟩
      have hnot := h.1.1
      rcases hp with hp | hp <;> simpa [show presence = _ from hp] using hnot
    · exact allows_of_separate h.2 f hf
  | ⟨name, none, presence, default, rule, predicate⟩ :: fs, h, f, hf => by
    rw [fieldsSeparate] at h
    rcases List.mem_cons.1 hf with rfl | hf
    · exact fun x hx => by cases hx
    · exact allows_of_separate h f hf

theorem Description.Allows.record {instanceOf : Option ClassInfo} {extra : Bool}
    (h : Description.Allows r (.record fields instanceOf extra)) (hf : f ∈ fields) : f.Allows r := by
  rcases h with rfl | h
  · exact fun d _ => ⟨.inl rfl, fun _ => .inl rfl⟩
  · exact Field.allows_of_separate (by simpa [Description.isSeparate] using h) f hf

/-- The replacement leaves alone what is found where the cases are looked into. -/
def Description.CasesAllow (r : Replacement) (cases : List (Case Description)) : Prop :=
  r = none ∨ casesSeparate cases = true

namespace Description

theorem Allows.sum (h : Allows r (.sum cases)) : CasesAllow r cases :=
  h.imp_right fun h => by simpa [isSeparate] using h

theorem Allows.polyVariant (h : Allows r (.polyVariant cases)) : CasesAllow r cases :=
  h.imp_right fun h => by simpa [isSeparate] using h

theorem CasesAllow.nested {d : Description} (h : CasesAllow r (.nested d :: cases)) :
    Allows r d ∧ CasesAllow r cases := by
  rcases h with rfl | h
  · exact ⟨.inl rfl, .inl rfl⟩
  · rw [casesSeparate, Bool.and_eq_true] at h
    exact ⟨.inr h.1, .inr h.2⟩

theorem CasesAllow.constructor (h : CasesAllow r (.constructor c :: cases)) :
    c.Allows r ∧ CasesAllow r cases := by
  rcases h with rfl | h
  · exact ⟨⟨fun _ _ => .inl rfl, fun _ _ => .inl rfl⟩, .inl rfl⟩
  · obtain ⟨tag, args, instanceOf, record, spliced⟩ := c
    cases record with
    | none =>
      rw [casesSeparate, Bool.and_eq_true] at h
      exact ⟨⟨fun x hx => .inr (areSeparate_iff.1 h.1 x hx), fun x hx => by cases hx⟩, .inr h.2⟩
    | some d =>
      rw [casesSeparate, Bool.and_eq_true, Bool.and_eq_true] at h
      refine ⟨⟨fun x hx => .inr (areSeparate_iff.1 h.1.1 x hx), fun x hx => ?_⟩, .inr h.2⟩
      obtain rfl := Option.some.inj hx
      exact .inr h.1.2

theorem CasesAllow.all : ∀ {cs : List (Constructor Description)},
    CasesAllow r (cs.map .constructor) → ∀ c ∈ cs, c.Allows r
  | [], _, c, hc => absurd hc List.not_mem_nil
  | k :: cs, h, c, hc => by
    obtain ⟨hk, hcs⟩ := h.constructor
    rcases List.mem_cons.1 hc with rfl | hc
    · exact hk
    · exact CasesAllow.all hcs c hc

theorem Allows.variant {d : Description} {folding : Bool} {cs : List (Constructor Description)}
    (h : Allows r d) (hd : d.IsVariant folding cs) (hc : c ∈ cs) : c.Allows r := by
  cases hd with
  | sum => exact h.sum.all c hc
  | polyVariant hflat =>
    refine CasesAllow.all (h.polyVariant.imp_right fun h => ?_) c hc
    rw [← hflat]
    exact flatCases_separate h

end Description

/-- The type of a field's values is replaced with the type that the field states. -/
theorem Field.valueType_map (r : Replacement) (f : Field Description) :
    (f.map (replace r)).valueType = f.valueType.map (replace r) := by
  obtain ⟨name, type, presence, default, rule, predicate⟩ := f
  cases type with
  | none => rfl
  | some d => cases presence <;> rfl

theorem Field.Allows.valueType (h : f.Allows r) {d : Description} (hd : f.valueType = some d) :
    Description.Allows r d := by
  obtain ⟨name, type, presence, default, rule, predicate⟩ := f
  cases type with
  | none => cases hd
  | some x =>
    obtain rfl := Option.some.inj hd
    obtain ⟨hx, hkeeps⟩ := h x rfl
    cases presence with
    | sexpList => exact hx.imp_right fun hx => by simpa [Presence.valueType, Description.isSeparate]
    | sexpArray =>
      rcases hx with rfl | hx
      · exact .inl rfl
      · rcases hkeeps (.inr rfl) with rfl | hx'
        · exact .inl rfl
        · exact .inr (by simp [Presence.valueType, Description.isSeparate, hx, hx'])
    | _ => exact hx

/-- An absent field reads as the same value. -/
theorem Field.Allows.absentValue (h : f.Allows r) :
    Description.absentValue (f.map (replace r)) (f.map (replace r)).stored =
      Description.absentValue f f.stored := by
  obtain ⟨name, type, presence, default, rule, predicate⟩ := f
  cases type with
  | none => rfl
  | some d =>
    cases presence with
    | sexpArray =>
      have hstored := ((h d rfl).2 (.inr rfl)).storedAs none
      show some (Value.vector (Description.storedAs (replace r d) none) []) =
        some (Value.vector (Description.storedAs d none) [])
      rw [hstored]
    | _ => rfl

theorem Field.Allows.checkAbsence (h : f.Allows r) {d : Description} (hd : f.type = some d) :
    Description.checkAbsence (f.map (replace r)) (replace r d) = Description.checkAbsence f d := by
  obtain ⟨name, type, presence, default, rule, predicate⟩ := f
  cases presence with
  | option =>
    have hoption := ((h d hd).2 (.inl rfl)).isOption
    cases default with
    | none =>
      show (if (replace r d).isOption = true then _ else _) = if d.isOption = true then _ else _
      rw [hoption]
      rfl
    | some _ => rfl
  | sexpOption =>
    cases default with
    | none => rfl
    | some x =>
      obtain ⟨v, number⟩ := x
      cases v <;> rfl
  | _ => rfl

/-- The fields behind a tag are replaced with the record that the constructor states. -/
theorem Constructor.inlineRecord_map {d : Description} (h : c.inlineRecord = some d) :
    (c.map (replace r)).inlineRecord = some (replace r d) := by
  obtain ⟨tag, args, instanceOf, record, spliced⟩ := c
  cases record with
  | none => cases h
  | some x =>
    cases x with
    | record fields inner extra =>
      obtain rfl := Option.some.inj h
      rfl
    | _ => cases h

theorem Constructor.Allows.inlineRecord (h : c.Allows r) {d : Description}
    (hd : c.inlineRecord = some d) : Description.Allows r d := by
  obtain ⟨tag, args, instanceOf, record, spliced⟩ := c
  cases record with
  | none => cases hd
  | some x =>
    cases x with
    | record fields inner extra =>
      obtain rfl := Option.some.inj hd
      exact (h.2 _ rfl).imp_right fun h => by simpa [Description.isSeparate] using h
    | _ => cases hd

end Parts

end TypedSexp
