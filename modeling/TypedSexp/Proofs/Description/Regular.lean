import TypedSexp.Proofs.Description.Typing
/-!
# Descriptions whose values come back

`Description.Regular` describes types without floats, classes, rules that leave out fields, and
element types that are stated, whose defaults are values of the types of their fields. What is read
for such a type can be written again. References are judged by `Reaches`, which says to which types
definitions are applied; `Catalog.IsRegular` asks of each such definition that its body is regular
there. So a definition may refer to itself with other arguments, and each definition is looked at for
the types that it is applied to.
-/

namespace TypedSexp

/-- What is read for the description, whose parameters stand for `env`, can be written again, if that
is so for the definitions that are reached. -/
inductive Description.Regular (catalog : Catalog) (Reaches : DefinitionId → List BoundType → Prop)
    (Through : DefinitionId → Nat → Prop) : List BoundType → Description → Prop
  | primitive {env : List BoundType} {name : Text} (hname : Primitive.ofName? name ≠ some .float) :
      Regular catalog Reaches Through env (.primitive name)
  | product {env : List BoundType} {parts : List Description}
      (h : ∀ d ∈ parts, Regular catalog Reaches Through env d) : Regular catalog Reaches Through env (.product parts)
  | list {env : List BoundType} {d : Description} (h : Regular catalog Reaches Through env d) :
      Regular catalog Reaches Through env (.list d)
  | array {env : List BoundType} {d : Description} (h : Regular catalog Reaches Through env d) :
      Regular catalog Reaches Through env (.array d none)
  | option {env : List BoundType} {d : Description} (h : Regular catalog Reaches Through env d) :
      Regular catalog Reaches Through env (.option d)
  | record {env : List BoundType} {fields : List (Field Description)} {extra : Bool}
      (hrules : ∀ f ∈ fields, f.rule = .never)
      (hdefault : ∀ f ∈ fields, ∀ d dflt, f.presence = .required ∨ f.presence = .option →
        f.type = some d → f.default = some dflt →
        HasType catalog (fun f => f.rule = .never) Through 0 env d dflt.value)
      (h : ∀ f ∈ fields, ∀ d, f.presence ≠ .sexpBool → f.type = some d →
        Regular catalog Reaches Through env d) : Regular catalog Reaches Through env (.record fields none extra)
  | variant {env : List BoundType} {d : Description} {folding : Bool}
      {cs : List (Constructor Description)} (hd : d.IsVariant folding cs)
      (hclass : ∀ c ∈ cs, c.instanceOf = none)
      (hargs : ∀ c ∈ cs, ∀ x ∈ c.args, Regular catalog Reaches Through env x)
      (hrecord : ∀ c ∈ cs, ∀ r, c.inlineRecord = some r → Regular catalog Reaches Through env r) :
      Regular catalog Reaches Through env d
  | parameter {env : List BoundType} {index : Int} {name : Option Text}
      (h : ∀ d env', env[index.toNat]? = some (.mk d env') → Regular catalog Reaches Through env' d) :
      Regular catalog Reaches Through env (.parameter index name)
  | definition {env : List BoundType} {id : DefinitionId} (h : Reaches id env) :
      Regular catalog Reaches Through env (.recursive id none)
  | recursive {env : List BoundType} {id : DefinitionId} {args : List Description}
      (h : Reaches id (args.map (.mk · env))) : Regular catalog Reaches Through env (.recursive id (some args))
  | applied {env : List BoundType} {id : DefinitionId} {args : List Description}
      (h : Reaches id (args.map (.mk · env))) : Regular catalog Reaches Through env (.applied id args)

/-- The bodies of the definitions that are reached are regular, and reach no others. -/
def Catalog.IsRegular (catalog : Catalog) (Reaches : DefinitionId → List BoundType → Prop)
    (Through : DefinitionId → Nat → Prop) : Prop :=
  ∀ id env body, Reaches id env → catalog.body? id = some body → body.Regular catalog Reaches Through env

namespace Description

variable {catalog : Catalog} {Reaches : DefinitionId → List BoundType → Prop}
  {Through : DefinitionId → Nat → Prop} {env : List BoundType} {d : Description}

theorem Regular.of_product {parts : List Description}
    (h : Regular catalog Reaches Through env (.product parts)) : ∀ d ∈ parts, Regular catalog Reaches Through env d := by
  cases h with
  | product h => exact h
  | variant hd _ _ _ => cases hd

theorem Regular.of_list (h : Regular catalog Reaches Through env (.list d)) :
    Regular catalog Reaches Through env d := by
  cases h with
  | list h => exact h
  | variant hd _ _ _ => cases hd

theorem Regular.of_array {stated : Option ElementType}
    (h : Regular catalog Reaches Through env (.array d stated)) :
    stated = none ∧ Regular catalog Reaches Through env d := by
  cases h with
  | array h => exact ⟨rfl, h⟩
  | variant hd _ _ _ => cases hd

theorem Regular.of_option (h : Regular catalog Reaches Through env (.option d)) :
    Regular catalog Reaches Through env d := by
  cases h with
  | option h => exact h
  | variant hd _ _ _ => cases hd

theorem Regular.of_primitive {name : Text} (h : Regular catalog Reaches Through env (.primitive name)) :
    Primitive.ofName? name ≠ some .float := by
  cases h with
  | primitive hname => exact hname
  | variant hd _ _ _ => cases hd

theorem Regular.of_record {fields : List (Field Description)} {instanceOf : Option ClassInfo}
    {extra : Bool} (h : Regular catalog Reaches Through env (.record fields instanceOf extra)) :
    instanceOf = none ∧ (∀ f ∈ fields, f.rule = .never) ∧
      (∀ f ∈ fields, ∀ d dflt, f.presence = .required ∨ f.presence = .option → f.type = some d →
        f.default = some dflt → HasType catalog (fun f => f.rule = .never) Through 0 env d dflt.value) ∧
      ∀ f ∈ fields, ∀ d, f.presence ≠ .sexpBool → f.type = some d →
        Regular catalog Reaches Through env d := by
  cases h with
  | record hrules hdefault h => exact ⟨rfl, hrules, hdefault, h⟩
  | variant hd _ _ _ => cases hd

theorem Regular.of_parameter {index : Int} {name : Option Text}
    (h : Regular catalog Reaches Through env (.parameter index name)) {env' : List BoundType}
    (ht : env[index.toNat]? = some (.mk d env')) : Regular catalog Reaches Through env' d := by
  cases h with
  | parameter h => exact h _ _ ht
  | variant hd _ _ _ => cases hd

theorem Regular.of_definition {id : DefinitionId}
    (h : Regular catalog Reaches Through env (.recursive id none)) : Reaches id env := by
  cases h with
  | definition h => exact h
  | variant hd _ _ _ => cases hd

theorem Regular.of_recursive {id : DefinitionId} {args : List Description}
    (h : Regular catalog Reaches Through env (.recursive id (some args))) :
    Reaches id (args.map (.mk · env)) := by
  cases h with
  | recursive h => exact h
  | variant hd _ _ _ => cases hd

theorem Regular.of_applied {id : DefinitionId} {args : List Description}
    (h : Regular catalog Reaches Through env (.applied id args)) : Reaches id (args.map (.mk · env)) := by
  cases h with
  | applied h => exact h
  | variant hd _ _ _ => cases hd

/-- The elements of an array are no floats, unless so stated. -/
theorem Regular.isFloat_storedAs (h : Regular catalog Reaches Through env d) :
    (storedAs d none).isFloat = false := by
  cases d with
  | primitive name =>
    have hname := h.of_primitive
    rw [storedAs]
    cases hp : Primitive.ofName? name with
    | none => rfl
    | some p =>
      cases p with
      | float => exact absurd hp hname
      | _ => rfl
  | _ => rfl

/-- The types of the fields of a regular record, as those of their values. -/
theorem Regular.valueType {f : Field Description} (h : ∀ d, f.presence ≠ .sexpBool →
    f.type = some d → Regular catalog Reaches Through env d) (hb : f.presence ≠ .sexpBool)
    (hd : f.valueType = some d) : Regular catalog Reaches Through env d := by
  obtain ⟨t, ht, rfl⟩ := Option.map_eq_some_iff.1 hd
  have htype := h t hb ht
  cases hp : f.presence with
  | sexpList => exact .list htype
  | sexpArray => exact .array htype
  | _ => exact htype

end Description

end TypedSexp
