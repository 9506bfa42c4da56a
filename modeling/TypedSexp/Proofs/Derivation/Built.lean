import TypedSexp.Derivation.Build
/-!
# What derivation builds

`Built` relates a description to the plans that may be derived from it, where the parameters stand
for given converters. It says what a plan is, and nothing about identities, names and the order of
derivation. `Trusted` is what is known of the arguments of links: enough to follow them later. A
definition without arguments of its own (`.recursive id none`) is applied to the parameters.
-/

namespace TypedSexp

/-- The body of a definition, if it is stated. -/
def Catalog.body? (catalog : Catalog) (id : DefinitionId) : Option Description :=
  catalog[id]?.bind Definition.body

/-- Values of a field that are left out in any case. -/
def Presence.omission : Presence → Omission
  | .sexpOption => .nothing
  | .sexpList => .empty
  | .sexpArray => .empty
  | _ => .never

/-- The description of the values of a field, from the description that it states. -/
def Presence.valueType (p : Presence) (stated : Description) : Description :=
  match p with
  | .sexpList => .list stated
  | .sexpArray => .array stated none
  | _ => stated

namespace Field

/-- The elements of an array field without a statement. -/
def stored (f : Field Description) : ElementType :=
  (f.type.map fun d => Description.storedAs d none).getD .any

/-- The description of the values of a field that is present. -/
def valueType (f : Field Description) : Option Description := f.type.map f.presence.valueType

end Field

/-- A field with its plan, the converter aside. -/
structure FieldPlan.Fits (f : Field Description) (p : FieldPlan Plan) : Prop where
  name : p.name = f.name
  flag : f.presence = .sexpBool → p.form = .flag
  valued : f.presence ≠ .sexpBool → ∃ d c, f.valueType = some d ∧ p.form = .valued c f.presence.omission
  absent : p.absent = Description.absentValue f f.stored
  dropping : Description.dropping f = .ok p.dropping
  absence : ∀ d, f.presence ≠ .sexpBool → f.type = some d → Description.checkAbsence f d = .ok ()

/-- The description of a field's value, with its plan. -/
inductive FieldPlan.Part (f : Field Description) (p : FieldPlan Plan) : Description → Plan → Prop
  | value {d : Description} {c : Converter} {omission : Omission} (hd : f.valueType = some d)
      (hp : p.form = .valued c omission) : Part f p d c.plan

/-- The fields of a constructor's record as a description. -/
def Constructor.inlineRecord (c : Constructor Description) : Option Description :=
  match c.record with
  | some (.record fields instanceOf extra) => some (.record fields (c.instanceOf <|> instanceOf) extra)
  | _ => none

/-- A constructor with its plan, the converters aside. -/
structure CasePlan.Fits (c : Constructor Description) (p : CasePlan Plan) : Prop where
  tag : p.tag = c.tag
  instanceOf : p.instanceOf = c.instanceOf
  constant : c.record = none → c.spliced = false → c.args = [] → p.form = .constant
  arguments : c.record = none → c.spliced = false → c.args ≠ [] →
    ∃ cs, p.form = .arguments cs ∧ c.args.length = cs.length
  splice : c.record = none → c.spliced = true → ∃ d k, c.args = [d] ∧ p.form = .spliced k
  inline : c.record ≠ none → c.args = [] ∧ c.spliced = false ∧
    ∃ d r, c.inlineRecord = some d ∧ p.form = .record r

/-- The descriptions inside a constructor, with their plans. -/
inductive CasePlan.Part (c : Constructor Description) (p : CasePlan Plan) : Description → Plan → Prop
  | argument {d : Description} {k : Converter} {cs : List Converter} (hp : p.form = .arguments cs)
      (hd : (d, k) ∈ c.args.zip cs) : Part c p d k.plan
  | element {d : Description} {k : Converter} (hp : p.form = .spliced k) (hd : c.args = [d]) :
      Part c p d k.plan
  | fields {d : Description} {r : RecordPlan Plan} (hp : p.form = .record r)
      (hd : c.inlineRecord = some d) : Part c p d (.record r)

/-- The description is a variant of these constructors; `folding` says how tags are compared. -/
inductive Description.IsVariant : Description → Bool → List (Constructor Description) → Prop
  | sum {cs : List (Constructor Description)} : IsVariant (.sum (cs.map .constructor)) true cs
  | polyVariant {cases : List (Case Description)} {cs : List (Constructor Description)}
      (h : flatCases cases = cs.map .constructor) : IsVariant (.polyVariant cases) false cs

/-- The plan is one of the description, whose parameters are `params`. -/
inductive Built (catalog : Catalog) (Trusted : List Converter → Prop) :
    List Converter → Description → Plan → Prop
  | primitive {params : List Converter} {name : Text} {p : Primitive}
      (h : Primitive.ofName? name = some p) :
      Built catalog Trusted params (.primitive name) (.primitive p)
  | product {params cs : List Converter} {parts : List Description} {label : Text}
      (hlen : parts.length = cs.length)
      (hparts : ∀ d c, (d, c) ∈ parts.zip cs → Built catalog Trusted params d c.plan) :
      Built catalog Trusted params (.product parts) (.tuple label cs)
  | record {params : List Converter} {fields : List (Field Description)}
      {plans : List (FieldPlan Plan)} {instanceOf : Option ClassInfo} {extra : Bool} {label : Text}
      (hnames : (fields.map Field.name).Nodup) (hlen : fields.length = plans.length)
      (hfits : ∀ f p, (f, p) ∈ fields.zip plans → p.Fits f)
      (hparts : ∀ f p d q, (f, p) ∈ fields.zip plans → FieldPlan.Part f p d q →
        Built catalog Trusted params d q) :
      Built catalog Trusted params (.record fields instanceOf extra)
        (.record ⟨label, instanceOf, extra, plans⟩)
  | variant {params : List Converter} {d : Description} {cs : List (Constructor Description)}
      {plans : List (CasePlan Plan)} {folding : Bool} {label : Text}
      (hd : d.IsVariant folding cs) (htags : (cs.map Constructor.tag).Nodup)
      (hlen : cs.length = plans.length) (hfits : ∀ c p, (c, p) ∈ cs.zip plans → p.Fits c)
      (hparts : ∀ c p d q, (c, p) ∈ cs.zip plans → CasePlan.Part c p d q →
        Built catalog Trusted params d q) :
      Built catalog Trusted params d (.variant label folding plans)
  | list {params : List Converter} {d : Description} {c : Converter} {label : Text}
      (h : Built catalog Trusted params d c.plan) :
      Built catalog Trusted params (.list d) (.list label c)
  | array {params : List Converter} {d : Description} {c : Converter} {label : Text}
      {stated : Option ElementType} (h : Built catalog Trusted params d c.plan) :
      Built catalog Trusted params (.array d stated)
        (.array label (Description.storedAs d stated) c)
  | option {params : List Converter} {d : Description} {c : Converter} {label : Text}
      (hd : d.isOption = false) (h : Built catalog Trusted params d c.plan) :
      Built catalog Trusted params (.option d) (.option label c)
  | sealed {params : List Converter} {label : Text} :
      Built catalog Trusted params .sealed (.sealed label)
  | custom {params : List Converter} {name : Text} {k : Custom}
      (h : Trusted [.ofCustom name k]) :
      Built catalog Trusted params (.given (.ofCustom name k)) (.custom k)
  | parameter {params : List Converter} {index : Int} {name : Option Text} {c : Converter}
      (hi : 0 ≤ index) (h : params[index.toNat]? = some c) :
      Built catalog Trusted params (.parameter index name) c.plan
  | link {params : List Converter} {cell : Nat} {id : DefinitionId} (ht : Trusted params) :
      Built catalog Trusted params (.recursive id none) (.link cell id params)
  | body {params : List Converter} {id : DefinitionId} {body : Description} {plan : Plan}
      (hb : catalog.body? id = some body) (h : Built catalog Trusted params body plan) :
      Built catalog Trusted params (.recursive id none) plan
  | recursive {params cs : List Converter} {id : DefinitionId} {args : List Description}
      {plan : Plan} (hlen : args.length = cs.length)
      (hargs : ∀ d c, (d, c) ∈ args.zip cs → Built catalog Trusted params d c.plan)
      (h : Built catalog Trusted cs (.recursive id none) plan) :
      Built catalog Trusted params (.recursive id (some args)) plan
  | applied {params cs : List Converter} {id : DefinitionId} {args : List Description}
      {plan : Plan} (hlen : args.length = cs.length)
      (hargs : ∀ d c, (d, c) ∈ args.zip cs → Built catalog Trusted params d c.plan)
      (h : Built catalog Trusted cs (.recursive id none) plan) :
      Built catalog Trusted params (.applied id args) plan

/-! ## Later catalogs -/

/-- Every body that is stated stays stated. -/
def Catalog.Extends (later earlier : Catalog) : Prop :=
  ∀ id body, earlier.body? id = some body → later.body? id = some body

/-- A plan is still one of its description when more definitions are stated, and when more
arguments are trusted. -/
theorem Built.mono {catalog later : Catalog} {Trusted Trusted' : List Converter → Prop}
    (hcatalog : later.Extends catalog) (htrusted : ∀ cs, Trusted cs → Trusted' cs)
    {params : List Converter} {d : Description} {plan : Plan}
    (h : Built catalog Trusted params d plan) : Built later Trusted' params d plan := by
  induction h with
  | primitive h => exact .primitive h
  | product hlen _ ih => exact .product hlen ih
  | record hnames hlen hfits _ ih => exact .record hnames hlen hfits ih
  | variant hd htags hlen hfits _ ih => exact .variant hd htags hlen hfits ih
  | list _ ih => exact .list ih
  | array _ ih => exact .array ih
  | option hd _ ih => exact .option hd ih
  | sealed => exact .sealed
  | custom h => exact .custom (htrusted _ h)
  | parameter hi h => exact .parameter hi h
  | link ht => exact .link (htrusted _ ht)
  | body hb _ ih => exact .body (hcatalog _ _ hb) ih
  | recursive hlen _ _ ihargs ih => exact .recursive hlen ihargs ih
  | applied hlen _ _ ihargs ih => exact .applied hlen ihargs ih

end TypedSexp
