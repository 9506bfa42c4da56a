import TypedSexp.Derivation.Basic
/-!
# From descriptions to plans

`build` derives the converter of a description by recursion on it. References to definitions that
are applied at once are left to a function `define`; recursive references become links. Everything
that reading and writing could stumble over is refused here: absent values that could not be
written, drop rules without a default, fields or constructors declared twice, an option directly
inside an option.
-/

namespace TypedSexp

/-- Where a description stands: the converters of the parameters, and the definition that it is in,
which names the converters in messages. -/
structure Site where
  params : List Converter
  owner : Option Text

namespace Site

/-- The label of a shape. -/
def label (s : Site) (shape : Text) : Text := s.owner.getD shape

/-- The converter of a parameter. -/
def parameter (s : Site) (index : Int) (name : Option Text) : Except DescriptionFault Converter :=
  let found := if index < 0 then none else s.params[index.toNat]?
  match found with
  | some c => .ok c
  | none =>
    let label : Text := match Diagnostic.present name with
      | some n => n
      | none => "#" ++ Text.ofInt index
    .error (.unboundParameter label s.params.length)

end Site

namespace Description

/-- The definition takes as many arguments as there are. -/
def checkArity (d : Definition) (count : Nat) : Except DescriptionFault Unit :=
  if count = d.arity then .ok () else .error (.arity d.name d.arity count)

/-- The definition with a number, if it takes as many arguments as there are. -/
def lookup (catalog : Catalog) (id : DefinitionId) (count : Nat) :
    Except DescriptionFault Definition :=
  match catalog[id]? with
  | none => .error (.undefinedType [])
  | some d => (checkArity d count).map fun _ => d

/-- What a field reads as where it is left out; a required field without a default has nothing. -/
def absentValue {δ : Type} (f : Field δ) (stored : ElementType) : Option Value :=
  match f.presence with
  | .required => f.default.map Default.value
  | .option => some ((f.default.map Default.value).getD .none)
  | .sexpOption => some .none
  | .sexpList => some (.list [])
  | .sexpArray => some (.vector stored [])
  | .sexpBool => some (.bool false)

/-- The rule of a field with its default or predicate. -/
def dropping {δ : Type} (f : Field δ) : Except DescriptionFault Dropping :=
  match f.rule with
  | .never => .ok .never
  | .ifDefault =>
    match f.default with
    | some d => .ok (.ifEqual d.value)
    | none => .error (.dropNeedsDefault f.name f.rule.name)
  | .ifDefaultSexp =>
    match f.default with
    | some d =>
      if f.presence = .sexpBool then .error (.flagNotWritten f.name)
      else .ok (.ifWrittenEqual d.value)
    | none => .error (.dropNeedsDefault f.name f.rule.name)
  | .ifPredicate =>
    match f.predicate with
    | some p => .ok (.ifHolds p)
    | none => .error (.dropNeedsPredicate f.name)

/-- The absent value of a field can be written again: an option field without a default has an
option type, and a field that leaves out nothing has no other default. -/
def checkAbsence (f : Field Description) (type : Description) : Except DescriptionFault Unit :=
  match f.presence, f.default with
  | .option, none => if type.isOption then .ok () else .error (.absenceNotWritable f.name)
  | .sexpOption, some ⟨.none, _⟩ => .ok ()
  | .sexpOption, some d => .error (.ofLiteral (.otherAbsence f.name) d.value)
  | _, _ => .ok ()

/-- The first text that occurs earlier in a list. -/
def firstRepeated? (seen : List Text) : List Text → Option Text
  | [] => none
  | t :: ts => if seen.contains t then some t else firstRepeated? (t :: seen) ts

/-- The converter of a list of values that a converter converts. -/
def listOf (site : Site) (element : Converter) : Derivation Converter :=
  .fresh (element.name ++ " list") (.list (site.label "list") element)

/-- The converter of an array of values that a converter converts. -/
def arrayOf (site : Site) (stored : ElementType) (element : Converter) : Derivation Converter :=
  .fresh (element.name ++ " array") (.array (site.label "array") stored element)

/-- A field from the converter of its type. -/
def planField (site : Site) (f : Field Description) (type : Description) (dropping : Dropping)
    (c : Converter) : Derivation (FieldPlan Plan) := do
  let stored := storedAs type none
  let form ← match f.presence with
    | .sexpList => do pure (FieldForm.valued (← listOf site c) .empty)
    | .sexpArray => do pure (FieldForm.valued (← arrayOf site stored c) .empty)
    | .sexpOption => pure (FieldForm.valued c .nothing)
    | _ => pure (FieldForm.valued c .never)
  pure ⟨f.name, form, absentValue f stored, dropping⟩

/-- A variant from its cases, each of which must have a tag of its own. -/
def planVariant (site : Site) (shape : Text) (folding : Bool) (cases : List (CasePlan Plan)) :
    Derivation Converter :=
  match firstRepeated? [] (cases.map CasePlan.tag) with
  | some tag => throw (.duplicateConstructor shape tag)
  | none => .fresh shape (.variant (site.label shape) folding cases)

variable {m : Type → Type} [Monad m] [MonadExceptOf DescriptionFault m] [MonadLiftT Derivation m]

mutual

/-- The converter of a description. -/
def build (catalog : Catalog) (define : DefinitionId → List Converter → m Converter)
    (site : Site) : Description → m Converter
  | .primitive name =>
    match Primitive.ofName? name with
    | some p => pure (.ofPrimitive p)
    | none => throw (.unknownPrimitive name)
  | .product parts => do
    let cs ← buildAll catalog define site parts
    let name : Text := "(" ++ Text.join " * " (cs.map Keyed.name) ++ ")"
    liftM (Derivation.fresh name (.tuple (site.label "tuple") cs))
  | .record fields instanceOf extra => do
    let plan ← buildRecord catalog define site instanceOf extra fields
    liftM (Derivation.fresh ((instanceOf.map ClassInfo.name).getD "record") (.record plan))
  | .sum cases => do
    let plans ← buildCases catalog define site false cases
    liftM (planVariant site "sum" true plans)
  | .polyVariant cases => do
    let plans ← buildCases catalog define site true cases
    liftM (planVariant site "variant" false plans)
  | .list element => do
    let c ← build catalog define site element
    liftM (listOf site c)
  | .array element stored => do
    let c ← build catalog define site element
    liftM (arrayOf site (storedAs element stored) c)
  | .option inner =>
    if inner.isOption then throw .nestedOption
    else do
      let c ← build catalog define site inner
      liftM (Derivation.fresh (c.name ++ " option") (.option (site.label "option") c))
  | .sealed => liftM (Derivation.fresh "opaque" (.sealed (site.label "opaque")))
  | .parameter index name => liftExcept (site.parameter index name)
  | .recursive id none => do
    let d ← liftExcept (lookup catalog id site.params.length)
    liftM (Derivation.link d.name id site.params)
  | .recursive id (some args) => do
    let cs ← buildAll catalog define site args
    let d ← liftExcept (lookup catalog id cs.length)
    liftM (Derivation.link d.name id cs)
  | .applied id args => do
    let cs ← buildAll catalog define site args
    let _ ← liftExcept (lookup catalog id cs.length)
    define id cs
  | .given c => pure c
  | .notConverter v => throw (.ofLiteral .notConverter v)
  | .foreign v => throw (.ofLiteral .notDescription v)

/-- The converters of several descriptions, in order. -/
def buildAll (catalog : Catalog) (define : DefinitionId → List Converter → m Converter)
    (site : Site) : List Description → m (List Converter)
  | [] => pure []
  | d :: ds => do
    let c ← build catalog define site d
    let cs ← buildAll catalog define site ds
    pure (c :: cs)

/-- The plan of a record. -/
def buildRecord (catalog : Catalog) (define : DefinitionId → List Converter → m Converter)
    (site : Site) (instanceOf : Option ClassInfo) (extra : Bool) :
    List (Field Description) → m (RecordPlan Plan)
  | fields => do
    let names := fields.map Field.name
    if (firstRepeated? [] names).isSome then throw (.duplicateFields names)
    let plans ← buildFields catalog define site fields
    pure ⟨site.label "record", instanceOf, extra, plans⟩

/-- The plans of fields, in order. -/
def buildFields (catalog : Catalog) (define : DefinitionId → List Converter → m Converter)
    (site : Site) : List (Field Description) → m (List (FieldPlan Plan))
  | [] => pure []
  | f :: fs => do
    let p ← buildField catalog define site f
    let ps ← buildFields catalog define site fs
    pure (p :: ps)

/-- The plan of a field. -/
def buildField (catalog : Catalog) (define : DefinitionId → List Converter → m Converter)
    (site : Site) : Field Description → m (FieldPlan Plan)
  | ⟨name, type, presence, default, statedRule, predicate⟩ => do
    let f : Field Description := ⟨name, type, presence, default, statedRule, predicate⟩
    let rule ← liftExcept (dropping f)
    if presence = .sexpBool then pure ⟨name, .flag, absentValue f .any, rule⟩
    else
      match type with
      | none => throw (.noDescription name)
      | some d => do
        liftExcept (checkAbsence f d)
        let c ← build catalog define site d
        liftM (planField site f d rule c)

/-- The plans of cases, in order; with `flat`, cases that are polymorphic variants are replaced by
theirs. -/
def buildCases (catalog : Catalog) (define : DefinitionId → List Converter → m Converter)
    (site : Site) (flat : Bool) : List (Case Description) → m (List (CasePlan Plan))
  | [] => pure []
  | .constructor c :: cs => do
    let p ← buildConstructor catalog define site c
    let ps ← buildCases catalog define site flat cs
    pure (p :: ps)
  | .nested (.polyVariant inner) :: cs =>
    if flat then do
      let ps ← buildCases catalog define site flat inner
      let qs ← buildCases catalog define site flat cs
      pure (ps ++ qs)
    else throw .notCase
  | .nested _ :: _ => throw .notCase

/-- The plan of a constructor. -/
def buildConstructor (catalog : Catalog)
    (define : DefinitionId → List Converter → m Converter) (site : Site) :
    Constructor Description → m (CasePlan Plan)
  | ⟨tag, args, instanceOf, none, spliced⟩ =>
    if spliced && args.length ≠ 1 then throw (.spliceNeedsOne tag)
    else do
      let cs ← buildAll catalog define site args
      let form := match spliced, cs with
        | true, c :: _ => CaseForm.spliced c
        | _, [] => .constant
        | _, _ => .arguments cs
      pure ⟨tag, instanceOf, form⟩
  | ⟨tag, args, instanceOf, some (.record fields inner extra), spliced⟩ =>
    if spliced || !args.isEmpty then throw (.inlineRecordExcludes tag)
    else do
      let plan ← buildRecord catalog define site (instanceOf <|> inner) extra fields
      pure ⟨tag, instanceOf, .record plan⟩
  | ⟨tag, args, _, some _, spliced⟩ =>
    throw (if spliced || !args.isEmpty then .inlineRecordExcludes tag else .notCase)

end

end Description

end TypedSexp
