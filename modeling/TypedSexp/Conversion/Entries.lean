import TypedSexp.Converter.Basic
import TypedSexp.Text.CaseFold
/-!
# Entries of records and tags of variants

What reading decides before it looks at any value: which entry belongs to which field of a record,
and which constructor a tag names. Neither depends on the order of the fields or constructors.
-/

namespace TypedSexp

/-! ## Entries -/

namespace Entries

/-- The name of an entry, which is a list with an atom in front. -/
def name? : Node → Option Text
  | .list (.atom name _ :: _) _ => some name
  | _ => none

/-- The entries of declared fields, in the order in which they are written. An entry of another
name is passed over if `tolerant`, and refused otherwise. -/
def gather (what : Text) (names : List Text) (tolerant : Bool) :
    List (Text × Node) → List Node → Except ReadError (List (Text × Node))
  | present, [] => .ok present.reverse
  | present, node :: rest =>
    match name? node with
    | none => .error (.about node (.unexpectedShape what "a (field value) pair" none))
    | some name =>
      if !names.contains name then
        if tolerant then gather what names tolerant present rest
        else .error (.about node (.unknownField what name names))
      else if (present.lookup name).isSome then
        .error (.about node (.duplicateField what name))
      else gather what names tolerant ((name, node) :: present) rest

/-- The one value of an entry. -/
def value (what name : Text) (entry : Node) : Except ReadError Node :=
  match entry with
  | .list [_, v] _ => .ok v
  | .list parts _ =>
    let got := Text.ofInt ((parts.length : Int) - 1)
    .error (.about entry
      (.unexpectedShape what ("(" ++ name ++ " value)") (some ("got " ++ got ++ " values"))))
  | .atom .. => .error (.about entry (.unexpectedShape what ("(" ++ name ++ " value)") none))

/-- The entry of a flag has no value. -/
def checkFlag (what name : Text) (entry : Node) : Except ReadError Unit :=
  match entry with
  | .list [_] _ => .ok ()
  | _ =>
    .error (.about entry
      (.unexpectedShape what ("(" ++ name ++ ") with no value")
        (some "boolean fields are present or absent")))

end Entries

/-- The fields that must be there and are not. -/
def RecordPlan.missing {π : Type} (r : RecordPlan π) (present : List (Text × Node)) : List Text :=
  (r.fields.filter fun f => f.absent.isNone && (present.lookup f.name).isNone).map FieldPlan.name

/-- The names of the fields. -/
def RecordPlan.names {π : Type} (r : RecordPlan π) : List Text := r.fields.map FieldPlan.name

/-! ## Classes -/

namespace ClassInfo

/-- The fields of a class with the values of their names, in order. -/
def arrange? (values : List (Text × Value)) : List Text → Option (List (Text × Value))
  | [] => some []
  | name :: names => do
    let v ← values.lookup name
    let rest ← arrange? values names
    some ((name, v) :: rest)

/-- The instance with named values, which must be exactly those of the fields. -/
def ofNamed (c : ClassInfo) (values : List (Text × Value)) : Except ReadError Value :=
  if values.all fun (name, _) => c.fields.contains name then
    match arrange? values c.fields with
    | some fields => .ok (.object c.name fields)
    | none => .error (.construction c.name)
  else .error (.construction c.name)

/-- The instance with values in order, one for each field. -/
def ofOrdered (c : ClassInfo) (values : List Value) : Except ReadError Value :=
  if values.length = c.fields.length then .ok (.object c.name (c.fields.zip values))
  else .error (.construction c.name)

end ClassInfo

/-- The value of a record: an instance of its class, or the values by name. -/
def RecordPlan.construct {π : Type} (r : RecordPlan π) (values : List (Text × Value)) :
    Except ReadError Value :=
  match r.instanceOf with
  | some c => c.ofNamed values
  | none => .ok (.record values)

/-- The value of a constructor with its arguments. -/
def CasePlan.make (tag : Text) (instanceOf : Option ClassInfo) (args : List Value) :
    Except ReadError Value :=
  match instanceOf with
  | some c => c.ofOrdered args
  | none => .ok (.variant tag args)

/-! ## Tags -/

namespace Tags

/-- A table of tags under their keys, with one more tag. A key that is taken stands for no tag any
more. -/
def enter (fold : Text → Text) (table : List (Text × Option Text)) (tag : Text) :
    List (Text × Option Text) :=
  let taken := (table.lookup (fold tag)).isSome
  (fold tag, if taken then none else some tag) :: table

/-- The declared tags under their keys. -/
def folded (fold : Text → Text) (tags : List Text) : List (Text × Option Text) :=
  tags.foldl (enter fold) []

/-- The declared tag that a tag names: the same one, or, with `folding`, the only one with the same
key. -/
def resolveBy? (fold : Text → Text) (folding : Bool) (tags : List Text) (tag : Text) : Option Text :=
  if tags.contains tag then some tag
  else if folding then ((folded fold tags).lookup (fold tag)).join
  else none

/-- The declared tag that a tag names, where the key of a tag is the tag without case. -/
def resolve? : Bool → List Text → Text → Option Text := resolveBy? Text.caseFold

end Tags

/-- The tags of constructors. -/
def CasePlan.tags {π : Type} (cases : List (CasePlan π)) : List Text := cases.map CasePlan.tag

/-- The tag of the constructor for a class; of several the last one. -/
def CasePlan.ofClass? {π : Type} (className : Text) (cases : List (CasePlan π)) : Option Text :=
  ((cases.filter fun c => c.instanceOf.any fun i => i.name == className).getLast?).map CasePlan.tag

end TypedSexp
