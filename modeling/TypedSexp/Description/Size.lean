import TypedSexp.Description.Basic
/-!
# Sizes

The number of descriptions inside a description, and of plans inside a plan; a default counts as
much as it is deep. Sizes bound how many references are followed in derivation and in conversion.
-/

namespace TypedSexp

/-- How deep a default is. -/
def defaultSize (default : Option Value) : Nat := (default.map Value.depth).getD 0

/-- How deep a stated default is. -/
def statedSize (default : Option Default) : Nat := defaultSize (default.map Default.value)

namespace Description

mutual

/-- The size of a description, itself included. -/
def size : Description → Nat
  | .product parts => sizes parts + 1
  | .record fields _ _ => fieldSizes fields + 1
  | .sum cases => caseSizes cases + 1
  | .polyVariant cases => caseSizes cases + 1
  | .list element => size element + 1
  | .array element _ => size element + 1
  | .option inner => size inner + 1
  | .recursive _ (some args) => sizes args + 1
  | .applied _ args => sizes args + 1
  | _ => 1

/-- The size of several descriptions. -/
def sizes : List Description → Nat
  | [] => 0
  | d :: ds => size d + sizes ds

/-- The size of fields. -/
def fieldSizes : List (Field Description) → Nat
  | [] => 0
  | ⟨_, some d, _, default, _, _⟩ :: fs => size d + statedSize default + fieldSizes fs
  | _ :: fs => fieldSizes fs

/-- The size of cases. -/
def caseSizes : List (Case Description) → Nat
  | [] => 0
  | .nested d :: cs => size d + caseSizes cs
  | .constructor ⟨_, args, _, some r, _⟩ :: cs => sizes args + size r + caseSizes cs
  | .constructor ⟨_, args, _, none, _⟩ :: cs => sizes args + caseSizes cs

end

end Description

/-- The size of the bodies of all definitions, and the number of the definitions. -/
def Catalog.size (catalog : Catalog) : Nat :=
  catalog.foldr (fun d n => (d.body.map Description.size).getD 0 + 1 + n) 0

/-- The default that a rule looks at. -/
def Dropping.default? : Dropping → Option Value
  | .ifEqual default => some default
  | .ifWrittenEqual default => some default
  | _ => none

namespace Plan

mutual

/-- The size of a plan, itself included. -/
def size : Plan → Nat
  | .option _ c => size c.plan + 1
  | .list _ c => size c.plan + 1
  | .array _ _ c => size c.plan + 1
  | .tuple _ cs => sizes cs + 1
  | .record r => recordSize r + 1
  | .variant _ _ cases => caseSizes cases + 1
  | .link _ _ args => sizes args + 1
  | _ => 1

/-- The size of the plans of several converters. -/
def sizes : List (Keyed Plan) → Nat
  | [] => 0
  | c :: cs => size c.plan + sizes cs

/-- The size of a record. -/
def recordSize : RecordPlan Plan → Nat
  | ⟨_, _, _, fields⟩ => fieldSizes fields

/-- The size of fields. -/
def fieldSizes : List (FieldPlan Plan) → Nat
  | [] => 0
  | ⟨_, .flag, _, _⟩ :: fs => fieldSizes fs
  | ⟨_, .valued c _, absent, dropping⟩ :: fs =>
    size c.plan + defaultSize absent + defaultSize dropping.default? + fieldSizes fs

/-- The size of cases. -/
def caseSizes : List (CasePlan Plan) → Nat
  | [] => 0
  | ⟨_, _, .constant⟩ :: cs => caseSizes cs
  | ⟨_, _, .arguments converters⟩ :: cs => sizes converters + caseSizes cs
  | ⟨_, _, .spliced c⟩ :: cs => size c.plan + caseSizes cs
  | ⟨_, _, .record r⟩ :: cs => recordSize r + caseSizes cs

end

end Plan

end TypedSexp
