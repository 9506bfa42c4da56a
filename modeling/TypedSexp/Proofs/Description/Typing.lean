import TypedSexp.Derivation.Derive
import TypedSexp.Proofs.Derivation.Built
import TypedSexp.Proofs.Number.Rounding
import TypedSexp.Proofs.Value.Likeness
import TypedSexp.Value.Storage
/-!
# The values of a type

`HasType` relates descriptions to their values. It is about descriptions alone: no plan, converter
or deriver occurs in it. Values of references are those of the definition's body, so the values of a
recursive type are the ones with a finite derivation. `Through` says which definitions may be gone
through; whether derivation accepts these (`Catalog.Accepts`) is another matter.

A default is a value of its field. One that is written, so that it can be compared by its tree, may
hold fields with such defaults in turn; `room` is how deep they are all together.
-/

namespace TypedSexp

/-- A description with what its parameters stand for. -/
inductive BoundType where
  | mk (description : Description) (params : List BoundType)

/-- Derivation accepts the definition, whichever converters it is applied to and whatever is
remembered. -/
def Catalog.Accepts (catalog : Catalog) (id : DefinitionId) (count : Nat) : Prop :=
  ∀ (args : List Converter) (d : Deriver), args.length = count →
    ∃ c, (Derivation.ofDefinition catalog id args).result d = .ok c

/-! ## Classes and rules -/

/-- The constructor is the last one of its class, which therefore decides the tag. -/
def Constructor.OwnsClass (cs : List (Constructor Description)) (c : Constructor Description) : Prop :=
  ∀ k, c.instanceOf = some k →
    (cs.filter fun c' => c'.instanceOf.any fun i => i.name == k.name).getLast? = some c

namespace Field

/-- The rule of the field compares with the default. -/
def Compares (f : Field Description) : Prop := f.rule = .ifDefault ∨ f.rule = .ifDefaultSexp

/-- The comparison of the field's value with the default has an answer, if there is one. -/
def Comparable (f : Field Description) (entries : List (Text × Value)) : Prop :=
  ∀ x dflt, f.rule = .ifDefault → entries.lookup f.name = some x → f.default = some dflt →
    ∃ b, x.same dflt.value = .ok b

/-- The field reads as its default where it is left out. -/
def Restores (f : Field Description) : Prop :=
  Description.absentValue f f.stored = f.default.map Default.value

end Field

/-- The value is left out in any case where a field of this presence holds it. -/
def Presence.Omits : Presence → Value → Prop
  | .sexpOption, v => v = .none
  | .sexpList, v => v = .list []
  | .sexpArray, v => ∃ e, v = .vector e []
  | .sexpBool, v => v = .bool false
  | _, _ => False

/-! ## Types -/

/-- The value is one of the built-in type. -/
inductive Primitive.Holds : Primitive → Value → Prop
  | unit : Holds .unit .none
  | bool (b : Bool) : Holds .bool (.bool b)
  | int {n : Int} {t : Text} (hn : Spelling.writeInt? n = some t) : Holds .int (.int n)
  | float {x : Binary64} (hx : Spelling.readFloat? x.toText = some x.forgetOrigin) :
      Holds .float (.float x)
  | string (t : Text) : Holds .string (.text t)
  | char (c : CodePoint) : Holds .char (.text [c])
  | bytes (b : Utf8.Bytes) : Holds .bytes (.bytes b)
  | sexp (s : Sexp) : Holds .sexp (.sexp s)

/-- The value is one of the description, whose parameters stand for `env`. Fields of records are
those that are admitted, and references lead through these definitions, applied to so many types. -/
inductive HasType (catalog : Catalog) (Admits : Field Description → Prop)
    (Through : DefinitionId → Nat → Prop) : Nat → List BoundType → Description → Value → Prop
  | primitive {room : Nat} {env : List BoundType} {name : Text} {p : Primitive} {v : Value}
      (hp : Primitive.ofName? name = some p) (hv : p.Holds v) :
      HasType catalog Admits Through room env (.primitive name) v
  | product {room : Nat} {env : List BoundType} {parts : List Description} {vs : List Value}
      (hlen : parts.length = vs.length)
      (h : ∀ d v, (d, v) ∈ parts.zip vs → HasType catalog Admits Through room env d v) :
      HasType catalog Admits Through room env (.product parts) (.tuple vs)
  | list {room : Nat} {env : List BoundType} {d : Description} {vs : List Value}
      (h : ∀ v ∈ vs, HasType catalog Admits Through room env d v) :
      HasType catalog Admits Through room env (.list d) (.list vs)
  | array {room : Nat} {env : List BoundType} {d : Description} {stated : Option ElementType}
      {vs : List Value}
      (hstored : ∀ v ∈ vs, Storage.store (Description.storedAs d stated) v = .ok v)
      (h : ∀ v ∈ vs, HasType catalog Admits Through room env d v) :
      HasType catalog Admits Through room env (.array d stated)
        (.vector (Description.storedAs d stated) vs)
  | nothing {room : Nat} {env : List BoundType} {d : Description} :
      HasType catalog Admits Through room env (.option d) .none
  | something {room : Nat} {env : List BoundType} {d : Description} {v : Value} (hne : v ≠ .none)
      (h : HasType catalog Admits Through room env d v) :
      HasType catalog Admits Through room env (.option d) v
  | record {room below : Nat} {env : List BoundType} {fields : List (Field Description)}
      {instanceOf : Option ClassInfo} {extra : Bool} {entries : List (Text × Value)}
      (hadmits : ∀ f ∈ fields, Admits f) (hcomparable : ∀ f ∈ fields, f.Comparable entries)
      (hnodup : (entries.map Prod.fst).Nodup)
      (hnames : ∀ name, name ∈ entries.map Prod.fst ↔ name ∈ fields.map Field.name)
      (hclass : ∀ k, instanceOf = some k → entries.map Prod.fst = k.fields)
      (htyped : ∀ f ∈ fields, f.presence ≠ .sexpBool → f.type ≠ none)
      (hflag : ∀ f ∈ fields, ∀ v, f.presence = .sexpBool → entries.lookup f.name = some v →
        ∃ b, v = .bool b)
      (hvalue : ∀ f ∈ fields, ∀ d v, f.presence ≠ .sexpBool → f.valueType = some d →
        entries.lookup f.name = some v → (f.presence = .sexpOption → v ≠ .none) →
        HasType catalog Admits Through room env d v)
      (hflagDefault : ∀ f ∈ fields, ∀ dflt, f.presence = .sexpBool → f.Compares →
        f.default = some dflt → ∃ b, dflt.value = .bool b)
      (hdefault : ∀ f ∈ fields, ∀ d dflt, f.presence ≠ .sexpBool → f.Compares →
        f.valueType = some d → f.default = some dflt →
        (f.presence = .sexpOption → f.rule = .ifDefault → dflt.value ≠ .none) →
        HasType catalog Admits Through below env d dflt.value)
      (hroom : ∀ f ∈ fields, ∀ dflt, f.rule = .ifDefaultSexp → f.default = some dflt →
        dflt.value.depth + below ≤ room) :
      HasType catalog Admits Through room env (.record fields instanceOf extra)
        (.ofFields instanceOf entries)
  | variant {room : Nat} {env : List BoundType} {d : Description} {folding : Bool}
      {cs : List (Constructor Description)} {c : Constructor Description} {vs : List Value}
      (hd : d.IsVariant folding cs) (htags : (cs.map Constructor.tag).Nodup) (hc : c ∈ cs)
      (hclass : c.OwnsClass cs) (hfields : ∀ k, c.instanceOf = some k → k.fields.length = vs.length)
      (hr : c.record = none) (hs : c.spliced = false) (hlen : c.args.length = vs.length)
      (h : ∀ x v, (x, v) ∈ c.args.zip vs → HasType catalog Admits Through room env x v) :
      HasType catalog Admits Through room env d (.ofArguments c.tag c.instanceOf vs)
  | spliced {room : Nat} {env : List BoundType} {d x : Description} {folding : Bool}
      {cs : List (Constructor Description)} {c : Constructor Description} {vs : List Value}
      (hd : d.IsVariant folding cs) (htags : (cs.map Constructor.tag).Nodup) (hc : c ∈ cs)
      (hclass : c.OwnsClass cs) (hfields : ∀ k, c.instanceOf = some k → k.fields.length = 1)
      (hr : c.record = none) (hs : c.spliced = true) (ha : c.args = [x])
      (h : ∀ v ∈ vs, HasType catalog Admits Through room env x v) :
      HasType catalog Admits Through room env d (.ofArguments c.tag c.instanceOf [.list vs])
  | inline {room : Nat} {env : List BoundType} {d r : Description} {folding : Bool}
      {cs : List (Constructor Description)} {c : Constructor Description} {v : Value}
      (hd : d.IsVariant folding cs) (htags : (cs.map Constructor.tag).Nodup) (hc : c ∈ cs)
      (hclass : c.OwnsClass cs) (hr : c.inlineRecord = some r)
      (h : HasType catalog Admits Through room env r v) :
      HasType catalog Admits Through room env d (.ofInline c.tag c.instanceOf v)
  | parameter {room : Nat} {env env' : List BoundType} {index : Int} {name : Option Text}
      {d : Description} {v : Value} (hi : 0 ≤ index) (ht : env[index.toNat]? = some (.mk d env'))
      (h : HasType catalog Admits Through room env' d v) :
      HasType catalog Admits Through room env (.parameter index name) v
  | definition {room : Nat} {env : List BoundType} {id : DefinitionId} {body : Description}
      {v : Value} (hb : catalog.body? id = some body) (ht : Through id env.length)
      (h : HasType catalog Admits Through room env body v) :
      HasType catalog Admits Through room env (.recursive id none) v
  | recursive {room : Nat} {env : List BoundType} {id : DefinitionId} {args : List Description}
      {v : Value}
      (h : HasType catalog Admits Through room (args.map (.mk · env)) (.recursive id none) v) :
      HasType catalog Admits Through room env (.recursive id (some args)) v
  | applied {room : Nat} {env : List BoundType} {id : DefinitionId} {args : List Description}
      {v : Value}
      (h : HasType catalog Admits Through room (args.map (.mk · env)) (.recursive id none) v) :
      HasType catalog Admits Through room env (.applied id args) v

/-- The value is one of the field, where `P` says which values a description has. Flags have no
description, and nothing is a value of a field that leaves it out. -/
structure Field.Holds (P : Description → Value → Prop) (f : Field Description) (v : Value) : Prop where
  flag : f.presence = .sexpBool → ∃ b, v = .bool b
  value : ∀ d, f.presence ≠ .sexpBool → f.valueType = some d →
    (f.presence = .sexpOption → v ≠ .none) → P d v

/-- The value is one of the field, and so is the default that its rule compares with. A default that
is written is one of the description. -/
structure Field.Each (P : Nat → Description → Value → Prop) (room : Nat) (f : Field Description)
    (v : Value) : Prop where
  holds : f.Holds (P room) v
  default : ∃ below,
    (∀ dflt, f.Compares → f.default = some dflt → f.Holds (P below) dflt.value) ∧
    ∀ d dflt, f.rule = .ifDefaultSexp → f.presence ≠ .sexpBool → f.valueType = some d →
      f.default = some dflt → P below d dflt.value ∧ dflt.value.depth + below ≤ room

theorem Field.Holds.mono {P Q : Description → Value → Prop} {f : Field Description} {v : Value}
    (h : f.Holds P v) (hPQ : ∀ d v, P d v → Q d v) : f.Holds Q v :=
  ⟨h.flag, fun d hb hd hne => hPQ d v (h.value d hb hd hne)⟩

theorem Field.Each.mono {P Q : Nat → Description → Value → Prop} {room : Nat} {f : Field Description}
    {v : Value} (h : f.Each P room v) (hPQ : ∀ room d v, P room d v → Q room d v) :
    f.Each Q room v := by
  obtain ⟨below, hdefault, hwritten⟩ := h.default
  refine ⟨h.holds.mono (hPQ room), below, fun dflt hc hdflt => ?_, fun d dflt hr hb hd hdflt => ?_⟩
  · exact (hdefault dflt hc hdflt).mono (hPQ below)
  · obtain ⟨hP, hroom⟩ := hwritten d dflt hr hb hd hdflt
    exact ⟨hPQ below d _ hP, hroom⟩

/-- The rules for the fields of records say what a field holds. -/
theorem Field.Each.of_rules {P : Nat → Description → Value → Prop} {room below : Nat}
    {f : Field Description} {v : Value} (hflag : f.presence = .sexpBool → ∃ b, v = .bool b)
    (hvalue : ∀ d, f.presence ≠ .sexpBool → f.valueType = some d →
      (f.presence = .sexpOption → v ≠ .none) → P room d v)
    (hflagDefault : ∀ dflt, f.presence = .sexpBool → f.Compares → f.default = some dflt →
      ∃ b, dflt.value = .bool b)
    (hdefault : ∀ d dflt, f.presence ≠ .sexpBool → f.Compares → f.valueType = some d →
      f.default = some dflt →
      (f.presence = .sexpOption → f.rule = .ifDefault → dflt.value ≠ .none) → P below d dflt.value)
    (hroom : ∀ dflt, f.rule = .ifDefaultSexp → f.default = some dflt →
      dflt.value.depth + below ≤ room) : f.Each P room v := by
  refine ⟨⟨hflag, hvalue⟩, below, fun dflt hc hdflt => ?_, fun d dflt hr hb hd hdflt => ?_⟩
  · exact ⟨fun hb => hflagDefault dflt hb hc hdflt,
      fun d hb hd hne => hdefault d dflt hb hc hd hdflt fun hp _ => hne hp⟩
  · refine ⟨hdefault d dflt hb (.inr hr) hd hdflt fun _ hr' => ?_, hroom dflt hr hdflt⟩
    exact absurd (hr.symm.trans hr') (by simp)

/-- The entries are values of the fields, one for each: the rules for the values of records, whether
or not the fields are admitted and can be compared. -/
structure HasEntries (catalog : Catalog) (Admits : Field Description → Prop)
    (Through : DefinitionId → Nat → Prop) (room : Nat) (env : List BoundType)
    (fields : List (Field Description)) (instanceOf : Option ClassInfo)
    (entries : List (Text × Value)) : Prop where
  nodup : (entries.map Prod.fst).Nodup
  names : ∀ name, name ∈ entries.map Prod.fst ↔ name ∈ fields.map Field.name
  ordered : ∀ k, instanceOf = some k → entries.map Prod.fst = k.fields
  typed : ∀ f ∈ fields, f.presence ≠ .sexpBool → f.type ≠ none
  each : ∀ f ∈ fields, ∀ v, entries.lookup f.name = some v →
    f.Each (fun room d v => HasType catalog Admits Through room env d v) room v

/-! ## What a value of a type is -/

section Inversion

variable {catalog : Catalog} {Admits : Field Description → Prop} {Through : DefinitionId → Nat → Prop}
  {room : Nat} {env : List BoundType} {d : Description} {v : Value}

theorem HasType.of_primitive {name : Text}
    (h : HasType catalog Admits Through room env (.primitive name) v) :
    ∃ p, Primitive.ofName? name = some p ∧ p.Holds v := by
  cases h with
  | primitive hp hv => exact ⟨_, hp, hv⟩
  | variant hd _ _ _ _ _ _ _ _ => cases hd
  | spliced hd _ _ _ _ _ _ _ _ => cases hd
  | inline hd _ _ _ _ _ => cases hd

theorem HasType.of_product {parts : List Description}
    (h : HasType catalog Admits Through room env (.product parts) v) :
    ∃ vs, v = .tuple vs ∧ parts.length = vs.length ∧
      ∀ d v, (d, v) ∈ parts.zip vs → HasType catalog Admits Through room env d v := by
  cases h with
  | product hlen h => exact ⟨_, rfl, hlen, h⟩
  | variant hd _ _ _ _ _ _ _ _ => cases hd
  | spliced hd _ _ _ _ _ _ _ _ => cases hd
  | inline hd _ _ _ _ _ => cases hd

theorem HasType.of_list (h : HasType catalog Admits Through room env (.list d) v) :
    ∃ vs, v = .list vs ∧ ∀ v ∈ vs, HasType catalog Admits Through room env d v := by
  cases h with
  | list h => exact ⟨_, rfl, h⟩
  | variant hd _ _ _ _ _ _ _ _ => cases hd
  | spliced hd _ _ _ _ _ _ _ _ => cases hd
  | inline hd _ _ _ _ _ => cases hd

theorem HasType.of_array {stated : Option ElementType}
    (h : HasType catalog Admits Through room env (.array d stated) v) :
    ∃ vs, v = .vector (Description.storedAs d stated) vs ∧
      (∀ v ∈ vs, Storage.store (Description.storedAs d stated) v = .ok v) ∧
      ∀ v ∈ vs, HasType catalog Admits Through room env d v := by
  cases h with
  | array hstored h => exact ⟨_, rfl, hstored, h⟩
  | variant hd _ _ _ _ _ _ _ _ => cases hd
  | spliced hd _ _ _ _ _ _ _ _ => cases hd
  | inline hd _ _ _ _ _ => cases hd

theorem HasType.of_option (h : HasType catalog Admits Through room env (.option d) v) :
    v = .none ∨ v ≠ .none ∧ HasType catalog Admits Through room env d v := by
  cases h with
  | nothing => exact .inl rfl
  | something hne h => exact .inr ⟨hne, h⟩
  | variant hd _ _ _ _ _ _ _ _ => cases hd
  | spliced hd _ _ _ _ _ _ _ _ => cases hd
  | inline hd _ _ _ _ _ => cases hd

theorem HasType.of_record {fields : List (Field Description)} {instanceOf : Option ClassInfo}
    {extra : Bool} (h : HasType catalog Admits Through room env (.record fields instanceOf extra) v) :
    ∃ entries, v = .ofFields instanceOf entries ∧ (∀ f ∈ fields, Admits f) ∧
      (∀ f ∈ fields, f.Comparable entries) ∧
      HasEntries catalog Admits Through room env fields instanceOf entries := by
  cases h with
  | record hadmits hcomparable hnodup hnames hclass htyped hflag hvalue hflagDefault hdefault hroom =>
    refine ⟨_, rfl, hadmits, hcomparable, hnodup, hnames, hclass, htyped, fun f hf v hv => ?_⟩
    exact .of_rules (hflag f hf v · hv) (hvalue f hf · v · · hv) (hflagDefault f hf) (hdefault f hf)
      (hroom f hf)
  | variant hd _ _ _ _ _ _ _ _ => cases hd
  | spliced hd _ _ _ _ _ _ _ _ => cases hd
  | inline hd _ _ _ _ _ => cases hd

theorem HasType.of_parameter {index : Int} {name : Option Text}
    (h : HasType catalog Admits Through room env (.parameter index name) v) :
    ∃ d env', env[index.toNat]? = some (.mk d env') ∧ HasType catalog Admits Through room env' d v := by
  cases h with
  | parameter _ ht h => exact ⟨_, _, ht, h⟩
  | variant hd _ _ _ _ _ _ _ _ => cases hd
  | spliced hd _ _ _ _ _ _ _ _ => cases hd
  | inline hd _ _ _ _ _ => cases hd

theorem HasType.of_definition {id : DefinitionId}
    (h : HasType catalog Admits Through room env (.recursive id none) v) :
    ∃ body, catalog.body? id = some body ∧ HasType catalog Admits Through room env body v := by
  cases h with
  | definition hb _ h => exact ⟨_, hb, h⟩
  | variant hd _ _ _ _ _ _ _ _ => cases hd
  | spliced hd _ _ _ _ _ _ _ _ => cases hd
  | inline hd _ _ _ _ _ => cases hd

theorem HasType.of_recursive {id : DefinitionId} {args : List Description}
    (h : HasType catalog Admits Through room env (.recursive id (some args)) v) :
    HasType catalog Admits Through room (args.map (.mk · env)) (.recursive id none) v := by
  cases h with
  | recursive h => exact h
  | variant hd _ _ _ _ _ _ _ _ => cases hd
  | spliced hd _ _ _ _ _ _ _ _ => cases hd
  | inline hd _ _ _ _ _ => cases hd

theorem HasType.of_applied {id : DefinitionId} {args : List Description}
    (h : HasType catalog Admits Through room env (.applied id args) v) :
    HasType catalog Admits Through room (args.map (.mk · env)) (.recursive id none) v := by
  cases h with
  | applied h => exact h
  | variant hd _ _ _ _ _ _ _ _ => cases hd
  | spliced hd _ _ _ _ _ _ _ _ => cases hd
  | inline hd _ _ _ _ _ => cases hd

end Inversion

end TypedSexp
