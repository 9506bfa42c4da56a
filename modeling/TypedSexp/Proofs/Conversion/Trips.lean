import TypedSexp.Proofs.Conversion.Builtin
import TypedSexp.Proofs.Conversion.Variant
import TypedSexp.Proofs.Derivation.Inversion
import TypedSexp.Proofs.Description.Comparison
/-!
# Typed values make the round trip

`HasType.trips`: a value of a type makes the round trip through every plan that is built from the
type. The proof follows the typing of the value. A plan leads to a shape (`Setting.Trips`), unless it
sticks, and a shape makes the round trip if what it holds does. A field that is left out reads as its
absent value, which must be the value that its rule compares with (`Field.Restores`).
-/

namespace TypedSexp

namespace Value

theorem depth_le_depths {v : Value} : ∀ {vs : List Value}, v ∈ vs → v.depth ≤ depths vs
  | [], h => absurd h List.not_mem_nil
  | u :: vs, h => by
    rw [depths]
    rcases List.mem_cons.1 h with rfl | h
    · exact Nat.le_max_left ..
    · exact Nat.le_trans (depth_le_depths h) (Nat.le_max_right ..)

theorem depth_le_entryDepths {name : Text} {v : Value} : ∀ {entries : List (Text × Value)},
    entries.lookup name = some v → v.depth ≤ entryDepths entries
  | [], h => absurd h (by simp)
  | (n, u) :: entries, h => by
    rw [entryDepths]
    rw [List.lookup_cons] at h
    cases hn : name == n with
    | true =>
      rw [hn] at h
      obtain rfl := Option.some.inj h
      exact Nat.le_max_left ..
    | false =>
      rw [hn] at h
      exact Nat.le_trans (depth_le_entryDepths h) (Nat.le_max_right ..)

theorem entryDepths_zip : ∀ {names : List Text} {vs : List Value}, names.length = vs.length →
    entryDepths (names.zip vs) = depths vs
  | [], [], _ => rfl
  | n :: names, v :: vs, h => by
    rw [List.zip_cons_cons, entryDepths, depths, entryDepths_zip (Nat.succ.inj h)]

theorem depth_ofFields (instanceOf : Option ClassInfo) (entries : List (Text × Value)) :
    (ofFields instanceOf entries).depth = entryDepths entries + 1 := by
  cases instanceOf <;> rfl

theorem depth_ofArguments {tag : Text} {instanceOf : Option ClassInfo} {vs : List Value}
    (hfields : ∀ k, instanceOf = some k → k.fields.length = vs.length) :
    (ofArguments tag instanceOf vs).depth = depths vs + 1 := by
  cases instanceOf with
  | none => rfl
  | some k => exact congrArg (· + 1) (entryDepths_zip (hfields k rfl))

theorem depth_le_ofInline (tag : Text) (instanceOf : Option ClassInfo) (v : Value) :
    v.depth ≤ (ofInline tag instanceOf v).depth := by
  cases instanceOf with
  | none =>
    simp only [ofInline, depth, depths]
    omega
  | some k => exact Nat.le_refl _

theorem numeral?_ofFields (instanceOf : Option ClassInfo) (entries : List (Text × Value)) :
    (ofFields instanceOf entries).numeral? = Option.none := by
  cases instanceOf <;> rfl

theorem numeral?_ofArguments (tag : Text) (instanceOf : Option ClassInfo) (vs : List Value) :
    (ofArguments tag instanceOf vs).numeral? = Option.none := by
  cases instanceOf <;> rfl

/-- Only numbers and conditions are stored in another form. -/
theorem ofElement_of_numeral? {v : Value} (h : v.numeral? = Option.none) {e : ElementType}
    (hv : Storage.store e v = .ok v) : ofElement e v = v := by
  rcases Storage.store_fixed hv with rfl | ⟨_, _, _, _, rfl⟩ | ⟨_, _, rfl⟩ | ⟨_, _, rfl⟩
  · rfl
  all_goals exact absurd h (by simp [numeral?])

end Value

/-! ## From types to shapes -/

namespace Setting

/-- The plan leads to a shape that makes the round trip with the value, and that writes it the same
if it is an element of an array; or it sticks, if a writing `halts`. -/
def Trips (s : Setting) (lone halts : Prop) (l : Ledger) (room : Nat) (plan : Plan) (v : Value) : Prop :=
  (halts ∧ s.Sticks (!v.isNone) plan) ∨
    ∃ layers q steps, s.Leads l.Foresees (!v.isNone) plan layers q steps ∧
      s.RoundTrips lone halts 1 (v.depth - 1 + room) q v ∧
      ∀ e, Storage.store e v = .ok v → ∀ levels,
        s.writeAt levels q (.ofElement e v) = s.writeAt levels q v

variable {s : Setting} {lone halts : Prop} {l : Ledger} {room : Nat} {plan : Plan} {v : Value}

/-- A shape leads to itself. -/
theorem Trips.of_shape (hplan : plan.isSettled true) {need : Nat}
    (h : s.RoundTrips lone halts 1 need plan v) (hle : need ≤ v.depth - 1 + room)
    (hv : v.numeral? = Option.none) : s.Trips lone halts l room plan v := by
  refine .inr ⟨0, plan, 0, .here ?_, h.mono hle, fun e he levels => ?_⟩
  · cases plan with
    | option label inner => exact absurd hplan (by simp [Plan.isSettled])
    | link cell id args => exact absurd hplan (by simp [Plan.isSettled])
    | _ => rfl
  · rw [Value.ofElement_of_numeral? hv he]

theorem Trips.roundTrips (hopt : s.ReadsOptions) (h : s.Trips lone halts l room plan v) :
    s.RoundTrips lone halts 0 (v.depth + room) plan v := by
  rcases h with ⟨hhalts, hsticks⟩ | ⟨layers, q, steps, hleads, hq, -⟩
  · exact fun levels _ => .inl ⟨hhalts, writeAt_of_sticks hsticks levels⟩
  · have hpos := v.depth_pos
    exact (RoundTrips.of_leads hopt hleads hq).mono (by omega)

theorem isNone_ofElement {e : ElementType} (h : Storage.store e v = .ok v) :
    (Value.ofElement e v).isNone = v.isNone := by
  rcases Storage.store_fixed h with rfl | ⟨_, _, _, rfl, rfl⟩ | ⟨_, _, rfl⟩ | ⟨rfl, _, rfl⟩
  · rfl
  · rfl
  · cases e <;> rfl
  · rfl

/-- An element of an array is written as the value that it holds. -/
theorem Trips.write_element (h : s.Trips lone halts l room plan v) {e : ElementType}
    (he : Storage.store e v = .ok v) (levels : Nat) :
    s.writeAt levels plan (.ofElement e v) = s.writeAt levels plan v := by
  rcases h with ⟨-, hsticks⟩ | ⟨layers, q, steps, hleads, -, hq⟩
  · exact writeAt_congr_of_sticks hsticks (isNone_ofElement he) levels
  · exact writeAt_congr_of_leads hleads (isNone_ofElement he) (hq e he) levels

/-- Parts side by side with their converters. -/
theorem forall₂_roundTrips {cs : List Converter} {vs : List Value} (hopt : s.ReadsOptions)
    (hlen : cs.length = vs.length)
    (h : ∀ (c : Converter) v, (c, v) ∈ cs.zip vs → s.Trips lone halts l room c.plan v) :
    List.Forall₂ (fun c v => s.RoundTrips lone halts 0 (Value.depths vs + room) c.plan v) cs vs := by
  refine List.forall₂_iff_zip.2 ⟨hlen, fun {c v} hmem => ?_⟩
  have hdepth := Value.depth_le_depths (List.of_mem_zip hmem).2
  exact ((h c v hmem).roundTrips hopt).mono (by omega)

theorem roundTrips_each {c : Converter} {vs : List Value} (hopt : s.ReadsOptions)
    (h : ∀ v ∈ vs, s.Trips lone halts l room c.plan v) :
    ∀ v ∈ vs, s.RoundTrips lone halts 0 (Value.depths vs + room) c.plan v := by
  intro v hv
  have hdepth := Value.depth_le_depths hv
  exact ((h v hv).roundTrips hopt).mono (by omega)

/-! ## Shapes -/

theorem Trips.builtin {p : Primitive} (hv : p.Holds v) : s.Trips lone halts l room (.primitive p) v := by
  obtain ⟨t, w, hwrite, hread, hlike⟩ := hv.writes_reads lone
  refine .inr ⟨0, _, 0, .here rfl, (RoundTrips.of_builtin 1 hwrite hread hlike).mono (Nat.zero_le _),
    fun e he levels => ?_⟩
  rw [writeAt, writeAt, Plan.write, Plan.write, hv.write_element he]

theorem Trips.tuple {label : Text} {cs : List Converter} {vs : List Value} (hopt : s.ReadsOptions)
    (hlen : cs.length = vs.length)
    (h : ∀ (c : Converter) v, (c, v) ∈ cs.zip vs → s.Trips lone halts l room c.plan v) :
    s.Trips lone halts l room (.tuple label cs) (.tuple vs) :=
  .of_shape rfl (roundTrips_tuple label (forall₂_roundTrips hopt hlen h))
    (by rw [Value.depth]; omega) rfl

theorem Trips.list {label : Text} {c : Converter} {vs : List Value} (hopt : s.ReadsOptions)
    (h : ∀ v ∈ vs, s.Trips lone halts l room c.plan v) :
    s.Trips lone halts l room (.list label c) (.list vs) :=
  .of_shape rfl (roundTrips_list label (roundTrips_each hopt h)) (by rw [Value.depth]; omega) rfl

theorem Trips.array {label : Text} {e : ElementType} {c : Converter} {vs : List Value}
    (hopt : s.ReadsOptions) (hstored : ∀ v ∈ vs, Storage.store e v = .ok v)
    (h : ∀ v ∈ vs, s.Trips lone halts l room c.plan v) :
    s.Trips lone halts l room (.array label e c) (.vector e vs) := by
  refine .of_shape rfl (roundTrips_array label (fun v hv => (h v hv).write_element (hstored v hv))
    (fun v hv w => Storage.store_like (hstored v hv)) (roundTrips_each hopt h)) ?_ rfl
  rw [Value.vector, Value.depth]
  omega

theorem Trips.nothing (hopt : s.ReadsOptions) (label : Text) (c : Converter) :
    s.Trips lone halts l room (.option label c) .none := by
  refine .inr ⟨0, _, 0, .here rfl, (roundTrips_nothing hopt label c).mono (Nat.zero_le _),
    fun e he levels => ?_⟩
  rw [Value.ofElement_of_numeral? rfl he]

theorem Trips.something {label : Text} {c : Converter} (hne : v ≠ .none)
    (h : s.Trips lone halts l room c.plan v) : s.Trips lone halts l room (.option label c) v := by
  have hsome : (!v.isNone) = true := by
    cases v with
    | none => exact absurd rfl hne
    | _ => rfl
  rcases h with ⟨hhalts, hsticks⟩ | ⟨layers, q, steps, hleads, hq⟩
  · exact .inl ⟨hhalts, .option hsome hsticks⟩
  · exact .inr ⟨layers + 1, q, steps + 1, .option hsome hleads, hq⟩

/-- A link makes the round trip if what it defines does. -/
theorem Trips.link {cell : Nat} {id : DefinitionId} {args : List Converter} {c : Converter}
    (hr : s.resolve cell id args = .ok c) (hd : Defines s.catalog l.Foresees id args c.plan)
    (h : s.Trips lone halts l room c.plan v) : s.Trips lone halts l room (.link cell id args) v := by
  rcases h with ⟨hhalts, hsticks⟩ | ⟨layers, q, steps, hleads, hq⟩
  · exact .inl ⟨hhalts, .link hr hsticks⟩
  · exact .inr ⟨layers, q, steps + 1, .link hr hd hleads, hq⟩

theorem Trips.record {r : RecordPlan Plan} {entries : List (Text × Value)}
    (hnodup : (r.fields.map FieldPlan.name).Nodup)
    (hnames : (entries.map Prod.fst).Perm (r.fields.map FieldPlan.name))
    (hclass : ∀ k, r.instanceOf = some k → entries.map Prod.fst = k.fields)
    (h : ∀ p ∈ r.fields, ∃ x, entries.lookup p.name = some x ∧
      s.FieldTrips halts (fun _ => x.Like lone) (x.depth + room) p x) :
    s.Trips lone halts l room (.record r) (.ofFields r.instanceOf entries) := by
  have htrips : ∀ p ∈ r.fields, ∃ x, entries.lookup p.name = some x ∧
      s.FieldTrips halts (fun _ => x.Like lone) (Value.entryDepths entries + room) p x := by
    intro p hp
    obtain ⟨x, hx, htrips⟩ := h p hp
    have hdepth := Value.depth_le_entryDepths hx
    exact ⟨x, hx, htrips.mono (by omega)⟩
  refine .of_shape rfl (roundTrips_record hnodup hnames hclass htrips) ?_
    (Value.numeral?_ofFields r.instanceOf entries)
  rw [Value.depth_ofFields]
  omega

section Variants

variable {label : Text} {folding : Bool} {plans : List (CasePlan Plan)} {p : CasePlan Plan}
  {vs : List Value}

theorem Trips.constant (hnodup : (plans.map CasePlan.tag).Nodup) (hp : p ∈ plans)
    (howns : p.OwnsClass plans) (hfields : ∀ k, p.instanceOf = some k → k.fields.length = 0)
    (hform : p.form = .constant) :
    s.Trips lone halts l room (.variant label folding plans) (.ofArguments p.tag p.instanceOf []) :=
  .of_shape rfl (roundTrips_constant hnodup hp howns hfields hform) (Nat.zero_le _)
    (Value.numeral?_ofArguments p.tag p.instanceOf [])

theorem Trips.arguments (hopt : s.ReadsOptions) (hnodup : (plans.map CasePlan.tag).Nodup)
    (hp : p ∈ plans) (howns : p.OwnsClass plans)
    (hfields : ∀ k, p.instanceOf = some k → k.fields.length = vs.length) {cs : List Converter}
    (hform : p.form = .arguments cs) (hlen : cs.length = vs.length)
    (h : ∀ (c : Converter) v, (c, v) ∈ cs.zip vs → s.Trips lone halts l room c.plan v) :
    s.Trips lone halts l room (.variant label folding plans) (.ofArguments p.tag p.instanceOf vs) := by
  refine .of_shape rfl (roundTrips_arguments hnodup hp howns hfields hform
    (forall₂_roundTrips hopt hlen h)) ?_ (Value.numeral?_ofArguments p.tag p.instanceOf vs)
  rw [Value.depth_ofArguments hfields]
  omega

theorem Trips.spliced (hopt : s.ReadsOptions) (hnodup : (plans.map CasePlan.tag).Nodup)
    (hp : p ∈ plans) (howns : p.OwnsClass plans)
    (hfields : ∀ k, p.instanceOf = some k → k.fields.length = 1) {c : Converter}
    (hform : p.form = .spliced c) (h : ∀ v ∈ vs, s.Trips lone halts l room c.plan v) :
    s.Trips lone halts l room (.variant label folding plans)
      (.ofArguments p.tag p.instanceOf [.list vs]) := by
  have hdepth : (Value.ofArguments p.tag p.instanceOf [.list vs]).depth =
      Value.depths [.list vs] + 1 := Value.depth_ofArguments hfields
  refine .of_shape rfl (roundTrips_spliced hnodup hp howns hfields hform (roundTrips_each hopt h)) ?_
    (Value.numeral?_ofArguments p.tag p.instanceOf _)
  simp only [hdepth, Value.depth, Value.depths]
  omega

theorem Trips.inline (hnodup : (plans.map CasePlan.tag).Nodup) (hp : p ∈ plans)
    (howns : p.OwnsClass plans) {r : RecordPlan Plan} (hform : p.form = .record r)
    (hv : ∀ k, p.instanceOf = some k → ∃ fields, v = .object k.name fields)
    (h : s.Trips lone halts l room (.record r) v) :
    s.Trips lone halts l room (.variant label folding plans) (.ofInline p.tag p.instanceOf v) := by
  -- a record is a shape, so it leads nowhere else and does not stick
  have hq : s.RoundTrips lone halts 1 (v.depth - 1 + room) (.record r) v := by
    rcases h with ⟨-, hsticks⟩ | ⟨layers, q, steps, hleads, hq, -⟩
    · cases hsticks
    · cases hleads
      exact hq
  refine .of_shape rfl (roundTrips_inline hnodup hp howns hform hv hq) ?_ ?_
  · have := Value.depth_le_ofInline p.tag p.instanceOf v
    omega
  · cases hk : p.instanceOf with
    | none => rfl
    | some k =>
      obtain ⟨fields, rfl⟩ := hv k hk
      rfl

end Variants

end Setting

/-- Converters stand for the types that the parameters stand for. -/
def Supplies (s : Setting) (l : Ledger) (env : List BoundType) (params : List Converter) : Prop :=
  env.length = params.length ∧
    ∀ t (c : Converter), (t, c) ∈ env.zip params → Realises s.catalog l.Foresees t c.plan

variable {numbering : Nat → Description} {s : Setting} {lone halts : Prop} {l : Ledger} {room : Nat}
  {env : List BoundType}

/-- The arguments of a reference stand for their descriptions. -/
theorem Supplies.args {params cs : List Converter} {args : List Description}
    (h : Supplies s l env params) (hlen : args.length = cs.length)
    (hargs : ∀ d (c : Converter), (d, c) ∈ args.zip cs → Built s.catalog l.Foresees params d c.plan) :
    Supplies s l (args.map (.mk · env)) cs := by
  refine ⟨by simpa using hlen, fun t c hmem => ?_⟩
  obtain ⟨d, rfl, hzip⟩ := exists_of_mem_zip_map hmem
  exact .mk h.1 h.2 (hargs d c hzip)

/-- A value of a type trips through every plan that is built from the type. -/
def TripsAs (s : Setting) (lone halts : Prop) (l : Ledger) (env : List BoundType) (room : Nat)
    (d : Description) (v : Value) : Prop :=
  ∀ {params : List Converter} {plan : Plan}, Supplies s l env params →
    Built s.catalog l.Foresees params d plan → s.Trips lone halts l room plan v

/-! ## Built-in types, tuples, lists and arrays -/

theorem trips_primitive {name : Text} {p : Primitive} {v : Value}
    (hp : Primitive.ofName? name = some p) (hv : p.Holds v) :
    TripsAs s lone halts l env room (.primitive name) v := by
  intro params plan _ hb
  obtain rfl := hb.of_primitive hp
  exact .builtin hv

theorem trips_product (hopt : s.ReadsOptions) {parts : List Description} {vs : List Value}
    (hlen : parts.length = vs.length)
    (h : ∀ d v, (d, v) ∈ parts.zip vs → TripsAs s lone halts l env room d v) :
    TripsAs s lone halts l env room (.product parts) (.tuple vs) := by
  intro params plan henv hb
  obtain ⟨label, cs, rfl, hcs, hparts⟩ := hb.of_product
  refine .tuple hopt (hcs.symm.trans hlen) fun c v hmem => ?_
  obtain ⟨d, hc, hv⟩ := exists_zip_middle hcs hlen hmem
  exact h d v hv henv (hparts d c hc)

theorem trips_list (hopt : s.ReadsOptions) {d : Description} {vs : List Value}
    (h : ∀ v ∈ vs, TripsAs s lone halts l env room d v) :
    TripsAs s lone halts l env room (.list d) (.list vs) := by
  intro params plan henv hb
  obtain ⟨label, c, rfl, hc⟩ := hb.of_list
  exact .list hopt fun v hv => h v hv henv hc

theorem trips_array (hopt : s.ReadsOptions) {d : Description} {stated : Option ElementType}
    {vs : List Value}
    (hstored : ∀ v ∈ vs, Storage.store (Description.storedAs d stated) v = .ok v)
    (h : ∀ v ∈ vs, TripsAs s lone halts l env room d v) :
    TripsAs s lone halts l env room (.array d stated)
      (.vector (Description.storedAs d stated) vs) := by
  intro params plan henv hb
  obtain ⟨label, c, rfl, hc⟩ := hb.of_array
  exact .array hopt hstored fun v hv => h v hv henv hc

/-! ## Options -/

theorem trips_nothing (hopt : s.ReadsOptions) {d : Description} :
    TripsAs s lone halts l env room (.option d) .none := by
  intro params plan _ hb
  obtain ⟨label, c, rfl, _⟩ := hb.of_option
  exact .nothing hopt label c

theorem trips_something {d : Description} {v : Value} (hne : v ≠ .none)
    (h : TripsAs s lone halts l env room d v) : TripsAs s lone halts l env room (.option d) v := by
  intro params plan henv hb
  obtain ⟨label, c, rfl, hc⟩ := hb.of_option
  exact .something hne (h henv hc)

end TypedSexp
