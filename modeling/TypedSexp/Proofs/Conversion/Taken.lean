import TypedSexp.Proofs.Conversion.Trips
/-!
# The values of a plan

`Setting.Takes` relates a plan to its values: those that reading with it gives, if no rule leaves out
fields, nothing is an instance of a class, and no float occurs. Such a value makes the round trip
(`Takes.trips`), and every value that equals it is written with the same result (`Takes.writes`).
-/

namespace TypedSexp

/-- The field has no rule, and reads as the value if that is left out in any case. -/
structure FieldPlan.Keeps (p : FieldPlan Plan) (x : Value) : Prop where
  dropping : p.dropping = .never
  flag : p.form = .flag → p.absent = some (.bool false) ∧ ∃ b, x = .bool b
  valued : ∀ c omission, p.form = .valued c omission →
    ∃ b, isOmitted omission x = .ok b ∧ (b = true → p.absent = some x)

theorem isOmitted_alike (omission : Omission) {x y : Value} (h : x.Alike y) :
    isOmitted omission y = isOmitted omission x := by
  cases omission with
  | never => rfl
  | nothing =>
    have hnone := Value.isNone_alike h
    cases x <;> cases y <;> simp_all [isOmitted, Value.isNone]
  | empty => rw [isOmitted, isOmitted, Value.length_alike h]

namespace Setting

/-- The value is one of the plan, whose links are followed to what they define. Any value is one of a
link whose definition is not derived, if a writing `halts` there. -/
inductive Takes (s : Setting) (halts : Prop) (l : Ledger) : Plan → Value → Prop
  | primitive {p : Primitive} {v : Value} (hp : p ≠ .float) (hv : p.Holds v) :
      Takes s halts l (.primitive p) v
  | tuple {label : Text} {cs : List Converter} {vs : List Value} (hlen : cs.length = vs.length)
      (h : ∀ (c : Converter) v, (c, v) ∈ cs.zip vs → Takes s halts l c.plan v) :
      Takes s halts l (.tuple label cs) (.tuple vs)
  | list {label : Text} {c : Converter} {vs : List Value} (h : ∀ v ∈ vs, Takes s halts l c.plan v) :
      Takes s halts l (.list label c) (.list vs)
  | array {label : Text} {e : ElementType} {c : Converter} {vs : List Value}
      (he : e.isFloat = false) (hstored : ∀ v ∈ vs, Storage.store e v = .ok v)
      (h : ∀ v ∈ vs, Takes s halts l c.plan v) : Takes s halts l (.array label e c) (.vector e vs)
  | nothing {label : Text} {c : Converter} : Takes s halts l (.option label c) .none
  | something {label : Text} {c : Converter} {v : Value} (hne : v ≠ .none)
      (h : Takes s halts l c.plan v) : Takes s halts l (.option label c) v
  | record {r : RecordPlan Plan} {entries : List (Text × Value)} (hclass : r.instanceOf = none)
      (hnodup : (r.fields.map FieldPlan.name).Nodup)
      (hnames : (entries.map Prod.fst).Perm (r.fields.map FieldPlan.name))
      (hkeeps : ∀ p ∈ r.fields, ∀ x, entries.lookup p.name = some x → p.Keeps x)
      (h : ∀ p ∈ r.fields, ∀ x c omission, entries.lookup p.name = some x →
        p.form = .valued c omission → isOmitted omission x = .ok false → Takes s halts l c.plan x) :
      Takes s halts l (.record r) (.record entries)
  | constant {label : Text} {folding : Bool} {plans : List (CasePlan Plan)} {p : CasePlan Plan}
      (hnodup : (plans.map CasePlan.tag).Nodup) (hp : p ∈ plans) (hclass : p.instanceOf = none)
      (hform : p.form = .constant) : Takes s halts l (.variant label folding plans) (.variant p.tag [])
  | arguments {label : Text} {folding : Bool} {plans : List (CasePlan Plan)} {p : CasePlan Plan}
      {cs : List Converter} {vs : List Value} (hnodup : (plans.map CasePlan.tag).Nodup)
      (hp : p ∈ plans) (hclass : p.instanceOf = none) (hform : p.form = .arguments cs)
      (hlen : cs.length = vs.length)
      (h : ∀ (c : Converter) v, (c, v) ∈ cs.zip vs → Takes s halts l c.plan v) :
      Takes s halts l (.variant label folding plans) (.variant p.tag vs)
  | spliced {label : Text} {folding : Bool} {plans : List (CasePlan Plan)} {p : CasePlan Plan}
      {c : Converter} {vs : List Value} (hnodup : (plans.map CasePlan.tag).Nodup) (hp : p ∈ plans)
      (hclass : p.instanceOf = none) (hform : p.form = .spliced c)
      (h : ∀ v ∈ vs, Takes s halts l c.plan v) :
      Takes s halts l (.variant label folding plans) (.variant p.tag [.list vs])
  | inline {label : Text} {folding : Bool} {plans : List (CasePlan Plan)} {p : CasePlan Plan}
      {r : RecordPlan Plan} {v : Value} (hnodup : (plans.map CasePlan.tag).Nodup) (hp : p ∈ plans)
      (hclass : p.instanceOf = none) (hform : p.form = .record r) (h : Takes s halts l (.record r) v) :
      Takes s halts l (.variant label folding plans) (.variant p.tag [v])
  | link {cell : Nat} {id : DefinitionId} {args : List Converter} {c : Converter} {v : Value}
      (hr : s.resolve cell id args = .ok c) (hd : Defines s.catalog l.Foresees id args c.plan)
      (h : Takes s halts l c.plan v) : Takes s halts l (.link cell id args) v
  | refused {cell : Nat} {id : DefinitionId} {args : List Converter} {e : DescriptionFault} {v : Value}
      (hhalts : halts) (hr : s.resolve cell id args = .error e) : Takes s halts l (.link cell id args) v

variable {s : Setting} {halts : Prop} {l : Ledger} {plan q : Plan} {v : Value} {layers k : Nat}

/-- A plan takes the values of what its links lead to. -/
theorem Takes.of_leads (hleads : s.Leads l.Foresees false plan layers q k) (h : s.Takes halts l q v) :
    s.Takes halts l plan v := by
  induction hleads with
  | here _ => exact h
  | link hr hd _ ih => exact .link hr hd (ih h)
  | option ht _ _ => exact absurd ht (by simp)

theorem ownsClass_of_none {plans : List (CasePlan Plan)} {p : CasePlan Plan}
    (h : p.instanceOf = none) : p.OwnsClass plans :=
  fun k hk => absurd (h.symm.trans hk) (by simp)

theorem variant_eq_ofArguments {p : CasePlan Plan} (h : p.instanceOf = none) (vs : List Value) :
    Value.variant p.tag vs = .ofArguments p.tag p.instanceOf vs := by
  rw [h]
  rfl

/-! ## The round trip -/

/-- A field that keeps its value makes the trip if the converter of the value does. -/
theorem fieldTrips_of_keeps {p : FieldPlan Plan} {x : Value} (hkeeps : p.Keeps x) {need : Nat}
    (h : ∀ c omission, p.form = .valued c omission → isOmitted omission x = .ok false →
      s.RoundTrips False halts 0 need c.plan x) : s.FieldTrips halts (fun _ => x.Alike) need p x := by
  have hwrites : s.FieldWrites halts (fun _ => x.Alike) need p x := by
    cases hform : p.form with
    | flag =>
      obtain ⟨habsent, b, rfl⟩ := hkeeps.flag hform
      refine (FieldWrites.of_flag hform habsent ?_ ?_).mono (Nat.zero_le _)
      · rintro rfl
        exact .refl _
      · rintro rfl _
        exact .refl _
    | valued c omission =>
      obtain ⟨b, homit, habsent⟩ := hkeeps.valued c omission hform
      refine .of_valued hform homit (fun hb => ⟨x, habsent hb, .refl x⟩) (fun _ _ hlike => hlike) ?_
      rintro rfl
      exact h c omission hform homit
  exact .of_rule hwrites fun levels _ => .of_eq (isDroppedAt_never hkeeps.dropping levels) (by simp)

/-- **A value of a plan is written, and reads as an equal value**, unless the writing is stopped. -/
theorem Takes.trips (hopt : s.ReadsOptions) (h : s.Takes halts l plan v) :
    s.Trips False halts l 0 plan v := by
  induction h with
  | primitive _ hv => exact .builtin hv
  | tuple hlen _ ih => exact .tuple hopt hlen ih
  | list _ ih => exact .list hopt ih
  | array _ hstored _ ih => exact .array hopt hstored ih
  | nothing => exact .nothing hopt _ _
  | something hne _ ih => exact .something hne ih
  | @record r entries hclass hnodup hnames hkeeps _ ih =>
    have hrecord : Value.record entries = .ofFields r.instanceOf entries := by
      rw [hclass]
      rfl
    rw [hrecord]
    refine .record hnodup hnames (by simp [hclass]) fun p hp => ?_
    have hmem : p.name ∈ entries.map Prod.fst := hnames.symm.subset (List.mem_map_of_mem hp)
    obtain ⟨x, hx⟩ := exists_lookup_of_mem hmem
    exact ⟨x, hx, fieldTrips_of_keeps (hkeeps p hp x hx)
      fun c omission hform homit => (ih p hp x c omission hx hform homit).roundTrips hopt⟩
  | constant hnodup hp hclass hform =>
    rw [variant_eq_ofArguments hclass]
    exact .constant hnodup hp (ownsClass_of_none hclass) (by simp [hclass]) hform
  | arguments hnodup hp hclass hform hlen _ ih =>
    rw [variant_eq_ofArguments hclass]
    exact .arguments hopt hnodup hp (ownsClass_of_none hclass) (by simp [hclass]) hform hlen ih
  | spliced hnodup hp hclass hform _ ih =>
    rw [variant_eq_ofArguments hclass]
    exact .spliced hopt hnodup hp (ownsClass_of_none hclass) (by simp [hclass]) hform ih
  | @inline _ _ _ p _ v hnodup hp hclass hform _ ih =>
    have hvalue : Value.variant p.tag [v] = .ofInline p.tag p.instanceOf v := by
      rw [hclass]
      rfl
    rw [hvalue]
    exact .inline hnodup hp (ownsClass_of_none hclass) hform (by simp [hclass]) ih
  | link hr hd _ ih => exact .link hr hd ih
  | refused hhalts hr => exact .inl ⟨hhalts, .here hr⟩

/-! ## One result -/

/-- Writing any value that equals the value has this result, with as many levels as it is deep, or as
many and `slack`. -/
def WritesAs (s : Setting) (slack : Nat) (plan : Plan) (v : Value) (r : Except WriteError Sexp) : Prop :=
  ∀ w, v.Alike w → ∀ levels, w.depth ≤ levels + slack → s.writeAt levels plan w = r

theorem WritesAs.of_leads {Trusted : List Converter → Prop} {r : Except WriteError Sexp}
    (h : s.Leads Trusted (!v.isNone) plan layers q k) (hq : s.WritesAs 1 q v r) :
    s.WritesAs 0 plan v (r.map (layers.repeat (presentSexp s.switches))) := by
  intro w hlike levels hle
  have hpos := w.depth_pos
  have hnone := Value.isNone_alike hlike
  rw [← hnone] at h
  obtain ⟨below, hbelow, hwrite⟩ := writeAt_of_leads h levels (by omega)
  rw [hwrite, hq w hlike below (by omega)]

/-- Where the plan sticks, values that equal the value are stopped alike. -/
theorem WritesAs.of_sticks (h : s.Sticks (!v.isNone) plan) : ∃ r, s.WritesAs 0 plan v r := by
  refine ⟨s.writeAt v.depth plan v, fun w hlike levels hle => ?_⟩
  have hpos := w.depth_pos
  rw [writeAt_congr_of_sticks h (Value.isNone_alike hlike)]
  exact writeAt_levels_of_sticks h (by omega) v.depth_pos

/-- The plan leads to a shape that writes all values that equal the value with one result, or it
sticks. -/
def WritesOne (s : Setting) (l : Ledger) (plan : Plan) (v : Value) : Prop :=
  s.Sticks (!v.isNone) plan ∨ ∃ layers q steps r,
    s.Leads l.Foresees (!v.isNone) plan layers q steps ∧ s.WritesAs 1 q v r

theorem WritesOne.of_shape (hplan : plan.isSettled true) {r : Except WriteError Sexp}
    (h : ∀ w, v.Alike w → ∀ levels, w.depth ≤ levels + 1 → s.writeAt levels plan w = r) :
    s.WritesOne l plan v := by
  refine .inr ⟨0, plan, 0, r, .here ?_, h⟩
  cases plan with
  | option label inner => exact absurd hplan (by simp [Plan.isSettled])
  | link cell id args => exact absurd hplan (by simp [Plan.isSettled])
  | _ => rfl

theorem WritesOne.writesAs (h : s.WritesOne l plan v) : ∃ r, s.WritesAs 0 plan v r := by
  rcases h with hsticks | ⟨layers, q, steps, r, hleads, hr⟩
  · exact WritesAs.of_sticks hsticks
  · exact ⟨_, hr.of_leads hleads⟩

section Sequences

variable {c : Converter} {cs : List Converter} {vs : List Value}

theorem parts_writeAs (h : List.Forall₂ (fun c v => s.WritesOne l c.plan v) cs vs) :
    ∃ r, ∀ ws, List.Forall₂ Value.Alike vs ws → ∀ levels, Value.depths ws ≤ levels →
      s.writePartsAt levels cs ws = r := by
  induction h with
  | nil =>
    refine ⟨.ok [], fun ws hws levels _ => ?_⟩
    cases hws
    rfl
  | @cons c v cs vs hc _ ih =>
    obtain ⟨t, ht⟩ := hc.writesAs
    obtain ⟨ts, hts⟩ := ih
    refine ⟨t >>= fun t => ts >>= fun ts => .ok (t :: ts), fun ws hws levels hle => ?_⟩
    cases hws with
    | @cons _ w _ ws hlike hlikes =>
      rw [Value.depths] at hle
      show (s.writeAt levels c.plan w >>= fun s' => s.writePartsAt levels cs ws >>= fun ss =>
        .ok (s' :: ss)) = _
      rw [ht w hlike levels (by omega), hts ws hlikes levels (by omega)]

theorem items_writeAs (h : ∀ v ∈ vs, s.WritesOne l c.plan v) :
    ∃ r, ∀ ws, List.Forall₂ Value.Alike vs ws → ∀ levels, Value.depths ws ≤ levels →
      writeEach (s.writeAt levels c.plan) ws = r := by
  have hparts : List.Forall₂ (fun c v => s.WritesOne l c.plan v) (List.replicate vs.length c) vs := by
    induction vs with
    | nil => exact .nil
    | cons v vs ih =>
      exact .cons (h v List.mem_cons_self) (ih fun v hv => h v (List.mem_cons_of_mem _ hv))
  obtain ⟨r, hr⟩ := parts_writeAs hparts
  refine ⟨r, fun ws hws levels hle => ?_⟩
  rw [writeEach_eq_writeParts, ← hws.length_eq]
  exact hr ws hws levels hle

/-- What equals an element of an array is written as the value that it holds. -/
theorem Trips.write_element_alike {lone : Prop} {room : Nat} (h : s.Trips lone halts l room plan v)
    {e : ElementType} (he : e.isFloat = false) (hv : Storage.store e v = .ok v) {w : Value}
    (hlike : v.Alike w) (levels : Nat) :
    s.writeAt levels plan (.ofElement e w) = s.writeAt levels plan w := by
  rcases Storage.store_fixed hv with rfl | ⟨_, _, n, rfl, rfl⟩ | ⟨hfloat, _⟩ | ⟨rfl, b, rfl⟩
  · rfl
  · cases hlike with
    | refl _ => exact h.write_element hv levels
    | nothing hlone _ _ => exact hlone.elim
  · exact absurd hfloat (by simp [he])
  · cases hlike with
    | refl _ => exact h.write_element hv levels
    | nothing hlone _ _ => exact hlone.elim

end Sequences

/-! ### Records -/

theorem entry_writeAs {p : FieldPlan Plan} {x : Value} (hkeeps : p.Keeps x)
    (h : ∀ c omission, p.form = .valued c omission → isOmitted omission x = .ok false →
      s.WritesOne l c.plan x) :
    ∃ r, ∀ y, x.Alike y → ∀ levels, y.depth ≤ levels → s.writeEntryAt levels p y = r := by
  have hwrite : ∀ levels y, s.writeEntryAt levels p y = s.writeFieldAt levels p y := by
    intro levels y
    rw [writeEntryAt, isDroppedAt_never hkeeps.dropping]
    rfl
  simp only [hwrite]
  obtain ⟨name, form, absent, dropping⟩ := p
  cases form with
  | flag =>
    obtain ⟨-, b, rfl⟩ := hkeeps.flag rfl
    refine ⟨.ok (if b then some (.list [.atom name]) else none), fun y hlike levels _ => ?_⟩
    cases hlike with
    | refl _ => cases b <;> rfl
    | nothing hlone _ _ => exact hlone.elim
  | valued c omission =>
    obtain ⟨b, homit, -⟩ := hkeeps.valued c omission rfl
    cases b with
    | true =>
      refine ⟨.ok none, fun y hlike levels _ => ?_⟩
      simp [writeFieldAt, Plan.writeField, isOmitted_alike omission hlike, homit, bind, Except.bind]
    | false =>
      obtain ⟨r, hr⟩ := (h c omission rfl homit).writesAs
      refine ⟨r >>= fun t => .ok (some (.list [.atom name, t])), fun y hlike levels hle => ?_⟩
      have hy := hr y hlike levels hle
      unfold writeAt at hy
      simp [writeFieldAt, Plan.writeField, isOmitted_alike omission hlike, homit, hy, bind,
        Except.bind]

theorem fields_writeAs {entries : List (Text × Value)} (writer : Text) :
    ∀ {plans : List (FieldPlan Plan)},
    (∀ p ∈ plans, ∃ x, entries.lookup p.name = some x ∧ ∃ r, ∀ y, x.Alike y → ∀ levels,
      y.depth ≤ levels → s.writeEntryAt levels p y = r) →
    ∃ r, ∀ fs : List (Text × Value), (∀ name x, entries.lookup name = some x →
      ∃ y, fs.lookup name = some y ∧ x.Alike y) → ∀ levels, Value.entryDepths fs ≤ levels →
      s.writeFieldsAt levels writer none (.record fs) plans = r
  | [], _ => ⟨.ok [], fun _ _ _ _ => by
    rw [writeFieldsAt, Plan.writeFields, outcome_except]⟩
  | p :: plans, h => by
    obtain ⟨x, hx, r, hr⟩ := h p List.mem_cons_self
    obtain ⟨rs, hrs⟩ := fields_writeAs writer fun q hq => h q (List.mem_cons_of_mem _ hq)
    refine ⟨r >>= fun entry => rs >>= fun rest => .ok (entry.toList ++ rest),
      fun fs hfs levels hle => ?_⟩
    obtain ⟨y, hy, hlike⟩ := hfs p.name x hx
    have hdepth := Value.depth_le_entryDepths hy
    have hvalue : fieldValue writer none p.name p.absent (.record fs) = .ok y := by
      rw [← Value.ofFields]
      exact fieldValue_ofFields writer p.absent hy
    rw [writeFieldsAt_cons hvalue, hr y hlike levels (by omega), hrs fs hfs levels hle]

theorem record_writeAs {r : RecordPlan Plan} {entries : List (Text × Value)}
    (hclass : r.instanceOf = none)
    (hnames : (entries.map Prod.fst).Perm (r.fields.map FieldPlan.name))
    (hkeeps : ∀ p ∈ r.fields, ∀ x, entries.lookup p.name = some x → p.Keeps x)
    (h : ∀ p ∈ r.fields, ∀ x c omission, entries.lookup p.name = some x →
      p.form = .valued c omission → isOmitted omission x = .ok false → s.WritesOne l c.plan x) :
    s.WritesOne l (.record r) (.record entries) := by
  obtain ⟨label, instanceOf, extra, plans⟩ := r
  obtain rfl : instanceOf = none := hclass
  have hentries : ∀ p ∈ plans, ∃ x, entries.lookup p.name = some x ∧ ∃ r, ∀ y, x.Alike y →
      ∀ levels, y.depth ≤ levels → s.writeEntryAt levels p y = r := by
    intro p hp
    have hmem : p.name ∈ entries.map Prod.fst := hnames.symm.subset (List.mem_map_of_mem hp)
    obtain ⟨x, hx⟩ := exists_lookup_of_mem hmem
    exact ⟨x, hx, entry_writeAs (hkeeps p hp x hx) fun c omission => h p hp x c omission hx⟩
  obtain ⟨rs, hrs⟩ := fields_writeAs (Converter.writerName label) hentries
  refine .of_shape (r := rs >>= fun ts => .ok (.list ts)) rfl fun w hlike levels hle => ?_
  obtain ⟨fs, rfl, hfs⟩ := Value.alike_record hlike
  rw [Value.depth] at hle
  replace hrs : Plan.writeFields _ _ _ _ _ plans = rs := hrs fs hfs levels (by omega)
  rw [writeAt, Plan.write, Plan.writeRecord, hrs]
  rfl

/-- The entries of a record behind a tag. -/
def behindTag (tag : Text) : Sexp → Except WriteError Sexp
  | .list ts => .ok (.list (.atom tag :: ts))
  | t => .ok t

/-- A value of a constructor without a class is written as its form says. -/
theorem writeAt_constructor {label : Text} {folding : Bool} {plans : List (CasePlan Plan)}
    {p : CasePlan Plan} (hnodup : (plans.map CasePlan.tag).Nodup) (hp : p ∈ plans)
    (hclass : p.instanceOf = none) (levels : Nat) (args : List Value) :
    s.writeAt levels (.variant label folding plans) (.variant p.tag args) =
      s.writeFormAt levels (Converter.writerName label) p.tag (.variant p.tag args) args p.form := by
  refine writeAt_variant hnodup hp ?_
  rw [variant_eq_ofArguments hclass]
  exact constructorOf_ofArguments _ hp (ownsClass_of_none hclass) (by simp [hclass])

/-! ### All values -/

/-- **All values that equal a value of a plan are written with one result.** -/
theorem Takes.writes (hopt : s.ReadsOptions) (h : s.Takes halts l plan v) : s.WritesOne l plan v := by
  induction h with
  | @primitive p v hp hv =>
    obtain ⟨t, _, ht, _⟩ := hv.writes_reads False
    refine .of_shape (r := .ok t) rfl fun w hlike levels _ => ?_
    have heq : w = v := by
      cases hv <;> cases hlike <;> first | rfl | contradiction
    rw [heq, writeAt, Plan.write]
    exact ht
  | @tuple label cs vs hlen _ ih =>
    obtain ⟨r, hr⟩ := parts_writeAs (List.forall₂_iff_zip.2 ⟨hlen, fun hmem => ih _ _ hmem⟩)
    refine .of_shape (r := r >>= fun ts => .ok (.list ts)) rfl fun w hlike levels hle => ?_
    obtain ⟨ws, rfl, hcount, hlikes⟩ := Value.alike_tuple hlike
    have hws := hr ws (List.forall₂_iff_zip.2 ⟨hcount, fun hmem => hlikes _ _ hmem⟩) levels
      (by rw [Value.depth] at hle; omega)
    show (if ws.length = cs.length then s.writePartsAt levels cs ws >>= fun ss => .ok (Sexp.list ss)
      else .error (.tupleLength (Converter.writerName label) cs.length ws.length)) = _
    rw [if_pos (hcount.symm.trans hlen.symm), hws]
  | @list label c vs _ ih =>
    obtain ⟨r, hr⟩ := items_writeAs ih
    refine .of_shape (r := r >>= fun ts => .ok (.list ts)) rfl fun w hlike levels hle => ?_
    obtain ⟨ws, rfl, hcount, hlikes⟩ := Value.alike_list hlike
    have hws := hr ws (List.forall₂_iff_zip.2 ⟨hcount, fun hmem => hlikes _ _ hmem⟩) levels
      (by rw [Value.depth] at hle; omega)
    show (writeEach (s.writeAt levels c.plan) ws >>= fun ss => .ok (Sexp.list ss)) = _
    rw [hws]
  | @array label e c vs he hstored htakes ih =>
    obtain ⟨r, hr⟩ := items_writeAs ih
    refine .of_shape (r := r >>= fun ts => .ok (.list ts)) rfl fun w hlike levels hle => ?_
    obtain ⟨ws, rfl, hcount, hlikes⟩ := Value.alike_array hlike
    have hws := hr ws (List.forall₂_iff_zip.2 ⟨hcount, fun hmem => hlikes _ _ hmem⟩) levels
      (by rw [Value.depth] at hle; omega)
    have hitems : writeEach (s.writeAt levels c.plan) (ws.map (.ofElement e)) = r := by
      rw [writeEach_map, ← hws]
      refine writeEach_congr fun w hw => ?_
      obtain ⟨v, hmem⟩ := exists_zip_left hcount hw
      have hv := (List.of_mem_zip hmem).1
      exact ((htakes v hv).trips hopt).write_element_alike he (hstored v hv) (hlikes v w hmem) levels
    show (writeEach (s.writeAt levels c.plan) (ws.map (.ofElement e)) >>= fun ss =>
      .ok (Sexp.list ss)) = _
    rw [hitems]
  | @nothing label c =>
    refine .inr ⟨0, _, 0, .ok (if s.switches.writesOldOption then .empty else .atom "none"), .here rfl,
      ?_⟩
    intro w hlike levels _
    rw [Value.alike_none hlike, writeAt, Plan.write, outcome_except]
  | @something label c v hne _ ih =>
    have hsome : (!v.isNone) = true := by
      cases v with
      | none => exact absurd rfl hne
      | _ => rfl
    rcases ih with hsticks | ⟨layers, q, steps, r, hleads, hr⟩
    · exact .inl (.option hsome hsticks)
    · exact .inr ⟨layers + 1, q, steps + 1, r, .option hsome hleads, hr⟩
  | record hclass _ hnames hkeeps _ ih => exact record_writeAs hclass hnames hkeeps ih
  | @constant label folding plans p hnodup hp hclass hform =>
    refine .of_shape (r := .ok (.atom p.tag)) rfl fun w hlike levels _ => ?_
    obtain ⟨ws, rfl, hcount, -⟩ := Value.alike_variant hlike
    rw [writeAt_constructor hnodup hp hclass, hform, writeFormAt, Plan.writeForm, outcome_except]
  | @arguments label folding plans p cs vs hnodup hp hclass hform hlen _ ih =>
    obtain ⟨r, hr⟩ := parts_writeAs (List.forall₂_iff_zip.2 ⟨hlen, fun hmem => ih _ _ hmem⟩)
    refine .of_shape (r := r >>= fun ts => .ok (.list (.atom p.tag :: ts))) rfl
      fun w hlike levels hle => ?_
    obtain ⟨ws, rfl, hcount, hlikes⟩ := Value.alike_variant hlike
    have hws := hr ws (List.forall₂_iff_zip.2 ⟨hcount, fun hmem => hlikes _ _ hmem⟩) levels
      (by rw [Value.depth] at hle; omega)
    rw [writeAt_constructor hnodup hp hclass, hform, writeFormAt, Plan.writeForm,
      if_pos (hcount.symm.trans hlen.symm)]
    show (s.writePartsAt levels cs ws >>= _) = _
    rw [hws]
    rfl
  | @spliced label folding plans p c vs hnodup hp hclass hform _ ih =>
    obtain ⟨r, hr⟩ := items_writeAs ih
    refine .of_shape (r := r >>= fun ts => .ok (.list (.atom p.tag :: ts))) rfl
      fun w hlike levels hle => ?_
    obtain ⟨args, rfl, hcount, hlikes⟩ := Value.alike_variant hlike
    obtain ⟨arg, rfl⟩ := List.length_eq_one_iff.1 hcount.symm
    obtain ⟨ws, rfl, hcount, hlikes⟩ := Value.alike_list (hlikes (.list vs) arg (by simp))
    have hws := hr ws (List.forall₂_iff_zip.2 ⟨hcount, fun hmem => hlikes _ _ hmem⟩) levels
      (by simp only [Value.depth, Value.depths] at hle; omega)
    rw [writeAt_constructor hnodup hp hclass, hform, writeFormAt, Plan.writeForm]
    show (writeEach (s.writeAt levels c.plan) ws >>= _) = _
    rw [hws]
    rfl
  | @inline label folding plans p r v hnodup hp hclass hform _ ih =>
    -- a record is a shape, so it leads nowhere else and does not stick
    obtain ⟨t, ht⟩ : ∃ t, s.WritesAs 1 (.record r) v t := by
      rcases ih with hsticks | ⟨layers, q, steps, t, hleads, ht⟩
      · cases hsticks
      · cases hleads
        exact ⟨t, ht⟩
    refine .of_shape (r := t >>= behindTag p.tag) rfl fun w hlike levels hle => ?_
    obtain ⟨args, rfl, hcount, hlikes⟩ := Value.alike_variant hlike
    obtain ⟨w, rfl⟩ := List.length_eq_one_iff.1 hcount.symm
    have hw := ht w (hlikes v w (by simp)) levels
      (by simp only [Value.depth, Value.depths] at hle; omega)
    rw [writeAt_constructor hnodup hp hclass, hform, writeFormAt, Plan.writeForm, ← hw, writeAt,
      Plan.write]
    show (Plan.writeRecord (M := Except) _ s.switches r w >>= _) = _
    cases Plan.writeRecord (M := Except) _ s.switches r w <;> rfl
  | @link _ _ _ _ v hr hd _ ih =>
    rcases ih with hsticks | ⟨layers, q, steps, r, hleads, ht⟩
    · exact .inl (.link hr hsticks)
    · exact .inr ⟨layers, q, steps + 1, r, .link hr hd hleads, ht⟩
  | refused _ hr => exact .inl (.here hr)

/-! ## Converters -/

theorem WritesOne.write {c : Converter} (h : s.WritesOne l c.plan v) {w : Value} (hlike : v.Alike w) :
    s.write c w = s.write c v := by
  rcases h with hsticks | ⟨layers, q, steps, r, hleads, hr⟩
  · have hpos := w.depth_pos
    have hpos' := v.depth_pos
    rw [Setting.write_eq, Setting.write_eq, writeWithin_congr_of_sticks hsticks (Value.isNone_alike hlike)]
    exact writeWithin_levels_of_sticks hsticks (by omega) (by omega)
  · have hwrite (w : Value) (hlike : v.Alike w) :
        s.write c w = r.map (layers.repeat (presentSexp s.switches)) := by
      have hpos := w.depth_pos
      obtain ⟨levels, hlevels⟩ : ∃ n, w.depth + s.catalog.size + c.plan.size = n + 1 :=
        ⟨w.depth + s.catalog.size + c.plan.size - 1, by omega⟩
      rw [← Value.isNone_alike hlike] at hleads
      rw [Setting.write_eq, hlevels, writeWithin_of_leads hleads, hr w hlike levels (by omega)]
    rw [hwrite w hlike, hwrite v (.refl v)]

/-- **A value of a converter is written, reads as an equal value, and that is written as the same
tree**, unless the writing is stopped. -/
theorem Takes.write_returns (hopt : s.ReadsOptions) {c : Converter} (h : s.Takes halts l c.plan v) :
    Yields halts (s.write c v) fun t => ∀ node, node.sexp = t →
      ∃ w, s.read c node = .ok w ∧ v.Alike w ∧ s.write c w = .ok t := by
  rcases h.trips hopt with ⟨hhalts, hsticks⟩ | ⟨layers, q, steps, hleads, hq, -⟩
  · exact .inl ⟨hhalts, write_of_sticks hsticks⟩
  · have hpos := v.depth_pos
    refine (write_read_of_leads hopt hleads hq (by omega)).imp_right fun ⟨t, ht, hback⟩ => ⟨t, ht, ?_⟩
    intro node hnode
    obtain ⟨w, hw, hlike⟩ := hback node hnode
    exact ⟨w, hw, hlike, ((h.writes hopt).write hlike).trans ht⟩

end Setting

end TypedSexp
