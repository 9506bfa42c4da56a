import TypedSexp.Proofs.Conversion.Settle
/-!
# Levels suffice

`Setting.writeAt` and `Setting.readAt` convert inside a value, with so many levels left for links.
`Setting.RoundTrips` says that some number of levels suffices for writing a value, that as many
levels as the tree is deep suffice for reading it back, and that what is read is the value, unless a
link stops the writing. Reading a shape takes a level less, because what it holds is less deep; a plan
that leads to a shape spends one (`RoundTrips.of_leads`), and one that sticks is stopped.
-/

namespace TypedSexp

/-- An option that is present, in either form, and what it holds. -/
inductive Presented (switches : Switches) : Node → Node → Prop
  | old {item : Node} {l : Option Location} (h : switches.readsOldOption = true) :
      Presented switches (.list [item] l) item
  | new {t : Text} {item : Node} {l l' : Option Location} (h : t ∈ somethingTags) :
      Presented switches (.list [.atom t l', item] l) item

/-- A present option is read as what it holds. -/
theorem Plan.read_presented {follow : Follow Except} {switches : Switches} {label : Text} {inner : Converter}
    {node item : Node} (h : Presented switches node item) :
    (Plan.option label inner).read follow switches node = inner.plan.read follow switches item := by
  cases h with
  | old hold => rw [Plan.read, if_pos hold]
  | new htag => rw [Plan.read, if_pos (by simpa using htag)]

theorem Value.depth_pos (v : Value) : 0 < v.depth := by
  cases v <;> simp [Value.depth]

namespace Setting

/-- Writes a value with so many levels for the links inside. -/
def writeAt (s : Setting) (levels : Nat) (plan : Plan) (v : Value) : Except WriteError Sexp :=
  plan.write (fun cell id args v => s.writeWithin levels (.link cell id args) v) s.switches v

/-- Reads a tree with so many levels for the links inside. -/
def readAt (s : Setting) (levels : Nat) (plan : Plan) (node : Node) : Except ReadError Value :=
  plan.read (fun cell id args node => s.readWithin levels (.link cell id args) node) s.switches node

/-- The tree reads as something like the value, if it is not deeper than the levels and `slack`. -/
def ReadsBack (s : Setting) (lone : Prop) (slack : Nat) (plan : Plan) (v : Value) (t : Sexp) : Prop :=
  ∀ levels node, node.sexp = t → t.census.depth ≤ levels + slack →
    ∃ w, s.readAt levels plan node = .ok w ∧ v.Like lone w

/-- The value is written with `need` levels, or more, and reads back; or the writing is stopped, if
it `halts`. -/
def RoundTrips (s : Setting) (lone halts : Prop) (slack need : Nat) (plan : Plan) (v : Value) : Prop :=
  ∀ levels, need ≤ levels → Yields halts (s.writeAt levels plan v) (s.ReadsBack lone slack plan v)

theorem RoundTrips.mono {s : Setting} {lone halts : Prop} {slack need need' : Nat} {plan : Plan}
    {v : Value} (h : s.RoundTrips lone halts slack need plan v) (hle : need ≤ need') :
    s.RoundTrips lone halts slack need' plan v :=
  fun levels hlevels => h levels (Nat.le_trans hle hlevels)

variable {s : Setting} {lone halts : Prop} {Trusted : List Converter → Prop} {through : Bool}
  {plan q : Plan} {layers k : Nat} {v : Value}

theorem writeWithin_of_leads (h : s.Leads Trusted (!v.isNone) plan layers q k) (levels : Nat) :
    s.writeWithin (levels + 1) plan v =
      (s.writeAt levels q v).map (layers.repeat (presentSexp s.switches)) := by
  rw [writeWithin_succ, settle_of_leads h]
  show (s.writeAt levels q v >>= fun t => .ok (layers.repeat (presentSexp s.switches) t)) = _
  cases s.writeAt levels q v <;> rfl

theorem readWithin_of_leads (h : s.Leads Trusted false plan layers q k) (levels : Nat)
    (node : Node) : s.readWithin (levels + 1) plan node = s.readAt levels q node := by
  rw [readWithin_succ, settle_of_leads h]
  rfl

theorem census_depth_pos (t : Sexp) : 0 < t.census.depth := by
  cases t <;> simp [Sexp.census]

/-! ## Options -/

/-- Options are read in the form in which they are written. -/
def ReadsOptions (s : Setting) : Prop :=
  ¬ (s.switches.writesOldOption = true ∧ s.switches.readsOldOption = false)

theorem depth_presentSexp (switches : Switches) (t : Sexp) :
    t.census.depth + 1 ≤ (presentSexp switches t).census.depth := by
  unfold presentSexp
  by_cases hold : switches.writesOldOption
  · simp [hold, Sexp.census, Sexp.censusAll]
  · simp only [hold, Sexp.census]
    show t.census.depth + 1 ≤ max 1 (max t.census.depth 0) + 1
    omega

/-- A present option that is written can be read. -/
theorem exists_presented (hopt : s.ReadsOptions) {node : Node} {t : Sexp}
    (h : node.sexp = presentSexp s.switches t) :
    ∃ item, Presented s.switches node item ∧ item.sexp = t := by
  unfold presentSexp at h
  cases node with
  | atom text l => simp [Node.sexp] at h
  | list items l =>
    rw [Node.sexp, Node.sexps_eq_map, Sexp.list.injEq] at h
    by_cases hold : s.switches.writesOldOption
    · rw [if_pos hold] at h
      obtain ⟨item, rest, rfl, hitem, hrest⟩ := List.map_eq_cons_iff.1 h
      obtain rfl := List.map_eq_nil_iff.1 hrest
      have hread : s.switches.readsOldOption = true := by
        by_contra hread
        exact hopt ⟨hold, by simpa using hread⟩
      exact ⟨item, .old hread, hitem⟩
    · rw [if_neg hold] at h
      obtain ⟨head, rest, rfl, hhead, hrest⟩ := List.map_eq_cons_iff.1 h
      obtain ⟨item, rest, rfl, hitem, hrest⟩ := List.map_eq_cons_iff.1 hrest
      obtain rfl := List.map_eq_nil_iff.1 hrest
      cases head with
      | list items l => simp [Node.sexp] at hhead
      | atom text l =>
        obtain rfl : text = "some" := by simpa [Node.sexp] using hhead
        exact ⟨item, .new (by decide), hitem⟩

/-- A present option is read as what is in it. -/
theorem readAt_presentSexp (hopt : s.ReadsOptions) (levels : Nat) (label : Text)
    (inner : Converter) {node : Node} {t : Sexp} (h : node.sexp = presentSexp s.switches t) :
    ∃ node', node'.sexp = t ∧
      s.readAt levels (.option label inner) node = s.readAt levels inner.plan node' := by
  obtain ⟨item, hitem, ht⟩ := exists_presented hopt h
  exact ⟨item, ht, Plan.read_presented hitem⟩

/-- An absent option is written and read in either form. -/
theorem roundTrips_nothing (hopt : s.ReadsOptions) (label : Text) (inner : Converter) :
    s.RoundTrips lone halts 1 0 (.option label inner) .none := by
  intro levels _
  by_cases hold : s.switches.writesOldOption
  · have hread : s.switches.readsOldOption = true := by
      by_contra hread
      exact hopt ⟨hold, by simpa using hread⟩
    refine .of_eq (a := .empty) (by simp [writeAt, Plan.write, hold])
      fun levels node hnode _ => ⟨.none, ?_, .refl _⟩
    cases node with
    | atom text l => simp [Node.sexp, Sexp.empty] at hnode
    | list items l =>
      rw [Node.sexp, Node.sexps_eq_map, Sexp.empty, Sexp.list.injEq] at hnode
      obtain rfl := List.map_eq_nil_iff.1 hnode
      unfold readAt
      rw [Plan.read, if_pos hread, outcome_except]
  · refine .of_eq (a := .atom "none") (by simp [writeAt, Plan.write, hold])
      fun levels node hnode _ => ⟨.none, ?_, .refl _⟩
    cases node with
    | list items l => simp [Node.sexp] at hnode
    | atom text l =>
      obtain rfl : text = "none" := by simpa [Node.sexp] using hnode
      unfold readAt
      rw [Plan.read, if_pos (by decide), outcome_except]

/-- A value that is there is written inside the option. -/
theorem writeAt_option (levels : Nat) (label : Text) (inner : Converter) (hv : v.isNone = false) :
    s.writeAt levels (.option label inner) v =
      (s.writeAt levels inner.plan v).map (presentSexp s.switches) := by
  have hne : v ≠ .none := by
    rintro rfl
    exact absurd hv (by simp [Value.isNone])
  unfold writeAt
  rw [Plan.write]
  · cases inner.plan.write (M := Except) _ _ _ <;> rfl
  · exact hne

/-! ## From shapes to what leads to them -/

/-- A value is written as by the shape that its plan leads to, in the options that are passed. -/
theorem writeAt_of_leads (h : s.Leads Trusted (!v.isNone) plan layers q k) :
    ∀ levels, 0 < levels → ∃ below, levels ≤ below + 1 ∧ s.writeAt levels plan v =
      (s.writeAt below q v).map (layers.repeat (presentSexp s.switches)) := by
  induction h with
  | @here q _ =>
    intro levels _
    refine ⟨levels, Nat.le_succ _, ?_⟩
    cases s.writeAt levels q v <;> rfl
  | link hr hd h _ =>
    intro levels hpos
    obtain ⟨below, rfl⟩ : ∃ n, levels = n + 1 := ⟨levels - 1, by omega⟩
    refine ⟨below, Nat.le_refl _, ?_⟩
    rw [← writeWithin_of_leads (.link hr hd h), writeAt, Plan.write]
  | @option label inner layers steps q ht h ih =>
    intro levels hpos
    obtain ⟨below, hle, hwrite⟩ := ih levels hpos
    refine ⟨below, hle, ?_⟩
    rw [writeAt_option levels label inner (by simpa using ht), hwrite]
    cases s.writeAt below q v <;> rfl

/-- A value that the shape writes like another one is written like it by the plan. -/
theorem writeAt_congr_of_leads (h : s.Leads Trusted (!v.isNone) plan layers q k) {w : Value}
    (hw : w.isNone = v.isNone) (hq : ∀ levels, s.writeAt levels q w = s.writeAt levels q v) :
    ∀ levels, s.writeAt levels plan w = s.writeAt levels plan v := by
  induction h with
  | here _ => exact hq
  | link hr hd h _ =>
    intro levels
    rw [writeAt, writeAt, Plan.write, Plan.write]
    cases levels with
    | zero => rfl
    | succ levels =>
      rw [writeWithin_of_leads (v := v) (.link hr hd h),
        writeWithin_of_leads (v := w) (.link hr hd (hw ▸ h)), hq]
  | option ht _ ih =>
    intro levels
    have hv : v.isNone = false := by simpa using ht
    rw [writeAt_option levels _ _ (hw.trans hv), writeAt_option levels _ _ hv, ih hq]

/-- If the shape reads a tree, then so does the plan, in the options that are passed; and so does
what the plan comes to without passing options, with a level less. -/
theorem ReadsBack.of_leads (hopt : s.ReadsOptions)
    (h : s.Leads Trusted through plan layers q k) {t : Sexp} (hq : s.ReadsBack lone 1 q v t) :
    s.ReadsBack lone 0 plan v (layers.repeat (presentSexp s.switches) t) ∧
      ∃ front steps, s.Leads Trusted false plan 0 front steps ∧
        s.ReadsBack lone 1 front v (layers.repeat (presentSexp s.switches) t) := by
  induction h with
  | @here q hsettled =>
    have hback : s.ReadsBack lone 0 q v t :=
      fun levels node hnode hle => hq levels node hnode (Nat.le_succ_of_le hle)
    refine ⟨hback, q, 0, .here ?_, hq⟩
    cases q with
    | link cell id args => exact absurd hsettled (by simp [Plan.isSettled])
    | _ => rfl
  | @link cell id args c layers steps q hr hd h ih =>
    obtain ⟨-, front, steps, hfront, hback⟩ := ih hq
    refine ⟨fun levels node hnode hle => ?_, front, steps + 1, .link hr hd hfront, hback⟩
    have hpos := census_depth_pos (layers.repeat (presentSexp s.switches) t)
    obtain ⟨below, rfl⟩ : ∃ n, levels = n + 1 := ⟨levels - 1, by omega⟩
    obtain ⟨w, hw, hlike⟩ := hback below node hnode (by omega)
    refine ⟨w, ?_, hlike⟩
    rw [readAt, Plan.read, readWithin_of_leads (.link hr hd hfront), hw]
  | @option label inner layers steps q ht h ih =>
    obtain ⟨hback, -⟩ := ih hq
    have hread : s.ReadsBack lone 1 (.option label inner) v
        ((layers + 1).repeat (presentSexp s.switches) t) := by
      intro levels node hnode hle
      obtain ⟨node', hnode', heq⟩ := readAt_presentSexp hopt levels label inner hnode
      have hdepth := depth_presentSexp s.switches (layers.repeat (presentSexp s.switches) t)
      rw [heq]
      exact hback levels node' hnode' (by rw [Nat.repeat] at hle; omega)
    exact ⟨fun levels node hnode hle => hread levels node hnode (by omega),
      .option label inner, 0, .here rfl, hread⟩

/-- **A plan makes the round trip if the shape that it leads to does.** -/
theorem RoundTrips.of_leads (hopt : s.ReadsOptions)
    (h : s.Leads Trusted (!v.isNone) plan layers q k) {need : Nat}
    (hq : s.RoundTrips lone halts 1 need q v) : s.RoundTrips lone halts 0 (need + 1) plan v := by
  intro levels hle
  obtain ⟨below, hbelow, hwrite⟩ := writeAt_of_leads h levels (by omega)
  rw [hwrite]
  exact (hq below (by omega)).map fun t hback => (hback.of_leads hopt h).1

/-! ## Plans that are shapes -/

variable {c : Converter}

/-- A plan that is no reference and no option writes as its shape does. -/
theorem writeWithin_of_settled {plan : Plan} (h : ∀ through, plan.isSettled through) (levels : Nat)
    (v : Value) : s.writeWithin (levels + 1) plan v = s.writeAt levels plan v := by
  have hleads : s.Leads (fun _ => True) (!v.isNone) plan 0 plan 0 := .here (h _)
  rw [writeWithin_of_leads hleads]
  exact (Except.map_id).symm ▸ rfl

/-- A converter that is no reference and no option writes as its shape does. -/
theorem write_of_settled (h : ∀ through, c.plan.isSettled through) (v : Value) :
    s.write c v = s.writeAt (v.depth + s.catalog.size + c.plan.size - 1) c.plan v := by
  have hpos := v.depth_pos
  have hlevels : v.depth + s.catalog.size + c.plan.size =
      v.depth + s.catalog.size + c.plan.size - 1 + 1 := by omega
  rw [write_eq, hlevels, writeWithin_of_settled h, Nat.add_sub_cancel]

/-- A converter that is no reference and no option reads as its shape does. -/
theorem read_of_settled (h : ∀ through, c.plan.isSettled through) (node : Node) :
    s.read c node = s.readAt (node.sexp.census.depth - 1) c.plan node := by
  have hpos := census_depth_pos node.sexp
  have hlevels : node.sexp.census.depth = node.sexp.census.depth - 1 + 1 := by omega
  have hleads : s.Leads (fun _ => True) false c.plan 0 c.plan 0 := .here (h _)
  rw [read_eq, hlevels, readWithin_of_leads hleads]
  rfl

/-! ## Plans that stick -/

/-- Where the plan sticks, writing is stopped. -/
theorem writeWithin_of_sticks (h : s.Sticks (!v.isNone) plan) (levels : Nat) :
    ∃ e, s.writeWithin levels plan v = .error e ∧ e.stops = true := by
  cases levels with
  | zero => exact ⟨.endless, rfl, rfl⟩
  | succ levels =>
    obtain ⟨e, he⟩ := settle_of_sticks h
    exact ⟨writeFault e, by rw [writeWithin_succ, he]; rfl, stops_writeFault e⟩

/-- Values that are there are stopped alike, and so is nothing. -/
theorem writeWithin_congr_of_sticks (h : s.Sticks (!v.isNone) plan) {w : Value}
    (hw : w.isNone = v.isNone) (levels : Nat) :
    s.writeWithin levels plan w = s.writeWithin levels plan v := by
  cases levels with
  | zero => rfl
  | succ levels =>
    obtain ⟨e, he⟩ := settle_of_sticks h
    rw [writeWithin_succ, writeWithin_succ, hw, he]
    rfl

theorem writeAt_of_sticks (h : s.Sticks (!v.isNone) plan) (levels : Nat) :
    ∃ e, s.writeAt levels plan v = .error e ∧ e.stops = true := by
  induction h with
  | here hr => exact writeWithin_of_sticks (.here hr) levels
  | link hr h _ => exact writeWithin_of_sticks (.link hr h) levels
  | option ht _ ih =>
    obtain ⟨e, he, hstops⟩ := ih
    exact ⟨e, by rw [writeAt_option levels _ _ (by simpa using ht), he]; rfl, hstops⟩

theorem writeAt_congr_of_sticks (h : s.Sticks (!v.isNone) plan) {w : Value}
    (hw : w.isNone = v.isNone) (levels : Nat) :
    s.writeAt levels plan w = s.writeAt levels plan v := by
  induction h with
  | here hr => exact writeWithin_congr_of_sticks (.here hr) hw levels
  | link hr h _ => exact writeWithin_congr_of_sticks (.link hr h) hw levels
  | option ht _ ih =>
    have hv : v.isNone = false := by simpa using ht
    rw [writeAt_option levels _ _ (hw.trans hv), writeAt_option levels _ _ hv, ih]

/-- One level is enough to stop. -/
theorem writeWithin_levels_of_sticks (h : s.Sticks (!v.isNone) plan) {levels levels' : Nat}
    (hpos : 0 < levels) (hpos' : 0 < levels') :
    s.writeWithin levels plan v = s.writeWithin levels' plan v := by
  obtain ⟨e, he⟩ := settle_of_sticks h
  obtain ⟨n, rfl⟩ : ∃ n, levels = n + 1 := ⟨levels - 1, by omega⟩
  obtain ⟨n', rfl⟩ : ∃ n, levels' = n + 1 := ⟨levels' - 1, by omega⟩
  rw [writeWithin_succ, writeWithin_succ, he]
  rfl

theorem writeAt_levels_of_sticks (h : s.Sticks (!v.isNone) plan) {levels levels' : Nat}
    (hpos : 0 < levels) (hpos' : 0 < levels') : s.writeAt levels plan v = s.writeAt levels' plan v := by
  induction h with
  | here hr => exact writeWithin_levels_of_sticks (.here hr) hpos hpos'
  | link hr h _ => exact writeWithin_levels_of_sticks (.link hr h) hpos hpos'
  | option ht _ ih =>
    have hv : v.isNone = false := by simpa using ht
    rw [writeAt_option levels _ _ hv, writeAt_option levels' _ _ hv, ih]

/-! ## Converters -/

/-- A converter whose plan sticks is stopped. -/
theorem write_of_sticks {c : Converter} (h : s.Sticks (!v.isNone) c.plan) :
    ∃ e, s.write c v = .error e ∧ e.stops = true := writeWithin_of_sticks h _

/-- A converter writes and reads a value that the shape of its plan does, if that needs no more
levels than writing has. -/
theorem write_read_of_leads (hopt : s.ReadsOptions) {c : Converter}
    (h : s.Leads Trusted (!v.isNone) c.plan layers q k) {need : Nat}
    (hq : s.RoundTrips lone halts 1 need q v)
    (hneed : need < v.depth + s.catalog.size + c.plan.size) :
    Yields halts (s.write c v) fun t =>
      ∀ node, node.sexp = t → ∃ w, s.read c node = .ok w ∧ v.Like lone w := by
  obtain ⟨levels, hlevels⟩ : ∃ n, v.depth + s.catalog.size + c.plan.size = n + 1 :=
    ⟨v.depth + s.catalog.size + c.plan.size - 1, by omega⟩
  rw [write_eq, hlevels, writeWithin_of_leads h]
  refine (hq levels (by omega)).map fun t hback node hnode => ?_
  obtain ⟨-, front, steps, hfront, hback⟩ := hback.of_leads hopt h
  have hpos := census_depth_pos node.sexp
  obtain ⟨below, hbelow⟩ : ∃ n, node.sexp.census.depth = n + 1 :=
    ⟨node.sexp.census.depth - 1, by omega⟩
  rw [read_eq, hbelow, readWithin_of_leads hfront]
  exact hback below node hnode (by rw [← hnode]; omega)

end Setting

end TypedSexp
