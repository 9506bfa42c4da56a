import TypedSexp.Proofs.Conversion.Course
/-!
# Reading without levels

With what is remembered beforehand reading is reading by the plan (`Setting.read_eq_readBy`), as in
every course, and a plan reads as what it comes to (`Setting.readBy_eq_bind`). More levels do not
change what is written either (`Setting.writeWithin_unended`).
-/

namespace TypedSexp

/-- The same, unless the first one has no end. -/
def Concord.unended (gist : WriteError → WriteError) : Concord Except Except gist where
  rel x y := x = .error .endless ∨ x = y
  exact := True
  lenient := False
  refl _ := .inr rfl
  errors he _ := .inr (by rw [he trivial])
  anything _ _ h := h.elim
  bind := by
    rintro α β x _ f g (rfl | rfl) h
    · exact .inl rfl
    · cases x with
      | error e => exact .inr rfl
      | ok a => exact h a rfl rfl

namespace Setting

/-- The setting with other switches. -/
abbrev switching (s : Setting) (switches : Switches) : Setting := { s with switches := switches }


/-- The setting with another memory. -/
abbrev remembering (s : Setting) (deriver : Deriver) : Setting := { s with deriver := deriver }

variable {s : Setting} {switches : Switches} {through : Bool}

/-! ## Settling -/

/-- What a plan comes to has nothing to be passed. -/
theorem isSettled_of_settle {plan q : Plan} {layers : Nat}
    (h : s.settle through plan = .ok (layers, q)) : q.isSettled through :=
  Course.isSettled_of_settle (r := s.course) (M := Except) h

/-- The switches have no part in what a plan comes to. -/
theorem settleWithin_switching : ∀ (steps : Nat) (plan : Plan),
    (s.switching switches).settleWithin through steps plan = s.settleWithin through steps plan := by
  intro steps
  induction steps with
  | zero => exact fun _ => rfl
  | succ steps ih =>
    intro plan
    cases plan with
    | link cell id args =>
      rw [settleWithin_link, settleWithin_link]
      exact congrArg (s.resolve cell id args >>= ·) (funext fun c => ih c.plan)
    | option label inner =>
      rw [settleWithin_option, settleWithin_option, ih]
    | _ => rfl

theorem settle_switching (switches : Switches) (plan : Plan) :
    (s.switching switches).settle through plan = s.settle through plan := by
  rw [settle_eq, settle_eq, settleWithin_switching]
  rfl

/-! ## Levels -/

/-- **Readings with enough levels are alike**, if the switches allow as much. -/
theorem readWithin_congr {H : ReadConcord Except Except} (hsw : H.Allows s.switches switches)
    (levels levels' : Nat) (plan : Plan) (node : Node) (h : node.depth ≤ levels)
    (h' : node.depth ≤ levels') :
    H.rel (s.readWithin levels plan node) ((s.switching switches).readWithin levels' plan node) := by
  have hallows : H.Allows s.course.switches (s.switching switches).course.switches := hsw
  refine Course.readWithin_congr hallows (fun plan => ?_) levels levels' plan node h h'
  have hsettle : (s.switching switches).settle false plan = s.settle false plan :=
    settle_switching switches plan
  show H.rel ((s.settle false plan).mapError _) (((s.switching switches).settle false plan).mapError _)
  rw [hsettle]
  exact H.refl ((s.settle false plan).mapError readFault)

theorem readWithin_eq {levels : Nat} {plan : Plan} {node : Node} (h : node.depth ≤ levels) :
    s.readWithin levels plan node = s.readWithin node.depth plan node :=
  Course.readWithin_eq (r := s.course) h

/-- With more levels the same is written, unless the levels did not suffice. -/
theorem writeWithin_unended : ∀ (levels levels' : Nat) (plan : Plan) (v : Value), levels ≤ levels' →
    s.writeWithin levels plan v = .error .endless ∨
      s.writeWithin levels plan v = s.writeWithin levels' plan v := by
  intro levels
  induction levels with
  | zero => exact fun _ _ _ _ => .inl rfl
  | succ levels ih =>
    intro levels' plan v hle
    obtain ⟨levels', rfl⟩ : ∃ n, levels' = n + 1 := ⟨levels' - 1, by omega⟩
    rw [writeWithin_succ, writeWithin_succ]
    refine (Concord.unended WriteError.gist).bind (.inr rfl) fun found _ _ => ?_
    refine (Concord.unended WriteError.gist).bind ?_ fun t _ _ => .inr rfl
    exact Plan.write_congr (H := .unended WriteError.gist) rfl found.2
      (fun cell id args _ v => ih levels' (.link cell id args) v (by omega)) v

theorem writeAt_unended {levels levels' : Nat} (hle : levels ≤ levels') (plan : Plan) (v : Value) :
    s.writeAt levels plan v = .error .endless ∨ s.writeAt levels plan v = s.writeAt levels' plan v :=
  Plan.write_congr (H := .unended WriteError.gist) rfl plan
    (fun cell id args _ v => writeWithin_unended levels levels' (.link cell id args) v hle) v

/-! ## Reading by a plan -/

/-- Reads what stands behind a link. -/
def follow (s : Setting) : Follow Except :=
  fun cell id args node => s.readWithin node.depth (.link cell id args) node

/-- Reads a tree by a plan. -/
def readBy (s : Setting) (plan : Plan) (node : Node) : Except ReadError Value :=
  plan.read s.follow s.switches node

/-- Reading is reading by what the plan comes to. -/
theorem readWithin_eq_bind (plan : Plan) (node : Node) : s.readWithin node.depth plan node =
    ((s.settle false plan).mapError readFault >>= fun found => s.readBy found.2 node) :=
  Course.readWithin_eq_bind (r := s.course) plan node

theorem settle_of_isSettled {plan : Plan} (h : plan.isSettled through) :
    s.settle through plan = .ok (0, plan) := Course.settle_of_isSettled (r := s.course) h

theorem readWithin_eq_readBy (plan : Plan) (node : Node) :
    s.readWithin node.depth plan node = s.readBy plan node :=
  Course.readWithin_eq_readBy (r := s.course) plan node

/-- **Reading is reading by the plan.** -/
theorem read_eq_readBy (c : Converter) (node : Node) : s.read c node = s.readBy c.plan node :=
  readWithin_eq_readBy c.plan node

/-- With enough levels a plan reads as without. -/
theorem readAt_eq_readBy {levels : Nat} {node : Node} (h : node.depth ≤ levels) (plan : Plan) :
    s.readAt levels plan node = s.readBy plan node :=
  Plan.read_congr (H := .same Except) (.refl _ s.switches) plan
    (fun _ _ _ _ _ hn => readWithin_eq (Nat.le_trans (Nat.le_of_lt_succ hn) h)) node
    (Nat.le_succ _) fun _ => Nat.lt_succ_self node.depth

/-- A plan reads as what it comes to does. -/
theorem readBy_eq_bind (plan : Plan) (node : Node) : s.readBy plan node =
    ((s.settle false plan).mapError readFault >>= fun found => s.readBy found.2 node) := by
  rw [← readWithin_eq_readBy, readWithin_eq_bind]

end Setting

end TypedSexp
