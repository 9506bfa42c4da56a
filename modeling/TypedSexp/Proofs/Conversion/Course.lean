import TypedSexp.Proofs.Conversion.Agreement
/-!
# Courses without levels

Levels are bookkeeping: a link is followed inside the tree, so as many levels as the tree is deep
cover a reading, and more make no difference, however links are followed
(`Course.readWithin_congr`). Reading is therefore reading by the plan, where what stands behind a
link is read in turn (`Course.read_eq_readBy`).
-/

namespace TypedSexp

namespace Course

open Setting (readFault writeFault)

variable {M N : Type → Type → Type} [∀ ε, Monad (M ε)] [Carrier M] [LawfulCarrier M]
  [∀ ε, Monad (N ε)] [Carrier N] [LawfulCarrier N] {r : Course M} {r' : Course N} {through : Bool}

/-! ## Settling -/

/-- What a plan comes to has nothing to be passed. -/
theorem isSettled_of_settleWithin : ∀ (steps : Nat) {plan : Plan} {found : Nat × Plan},
    gives (r.settleWithin through steps plan) found → found.2.isSettled through := by
  intro steps
  induction steps with
  | zero => exact fun h => nomatch LawfulCarrier.of_outcome h
  | succ steps ih =>
    intro plan found h
    cases plan with
    | link cell id args =>
      rw [settleWithin] at h
      obtain ⟨c, -, h⟩ := LawfulCarrier.of_bind h
      exact ih h
    | option label inner =>
      rw [settleWithin] at h
      cases through with
      | true =>
        rw [if_pos rfl] at h
        obtain ⟨⟨k, p⟩, hk, h⟩ := LawfulCarrier.of_bind h
        obtain rfl := Except.ok.inj (LawfulCarrier.of_outcome h)
        have hp := ih hk
        exact hp
      | false =>
        rw [if_neg Bool.false_ne_true] at h
        obtain rfl := Except.ok.inj (LawfulCarrier.of_outcome h)
        rfl
    | _ =>
      obtain rfl := Except.ok.inj (LawfulCarrier.of_outcome h)
      rfl

theorem isSettled_of_settle {plan : Plan} {found : Nat × Plan}
    (h : gives (r.settle through plan) found) : found.2.isSettled through := by
  rw [settle] at h
  by_cases hhead : plan.head through (r.catalog.heads through) = .endless
  · rw [if_pos hhead] at h
    exact nomatch LawfulCarrier.of_outcome h
  · rw [if_neg hhead] at h
    exact isSettled_of_settleWithin _ h

omit [LawfulCarrier M] in
/-- A plan with nothing to be passed comes to itself. -/
theorem settle_of_isSettled {plan : Plan} (h : plan.isSettled through) :
    r.settle through plan = outcome (.ok (0, plan)) := by
  have hhead : plan.head through (r.catalog.heads through) ≠ .endless := by
    cases plan with
    | link cell id args => exact absurd h (by simp [Plan.isSettled])
    | option label inner =>
      have ht : through = false := by simpa [Plan.isSettled] using h
      simp [Plan.head, ht]
    | _ => simp [Plan.head]
  rw [settle, if_neg hhead, stepBound]
  cases plan with
  | link cell id args => exact absurd h (by simp [Plan.isSettled])
  | option label inner =>
    have ht : through = false := by simpa [Plan.isSettled] using h
    rw [settleWithin, if_neg (by simp [ht])]
  | _ => rfl

theorem mapError_settle_of_isSettled {ε : Type} (f : DescriptionFault → ε) {plan : Plan}
    (h : plan.isSettled through) :
    Carrier.mapError f (r.settle through plan) = (pure (0, plan) : M ε (Nat × Plan)) := by
  rw [settle_of_isSettled h]
  exact LawfulCarrier.mapError_ok _ _

/-- A plan with nothing to be passed writes by itself. -/
theorem writeWithin_of_isSettled {levels : Nat} {plan : Plan} {v : Value}
    (h : plan.isSettled !v.isNone) : r.writeWithin (levels + 1) plan v =
      plan.write (fun cell id args v => r.writeWithin levels (.link cell id args) v) r.switches v := by
  have := LawfulCarrier.lawful (M := M) WriteError
  rw [writeWithin, mapError_settle_of_isSettled _ h, pure_bind]
  show (_ >>= fun t => outcome (.ok t)) = _
  simp only [LawfulCarrier.outcome_ok, bind_pure]

/-! ## Levels -/

section Levels

variable {H : ReadConcord M N}

/-- **Readings with enough levels are alike**, if plans come to alike and the switches allow as
much. -/
theorem readWithin_congr (hsw : H.Allows r.switches r'.switches)
    (hsettle : ∀ plan, H.rel (Carrier.mapError readFault (r.settle false plan))
      (Carrier.mapError readFault (r'.settle false plan))) :
    ∀ (levels levels' : Nat) (plan : Plan) (node : Node), node.depth ≤ levels →
      node.depth ≤ levels' →
      H.rel (r.readWithin levels plan node) (r'.readWithin levels' plan node) := by
  intro levels
  induction levels with
  | zero =>
    intro levels' plan node hle _
    exact absurd hle (Nat.not_le_of_lt node.depth_pos)
  | succ levels ih =>
    intro levels' plan node hle hle'
    cases levels' with
    | zero => exact absurd hle' (Nat.not_le_of_lt node.depth_pos)
    | succ levels' =>
      rw [readWithin, readWithin]
      refine H.bind (hsettle plan) fun found hfound _ => ?_
      have hshape := isSettled_of_settle (LawfulCarrier.of_mapError hfound)
      refine Plan.read_congr hsw found.2 (fun cell id args _ n hn => ?_) node (Nat.le_refl _)
        fun hlink => ?_
      · exact ih levels' _ n (by omega) (by omega)
      · exact absurd hlink (by simp [hshape])

end Levels

theorem readWithin_eq {levels : Nat} {plan : Plan} {node : Node} (h : node.depth ≤ levels) :
    r.readWithin levels plan node = r.readWithin node.depth plan node :=
  readWithin_congr (H := .same M) (.refl _ r.switches) (fun _ => rfl) levels node.depth plan node h
    (Nat.le_refl _)

/-! ## Reading by a plan -/

/-- Reads what stands behind a link. -/
def follow (r : Course M) : Follow M :=
  fun cell id args node => r.readWithin node.depth (.link cell id args) node

/-- Reads a tree by a plan. -/
def readBy (r : Course M) (plan : Plan) (node : Node) : M ReadError Value :=
  plan.read r.follow r.switches node

/-- Reading is reading by what the plan comes to. -/
theorem readWithin_eq_bind (plan : Plan) (node : Node) : r.readWithin node.depth plan node =
    (Carrier.mapError readFault (r.settle false plan) >>= fun found => r.readBy found.2 node) := by
  obtain ⟨levels, hlevels⟩ : ∃ n, node.depth = n + 1 :=
    ⟨node.depth - 1, by have := node.depth_pos; omega⟩
  rw [hlevels, readWithin]
  refine (ReadConcord.same M).bind rfl fun found hfound _ => ?_
  have hshape := isSettled_of_settle (LawfulCarrier.of_mapError hfound)
  refine Plan.read_congr (H := .same M) (.refl _ _) found.2 (fun cell id args _ n hn => ?_) node
    (Nat.le_refl _) fun hlink => ?_
  · exact readWithin_eq (by omega)
  · exact absurd hlink (by simp [hshape])

theorem readWithin_eq_readBy (plan : Plan) (node : Node) :
    r.readWithin node.depth plan node = r.readBy plan node := by
  cases hplan : plan.isSettled false with
  | true =>
    have := LawfulCarrier.lawful (M := M) ReadError
    rw [readWithin_eq_bind, mapError_settle_of_isSettled _ hplan, pure_bind]
  | false =>
    cases plan with
    | link cell id args =>
      rw [readBy, Plan.read]
      rfl
    | _ => exact absurd hplan (by simp [Plan.isSettled])

/-- **Reading is reading by the plan.** -/
theorem read_eq_readBy (c : Converter) (node : Node) : r.read c node = r.readBy c.plan node :=
  readWithin_eq_readBy c.plan node

end Course

end TypedSexp
