import TypedSexp.Proofs.Value.Likeness
import TypedSexp.Value.Storage
/-!
# Values that are stored as they are

What an element type makes of a value is a value of one kind. So a value that is stored as it is has
that kind, or the element type is that of any values (`store_fixed`); and equal values are stored as
equal values (`store_like`).
-/

namespace TypedSexp

namespace Storage

theorem storeWord_int {signed : Bool} {width : Width} {n : Int} {u : Value}
    (h : storeWord signed width n = .ok u) : ∃ m, u = .int m := by
  unfold storeWord at h
  split at h
  · exact ⟨n, (Except.ok.inj h).symm⟩
  · split at h
    · simp at h
    · split at h <;> simp at h

theorem storeRead_int {signed : Bool} {width : Width} {literal : Text}
    {x : Except Spelling.LooseFault Int} {u : Value}
    (h : storeRead signed width literal x = .ok u) : ∃ m, u = .int m := by
  unfold storeRead at h
  split at h
  · exact storeWord_int h
  · simp at h
  · simp at h

theorem storeInteger_int {signed : Bool} {width : Width} {v u : Value}
    (h : storeInteger signed width v = .ok u) : ∃ m, u = .int m := by
  fun_induction storeInteger signed width v with
  | case1 b => exact ⟨_, (Except.ok.inj h).symm⟩
  | case2 n => exact ⟨_, (Except.ok.inj h).symm⟩
  | _ => first | exact storeWord_int h | exact storeRead_int h | simp at h | (rename_i ih; exact ih h)

theorem storeFloat_float {fit : Binary64 → Binary64} {v u : Value}
    (h : storeFloat fit v = .ok u) : ∃ x, u = .float x := by
  fun_induction storeFloat fit v with
  | _ => first | exact ⟨_, (Except.ok.inj h).symm⟩ | simp at h | (rename_i ih; exact ih h)

/-- A value that is stored as it is. -/
theorem store_fixed {e : ElementType} {v : Value} (h : store e v = .ok v) :
    e = .any ∨ (∃ signed width n, e = .integer signed width ∧ v = .int n) ∨
      (e.isFloat = true ∧ ∃ x, v = .float x) ∨ (e = .boolean ∧ ∃ b, v = .bool b) := by
  cases e with
  | any => exact .inl rfl
  | integer signed width =>
    obtain ⟨n, rfl⟩ := storeInteger_int h
    exact .inr (.inl ⟨signed, width, n, rfl, rfl⟩)
  | single =>
    obtain ⟨x, rfl⟩ := storeFloat_float h
    exact .inr (.inr (.inl ⟨rfl, x, rfl⟩))
  | double =>
    obtain ⟨x, rfl⟩ := storeFloat_float h
    exact .inr (.inr (.inl ⟨rfl, x, rfl⟩))
  | boolean =>
    refine .inr (.inr (.inr ⟨rfl, ?_⟩))
    unfold store storeBoolean at h
    cases htruth : v.truth with
    | error e => simp [htruth] at h
    | ok b => exact ⟨b, by simpa [htruth, eq_comm] using h⟩

/-! ## Equal values -/

theorem fraction_zero (e : Int) : (Binary64.fraction 0 e).1 = 0 := by
  unfold Binary64.fraction scaleFraction
  split <;> simp

theorem round_zero (f : Format) (negative : Bool) (den : Nat) :
    f.round negative 0 den = .finite negative 0 f.leastExponent := if_pos rfl

theorem toSingle_isZero {x : Binary64} (h : x.isZero = true) : x.toSingle.isZero = true := by
  cases x with
  | nan p => exact absurd h (by simp [Binary64.isZero])
  | infinite s => exact absurd h (by simp [Binary64.isZero])
  | finite s m e =>
    obtain rfl : m = 0 := by simpa [Binary64.isZero] using h
    have hsingle : Binary64.toSingle (.finite s 0 e) = .finite s 0 binary64.leastExponent := by
      unfold Binary64.toSingle
      simp only [fraction_zero, round_zero]
    rw [hsingle]
    rfl

/-- Floats are stored by what is done to take them into the type. -/
theorem store_float {e : ElementType} (he : e.isFloat = true) : ∃ fit : Binary64 → Binary64,
    (∀ x, store e (.float x) = .ok (.float (fit x.forgetOrigin))) ∧ (∀ p, fit (.nan p) = .nan p) ∧
      ∀ x, x.isZero = true → (fit x).isZero = true := by
  cases e with
  | single => exact ⟨Binary64.toSingle, fun _ => rfl, fun _ => rfl, fun _ => toSingle_isZero⟩
  | double => exact ⟨id, fun _ => rfl, fun _ => rfl, fun _ h => h⟩
  | _ => exact absurd he (by simp [ElementType.isFloat])

/-- What equals a value that is stored as it is, is stored as something equal. -/
theorem store_like {lone : Prop} {e : ElementType} {v w : Value} (h : store e v = .ok v)
    (hlike : v.Like lone w) : ∃ u, store e w = .ok u ∧ v.Like lone u := by
  rcases store_fixed h with rfl | ⟨signed, width, n, rfl, rfl⟩ | ⟨he, x, rfl⟩ | ⟨rfl, b, rfl⟩
  · exact ⟨w, rfl, hlike⟩
  · cases hlike with
    | refl _ => exact ⟨_, h, .refl _⟩
    | nothing _ hx _ => simp [Value.content?] at hx
  · obtain ⟨fit, hstore, hnan, hzero⟩ := store_float he
    cases hlike with
    | refl _ => exact ⟨_, h, .refl _⟩
    | nothing _ hx _ => simp [Value.content?] at hx
    | nan p q => exact ⟨_, hstore _, by rw [Binary64.forgetOrigin, Binary64.withOrigin, hnan]; exact .nan _ _⟩
    | @float _ y hxy =>
      rcases Binary64.numEq_cases hxy with rfl | ⟨hx, hy⟩
      · exact ⟨_, h, .refl _⟩
      · refine ⟨_, hstore _, .float (Binary64.numEq_of_isZero hx (hzero _ ?_))⟩
        cases y <;> simp_all [Binary64.isZero, Binary64.forgetOrigin, Binary64.withOrigin]
  · cases hlike with
    | refl _ => exact ⟨_, h, .refl _⟩
    | nothing _ hx _ => simp [Value.content?] at hx

end Storage

end TypedSexp
