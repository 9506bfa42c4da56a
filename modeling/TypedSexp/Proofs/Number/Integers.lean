import TypedSexp.Number.Spelling
import TypedSexp.Proofs.Number.Digits
/-!
# Integers that are written are read

`readInt_of_writeInt?`: the decimal text of an integer reads as the integer. The text has no more
digits than may be read, and no digit is taken for a sign, or for the letter of another base.
-/

namespace TypedSexp.Spelling

open Digit

/-- A decimal digit is no sign and announces no base. -/
theorem of_isDigit {c : CodePoint} (h : isDigit c) :
    c ≠ CodePoint.ofChar '-' ∧ c ≠ CodePoint.ofChar '+' ∧ baseOf? c = none := by
  have hdigit : ∀ d : Char, isDigit (CodePoint.ofChar d) = false → c ≠ CodePoint.ofChar d := by
    rintro d hd rfl
    rw [hd] at h
    exact absurd h (by decide)
  refine ⟨hdigit _ (by decide), hdigit _ (by decide), ?_⟩
  unfold baseOf?
  rw [if_neg (not_or.2 ⟨hdigit _ (by decide), hdigit _ (by decide)⟩),
    if_neg (not_or.2 ⟨hdigit _ (by decide), hdigit _ (by decide)⟩),
    if_neg (not_or.2 ⟨hdigit _ (by decide), hdigit _ (by decide)⟩)]

theorem splitBase_digits {t : Text} (h : ∀ c ∈ t, isDigit c) : splitBase t = (none, t) := by
  match t, h with
  | [], _ => rfl
  | [_], _ => rfl
  | zero :: letter :: rest, h =>
    have hletter := (of_isDigit (h letter (by simp))).2.2
    simp [splitBase, hletter]

theorem readMagnitude_digits {t : Text} (hne : t ≠ []) (h : ∀ c ∈ t, isDigit c)
    (hlen : t.length ≤ maxDigits) : readMagnitude t = .ok (positional 10 t) := by
  have hall : t.all (isDigitOrUnderscore 10) = true := by
    rw [List.all_eq_true]
    intro c hc
    have := h c hc
    unfold isDigit at this
    simp [isDigitOrUnderscore, this]
  have hhead : t.head?.any isDigit = true := by
    cases t with
    | nil => exact absurd rfl hne
    | cons c rest => exact h c List.mem_cons_self
  have hcount : ¬ maxDigits < t.countP isDigit := by
    have := List.countP_le_length (p := isDigit) (l := t)
    omega
  rw [readMagnitude, splitBase_digits h]
  simp only [hall, hhead, Bool.and_self, if_true, if_neg hcount]

/-- The decimal digits of a natural number. -/
theorem ofNat_eq (n : Nat) : Text.ofNat n = (Nat.toDigits 10 n).map CodePoint.ofChar := by
  simp [Text.ofNat, Nat.repr]

theorem isDigit_of_mem_ofNat {n : Nat} : ∀ c ∈ Text.ofNat n, isDigit c := by
  rw [ofNat_eq]
  exact isSome_value?_of_mem_toDigits (by omega) (by omega) n

theorem ofNat_ne_nil (n : Nat) : Text.ofNat n ≠ [] := by
  rw [ofNat_eq]
  simp [Nat.toDigits_ne_nil]

theorem readMagnitude_ofNat {n : Nat} (hlen : (Text.ofNat n).length ≤ maxDigits) :
    readMagnitude (Text.ofNat n) = .ok n := by
  rw [readMagnitude_digits (ofNat_ne_nil n) isDigit_of_mem_ofNat hlen, ofNat_eq,
    positional_toDigits (by omega) (by omega)]

/-- A text that spells a number within the limit, or nothing. -/
theorem writeInt?_eq (n : Int) (digits : Text)
    (h : digits.length = if n < 0 then (Text.ofInt n).length - 1 else (Text.ofInt n).length) :
    writeInt? n = if digits.length ≤ maxDigits then some (Text.ofInt n) else none := by
  show (if maxDigits < _ then none else some (Text.ofInt n)) = _
  rw [← h]
  by_cases hlen : digits.length ≤ maxDigits
  · rw [if_pos hlen, if_neg (by omega)]
  · rw [if_neg hlen, if_pos (by omega)]

/-- **An integer that is written is read.** -/
theorem readInt_of_writeInt? {n : Int} {t : Text} (h : writeInt? n = some t) :
    readInt t = .ok n := by
  cases n with
  | ofNat n =>
    rw [writeInt?_eq (.ofNat n) (Text.ofNat n) (if_neg (Int.not_lt.2 (Int.natCast_nonneg n))).symm,
      Option.ite_none_right_eq_some, Option.some.injEq] at h
    obtain ⟨hlen, rfl⟩ := h
    have hsign : splitSign (Text.ofNat n) = (false, Text.ofNat n) := by
      cases ht : Text.ofNat n with
      | nil => exact absurd ht (ofNat_ne_nil n)
      | cons c rest =>
        obtain ⟨hminus, hplus, -⟩ := of_isDigit (isDigit_of_mem_ofNat c (by rw [ht]; simp))
        rw [splitSign, if_neg hminus, if_neg hplus]
    rw [readInt, Text.ofInt, hsign]
    show (readMagnitude (Text.ofNat n) >>= fun n => .ok (n : Int)) = _
    rw [readMagnitude_ofNat hlen]
    rfl
  | negSucc n =>
    rw [writeInt?_eq _ (Text.ofNat (n + 1)) (if_pos (Int.negSucc_lt_zero n)).symm,
      Option.ite_none_right_eq_some, Option.some.injEq] at h
    obtain ⟨hlen, rfl⟩ := h
    have hsign : splitSign (Text.ofInt (.negSucc n)) = (true, Text.ofNat (n + 1)) := rfl
    rw [readInt, hsign]
    show (readMagnitude (Text.ofNat (n + 1)) >>= fun n => .ok (-(n : Int))) = _
    rw [readMagnitude_ofNat hlen]
    rfl

end TypedSexp.Spelling
