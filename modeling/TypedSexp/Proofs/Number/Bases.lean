import Mathlib.Algebra.Group.Nat.Defs
import Mathlib.Data.List.Induction
import Mathlib.Tactic.SplitIfs
import TypedSexp.Proofs.Number.Integers
/-!
# Integers in other bases

An integer is written in decimal, with a limited number of digits (`writeInt?_eq_ite`). An integer that
is read in decimal has no more (`writeInt?_of_decimal`, `maxDigits_lt_of_readInt`), but in another base
it is read however many digits it has (`readInt_hexadecimal`). So there are integers that are read and
have no text.
-/

namespace TypedSexp.Spelling

open Digit

/-- A number has at most so many digits exactly if it is below this power of ten. -/
theorem length_ofNat_le_iff {k : Nat} (hk : 0 < k) (n : Nat) :
    (Text.ofNat n).length ≤ k ↔ n < 10 ^ k := by
  rw [ofNat_eq, List.length_map]
  exact Nat.length_toDigits_le_iff (by omega) hk

theorem length_ofNat_le {m n : Nat} (h : m ≤ n) :
    (Text.ofNat m).length ≤ (Text.ofNat n).length := by
  have hpos : 0 < (Text.ofNat n).length := List.length_pos_iff.2 (ofNat_ne_nil n)
  have hn := (length_ofNat_le_iff hpos n).1 (Nat.le_refl _)
  exact (length_ofNat_le_iff hpos m).2 (Nat.lt_of_le_of_lt h hn)

/-- An integer is written exactly if it has few enough decimal digits. -/
theorem writeInt?_eq_ite (n : Int) :
    writeInt? n = if n.natAbs < 10 ^ maxDigits then some (Text.ofInt n) else none := by
  have hlength := length_ofNat_le_iff (show 0 < maxDigits by decide)
  cases n with
  | ofNat m =>
    rw [writeInt?_eq (.ofNat m) (Text.ofNat m) (if_neg (Int.not_lt.2 (Int.natCast_nonneg m))).symm]
    exact if_congr (hlength m) rfl rfl
  | negSucc m =>
    rw [writeInt?_eq _ (Text.ofNat (m + 1)) (if_pos (Int.negSucc_lt_zero m)).symm]
    exact if_congr (hlength (m + 1)) rfl rfl

/-- An integer with too many digits is not written. -/
theorem writeInt?_eq_none {n : Nat} (h : 10 ^ maxDigits ≤ n) : writeInt? n = none := by
  rw [writeInt?_eq_ite, if_neg (by rw [Int.natAbs_natCast]; omega)]

/-! ## Integers that are read in decimal -/

/-- A number is less than the power of the base that its digits count. -/
theorem positional_lt {base : Nat} (h : 0 < base) (t : Text) :
    positional base t < base ^ t.countP fun c => (value? base c).isSome := by
  induction t using List.reverseRecOn with
  | nil => exact Nat.pow_pos h
  | append_singleton t c ih =>
    cases hc : value? base c with
    | none => simpa [positional, hc] using ih
    | some d =>
      have hd : d < base := by
        unfold value? at hc
        simpa using (Option.filter_eq_some_iff.1 hc).2
      have hlt : positional base t * base + d <
          base ^ (t.countP fun c => (value? base c).isSome) * base := calc
        positional base t * base + d < positional base t * base + base := by omega
        _ = (positional base t + 1) * base := (Nat.succ_mul _ _).symm
        _ ≤ base ^ (t.countP fun c => (value? base c).isSome) * base := Nat.mul_le_mul_right base ih
      simpa [positional_append_singleton base t c hc, hc, Nat.pow_succ] using hlt

/-- Behind the sign the text announces another base than ten. -/
def announcesBase (t : Text) : Bool := (splitBase (splitSign t).2).1.isSome

theorem readMagnitude_lt {t : Text} {n : Nat} (h : readMagnitude t = .ok n)
    (ht : (splitBase t).1 = none) : n < 10 ^ maxDigits := by
  unfold readMagnitude at h
  generalize splitBase t = parts at h ht
  obtain ⟨base, digits⟩ := parts
  obtain rfl : base = none := ht
  dsimp only at h
  split_ifs at h with hdigits hcount
  obtain rfl := Except.ok.inj h
  exact Nat.lt_of_lt_of_le (positional_lt (by omega) digits)
    (Nat.pow_le_pow_right (by omega) (Nat.not_lt.1 hcount))

/-- An integer that is read in decimal can be written. -/
theorem writeInt?_of_decimal {t : Text} {n : Int} (h : readInt t = .ok n)
    (ht : announcesBase t = false) : writeInt? n = some (Text.ofInt n) := by
  unfold readInt at h
  unfold announcesBase at ht
  generalize splitSign t = parts at h ht
  obtain ⟨minus, rest⟩ := parts
  cases hm : readMagnitude rest with
  | error fault => simp [hm, bind, Except.bind] at h
  | ok m =>
    have hlt := readMagnitude_lt hm (by simpa using ht)
    obtain rfl : (if minus then -(m : Int) else m) = n := by
      simpa [hm, bind, Except.bind] using h
    rw [writeInt?_eq_ite, if_pos]
    split_ifs <;> omega

theorem splitSign_sublist (t : Text) : (splitSign t).2.Sublist t := by
  unfold splitSign
  split
  · exact .refl _
  · next c rest =>
    split_ifs
    · exact List.sublist_cons_self c rest
    · exact List.sublist_cons_self c rest
    · exact .refl _

theorem splitBase_sublist (t : Text) : (splitBase t).2.Sublist t := by
  unfold splitBase
  split
  · next zero letter rest =>
    split
    · split_ifs
      · exact (List.sublist_cons_self letter rest).cons zero
      · exact .refl _
    · exact .refl _
  · exact .refl _

/-- A text is refused for its digits only if it has more than can be read. -/
theorem maxDigits_lt_of_readInt {t : Text} (h : readInt t = .error .tooManyDigits) :
    maxDigits < t.countP isDigit := by
  have hmagnitude : readMagnitude (splitSign t).2 = .error .tooManyDigits := by
    unfold readInt at h
    generalize splitSign t = parts at h ⊢
    cases hm : readMagnitude parts.2 with
    | error fault => simpa [hm, bind, Except.bind] using h
    | ok n => simp [hm, bind, Except.bind] at h
  have hdigits : maxDigits < (splitBase (splitSign t).2).2.countP isDigit := by
    unfold readMagnitude at hmagnitude
    generalize splitBase (splitSign t).2 = parts at hmagnitude ⊢
    obtain ⟨base, digits⟩ := parts
    cases base with
    | some base =>
      dsimp only at hmagnitude
      split_ifs at hmagnitude
      cases hmagnitude
    | none =>
      dsimp only at hmagnitude
      split_ifs at hmagnitude with hdecimal hcount
      · exact hcount
      · cases hmagnitude
  exact Nat.lt_of_lt_of_le hdigits ((splitBase_sublist _).trans (splitSign_sublist t)).countP_le

/-! ## Integers that are read in another base -/

/-- The hexadecimal text of a natural number. -/
def hexadecimal (n : Nat) : Text :=
  CodePoint.ofChar '0' :: CodePoint.ofChar 'x' :: (Nat.toDigits 16 n).map CodePoint.ofChar

/-- Every natural number is read in hexadecimal. -/
theorem readInt_hexadecimal (n : Nat) : readInt (hexadecimal n) = .ok n := by
  have hdigits := isSome_value?_of_mem_toDigits (show 1 < 16 by omega) (by omega) n
  have hall : ((Nat.toDigits 16 n).map CodePoint.ofChar).all (isDigitOrUnderscore 16) = true := by
    rw [List.all_eq_true]
    intro c hc
    simp [isDigitOrUnderscore, hdigits c hc]
  have hany : ((Nat.toDigits 16 n).map CodePoint.ofChar).any
      (fun c => (value? 16 c).isSome) = true := by
    rw [List.any_eq_true]
    obtain ⟨c, hc⟩ := List.exists_mem_of_ne_nil ((Nat.toDigits 16 n).map CodePoint.ofChar)
      (by simp [Nat.toDigits_ne_nil])
    exact ⟨c, hc, hdigits c hc⟩
  have hsign : splitSign (hexadecimal n) = (false, hexadecimal n) := rfl
  have hbase : splitBase (hexadecimal n) = (some 16, (Nat.toDigits 16 n).map CodePoint.ofChar) := rfl
  have hmagnitude : readMagnitude (hexadecimal n) = .ok n := by
    rw [readMagnitude, hbase]
    simp only [hall, hany, Bool.and_self, if_true, positional_toDigits
      (show 1 < 16 by omega) (by omega) n]
  rw [readInt, hsign]
  show (readMagnitude (hexadecimal n) >>= fun n => .ok (n : Int)) = _
  rw [hmagnitude]
  rfl

end TypedSexp.Spelling
