import TypedSexp.Number.Digit
/-!
# Digits that are written read as the number

`Nat.toDigits` writes a number in a base; `Digit.positional` reads it back (`positional_toDigits`)
and takes every code point of it for a digit (`isSome_value?_of_mem_toDigits`). Both hold for every
base up to sixteen.
-/

namespace TypedSexp.Digit

/-- A digit of a base is a digit of every larger one. -/
theorem value?_mono {base base' d : Nat} {c : CodePoint} (hb : base ≤ base')
    (hc : value? base c = some d) : value? base' c = some d := by
  unfold value? at hc ⊢
  rw [Option.filter_eq_some_iff] at hc ⊢
  have hd : d < base := by simpa using hc.2
  exact ⟨hc.1, by simpa using (by omega : d < base')⟩

/-- A smaller base only filters the digits of base sixteen. -/
theorem value?_of_lt {base d : Nat} {c : CodePoint} (hc : value? 16 c = some d) (hd : d < base) :
    value? base c = some d := by
  unfold value? at hc ⊢
  rw [Option.filter_eq_some_iff] at hc ⊢
  exact ⟨hc.1, by simpa using hd⟩

theorem value?_digitChar {base d : Nat} (hb : base ≤ 16) (hd : d < base) :
    value? base (Nat.digitChar d) = some d := by
  have hfull : ∀ d < 16, value? 16 (Nat.digitChar d) = some d := by decide
  exact value?_of_lt (hfull d (by omega)) hd

theorem positional_append_singleton (base : Nat) (t : Text) (c : CodePoint) {d : Nat}
    (hc : value? base c = some d) :
    positional base (t ++ [c]) = positional base t * base + d := by
  simp [positional, List.filterMap_append, List.foldl_append, hc]

theorem positional_singleton (base : Nat) (c : CodePoint) {d : Nat} (hc : value? base c = some d) :
    positional base [c] = d := by
  simp [positional, hc]

/-- **Reading the digits of a number gives the number.** -/
theorem positional_toDigits {base : Nat} (h1 : 1 < base) (hb : base ≤ 16) (n : Nat) :
    positional base ((Nat.toDigits base n).map CodePoint.ofChar) = n := by
  induction n using Nat.strongRecOn with
  | ind n ih =>
    by_cases hn : n < base
    · rw [Nat.toDigits_of_lt_base hn]
      exact positional_singleton base _ (value?_digitChar hb hn)
    · have hlt : n / base < n := Nat.div_lt_self (by omega) h1
      have hd := value?_digitChar hb (Nat.mod_lt n (by omega : 0 < base))
      rw [Nat.toDigits_of_base_le h1 (by omega), List.map_append, List.map_singleton,
        positional_append_singleton base _ _ hd, ih _ hlt, Nat.mul_comm]
      exact Nat.div_add_mod n base

/-- Every code point of a written number is a digit. -/
theorem isSome_value?_of_mem_toDigits {base : Nat} (h1 : 1 < base) (hb : base ≤ 16) (n : Nat) :
    ∀ c ∈ (Nat.toDigits base n).map CodePoint.ofChar, (value? base c).isSome := by
  induction n using Nat.strongRecOn with
  | ind n ih =>
    by_cases hn : n < base
    · rw [Nat.toDigits_of_lt_base hn]
      simp [value?_digitChar hb hn]
    · have hlt : n / base < n := Nat.div_lt_self (by omega) h1
      have hd := value?_digitChar hb (Nat.mod_lt n (by omega : 0 < base))
      rw [Nat.toDigits_of_base_le h1 (by omega), List.map_append]
      intro c hc
      rcases List.mem_append.1 hc with hc | hc
      · exact ih _ hlt c hc
      · obtain rfl : c = Nat.digitChar (n % base) := by simpa using hc
        simp [hd]

end TypedSexp.Digit
