import TypedSexp.Proofs.Number.Digits
import TypedSexp.Proofs.Sexp.Grammar
/-!
# Escapes are read back

What `Atom.escapeOne` writes for a code point is printable, may stand in a quoted atom whatever
follows it, and is read back as the code point (`unescape_escapeOne`). So a text is read back from
its escapes, and only printable code points are written, surrogates not among them.
-/

namespace TypedSexp

/-! ## Tables of code points -/

namespace Ranges

/-- One of the ranges holds every number between two; the ranges below it are passed over. -/
def covers : Ranges → Nat → Nat → Bool
  | [], _, _ => false
  | (first, last) :: rest, low, high =>
    if first ≤ low ∧ high ≤ last then true
    else if first ≤ low ∧ last < low then covers rest low high
    else false

theorem mem_of_covers {low high n : Nat} (hl : low ≤ n) (hh : n ≤ high) :
    ∀ {rs : Ranges}, rs.covers low high → rs.mem n
  | [], h => by simp [covers] at h
  | (first, last) :: rest, h => by
    unfold covers at h
    unfold mem
    split at h
    · rename_i hin
      rw [if_neg (by omega), if_pos (by omega)]
    · split at h
      · rename_i hbelow
        rw [if_neg (by omega), if_neg (by omega)]
        exact mem_of_covers hl hh h
      · simp at h

end Ranges

namespace CodePoint

theorem isPrintable_of_ascii {c : CodePoint} (hl : 32 ≤ c.val) (hh : c.val < 127) :
    c.isPrintable := by
  unfold isPrintable unprintable
  have h1 : ¬ c.val ≤ 31 := by omega
  simp [Ranges.mem, h1, hh]

theorem not_isSurrogate_of_isPrintable {c : CodePoint} (h : c.isPrintable) :
    c.isSurrogate = false := by
  have hcovers : unprintable.covers 0xD800 0xDFFF := by decide +kernel
  cases hs : c.isSurrogate with
  | false => rfl
  | true =>
    have hrange : 0xD800 ≤ c.val ∧ c.val < 0xE000 := by simpa [isSurrogate] using hs
    have hmem := Ranges.mem_of_covers hrange.1 (by omega) hcovers
    simp [isPrintable, hmem] at h

end CodePoint

/-! ## Digits in escapes -/

namespace Digit

/-- A hexadecimal digit is an ASCII digit or letter. -/
theorem ascii_of_isSome {c : CodePoint} (h : (value? 16 c).isSome) :
    (48 ≤ c.val ∧ c.val ≤ 57) ∨ (97 ≤ c.val ∧ c.val ≤ 102) ∨ (65 ≤ c.val ∧ c.val ≤ 70) := by
  unfold value? at h
  by_cases h1 : 48 ≤ c.val ∧ c.val ≤ 57
  · exact .inl h1
  · by_cases h2 : 97 ≤ c.val ∧ c.val ≤ 102
    · exact .inr (.inl h2)
    · by_cases h3 : 65 ≤ c.val ∧ c.val ≤ 70
      · exact .inr (.inr h3)
      · simp [h1, h2, h3] at h

theorem ne_ofChar_of_isSome {c : CodePoint} (h : (value? 16 c).isSome) {d : Char}
    (hd : value? 16 d = none) : c ≠ CodePoint.ofChar d := by
  rintro rfl
  simp [hd] at h

end Digit

namespace Atom

/-! ## Reading back -/

theorem unescape_plain {c : CodePoint} (hc : c ≠ '\\') (rest : Text) :
    unescape (c :: rest) = c :: unescape rest := by
  rw [unescape, if_neg hc]

theorem unescape_backslash {t meaning : Text} {n : Nat} (h : escape? t = some (meaning, n)) :
    unescape (CodePoint.ofChar '\\' :: t) = meaning ++ unescape (t.drop n) := by
  rw [unescape, if_pos rfl, h]

theorem escape?_of_simple {x c : CodePoint} (h : simpleEscape? x = some c) (rest : Text) :
    escape? (x :: rest) = some ([c], 1) := by
  simp [escape?, h]

theorem unescape_simple {x c : CodePoint} (h : simpleEscape? x = some c) (rest : Text) :
    unescape (CodePoint.ofChar '\\' :: x :: rest) = c :: unescape rest := by
  rw [unescape_backslash (escape?_of_simple h rest)]
  rfl

theorem numbered?_eq_some {base bound : Nat} {digits : Text} {c : CodePoint}
    (hd : ∀ d ∈ digits, (Digit.value? base d).isSome) (hc : Digit.positional base digits = c.val)
    (hb : c.val ≤ bound) : numbered? base bound digits = some c := by
  unfold numbered?
  rw [if_pos (List.all_eq_true.2 hd)]
  simp [hc, hb, CodePoint.ofNat?, c.isLt]

/-- The three decimal digits of a small code point. -/
def decimals (c : CodePoint) : Text :=
  [Nat.digitChar (c.val / 100), Nat.digitChar (c.val / 10 % 10), Nat.digitChar (c.val % 10)]

/-- The hexadecimal digits of a code point. -/
def hexadecimals (c : CodePoint) : Text := (Nat.toDigits 16 c.val).map CodePoint.ofChar

theorem isSome_of_mem_decimals {c : CodePoint} (hc : c.val < 256) :
    ∀ d ∈ decimals c, (Digit.value? 10 d).isSome := by
  intro d hd
  have hdigit {n : Nat} (hn : n < 10) : (Digit.value? 10 (Nat.digitChar n)).isSome := by
    rw [Digit.value?_digitChar (by omega) hn]; rfl
  simp only [decimals, List.mem_cons, List.not_mem_nil, or_false] at hd
  rcases hd with rfl | rfl | rfl
  · exact hdigit (by omega)
  · exact hdigit (by omega)
  · exact hdigit (by omega)

theorem positional_decimals {c : CodePoint} (hc : c.val < 256) :
    Digit.positional 10 (decimals c) = c.val := by
  have h1 := Digit.value?_digitChar (by omega : 10 ≤ 16) (by omega : c.val / 100 < 10)
  have h2 := Digit.value?_digitChar (by omega : 10 ≤ 16) (by omega : c.val / 10 % 10 < 10)
  have h3 := Digit.value?_digitChar (by omega : 10 ≤ 16) (by omega : c.val % 10 < 10)
  simp only [Digit.positional, decimals, List.filterMap_cons, h1, h2, h3, List.filterMap_nil,
    List.foldl_cons, List.foldl_nil]
  omega

theorem unescape_decimals {c : CodePoint} (hc : c.val < 256) (rest : Text) :
    unescape (CodePoint.ofChar '\\' :: decimals c ++ rest) = c :: unescape rest := by
  have hstart : ∀ d < 10, simpleEscape? (CodePoint.ofChar (Nat.digitChar d)) = none ∧
      CodePoint.ofChar (Nat.digitChar d) ≠ CodePoint.ofChar '\n' ∧
      CodePoint.ofChar (Nat.digitChar d) ≠ CodePoint.ofChar '\r' := by decide
  obtain ⟨hs, hn, hr⟩ := hstart (c.val / 100) (by omega)
  have hd : Digit.isDigit (Nat.digitChar (c.val / 100)) := by
    exact isSome_of_mem_decimals hc _ (by simp [decimals])
  have hnum : numbered? 10 255 (decimals c) = some c :=
    numbered?_eq_some (isSome_of_mem_decimals hc) (positional_decimals hc) (by omega)
  have hescape : escape? (decimals c ++ rest) = some ([c], 3) := by
    unfold decimals at hnum ⊢
    simp [escape?, hs, hn, hr, hd, hnum]
  rw [List.cons_append, unescape_backslash hescape]
  rfl

theorem isSome_of_mem_hexadecimals (c : CodePoint) :
    ∀ d ∈ hexadecimals c, (Digit.value? 16 d).isSome :=
  Digit.isSome_value?_of_mem_toDigits (by omega) (by omega) c.val

theorem unescape_hexadecimals (c : CodePoint) (rest : Text) :
    unescape (CodePoint.ofChar '\\' :: 'u' :: CodePoint.ofChar '\x7b' ::
      (hexadecimals c ++ CodePoint.ofChar '\x7d' :: rest)) = c :: unescape rest := by
  have hne : hexadecimals c ≠ [] := by simp [hexadecimals, Nat.toDigits_ne_nil]
  have hclose : ∀ d ∈ hexadecimals c, d ≠ CodePoint.ofChar '\x7d' := fun d hd =>
    Digit.ne_ofChar_of_isSome (isSome_of_mem_hexadecimals c d hd) (by decide)
  have htake : (hexadecimals c ++ CodePoint.ofChar '\x7d' :: rest).takeWhile
      (fun x => decide (x ≠ CodePoint.ofChar '\x7d')) = hexadecimals c := by
    rw [List.takeWhile_append_of_pos (by simpa using hclose)]
    simp
  have hnum : numbered? 16 0x10FFFF (hexadecimals c) = some c :=
    numbered?_eq_some (isSome_of_mem_hexadecimals c)
      (Digit.positional_toDigits (by omega) (by omega) c.val) (by have := c.isLt; omega)
  have hescape : escape? (CodePoint.ofChar 'u' :: CodePoint.ofChar '\x7b' ::
      (hexadecimals c ++ CodePoint.ofChar '\x7d' :: rest)) =
        some ([c], (hexadecimals c).length + 3) := by
    have hs : simpleEscape? (CodePoint.ofChar 'u') = none := by decide
    have hd : Digit.isDigit (CodePoint.ofChar 'u') = false := by decide
    have hn : CodePoint.ofChar 'u' ≠ CodePoint.ofChar '\n' := by decide
    have hr : CodePoint.ofChar 'u' ≠ CodePoint.ofChar '\r' := by decide
    have hx : CodePoint.ofChar 'u' ≠ CodePoint.ofChar 'x' := by decide
    simp only [escape?, hs, hd, if_neg hn, if_neg hr, if_neg hx, if_true, htake]
    simp [hne, hnum]
  have hdrop : (hexadecimals c).drop ((hexadecimals c).length + 1) = [] :=
    List.drop_eq_nil_of_le (by omega)
  rw [unescape_backslash hescape]
  simp [List.drop_append, hdrop]

/-! ## What is written -/

/-- The four forms of an escape: a letter, the code point itself, decimal digits, and hexadecimal
digits in braces. -/
theorem escapeOne_cases (c : CodePoint) :
    (∃ x : CodePoint, simpleEscape? x = some c ∧ x.isPrintable ∧
      escapeOne c = [CodePoint.ofChar '\\', x]) ∨
    (c.isPrintable ∧ c ≠ '"' ∧ c ≠ '\\' ∧ escapeOne c = [c]) ∨
    (c.val < 256 ∧ escapeOne c = CodePoint.ofChar '\\' :: decimals c) ∨
    escapeOne c = CodePoint.ofChar '\\' :: 'u' :: CodePoint.ofChar '\x7b' ::
      (hexadecimals c ++ [CodePoint.ofChar '\x7d']) := by
  by_cases h1 : c = '"'
  · subst h1; exact .inl ⟨'"', by decide, by decide, by decide⟩
  by_cases h2 : c = '\\'
  · subst h2; exact .inl ⟨'\\', by decide, by decide, by decide⟩
  by_cases h3 : c = '\n'
  · subst h3; exact .inl ⟨'n', by decide, by decide, by decide⟩
  by_cases h4 : c = '\t'
  · subst h4; exact .inl ⟨'t', by decide, by decide, by decide⟩
  by_cases h5 : c = '\r'
  · subst h5; exact .inl ⟨'r', by decide, by decide, by decide⟩
  by_cases h6 : c = '\x08'
  · subst h6; exact .inl ⟨'b', by decide, by decide, by decide⟩
  unfold escapeOne
  rw [if_neg h1, if_neg h2, if_neg h3, if_neg h4, if_neg h5, if_neg h6]
  by_cases hp : c.isPrintable
  · rw [if_pos hp]
    exact .inr (.inl ⟨hp, h1, h2, rfl⟩)
  rw [if_neg hp]
  by_cases hc : c.val < 256
  · rw [if_pos hc]
    exact .inr (.inr (.inl ⟨hc, rfl⟩))
  · rw [if_neg hc]
    refine .inr (.inr (.inr ?_))
    simp [hexadecimals]

/-- **An escape is read back, whatever follows it.** -/
theorem unescape_escapeOne (c : CodePoint) (rest : Text) :
    unescape (escapeOne c ++ rest) = c :: unescape rest := by
  rcases escapeOne_cases c with ⟨x, hx, _, he⟩ | ⟨_, _, hb, he⟩ | ⟨hc, he⟩ | he
  · rw [he]; exact unescape_simple hx rest
  · rw [he]; exact unescape_plain hb rest
  · rw [he]; exact unescape_decimals hc rest
  · rw [he]
    have h := unescape_hexadecimals c rest
    simpa using h

theorem unescape_flatMap_escapeOne (t : Text) : unescape (t.flatMap escapeOne) = t := by
  induction t with
  | nil => rw [List.flatMap_nil, unescape]
  | cons c t ih => rw [List.flatMap_cons, unescape_escapeOne, ih]

/-- A hexadecimal digit is printable and ends no quoted body. -/
theorem digit_plain {c : CodePoint} (h : (Digit.value? 16 c).isSome) :
    c.isPrintable ∧ c ≠ '"' ∧ c ≠ '\\' := by
  have hrange := Digit.ascii_of_isSome h
  exact ⟨CodePoint.isPrintable_of_ascii (by omega) (by omega),
    Digit.ne_ofChar_of_isSome h (by decide), Digit.ne_ofChar_of_isSome h (by decide)⟩

theorem decimals_plain {c : CodePoint} (hc : c.val < 256) :
    ∀ d ∈ decimals c, d.isPrintable ∧ d ≠ '"' ∧ d ≠ '\\' := by
  intro d hd
  refine digit_plain ?_
  obtain ⟨n, hn⟩ := Option.isSome_iff_exists.1 (isSome_of_mem_decimals hc d hd)
  rw [Digit.value?_mono (by omega) hn]
  rfl

/-- What is written is printable. -/
theorem isPrintable_escapeOne (c : CodePoint) : (escapeOne c).isPrintable := by
  have hslash : CodePoint.isPrintable '\\' := by decide
  have hu : CodePoint.isPrintable 'u' := by decide
  have hopen : CodePoint.isPrintable '\x7b' := by decide
  have hclose : CodePoint.isPrintable '\x7d' := by decide
  unfold Text.isPrintable
  rcases escapeOne_cases c with ⟨x, _, hx, he⟩ | ⟨hp, _, _, he⟩ | ⟨hc, he⟩ | he
  · simp [he, hslash, hx]
  · simp [he, hp]
  · have hd : (decimals c).all CodePoint.isPrintable :=
      List.all_eq_true.2 fun d hd => (decimals_plain hc d hd).1
    simp [he, hslash, hd]
  · have hd : (hexadecimals c).all CodePoint.isPrintable :=
      List.all_eq_true.2 fun d hd => (digit_plain (isSome_of_mem_hexadecimals c d hd)).1
    simp [he, hslash, hu, hopen, hclose, hd]

/-- What is written may stand between quotes. -/
theorem quotedBody_escapeOne (c : CodePoint) : Grammar.QuotedBody (escapeOne c) := by
  rcases escapeOne_cases c with ⟨x, _, _, he⟩ | ⟨_, hq, hb, he⟩ | ⟨hc, he⟩ | he
  · rw [he]; exact .pair x .nil
  · rw [he]; exact .plain hq hb .nil
  · rw [he]
    have hplain := decimals_plain hc
    unfold decimals at hplain ⊢
    refine .pair _ (.of_plain fun d hd => (hplain d (List.mem_cons_of_mem _ hd)).2)
  · rw [he]
    refine .pair _ (.plain (by decide) (by decide) ?_)
    refine .append (.of_plain fun d hd => ?_) (.plain (by decide) (by decide) .nil)
    exact (digit_plain (isSome_of_mem_hexadecimals c d hd)).2

theorem quotedBody_flatMap_escapeOne (t : Text) : Grammar.QuotedBody (t.flatMap escapeOne) := by
  induction t with
  | nil => exact .nil
  | cons c t ih => exact (quotedBody_escapeOne c).append ih

end Atom

end TypedSexp
