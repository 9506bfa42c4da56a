import Mathlib.Data.Nat.Digits.Defs
import TypedSexp.Proofs.Conversion.Builtin
import TypedSexp.Proofs.Number.Bases
/-!
# The grammar of integers

`Numeral` says which texts spell an integer, in which base and with which digits; it mentions no
reader. A numeral is read as the positional value of its digits with its sign, unless it is decimal and
has too many of them (`Numeral.readInt`), and what is no numeral is no integer (`exists_numeral_or`).
So the converter of integers reads exactly the numerals, and refuses everything else for its shape
(`Builtin.read_spelled_integer`).
-/

namespace TypedSexp

namespace Spelling

open Digit

/-! ## Numerals -/

/-- The code point is a digit of a base up to sixteen; letters stand in either case. -/
def IsDigitOf (base : Nat) (c : CodePoint) (d : Nat) : Prop :=
  d < base ∧ (c = Nat.digitChar d ∨ c = (Nat.digitChar d).toUpper)

/-- A run of digits of a base, with underscores anywhere in it, and the digits. -/
inductive Run (base : Nat) : Text → List Nat → Prop
  | nil : Run base [] []
  | digit {c : CodePoint} {d : Nat} {t : Text} {ds : List Nat} (hc : IsDigitOf base c d) :
      Run base t ds → Run base (c :: t) (d :: ds)
  | underscore {t : Text} {ds : List Nat} :
      Run base t ds → Run base (CodePoint.ofChar '_' :: t) ds

/-- Behind a zero the letter announces the base. -/
inductive Announces : Char → Nat → Prop
  | hexadecimal : Announces 'x' 16
  | upperHexadecimal : Announces 'X' 16
  | octal : Announces 'o' 8
  | upperOctal : Announces 'O' 8
  | binary : Announces 'b' 2
  | upperBinary : Announces 'B' 2

/-- A numeral without a sign, its base and its digits: behind a zero and a letter a run with at least
one digit, or a decimal run that starts with a digit. -/
inductive Unsigned : Text → Nat → List Nat → Prop
  | announced {letter : Char} {base : Nat} {t : Text} {ds : List Nat}
      (hletter : Announces letter base) (hrun : Run base t ds) (hne : ds ≠ []) :
      Unsigned (CodePoint.ofChar '0' :: CodePoint.ofChar letter :: t) base ds
  | decimal {c : CodePoint} {d : Nat} {t : Text} {ds : List Nat} (hc : IsDigitOf 10 c d)
      (hrun : Run 10 t ds) : Unsigned (c :: t) 10 (d :: ds)

/-- A numeral, whether it has a minus sign, its base and its digits. -/
inductive Numeral : Text → Bool → Nat → List Nat → Prop
  | plain {t : Text} {base : Nat} {ds : List Nat} : Unsigned t base ds → Numeral t false base ds
  | plus {t : Text} {base : Nat} {ds : List Nat} :
      Unsigned t base ds → Numeral (CodePoint.ofChar '+' :: t) false base ds
  | minus {t : Text} {base : Nat} {ds : List Nat} :
      Unsigned t base ds → Numeral (CodePoint.ofChar '-' :: t) true base ds

/-- The positional value of digits, the most significant one first, with a sign. -/
def signedValue (minus : Bool) (base : Nat) (ds : List Nat) : Int :=
  if minus then -(Nat.ofDigits base ds.reverse : Nat) else (Nat.ofDigits base ds.reverse : Nat)

/-- The text spells the integer. -/
def Spells (t : Text) (n : Int) : Prop :=
  ∃ minus base ds, Numeral t minus base ds ∧ n = signedValue minus base ds

/-- The text is a decimal numeral with more digits than are read. -/
def IsTooLong (t : Text) : Prop := ∃ minus ds, Numeral t minus 10 ds ∧ maxDigits < ds.length

/-! ## Digits and runs -/

variable {base d : Nat} {c : CodePoint} {t : Text} {ds : List Nat} {minus : Bool}

theorem isDigitOf_of_value? (h : value? base c = some d) : IsDigitOf base c d := by
  have hdigit : ∀ d < 10, (Nat.digitChar d).toNat = d + 48 := by decide
  have hlower : ∀ d < 16, 10 ≤ d → (Nat.digitChar d).toNat = d + 87 := by decide
  have hupper : ∀ d < 16, 10 ≤ d → (Nat.digitChar d).toUpper.toNat = d + 55 := by decide
  obtain ⟨hvalue, hlt⟩ := Option.filter_eq_some_iff.1 h
  refine ⟨by simpa using hlt, ?_⟩
  obtain ⟨n, hn⟩ := c
  simp only [CodePoint.ofChar, CodePoint.mk.injEq]
  split_ifs at hvalue with h0 ha hA
  · have hd := hdigit d (by grind)
    grind
  · have hd := hlower d (by grind) (by grind)
    grind
  · have hd := hupper d (by grind) (by grind)
    grind

theorem IsDigitOf.value? (hb : base ≤ 16) (h : IsDigitOf base c d) : value? base c = some d := by
  obtain ⟨hd, rfl | rfl⟩ := h
  · exact value?_digitChar hb hd
  · have hfull : ∀ d < 16, Digit.value? 16 (Nat.digitChar d).toUpper = some d := by decide
    exact value?_of_lt (hfull d (by omega)) hd

theorem value?_underscore (base : Nat) : value? base (CodePoint.ofChar '_') = none := rfl

theorem run_iff (hb : base ≤ 16) : Run base t ds ↔
    t.all (isDigitOrUnderscore base) = true ∧ t.filterMap (value? base) = ds := by
  constructor
  · intro h
    induction h with
    | nil => exact ⟨rfl, rfl⟩
    | digit hc _ ih =>
      have hvalue := hc.value? hb
      simp [isDigitOrUnderscore, hvalue, ih.1, ih.2]
    | underscore _ ih =>
      rw [List.all_cons, List.filterMap_cons_none (value?_underscore base), ih.1, ih.2]
      exact ⟨rfl, rfl⟩
  · rintro ⟨hall, rfl⟩
    induction t with
    | nil => exact .nil
    | cons c t ih =>
      rw [List.all_cons, Bool.and_eq_true] at hall
      have hrun := ih hall.2
      cases hvalue : value? base c with
      | some d =>
        rw [List.filterMap_cons_some hvalue]
        exact .digit (isDigitOf_of_value? hvalue) hrun
      | none =>
        have hc : c = CodePoint.ofChar '_' := by
          simpa [isDigitOrUnderscore, hvalue] using hall.1
        rw [List.filterMap_cons_none hvalue, hc]
        exact .underscore hrun

/-- The value of a run is the positional value of its digits. -/
theorem Run.positional (hb : base ≤ 16) (h : Run base t ds) :
    positional base t = Nat.ofDigits base ds.reverse := by
  obtain ⟨-, rfl⟩ := (run_iff hb).1 h
  rw [Nat.ofDigits_eq_foldr, List.foldr_reverse]
  have hstep : (fun acc d => acc * base + d) = fun (acc d : Nat) => d + base * acc := by
    funext acc d
    rw [Nat.mul_comm, Nat.add_comm]
  rw [Digit.positional, hstep]
  rfl

theorem Run.countP (h : Run 10 t ds) : t.countP isDigit = ds.length := by
  obtain ⟨-, rfl⟩ := (run_iff (by omega)).1 h
  rw [List.length_filterMap_eq_countP]
  rfl

theorem Run.any (hb : base ≤ 16) (h : Run base t ds) :
    (t.any fun c => (value? base c).isSome) = !ds.isEmpty := by
  induction h with
  | nil => rfl
  | digit hc _ _ => simp [hc.value? hb]
  | underscore _ ih => rw [List.any_cons, value?_underscore, ih, Option.isSome_none, Bool.false_or]

/-! ## Reading numerals -/

theorem announces_iff : baseOf? c = some base ↔ ∃ letter, c = CodePoint.ofChar letter ∧
    Announces letter base := by
  constructor
  · intro h
    unfold baseOf? at h
    split_ifs at h with hx ho hb
    · obtain rfl := Option.some.inj h
      rcases hx with rfl | rfl
      · exact ⟨_, rfl, .hexadecimal⟩
      · exact ⟨_, rfl, .upperHexadecimal⟩
    · obtain rfl := Option.some.inj h
      rcases ho with rfl | rfl
      · exact ⟨_, rfl, .octal⟩
      · exact ⟨_, rfl, .upperOctal⟩
    · obtain rfl := Option.some.inj h
      rcases hb with rfl | rfl
      · exact ⟨_, rfl, .binary⟩
      · exact ⟨_, rfl, .upperBinary⟩
  · rintro ⟨letter, rfl, hletter⟩
    cases hletter <;> rfl

theorem Announces.base_le {letter : Char} (h : Announces letter base) : base ≤ 16 ∧ base ≠ 10 := by
  cases h <;> decide

theorem splitBase_announced {letter : Char} (h : Announces letter base) (t : Text) :
    splitBase (CodePoint.ofChar '0' :: CodePoint.ofChar letter :: t) = (some base, t) := by
  rw [splitBase, announces_iff.2 ⟨letter, rfl, h⟩]
  rfl

theorem splitBase_of_run (h : Run 10 t ds) (c : CodePoint) : splitBase (c :: t) = (none, c :: t) := by
  cases h with
  | nil => rfl
  | underscore => rfl
  | @digit letter d rest ds hletter _ =>
    have hdigit : isDigit letter := by rw [isDigit, hletter.value? (by omega)]; rfl
    rw [splitBase, (of_isDigit hdigit).2.2]

theorem splitBase_cases (t : Text) : splitBase t = (none, t) ∨ ∃ letter base rest,
    Announces letter base ∧ t = CodePoint.ofChar '0' :: CodePoint.ofChar letter :: rest ∧
      splitBase t = (some base, rest) := by
  unfold splitBase
  split
  · next zero c rest =>
    split
    · next base hbase =>
      obtain ⟨letter, rfl, hletter⟩ := announces_iff.1 hbase
      split_ifs with hzero
      · exact .inr ⟨letter, base, rest, hletter, by rw [hzero], rfl⟩
      · exact .inl rfl
    · exact .inl rfl
  · exact .inl rfl

/-- **A numeral without a sign is read as its positional value**, whether it announces its base or not. -/
theorem Unsigned.readMagnitude (h : Unsigned t base ds) : readMagnitude t =
    if base = 10 ∧ maxDigits < ds.length then .error .tooManyDigits
    else .ok (Nat.ofDigits base ds.reverse) := by
  cases h with
  | announced hletter hrun hne =>
    obtain ⟨hb, hten⟩ := hletter.base_le
    rw [Spelling.readMagnitude, splitBase_announced hletter, if_neg (by simp [hten])]
    simp only [((run_iff hb).1 hrun).1, hrun.any hb, hrun.positional hb, Bool.true_and]
    rw [if_pos (by simpa using hne)]
  | @decimal c d t ds hc hrun =>
    have hwhole : Run 10 (c :: t) (d :: ds) := .digit hc hrun
    have hhead : ((c :: t).head?.any isDigit) = true := by
      simp [isDigit, hc.value? (by omega)]
    rw [Spelling.readMagnitude, splitBase_of_run hrun]
    simp only [((run_iff (by omega)).1 hwhole).1, hhead, hwhole.countP,
      hwhole.positional (by omega), Bool.and_self, if_true, true_and]

/-- What is no numeral has no magnitude. -/
theorem exists_unsigned_or (t : Text) : (∃ base ds, Unsigned t base ds) ∨
    Spelling.readMagnitude t = .error .notInteger := by
  rcases splitBase_cases t with hsplit | ⟨letter, base, rest, hletter, rfl, hsplit⟩
  · rw [Spelling.readMagnitude, hsplit]
    by_cases hrun : (t.all (isDigitOrUnderscore 10) && t.head?.any isDigit) = true
    · left
      rw [Bool.and_eq_true] at hrun
      cases t with
      | nil => exact absurd hrun.2 (by decide)
      | cons c t =>
        obtain ⟨ds, hwhole⟩ : ∃ ds, Run 10 (c :: t) ds := ⟨_, (run_iff (by omega)).2 ⟨hrun.1, rfl⟩⟩
        cases hwhole with
        | digit hc hrun => exact ⟨_, _, .decimal hc hrun⟩
        | underscore =>
          have hnone : (value? 10 (CodePoint.ofChar '_')).isSome = true := hrun.2
          exact absurd hnone (by decide)
    · right
      simp only [hrun, Bool.false_eq_true, if_false]
  · rw [Spelling.readMagnitude, hsplit]
    by_cases hrun : (rest.all (isDigitOrUnderscore base) &&
        rest.any fun c => (value? base c).isSome) = true
    · left
      rw [Bool.and_eq_true] at hrun
      have hb := hletter.base_le.1
      obtain ⟨ds, hdigits⟩ : ∃ ds, Run base rest ds := ⟨_, (run_iff hb).2 ⟨hrun.1, rfl⟩⟩
      rw [hdigits.any hb] at hrun
      exact ⟨_, _, .announced hletter hdigits (by simpa using hrun.2)⟩
    · right
      simp only [hrun, Bool.false_eq_true, if_false]

/-- No numeral without a sign starts with one. -/
theorem Unsigned.splitSign (h : Unsigned t base ds) : splitSign t = (false, t) := by
  cases h with
  | announced => rfl
  | @decimal c d t ds hc hrun =>
    have hdigit : isDigit c := by rw [isDigit, hc.value? (by omega)]; rfl
    obtain ⟨hminus, hplus, -⟩ := of_isDigit hdigit
    rw [Spelling.splitSign, if_neg hminus, if_neg hplus]

theorem readInt_of_splitSign {rest : Text} (hsign : splitSign t = (minus, rest))
    (h : Unsigned rest base ds) : readInt t =
      if base = 10 ∧ maxDigits < ds.length then .error .tooManyDigits
      else .ok (signedValue minus base ds) := by
  rw [readInt, hsign, signedValue]
  show (Spelling.readMagnitude rest >>= fun n : Nat =>
    .ok (if minus then -(n : Int) else n)) = _
  rw [h.readMagnitude]
  by_cases hlong : base = 10 ∧ maxDigits < ds.length
  · rw [if_pos hlong, if_pos hlong]
    rfl
  · rw [if_neg hlong, if_neg hlong]
    rfl

/-- **A numeral is read as its positional value with its sign**, unless it is decimal and too long. -/
theorem Numeral.readInt (h : Numeral t minus base ds) : readInt t =
    if base = 10 ∧ maxDigits < ds.length then .error .tooManyDigits
    else .ok (signedValue minus base ds) := by
  cases h with
  | plain h => exact readInt_of_splitSign h.splitSign h
  | plus h => exact readInt_of_splitSign rfl h
  | minus h => exact readInt_of_splitSign rfl h

/-- What is no numeral is no integer. -/
theorem exists_numeral_or (t : Text) : (∃ minus base ds, Numeral t minus base ds) ∨
    Spelling.readInt t = .error .notInteger := by
  have hmagnitude {minus : Bool} {rest : Text} (hsign : splitSign t = (minus, rest))
      (h : readMagnitude rest = .error .notInteger) :
      Spelling.readInt t = .error .notInteger := by
    rw [Spelling.readInt, hsign]
    show (readMagnitude rest >>= _) = _
    rw [h]
    rfl
  cases t with
  | nil => exact .inr rfl
  | cons c t =>
    by_cases hminus : c = CodePoint.ofChar '-'
    · subst hminus
      obtain ⟨base, ds, h⟩ | h := exists_unsigned_or t
      · exact .inl ⟨true, base, ds, .minus h⟩
      · exact .inr (hmagnitude rfl h)
    by_cases hplus : c = CodePoint.ofChar '+'
    · subst hplus
      obtain ⟨base, ds, h⟩ | h := exists_unsigned_or t
      · exact .inl ⟨false, base, ds, .plus h⟩
      · exact .inr (hmagnitude rfl h)
    · have hsign : splitSign (c :: t) = (false, c :: t) := by
        rw [splitSign, if_neg hminus, if_neg hplus]
      obtain ⟨base, ds, h⟩ | h := exists_unsigned_or (c :: t)
      · exact .inl ⟨false, base, ds, .plain h⟩
      · exact .inr (hmagnitude hsign h)

/-- The integers that are read are those that are spelled within the limit. -/
theorem readInt_eq_ok_iff {n : Int} : Spelling.readInt t = .ok n ↔ Spells t n ∧ ¬ IsTooLong t := by
  constructor
  · intro h
    rcases exists_numeral_or t with ⟨minus, base, ds, hnumeral⟩ | hnone
    · have hread := hnumeral.readInt
      rw [h] at hread
      split_ifs at hread
      refine ⟨⟨minus, base, ds, hnumeral, Except.ok.inj hread⟩, fun ⟨minus', ds', hdecimal, hlong⟩ => ?_⟩
      rw [hdecimal.readInt, if_pos ⟨rfl, hlong⟩] at h
      cases h
    · rw [hnone] at h
      cases h
  · rintro ⟨⟨minus, base, ds, hnumeral, rfl⟩, hshort⟩
    rw [hnumeral.readInt, if_neg]
    rintro ⟨rfl, hlong⟩
    exact hshort ⟨minus, ds, hnumeral, hlong⟩

theorem readInt_eq_tooManyDigits_iff :
    Spelling.readInt t = .error .tooManyDigits ↔ IsTooLong t := by
  constructor
  · intro h
    rcases exists_numeral_or t with ⟨minus, base, ds, hnumeral⟩ | hnone
    · have hread := hnumeral.readInt
      rw [h] at hread
      split_ifs at hread with hlong
      obtain ⟨rfl, hlong⟩ := hlong
      exact ⟨minus, ds, hnumeral, hlong⟩
    · rw [hnone] at h
      cases h
  · rintro ⟨minus, ds, hdecimal, hlong⟩
    rw [hdecimal.readInt, if_pos ⟨rfl, hlong⟩]

theorem readInt_eq_notInteger_iff :
    Spelling.readInt t = .error .notInteger ↔ ¬ ∃ n, Spells t n := by
  constructor
  · rintro h ⟨n, minus, base, ds, hnumeral, -⟩
    rw [hnumeral.readInt] at h
    split_ifs at h
    cases h
  · intro hnone
    refine (exists_numeral_or t).resolve_left ?_
    rintro ⟨minus, base, ds, hnumeral⟩
    exact hnone ⟨_, minus, base, ds, hnumeral, rfl⟩

end Spelling

/-! ## The converter of integers -/

namespace Builtin

open Spelling

theorem read_int_atom (t : Text) (l : Option Location) : read .int (.atom t l) =
    match readInt t with
    | .ok n => .ok (.int n)
    | .error .tooManyDigits => .error .tooManyDigits
    | .error .notInteger =>
      .error (.about (.atom t l) (.unexpectedShape "int_of_sexp" "an integer atom" none)) := rfl

theorem write_int {n : Int} (h : n.natAbs < 10 ^ maxDigits) :
    write .int (.int n) = .ok (.atom (Text.ofInt n)) := by
  show (ofValue (writeInteger n) >>= fun t : Text => .ok (Sexp.atom t)) = _
  rw [writeInteger, writeInt?_eq_ite, if_pos h]
  rfl

/-- **The converter of integers reads the numerals, as what they spell.** An atom is read as an integer
exactly if it spells it and is not too long. A numeral that is too long has an error of its own, and any
other atom is refused for its shape. An integer with few enough digits is written as a tree that is read
as this integer. -/
theorem read_spelled_integer (t : Text) (l : Option Location) :
    (∀ n, read .int (.atom t l) = .ok (.int n) ↔ Spells t n ∧ ¬ IsTooLong t) ∧
    (read .int (.atom t l) = .error .tooManyDigits ↔ IsTooLong t) ∧
    (read .int (.atom t l) =
        .error (.about (.atom t l) (.unexpectedShape "int_of_sexp" "an integer atom" none)) ↔
      ¬ ∃ n, Spells t n) ∧
    ∀ n : Int, n.natAbs < 10 ^ maxDigits → ∃ s, write .int (.int n) = .ok s ∧
      ∀ node : Node, node.sexp = s → read .int node = .ok (.int n) := by
  refine ⟨fun n => ?_, ?_, ?_, fun n hn => ⟨_, write_int hn, fun node hnode => ?_⟩⟩
  · rw [← readInt_eq_ok_iff, read_int_atom]
    rcases readInt t with ⟨_ | _⟩ | m
    · simp
    · simp
    · simp
  · rw [← readInt_eq_tooManyDigits_iff, read_int_atom]
    rcases readInt t with ⟨_ | _⟩ | m
    · simp [ReadError.about]
    · simp
    · simp
  · rw [← readInt_eq_notInteger_iff, read_int_atom]
    rcases readInt t with ⟨_ | _⟩ | m
    · simp
    · simp [ReadError.about]
    · simp
  · exact read_int (by rw [writeInt?_eq_ite, if_pos hn]) hnode

/-- Underscores stand anywhere behind an announced base, but not alone. -/
theorem read_spelled_integer_underscores :
    Spells "-0X_fF" (-255) ∧ ¬ IsTooLong "-0X_fF" ∧
    read .int (.atom "-0X_fF" none) = .ok (.int (-255)) ∧
    (¬ ∃ n, Spells "0x_" n) ∧
    (-255 : Int).natAbs < 10 ^ maxDigits ∧ ∃ s, write .int (.int (-255)) = .ok s ∧
      ∀ node : Node, node.sexp = s → read .int node = .ok (.int (-255)) := by
  have hread : read .int (.atom "-0X_fF" none) = .ok (.int (-255)) := rfl
  obtain ⟨hspells, hshort⟩ := ((read_spelled_integer "-0X_fF" none).1 (-255)).1 hread
  have hlimit : (-255 : Int).natAbs < 10 ^ maxDigits :=
    Nat.lt_of_lt_of_le (by decide) (Nat.pow_le_pow_right (by omega) (show 3 ≤ maxDigits by decide))
  exact ⟨hspells, hshort, hread, (read_spelled_integer "0x_" none).2.2.1.1 rfl, hlimit,
    (read_spelled_integer [] none).2.2.2 (-255) hlimit⟩

end Builtin

end TypedSexp
