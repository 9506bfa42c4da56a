import Mathlib.Data.List.Forall2
import Mathlib.Tactic.SplitIfs
import TypedSexp.Text.Utf8
/-!
# Decoding inverts encoding

The decoder reads one byte after another and keeps the ranges of those still to come. A whole
character of it is a first byte with a tail in these ranges (`Carries`), and such bytes are just the
encodings of the code points that are no surrogates (`carries_iff`). So bytes decode to a text exactly
if the text encodes to them (`decode_eq_ok_iff`): the decoder takes no other spelling of a character,
and the bytes of a text are as many as its code points are wide.
-/

namespace TypedSexp.Utf8

/-- The number that a character has when its last bytes have come. -/
def carry (bits : Nat) (tail : Bytes) : Nat :=
  tail.foldl (fun n b => n * 64 + (b.toNat - 0x80)) bits

theorem carry_cons (bits : Nat) (b : UInt8) (tail : Bytes) :
    carry bits (b :: tail) = carry (bits * 64 + (b.toNat - 0x80)) tail := by
  simp only [carry, List.foldl_cons]

/-- The bytes lie in the ranges, one by one. -/
def Within (wanted : List ByteRange) (tail : Bytes) : Prop :=
  List.Forall₂ (fun r b => r.1 ≤ b.toNat ∧ b.toNat ≤ r.2) wanted tail

/-- A first byte and the bytes that it asks for, which carry a number together. -/
def Carries (n : Nat) (b : UInt8) (tail : Bytes) : Prop :=
  ∃ bits wanted, lead? b.toNat = some (bits, wanted) ∧ Within wanted tail ∧ carry bits tail = n

/-! ## One character -/

/-- The range of the second of three bytes. It keeps out numbers that two bytes carry, and
surrogates. -/
def secondOfThree (b : Nat) : ByteRange :=
  (if b = 0xE0 then 0xA0 else 0x80, if b = 0xED then 0x9F else 0xBF)

/-- The range of the second of four bytes. It keeps out numbers that three bytes carry, and those
that are too large. -/
def secondOfFour (b : Nat) : ByteRange :=
  (if b = 0xF0 then 0x90 else 0x80, if b = 0xF4 then 0x8F else 0xBF)

/-- A first byte decides between the four lengths of a character. -/
theorem lead?_eq (b : Nat) : lead? b =
    if b < 0x80 then some (b, [])
    else if b < 0xC2 then none
    else if b < 0xE0 then some (b - 0xC0, [anyContinuation])
    else if b < 0xF0 then some (b - 0xE0, [secondOfThree b, anyContinuation])
    else if b < 0xF5 then some (b - 0xF0, [secondOfFour b, anyContinuation, anyContinuation])
    else none := by
  unfold lead? secondOfThree secondOfFour
  split_ifs <;> simp_all [anyContinuation] <;> omega

theorem toNat_ofNat {n : Nat} (h : n < 256) : (UInt8.ofNat n).toNat = n :=
  UInt8.toNat_ofNat_of_lt' h

theorem toNat_continuation (n : Nat) : (continuation n).toNat = 0x80 + n % 64 :=
  toNat_ofNat (by omega)

theorem ofNat_eq {n : Nat} {b : UInt8} (h : n = b.toNat) : UInt8.ofNat n = b := by
  rw [h, UInt8.ofNat_toNat]

theorem continuation_eq {n : Nat} {b : UInt8} (h : 0x80 + n % 64 = b.toNat) : continuation n = b :=
  ofNat_eq h

theorem length_encodeOne (c : CodePoint) : (encodeOne c).length = width c := by
  unfold encodeOne width
  dsimp only
  split_ifs <;> rfl

theorem width_pos (c : CodePoint) : 0 < width c := by
  unfold width
  split_ifs <;> decide

/-- The encoding of a character is a first byte with its tail. -/
theorem carries_encodeOne {c : CodePoint} (hc : c.isSurrogate = false) :
    ∃ b tail, encodeOne c = b :: tail ∧ Carries c.val b tail := by
  have hlt := c.isLt
  have hc : ¬ (0xD800 ≤ c.val ∧ c.val < 0xE000) := by simpa [CodePoint.isSurrogate] using hc
  generalize hn : c.val = n at *
  unfold encodeOne
  rw [hn]
  dsimp only
  split_ifs with h1 h2 h3
  · refine ⟨_, [], rfl, n, [], ?_, .nil, rfl⟩
    rw [toNat_ofNat (by omega), lead?_eq, if_pos h1]
  · have hb : (UInt8.ofNat (0xC0 + n / 64)).toNat = 0xC0 + n / 64 := toNat_ofNat (by omega)
    refine ⟨_, _, rfl, n / 64, [anyContinuation], ?_, ?_, ?_⟩
    · rw [hb, lead?_eq, if_neg (by omega), if_neg (by omega), if_pos (by omega), Nat.add_sub_cancel_left]
    · simp [Within, anyContinuation, toNat_continuation]
      omega
    · simp [carry, toNat_continuation]
      omega
  · have hb : (UInt8.ofNat (0xE0 + n / 4096)).toNat = 0xE0 + n / 4096 := toNat_ofNat (by omega)
    refine ⟨_, _, rfl, n / 4096, [secondOfThree (0xE0 + n / 4096), anyContinuation], ?_, ?_, ?_⟩
    · rw [hb, lead?_eq, if_neg (by omega), if_neg (by omega), if_neg (by omega), if_pos (by omega),
        Nat.add_sub_cancel_left]
    · simp [Within, anyContinuation, secondOfThree, toNat_continuation]
      split_ifs <;> omega
    · simp [carry, toNat_continuation]
      omega
  · have hb : (UInt8.ofNat (0xF0 + n / 262144)).toNat = 0xF0 + n / 262144 := toNat_ofNat (by omega)
    refine ⟨_, _, rfl, n / 262144,
      [secondOfFour (0xF0 + n / 262144), anyContinuation, anyContinuation], ?_, ?_, ?_⟩
    · rw [hb, lead?_eq, if_neg (by omega), if_neg (by omega), if_neg (by omega), if_neg (by omega),
        if_pos (by omega), Nat.add_sub_cancel_left]
    · simp [Within, anyContinuation, secondOfFour, toNat_continuation]
      split_ifs <;> omega
    · simp [carry, toNat_continuation]
      omega

/-- Bytes that carry a number are the encoding of the character with that number. -/
theorem eq_encodeOne_of_carries {n : Nat} {b : UInt8} {tail : Bytes} (h : Carries n b tail) :
    ∃ c : CodePoint, c.val = n ∧ c.isSurrogate = false ∧ encodeOne c = b :: tail := by
  obtain ⟨bits, wanted, hlead, hwithin, hn⟩ := h
  rw [lead?_eq] at hlead
  split_ifs at hlead with h1 h2 h3 h4 h5
  · obtain ⟨rfl, rfl⟩ := Prod.mk.inj (Option.some.inj hlead)
    cases hwithin
    obtain rfl : b.toNat = n := hn
    refine ⟨⟨b.toNat, by omega⟩, rfl, ?_, ?_⟩
    · simp [CodePoint.isSurrogate]
      omega
    · simp [encodeOne, h1]
  · obtain ⟨rfl, rfl⟩ := Prod.mk.inj (Option.some.inj hlead)
    rcases tail with _ | ⟨b1, _ | ⟨b2, tail⟩⟩ <;> simp [Within] at hwithin
    simp [carry, anyContinuation] at hn hwithin
    refine ⟨⟨n, by omega⟩, rfl, ?_, ?_⟩
    · simp [CodePoint.isSurrogate]
      omega
    · have hn1 : ¬ n < 0x80 := by omega
      have hn2 : n < 0x800 := by omega
      simp only [encodeOne, hn1, hn2, if_true, if_false, List.cons.injEq, and_true]
      exact ⟨ofNat_eq (by omega), continuation_eq (by omega)⟩
  · obtain ⟨rfl, rfl⟩ := Prod.mk.inj (Option.some.inj hlead)
    rcases tail with _ | ⟨b1, _ | ⟨b2, _ | ⟨b3, tail⟩⟩⟩ <;> simp [Within] at hwithin
    simp [carry, anyContinuation, secondOfThree] at hn hwithin
    have hrange : 0x800 ≤ n ∧ n < 0x10000 ∧ ¬ (0xD800 ≤ n ∧ n < 0xE000) ∧
        0x80 ≤ b1.toNat ∧ b1.toNat ≤ 0xBF := by split_ifs at hwithin <;> omega
    obtain ⟨hlow, hhigh, hsurrogate, hb1, hb1'⟩ := hrange
    refine ⟨⟨n, by omega⟩, rfl, by simpa [CodePoint.isSurrogate] using hsurrogate, ?_⟩
    have hn1 : ¬ n < 0x80 := by omega
    have hn2 : ¬ n < 0x800 := by omega
    simp only [encodeOne, hn1, hn2, hhigh, if_true, if_false, List.cons.injEq, and_true]
    exact ⟨ofNat_eq (by omega), continuation_eq (by omega), continuation_eq (by omega)⟩
  · obtain ⟨rfl, rfl⟩ := Prod.mk.inj (Option.some.inj hlead)
    rcases tail with _ | ⟨b1, _ | ⟨b2, _ | ⟨b3, _ | ⟨b4, tail⟩⟩⟩⟩ <;> simp [Within] at hwithin
    simp [carry, anyContinuation, secondOfFour] at hn hwithin
    have hrange : 0x10000 ≤ n ∧ n < 0x110000 ∧ 0x80 ≤ b1.toNat ∧ b1.toNat ≤ 0xBF := by
      split_ifs at hwithin <;> omega
    obtain ⟨hlow, hhigh, hb1, hb1'⟩ := hrange
    refine ⟨⟨n, hhigh⟩, rfl, ?_, ?_⟩
    · simp [CodePoint.isSurrogate]
      omega
    · have hn1 : ¬ n < 0x80 := by omega
      have hn2 : ¬ n < 0x800 := by omega
      have hn3 : ¬ n < 0x10000 := by omega
      simp only [encodeOne, hn1, hn2, hn3, if_false, List.cons.injEq, and_true]
      exact ⟨ofNat_eq (by omega), continuation_eq (by omega), continuation_eq (by omega),
        continuation_eq (by omega)⟩

/-- A first byte with its tail is the encoding of a character. -/
theorem carries_iff {n : Nat} {b : UInt8} {tail : Bytes} : Carries n b tail ↔
    ∃ c : CodePoint, c.val = n ∧ c.isSurrogate = false ∧ encodeOne c = b :: tail := by
  constructor
  · exact eq_encodeOne_of_carries
  · rintro ⟨c, rfl, hc, h⟩
    obtain ⟨b', tail', h', hcarries⟩ := carries_encodeOne hc
    obtain ⟨rfl, rfl⟩ := List.cons.inj (h.symm.trans h')
    exact hcarries

/-! ## The decoder -/

/-- The character with a number. -/
def character (n : Nat) : CodePoint := (CodePoint.ofNat? n).getD default

/-- Goes on with a character that is open if it wants more bytes, and else is complete. -/
def resume (pos start : Nat) (b : UInt8) (bits : Nat) (wanted : List ByteRange) (bs : Bytes) :
    Except Fault Text :=
  if wanted = [] then (decodeFrom pos none bs).map (character bits :: ·)
  else decodeFrom pos (some ⟨start, b, bits, wanted⟩) bs

theorem decodeFrom_cons (pos : Nat) (b : UInt8) (bs : Bytes) : decodeFrom pos none (b :: bs) =
    (lead? b.toNat).elim (.error ⟨pos, pos + 1, .invalidStart, b⟩)
      fun lead => resume (pos + 1) pos b lead.1 lead.2 bs := by
  rw [decodeFrom]
  cases hlead : lead? b.toNat with
  | none => rfl
  | some lead =>
    obtain ⟨bits, _ | ⟨range, wanted⟩⟩ := lead
    · cases hmore : decodeFrom (pos + 1) none bs <;>
        simp [resume, hmore, bind, Except.bind, Except.map, character]
    · simp [resume]

theorem resume_cons (pos start : Nat) (b d : UInt8) (bits : Nat) (range : ByteRange)
    (wanted : List ByteRange) (bs : Bytes) :
    resume pos start b bits (range :: wanted) (d :: bs) =
      if range.1 ≤ d.toNat ∧ d.toNat ≤ range.2 then
        resume (pos + 1) start b (bits * 64 + (d.toNat - 0x80)) wanted bs
      else .error ⟨start, pos, .invalidContinuation, b⟩ := by
  obtain ⟨low, high⟩ := range
  rw [resume, if_neg (by simp), decodeFrom]
  dsimp only
  split_ifs with hrange hwanted
  · obtain rfl : wanted = [] := by simpa using hwanted
    cases hmore : decodeFrom (pos + 1) none bs <;>
      simp [resume, hmore, bind, Except.bind, Except.map, character]
  · rw [resume, if_neg (by simpa using hwanted)]
  · rfl

/-- The bytes that are wanted come first, and then the next character. -/
theorem resume_eq_ok_iff {t : Text} {wanted : List ByteRange} : ∀ {pos start : Nat} {b : UInt8}
    {bits : Nat} {bs : Bytes}, resume pos start b bits wanted bs = .ok t ↔
      ∃ tail rest t', bs = tail ++ rest ∧ Within wanted tail ∧
        t = character (carry bits tail) :: t' ∧ decodeFrom (pos + tail.length) none rest = .ok t' := by
  induction wanted with
  | nil =>
    intro pos start b bits bs
    rw [resume, if_pos rfl]
    constructor
    · intro h
      cases ht' : decodeFrom pos none bs with
      | error fault => simp [ht', Except.map] at h
      | ok t' =>
        obtain rfl : character bits :: t' = t := by simpa [ht', Except.map] using h
        exact ⟨[], bs, t', rfl, .nil, rfl, ht'⟩
    · rintro ⟨tail, rest, t', rfl, hwithin, rfl, ht'⟩
      cases hwithin
      exact congrArg (Except.map _) ht'
  | cons range wanted ih =>
    intro pos start b bits bs
    cases bs with
    | nil =>
      constructor
      · intro h
        simp [resume, decodeFrom] at h
      · rintro ⟨tail, rest, t', happend, hwithin, -⟩
        cases hwithin
        simp at happend
    | cons d bs =>
      rw [resume_cons]
      constructor
      · intro h
        split_ifs at h with hrange
        obtain ⟨tail, rest, t', rfl, hwithin, rfl, ht'⟩ := ih.1 h
        have hpos : pos + 1 + tail.length = pos + (d :: tail).length := by
          rw [List.length_cons]; omega
        rw [hpos] at ht'
        exact ⟨d :: tail, rest, t', rfl, .cons hrange hwithin, by rw [carry_cons], ht'⟩
      · rintro ⟨tail, rest, t', happend, hwithin, rfl, ht'⟩
        cases hwithin with
        | @cons _ d' _ tail hrange hwithin =>
          obtain ⟨rfl, rfl⟩ := List.cons.inj happend
          have hpos : pos + (d :: tail).length = pos + 1 + tail.length := by
            rw [List.length_cons]; omega
          rw [hpos] at ht'
          rw [if_pos hrange]
          exact ih.2 ⟨tail, rest, t', rfl, hwithin, by rw [carry_cons], ht'⟩

theorem character_val (c : CodePoint) : character c.val = c := by
  simp [character, CodePoint.ofNat?, c.isLt]

/-- Bytes decode to a first character, which is no surrogate, and the text of the bytes behind
it. -/
theorem decodeFrom_cons_eq_ok_iff {pos : Nat} {b : UInt8} {bs : Bytes} {t : Text} :
    decodeFrom pos none (b :: bs) = .ok t ↔
      ∃ c rest t', c.isSurrogate = false ∧ b :: bs = encodeOne c ++ rest ∧ t = c :: t' ∧
        decodeFrom (pos + width c) none rest = .ok t' := by
  rw [decodeFrom_cons]
  constructor
  · intro h
    cases hlead : lead? b.toNat with
    | none => simp [hlead] at h
    | some lead =>
      rw [hlead, Option.elim_some] at h
      obtain ⟨tail, rest, t', rfl, hwithin, rfl, ht'⟩ := resume_eq_ok_iff.1 h
      obtain ⟨c, hn, hc, hbytes⟩ := carries_iff.1 ⟨lead.1, lead.2, hlead, hwithin, rfl⟩
      have hpos : pos + 1 + tail.length = pos + width c := by
        rw [← length_encodeOne, hbytes, List.length_cons]; omega
      refine ⟨c, rest, t', hc, by rw [hbytes]; rfl, ?_, hpos ▸ ht'⟩
      rw [← hn, character_val]
  · rintro ⟨c, rest, t', hc, hbytes, rfl, ht'⟩
    obtain ⟨b', tail, hencode, hcarries⟩ := carries_encodeOne hc
    obtain ⟨bits, wanted, hlead, hwithin, hn⟩ := hcarries
    rw [hencode] at hbytes
    obtain ⟨rfl, rfl⟩ := List.cons.inj hbytes
    have hpos : pos + width c = pos + 1 + tail.length := by
      rw [← length_encodeOne, hencode, List.length_cons]; omega
    rw [hlead, Option.elim_some]
    refine resume_eq_ok_iff.2 ⟨tail, rest, t', rfl, hwithin, ?_, hpos ▸ ht'⟩
    rw [hn, character_val]

/-- Decoding from any byte on gives a text exactly if the text encodes to these bytes. -/
theorem decodeFrom_eq_ok_iff {t : Text} : ∀ {pos : Nat} {bs : Bytes},
    decodeFrom pos none bs = .ok t ↔
      t.any CodePoint.isSurrogate = false ∧ bs = t.flatMap encodeOne := by
  induction t with
  | nil =>
    intro pos bs
    cases bs with
    | nil => simp [decodeFrom]
    | cons b bs =>
      simp only [decodeFrom_cons_eq_ok_iff]
      simp
  | cons c t ih =>
    intro pos bs
    cases bs with
    | nil =>
      have hne : encodeOne c ≠ [] := by
        rw [← List.length_pos_iff, length_encodeOne]
        exact width_pos c
      simp [decodeFrom, hne]
    | cons b bs =>
      rw [decodeFrom_cons_eq_ok_iff]
      constructor
      · rintro ⟨c', rest, t', hc, hbytes, ht, hrest⟩
        obtain ⟨rfl, rfl⟩ := List.cons.inj ht
        obtain ⟨hnone, rfl⟩ := ih.1 hrest
        exact ⟨by simpa [hc] using hnone, by rw [hbytes, List.flatMap_cons]⟩
      · rintro ⟨hnone, hbytes⟩
        obtain ⟨hc, hnone⟩ : c.isSurrogate = false ∧ t.any CodePoint.isSurrogate = false := by
          simpa using hnone
        exact ⟨c, _, t, hc, hbytes, rfl, ih.2 ⟨hnone, rfl⟩⟩

/-- **Bytes decode to a text exactly if the text encodes to them.** -/
theorem decode_eq_ok_iff {bs : Bytes} {t : Text} : decode bs = .ok t ↔ encode? t = some bs := by
  rw [decode, decodeFrom_eq_ok_iff, encode?]
  cases h : t.any CodePoint.isSurrogate <;> simp [eq_comm]

/-- A text has as many bytes as its code points are wide. -/
theorem length_flatMap_encodeOne (t : Text) : (t.flatMap encodeOne).length = size t := by
  induction t with
  | nil => rfl
  | cons c t ih => rw [List.flatMap_cons, List.length_append, length_encodeOne, ih]; rfl

end TypedSexp.Utf8
