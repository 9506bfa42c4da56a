import TypedSexp.Proofs.Sexp.Acceptance
import TypedSexp.Proofs.Text.Utf8
/-!
# The text of a source

A source holds a text if it is the text, or if it is the bytes that encode it (`Source.Holds`). It can
be cut at an offset exactly where a code point of its text ends (`split_eq_ok_iff`), and a text and
its bytes are cut alike.
-/

namespace TypedSexp

/-- The text that a source holds. Without a UTF-8 form it holds none. -/
def Source.Holds : Source → Text → Prop
  | .text s, t => s.any CodePoint.isSurrogate = false ∧ s = t
  | .bytes b, t => Utf8.encode? t = some b

namespace Utf8

theorem size_append (s t : Text) : size (s ++ t) = size s + size t := by
  induction s with
  | nil => simp [size]
  | cons c s ih =>
    show width c + size (s ++ t) = width c + size s + size t
    rw [ih, Nat.add_assoc]

theorem size_cons (c : CodePoint) (t : Text) : size (c :: t) = width c + size t := rfl

theorem encode?_eq_some_iff {t : Text} {b : Bytes} : encode? t = some b ↔
    t.any CodePoint.isSurrogate = false ∧ t.flatMap encodeOne = b := by
  rw [encode?]
  cases t.any CodePoint.isSurrogate <;> simp

end Utf8

theorem Position.offset_advance (p : Position) (t : Text) :
    (p.advance t).offset = p.offset + Utf8.size t := by
  induction t generalizing p with
  | nil => rfl
  | cons c t ih =>
    rw [advance_cons, ih, Utf8.size_cons]
    unfold step
    split_ifs <;> dsimp only <;> omega

namespace Source

theorem splitAtByte_size (before after : Text) :
    splitAtByte (Utf8.size before) (before ++ after) = some (before, after) := by
  induction before with
  | nil => rw [Utf8.size, List.foldr_nil, splitAtByte, List.nil_append]
  | cons c before ih =>
    have hwidth := Utf8.width_pos c
    obtain ⟨n, hn⟩ : ∃ n, Utf8.size (c :: before) = n + 1 :=
      ⟨Utf8.size (c :: before) - 1, by rw [Utf8.size_cons]; omega⟩
    rw [hn, List.cons_append, splitAtByte]
    rw [Utf8.size_cons] at hn
    have hrest : n + 1 - Utf8.width c = Utf8.size before := by omega
    rw [if_pos (by omega), hrest, ih]
    rfl

theorem eq_of_splitAtByte {n : Nat} {t before after : Text}
    (h : splitAtByte n t = some (before, after)) : t = before ++ after ∧ Utf8.size before = n := by
  fun_induction splitAtByte n t generalizing before with
  | case1 t => cases h; exact ⟨rfl, rfl⟩
  | case2 => cases h
  | case3 n c rest hle ih =>
    obtain ⟨⟨b, a⟩, hba, he⟩ := Option.map_eq_some_iff.1 h
    obtain ⟨rfl, rfl⟩ := Prod.mk.inj he
    obtain ⟨rfl, hsize⟩ := ih hba
    exact ⟨rfl, by rw [Utf8.size_cons, hsize]; omega⟩
  | case4 => cases h

theorem split_of_text {t : Text} (ht : t.any CodePoint.isSurrogate = false) (start : Int) :
    (Source.text t).split start =
      if start < 0 ∨ (Utf8.size t : Int) < start then
        .error (.startOutside start (Utf8.size t))
      else (splitAtByte start.toNat t).elim (.error (.startInside start)) .ok := by
  unfold split
  simp only [ht, Bool.false_eq_true, if_false, pure_bind]
  split_ifs
  · rfl
  · cases splitAtByte start.toNat t <;> rfl

/-- A text and its bytes are cut alike, and where one cannot be cut the other cannot. -/
theorem split_bytes {t : Text} {b : Utf8.Bytes} (hb : Utf8.encode? t = some b) (start : Int) :
    (Source.bytes b).split start = (Source.text t).split start := by
  obtain ⟨ht, rfl⟩ := Utf8.encode?_eq_some_iff.1 hb
  unfold split
  simp only [Utf8.decode_eq_ok_iff.2 hb, ht, Utf8.length_flatMap_encodeOne]
  rfl

theorem split_text_eq_ok_iff {t : Text} {start : Int} {before after : Text} :
    (Source.text t).split start = .ok (before, after) ↔
      (Source.text t).Holds (before ++ after) ∧ start = Utf8.size before := by
  cases ht : t.any CodePoint.isSurrogate with
  | true =>
    constructor
    · intro h
      unfold split at h
      simp [ht, bind, Except.bind, throw, throwThe, MonadExceptOf.throw] at h
    · rintro ⟨⟨hnone, -⟩, -⟩
      simp [hnone] at ht
  | false =>
    rw [split_of_text ht]
    constructor
    · intro h
      split_ifs at h with hstart
      cases hcut : splitAtByte start.toNat t with
      | none => simp [hcut] at h
      | some parts =>
        obtain rfl : parts = (before, after) := by simpa [hcut] using h
        obtain ⟨rfl, hsize⟩ := eq_of_splitAtByte hcut
        exact ⟨⟨ht, rfl⟩, by omega⟩
    · rintro ⟨⟨-, rfl⟩, rfl⟩
      rw [if_neg (by rw [Utf8.size_append]; omega), Int.toNat_natCast, splitAtByte_size]
      rfl

/-- **A source is cut where a code point of its text ends.** -/
theorem split_eq_ok_iff {source : Source} {start : Int} {before after : Text} :
    source.split start = .ok (before, after) ↔
      source.Holds (before ++ after) ∧ start = Utf8.size before := by
  cases source with
  | text t => exact split_text_eq_ok_iff
  | bytes b =>
    cases hd : Utf8.decode b with
    | error fault =>
      constructor
      · intro h
        unfold split at h
        simp only [hd, pure_bind] at h
        split_ifs at h
        cases h
      · rintro ⟨hb, -⟩
        rw [Utf8.decode_eq_ok_iff.2 hb] at hd
        cases hd
    | ok t =>
      have hb := Utf8.decode_eq_ok_iff.1 hd
      obtain ⟨ht, -⟩ := Utf8.encode?_eq_some_iff.1 hb
      have hholds (t' : Text) : (Source.bytes b).Holds t' ↔ (Source.text t).Holds t' := by
        constructor
        · intro hb'
          have hd' := Utf8.decode_eq_ok_iff.2 hb'
          rw [hd] at hd'
          exact ⟨ht, Except.ok.inj hd'⟩
        · rintro ⟨-, rfl⟩
          exact hb
      rw [split_bytes hb, split_text_eq_ok_iff, hholds]

theorem read_eq_ok_iff {source : Source} {start : Int} {file : Text} {r : Reading} :
    source.read start file = .ok r ↔ ∃ before body, source.Holds (before ++ body) ∧
      start = Utf8.size before ∧ Reading.of file (Position.start.advance before) body = r := by
  unfold read
  constructor
  · intro h
    cases hcut : source.split start with
    | error fault => simp [hcut, bind, Except.bind] at h
    | ok parts =>
      obtain ⟨before, body⟩ := parts
      obtain ⟨hholds, hstart⟩ := split_eq_ok_iff.1 hcut
      rw [hcut] at h
      exact ⟨before, body, hholds, hstart, Except.ok.inj h⟩
  · rintro ⟨before, body, hholds, hstart, rfl⟩
    rw [split_eq_ok_iff.2 ⟨hholds, hstart⟩]
    rfl

end Source

end TypedSexp
