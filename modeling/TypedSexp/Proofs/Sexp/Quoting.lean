import TypedSexp.Proofs.Sexp.RoundTrip
/-!
# Atoms are quoted exactly where they must be

A text reads as itself in one way only, bare: a quoted atom is longer than what it stands for, because
reading escapes never makes a text longer (`Atom.length_unescape_le`). So a printable text that is
read as the atom of that text is one that is written without quotes (`needsQuotes_eq_false_iff`).
-/

namespace TypedSexp

namespace Atom

/-! ## Lengths -/

/-- An escape stands for one code point at most. -/
theorem length_of_escape? {t meaning : Text} {n : Nat} (h : escape? t = some (meaning, n)) :
    meaning.length ≤ 1 := by
  have hnumbered {x : Option CodePoint} {k : Nat}
      (hx : (x.map fun x => ([x], k)) = some (meaning, n)) : meaning.length ≤ 1 := by
    obtain ⟨c, -, hc⟩ := Option.map_eq_some_iff.1 hx
    obtain ⟨rfl, -⟩ := Prod.mk.inj hc
    exact Nat.le_refl 1
  have hnothing {k : Nat} (hk : some (([] : Text), k) = some (meaning, n)) : meaning.length ≤ 1 := by
    obtain ⟨rfl, -⟩ := Prod.mk.inj (Option.some.inj hk)
    exact Nat.zero_le 1
  unfold escape? at h
  split at h
  · cases h
  · rename_i c rest
    cases hsimple : simpleEscape? c with
    | some d =>
      rw [hsimple] at h
      obtain ⟨rfl, -⟩ := Prod.mk.inj (Option.some.inj h)
      exact Nat.le_refl 1
    | none =>
      simp only [hsimple] at h
      -- line ends stand for nothing, and numbers for the code point that they name
      split at h
      · exact hnothing h
      split at h
      · split at h
        · split at h <;> exact hnothing h
        · exact hnothing h
      split at h
      · split at h
        · exact hnumbered h
        · cases h
      split at h
      · split at h
        · exact hnumbered h
        · cases h
      split at h
      · split at h
        · split at h
          · exact hnumbered h
          · cases h
        · cases h
      · cases h

/-- Reading escapes makes no text longer. -/
theorem length_unescape_le (t : Text) : (unescape t).length ≤ t.length := by
  fun_induction unescape t with
  | case1 => exact Nat.le_refl 0
  | case2 rest meaning taken h ih =>
    have hmeaning := length_of_escape? h
    rw [List.length_drop] at ih
    rw [List.length_append, List.length_cons]
    omega
  | case3 rest _ ih => exact Nat.succ_le_succ ih
  | case4 c rest _ ih => exact Nat.succ_le_succ ih

/-- What stands between quotes is longer than the text with its escapes read. -/
theorem length_unescape_lt (body : Text) :
    (unescape body).length < (Lexeme.quoted body).source.length := by
  have hlen := length_unescape_le body
  have hsource : (Lexeme.quoted body).source.length = 1 + body.length + 1 := by
    rw [Lexeme.source, List.length_append, List.length_append]
    rfl
  omega

/-- A text is written as it is where it needs no quotes, and only there. -/
theorem format_eq_self_iff (t : Text) : format t = t ↔ needsQuotes t = false := by
  unfold format
  by_cases hq : needsQuotes t
  · rw [if_pos hq, hq]
    refine ⟨fun h => ?_, fun h => nomatch h⟩
    have hlen := length_unescape_lt (t.flatMap escapeOne)
    rw [unescape_flatMap_escapeOne] at hlen
    exact absurd (congrArg List.length h) (Nat.ne_of_gt hlen)
  · rw [if_neg hq]
    exact ⟨fun _ => by simpa using hq, fun _ => rfl⟩

theorem needsQuotes_eq_false {t : Text} :
    needsQuotes t = false ↔ Grammar.WellFormed (.bare t) ∧ ∀ c ∈ t, c.isPrintable := by
  simp only [needsQuotes, Text.isPrintable, Grammar.WellFormed, Bool.or_eq_false_iff,
    Bool.not_eq_false', List.all_eq_true, List.isEmpty_eq_false_iff]

end Atom

namespace Grammar

/-- A text that is a way to write its own atom is a bare one. -/
theorem wellFormed_of_written {t : Text} (h : Written [.atom t] t) : WellFormed (.bare t) := by
  obtain ⟨ls, hspells, hspaced⟩ := h
  cases hspells with
  | bare ht _ => exact ht
  | @quoted body _ _ _ hnil =>
    -- the body alone would be longer than the text
    cases hnil
    generalize hself : Atom.unescape body = t at hspaced
    cases hspaced with
    | @lexeme _ gap rest _ _ _ _ _ _ =>
      have hlen := Atom.length_unescape_lt body
      rw [hself, List.length_append, List.length_append] at hlen
      omega

/-- **An atom is quoted exactly where it must be.** A text needs no quotes if and only if it is
printable and reading it gives one tree, the atom of that text. -/
theorem needsQuotes_eq_false_iff (t file : Text) :
    Atom.needsQuotes t = false ↔
      (∀ c ∈ t, c.isPrintable) ∧ (Source.text t).trees file = .ok [.atom t] := by
  constructor
  · intro hq
    have hprintable := (Atom.needsQuotes_eq_false.1 hq).2
    have hsurrogate := any_isSurrogate_of_mem fun c hc => .inl (hprintable c hc)
    have hpiece := Piece.format t
    rw [(Atom.format_eq_self_iff t).2 hq] at hpiece
    exact ⟨hprintable, (trees_eq_ok_iff hsurrogate file _).2 hpiece.written⟩
  · rintro ⟨hprintable, htrees⟩
    have hsurrogate := any_isSurrogate_of_mem fun c hc => .inl (hprintable c hc)
    have hwritten := (trees_eq_ok_iff hsurrogate file _).1 htrees
    exact Atom.needsQuotes_eq_false.2 ⟨wellFormed_of_written hwritten, hprintable⟩

end Grammar

end TypedSexp
