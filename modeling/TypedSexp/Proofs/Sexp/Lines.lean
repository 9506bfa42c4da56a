import Mathlib.Data.List.Induction
import TypedSexp.Proofs.Sexp.Width
/-!
# Lines around a tree

Where two parts of a text meet, the last line of one and the first line of the other are one line of the
whole (`Text.lines_append`). A tree is read from a stretch of the text that is its own
(`Grammar.Reads.own`): it starts and ends with the atom or the parentheses, so its first and its last
line have code points of the tree.
-/

namespace TypedSexp

namespace Text

variable {s t : Text} {c : CodePoint}

/-- What stands before the first line feed. -/
def firstLine (t : Text) : Text := t.takeWhile (· ≠ CodePoint.ofChar '\n')

/-- What stands behind the last line feed. -/
def lastLine (t : Text) : Text := (t.reverse.takeWhile (· ≠ CodePoint.ofChar '\n')).reverse

/-! ## The lines of a text in parts -/

/-- Where two parts meet, the last line of one and the first line of the other are one line. -/
theorem lines_append {front more : List Text} {last first : Text} (hs : s.lines = front ++ [last])
    (ht : t.lines = first :: more) : (s ++ t).lines = front ++ (last ++ first) :: more := by
  induction s generalizing front last with
  | nil =>
    cases front with
    | nil =>
      obtain rfl := List.singleton_inj.1 hs
      exact ht
    | cons _ front => simp [lines] at hs
  | cons c s ih =>
    obtain ⟨first', more', hs'⟩ := exists_lines s
    by_cases hc : c = CodePoint.ofChar '\n'
    · subst hc
      rw [lines_feed] at hs
      rw [List.cons_append, lines_feed]
      cases front with
      | nil => simp [hs'] at hs
      | cons line front =>
        obtain ⟨rfl, hlines⟩ := List.cons.inj hs
        rw [ih hlines, List.cons_append]
    · rw [lines_cons hc hs'] at hs
      cases front with
      | nil =>
        obtain ⟨rfl, rfl⟩ := List.cons.inj hs
        have hfront : lines s = [] ++ [first'] := hs'
        exact lines_cons hc (ih hfront)
      | cons line front =>
        obtain ⟨rfl, rfl⟩ := List.cons.inj hs
        have hfront : lines s = (first' :: front) ++ [last] := hs'
        exact lines_cons hc (ih hfront)

theorem exists_lines_firstLine (t : Text) : ∃ more, t.lines = t.firstLine :: more := by
  induction t with
  | nil => exact ⟨[], rfl⟩
  | cons c t ih =>
    obtain ⟨more, ht⟩ := ih
    by_cases hc : c = CodePoint.ofChar '\n'
    · subst hc
      exact ⟨lines t, lines_feed t⟩
    · refine ⟨more, ?_⟩
      have hfirst : firstLine (c :: t) = c :: firstLine t :=
        List.takeWhile_cons_of_pos (by simpa using hc)
      rw [lines_cons hc ht, hfirst]

theorem lastLine_concat_feed (t : Text) : lastLine (t ++ [CodePoint.ofChar '\n']) = [] := by
  simp [lastLine]

theorem lastLine_concat (hc : c ≠ CodePoint.ofChar '\n') (t : Text) :
    lastLine (t ++ [c]) = t.lastLine ++ [c] := by
  simp [lastLine, hc]

theorem exists_lines_lastLine (t : Text) :
    ∃ front, t.lines = front ++ [t.lastLine] ∧ front.length = t.count (CodePoint.ofChar '\n') := by
  induction t using List.reverseRecOn with
  | nil => exact ⟨[], rfl, rfl⟩
  | append_singleton t c ih =>
    obtain ⟨front, ht, hlength⟩ := ih
    by_cases hc : c = CodePoint.ofChar '\n'
    · subst hc
      refine ⟨front ++ [lastLine t], ?_, by simp [hlength]⟩
      rw [lines_append ht (lines_feed []), lastLine_concat_feed]
      simp [lines]
    · refine ⟨front, ?_, by simp [hlength, hc]⟩
      rw [lines_append ht (lines_cons hc rfl), lastLine_concat hc]

theorem length_lines (t : Text) : t.lines.length = t.count (CodePoint.ofChar '\n') + 1 := by
  obtain ⟨front, ht, hlength⟩ := t.exists_lines_lastLine
  rw [ht, List.length_append, hlength, List.length_singleton]

theorem lines_of_isLine (ht : IsLine t) : t.lines = [t] := by
  obtain ⟨front, hlines, hlength⟩ := t.exists_lines_lastLine
  rw [List.count_eq_zero_of_not_mem ht, List.length_eq_zero_iff] at hlength
  have hline : t.lastLine = t := by
    rw [lastLine, List.takeWhile_eq_self_iff.2, List.reverse_reverse]
    intro c hc
    simpa using fun h : c = CodePoint.ofChar '\n' => ht (h ▸ List.mem_reverse.1 hc)
  rw [hlines, hlength, hline, List.nil_append]

/-- The lines of a text with line feeds. -/
theorem exists_lines_between (ht : ¬IsLine t) :
    ∃ middle, t.lines = t.firstLine :: (middle ++ [t.lastLine]) ∧
      t.count (CodePoint.ofChar '\n') = middle.length + 1 := by
  obtain ⟨more, hfirst⟩ := t.exists_lines_firstLine
  obtain ⟨front, hlast, hlength⟩ := t.exists_lines_lastLine
  have hfeed := List.count_pos_iff.2 (not_not.1 ht)
  cases front with
  | nil => rw [← hlength] at hfeed; exact absurd hfeed (by simp)
  | cons line middle =>
    obtain ⟨rfl, -⟩ := List.cons.inj (hfirst.symm.trans hlast)
    exact ⟨middle, hlast, hlength.symm⟩

/-- The lines of a text with a part that is on one line. -/
theorem exists_lines_through {own : Text} (hown : IsLine own) (head tail : Text) :
    ∃ front more, (head ++ own ++ tail).lines =
        front ++ (head.lastLine ++ own ++ tail.firstLine) :: more ∧
      front.length = head.count (CodePoint.ofChar '\n') := by
  obtain ⟨front, hhead, hfront⟩ := head.exists_lines_lastLine
  obtain ⟨more, htail⟩ := tail.exists_lines_firstLine
  exact ⟨front, more, lines_append (lines_append hhead (lines_of_isLine hown)) htail, hfront⟩

/-- The lines of a text with a part that is on several lines. -/
theorem exists_lines_across {own : Text} (hown : ¬IsLine own) (head tail : Text) :
    ∃ front middle more, (head ++ own ++ tail).lines = front ++ (head.lastLine ++ own.firstLine) ::
        (middle ++ (own.lastLine ++ tail.firstLine) :: more) ∧
      front.length = head.count (CodePoint.ofChar '\n') ∧
      own.lines = own.firstLine :: (middle ++ [own.lastLine]) ∧
      own.count (CodePoint.ofChar '\n') = middle.length + 1 := by
  obtain ⟨front, hhead, hfront⟩ := head.exists_lines_lastLine
  obtain ⟨middle, hinside, hmiddle⟩ := exists_lines_between hown
  obtain ⟨more, htail⟩ := tail.exists_lines_firstLine
  have hbefore : (head ++ own).lines =
      (front ++ (head.lastLine ++ own.firstLine) :: middle) ++ [own.lastLine] := by
    rw [lines_append hhead hinside, List.append_assoc, List.cons_append]
  refine ⟨front, middle, more, ?_, hfront, hinside, hmiddle⟩
  rw [lines_append hbefore htail, List.append_assoc, List.cons_append]

/-! ## The line on which a text ends -/

theorem lastLine_append_of_isLine (ht : IsLine t) : lastLine (s ++ t) = s.lastLine ++ t := by
  have hall : ∀ c ∈ t.reverse, decide (c ≠ CodePoint.ofChar '\n') = true := by
    intro c hc
    simpa using fun h : c = CodePoint.ofChar '\n' => ht (h ▸ List.mem_reverse.1 hc)
  rw [lastLine, List.reverse_append, List.takeWhile_append_of_pos hall, List.reverse_append,
    List.reverse_reverse, lastLine]

theorem lastLine_append_of_not_isLine (ht : ¬IsLine t) : lastLine (s ++ t) = t.lastLine := by
  have hshort : (t.reverse.takeWhile (· ≠ CodePoint.ofChar '\n')).length ≠ t.reverse.length := by
    intro hlength
    have hself := (List.takeWhile_prefix _).eq_of_length hlength
    exact ht fun hfeed => by
      simpa using List.takeWhile_eq_self_iff.1 hself _ (List.mem_reverse.2 hfeed)
  rw [lastLine, List.reverse_append, List.takeWhile_append, if_neg hshort, lastLine]

/-! ## Lines that are not empty -/

theorem firstLine_ne_nil (hc : c ≠ CodePoint.ofChar '\n') (t : Text) : firstLine (c :: t) ≠ [] := by
  simp [firstLine, hc]

theorem lastLine_ne_nil (hc : c ≠ CodePoint.ofChar '\n') (t : Text) :
    lastLine (t ++ [c]) ≠ [] := by
  simp [lastLine_concat hc]

end Text

theorem Position.line_behind (t : Text) :
    (behind t).line = 1 + t.count (CodePoint.ofChar '\n') := rfl

theorem Position.column_behind (t : Text) : (behind t).column = 1 + t.lastLine.length := by
  rw [Text.lastLine, List.length_reverse]
  rfl

/-! ## The stretch of a tree -/

namespace Grammar

/-- The text is a way to write the tree, with nothing around it. -/
inductive Own : Sexp → Text → Prop
  | bare {t : Text} (ht : WellFormed (.bare t)) : Own (.atom t) t
  | quoted {body : Text} (hb : QuotedBody body) :
      Own (.atom (Atom.unescape body)) ("\"" ++ body ++ "\"")
  | list {items : List Sexp} {inner : Text} (hi : Written items inner) :
      Own (.list items) ("(" ++ inner ++ ")")

variable {file : Text}

/-- The first token starts where the text starts, so no gap stands in front of it. -/
theorem Reads.exists_first {p : Position} {t : Text} {x : Sexp} {n : Node}
    (h : Reads file p t x n) : ∃ (l : Lexeme) (q : Position) (ts : List Token) (rest : Text),
      Makes file (⟨l, p, q⟩ :: ts) [n] ∧ WellFormed l ∧ t = l.source ++ rest ∧
      Placed q (isBareLexeme l) ts rest := by
  obtain ⟨-, hlocation, ts, hmakes, hplaced⟩ := h
  obtain ⟨first, last, hfirst, -, hplace⟩ := hmakes.place
  cases hplaced with
  | nil => cases hfirst
  | @cons _ _ gap rest l ts hg hl _ hrest =>
    obtain rfl := Option.some.inj hfirst
    have hoffset : (p.advance gap).offset = p.offset :=
      Int.ofNat.inj (congrArg Location.start (Option.some.inj (hplace.symm.trans hlocation)))
    have hgap : gap = [] := by
      rw [Position.offset_advance] at hoffset
      cases gap with
      | nil => rfl
      | cons c gap =>
        have hwidth := Utf8.width_pos c
        rw [Utf8.size_cons] at hoffset
        omega
    subst hgap
    exact ⟨l, _, ts, rest, hmakes, hl, rfl, hrest⟩

/-- What is read from a text with nothing around it is written by it with nothing around it. -/
theorem Reads.own {p : Position} {t : Text} {x : Sexp} {n : Node} (h : Reads file p t x n) :
    Own x t := by
  obtain ⟨l, q, ts, rest, hmakes, hl, rfl, hplaced⟩ := h.exists_first
  obtain rfl := h.sexp
  generalize htokens : (⟨l, p, q⟩ : Token) :: ts = us at hmakes
  cases hmakes with
  | bare hnil =>
    cases hnil
    cases htokens
    cases hplaced
    rw [List.append_nil]
    exact .bare hl
  | quoted hnil =>
    cases hnil
    cases htokens
    cases hplaced
    rw [List.append_nil]
    exact .quoted hl
  | @list p q p' q' inner _ items _ hitems hnil =>
    cases hnil
    obtain ⟨hfirst, rfl⟩ := List.cons.inj htokens
    cases hfirst
    obtain ⟨t₁, t₂, b, rfl, hinner, hclosing⟩ := hplaced.split
    cases hclosing with
    | @cons _ _ gap _ _ _ hg _ _ hlast =>
      cases hlast
      have hspaced := hinner.spaced (.gap hg)
      have hspells := hitems.spells fun s hs => hspaced.wellFormed _ (List.mem_map_of_mem hs)
      rw [← Node.sexps_eq_map] at hspells
      have hown := Own.list ⟨_, hspells, hspaced⟩
      simpa [Node.sexp, Lexeme.source] using hown

/-- A line feed is neither the first nor the last code point of a tree. -/
theorem Own.ends {x : Sexp} {t : Text} (h : Own x t) : t.firstLine ≠ [] ∧ t.lastLine ≠ [] := by
  cases h with
  | bare ht =>
    obtain ⟨hne, hbare⟩ := ht
    have hfeed : ∀ c ∈ t, c ≠ CodePoint.ofChar '\n' := by
      rintro c hc rfl
      exact absurd (hbare _ hc) (by decide)
    obtain ⟨c, rest, hfirst⟩ := List.exists_cons_of_ne_nil hne
    obtain hnil | ⟨front, d, hlast⟩ := List.eq_nil_or_concat t
    · exact absurd hnil hne
    refine ⟨?_, ?_⟩
    · rw [hfirst]
      exact Text.firstLine_ne_nil (hfeed c (by simp [hfirst])) rest
    · rw [hlast, List.concat_eq_append]
      exact Text.lastLine_ne_nil (hfeed d (by simp [hlast])) front
  | quoted hb => exact ⟨Text.firstLine_ne_nil (by decide) _, Text.lastLine_ne_nil (by decide) _⟩
  | list hi => exact ⟨Text.firstLine_ne_nil (by decide) _, Text.lastLine_ne_nil (by decide) _⟩

end Grammar

end TypedSexp
