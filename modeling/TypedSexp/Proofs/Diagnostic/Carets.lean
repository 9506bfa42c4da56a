import TypedSexp.Diagnostic.Basic
import TypedSexp.Proofs.Number.Bases
import TypedSexp.Proofs.Sexp.Lines
/-!
# Carets mark what they are about

A diagnostic about a tree shows the lines of the text on which the tree stands, each with its number, and
marks the tree (`Diagnostic.Marks`). The columns of a location start at one and end behind the last code
point, and the lines behind the first one are moved by a margin; these come out even, because a tree
neither starts nor ends with a line feed. The main result, `Diagnostic.render_of_reading`, is about every
tree at any depth that is read from a source.
-/

namespace TypedSexp

namespace Diagnostic

/-! ## Rows that mark a stretch of a text -/

/-- The gutter of a line, so many columns wide: its number and a bar. -/
def IsGutter (width number : Nat) (gutter : Text) : Prop :=
  gutter.length = width ∧
    ∃ pad, gutter = List.replicate pad (CodePoint.ofChar ' ') ++ Text.ofNat number ++ " | "

/-- The gutter of a row of marks, so many columns wide: a bar without a number. -/
def IsBar (width : Nat) (bar : Text) : Prop :=
  bar.length = width ∧ ∃ pad, bar = List.replicate pad (CodePoint.ofChar ' ') ++ "| "

/-- Rows that show the lines of `own`, which stands between `head` and `tail`, and mark it. All gutters
are equally wide. On one line, a caret stands under every code point of `own`. On several lines, a caret
stands under the first code point of `own` and one under the last, and the lines behind the first one are
moved by a margin. -/
inductive Marks (width : Nat) (label head own tail : Text) : List Text → Prop
  | underlined {gutter bar : Text} (hown : Text.IsLine own) (hne : own ≠ [])
      (hgutter : IsGutter width (1 + head.count (CodePoint.ofChar '\n')) gutter)
      (hbar : IsBar width bar) :
      Marks width label head own tail
        [gutter ++ (head.lastLine ++ own ++ tail.firstLine),
         bar ++ (List.replicate head.lastLine.length (CodePoint.ofChar ' ') ++
           List.replicate own.length (CodePoint.ofChar '^') ++ label)]
  | bracketed {gutter : Nat → Text} {bar opening closing : Text} {middle : List Text}
      (hown : own.lines = own.firstLine :: (middle ++ [own.lastLine]))
      (hfirst : own.firstLine ≠ []) (hlast : own.lastLine ≠ [])
      (hgutter : ∀ i ≤ middle.length + 1,
        IsGutter width (1 + head.count (CodePoint.ofChar '\n') + i) (gutter i))
      (hbar : IsBar width bar)
      (hopening : opening.length = head.lastLine.length ∧ CodePoint.ofChar '^' ∉ opening)
      (hclosing : closing.length + 1 = ("| " ++ own.lastLine).length ∧
        CodePoint.ofChar '^' ∉ closing) :
      Marks width label head own tail
        ([gutter 0 ++ (head.lastLine ++ own.firstLine), bar ++ (opening ++ "^")] ++
          middle.mapIdx (fun i line => gutter (i + 1) ++ ("| " ++ line)) ++
          [gutter (middle.length + 1) ++ ("| " ++ (own.lastLine ++ tail.firstLine)),
           bar ++ (closing ++ "^" ++ label)])

variable {d : Diagnostic} {file : Text} {lines : List Text} {width : Nat} {p q : Position}

/-! ## Gutters and marks -/

theorem times_natCast (c : CodePoint) (n : Nat) : Text.times [c] n = List.replicate n c :=
  List.flatten_replicate_singleton

theorem spaces_natCast (n : Nat) : spaces n = List.replicate n (CodePoint.ofChar ' ') :=
  times_natCast _ n

theorem isGutter_numberGutter {number last : Nat} (h : number ≤ last) :
    IsGutter ((Text.ofNat last).length + 3) number
      (numberGutter (Text.ofNat last).length number).text := by
  have hlength := Spelling.length_ofNat_le h
  have htext : (numberGutter (Text.ofNat last).length number).text =
      List.replicate ((Text.ofNat last).length - (Text.ofNat number).length)
        (CodePoint.ofChar ' ') ++ Text.ofNat number ++ " | " := by
    rw [← spaces_natCast, Int.ofNat_sub hlength]
    rfl
  refine ⟨?_, _, htext⟩
  rw [htext, List.length_append, List.length_append, List.length_replicate]
  show _ + 3 = _
  omega

theorem isBar_markGutter (width : Nat) : IsBar (width + 3) (markGutter width).text := by
  have htext : (markGutter width).text =
      List.replicate (width + 1) (CodePoint.ofChar ' ') ++ "| " := by
    rw [← spaces_natCast]
    rfl
  refine ⟨?_, _, htext⟩
  rw [htext, List.length_append, List.length_replicate]
  rfl

/-- What leads to a caret has none itself. -/
theorem caret_not_mem {first : Text} (h : CodePoint.ofChar '^' ∉ first) (n : Nat) :
    CodePoint.ofChar '^' ∉ first ++ List.replicate n (CodePoint.ofChar '_') := by
  rw [List.mem_append, List.mem_replicate, not_or]
  exact ⟨h, fun hbar => absurd hbar.2 (by decide)⟩

theorem openingMark_eq (column : Nat) (h : 1 ≤ column) : ∃ opening : Text,
    openingMark column = opening ++ "^" ∧ opening.length + 1 = column ∧
      CodePoint.ofChar '^' ∉ opening := by
  unfold openingMark
  by_cases hone : column = 1
  · subst hone
    exact ⟨[], rfl, rfl, by simp⟩
  · rw [if_pos (by omega)]
    refine ⟨" " ++ List.replicate (column - 2) (CodePoint.ofChar '_'), ?_, ?_, ?_⟩
    · rw [← times_natCast, Int.ofNat_sub (by omega)]
      rfl
    · rw [List.length_append, List.length_replicate]
      show 1 + (column - 2) + 1 = column
      omega
    · exact caret_not_mem (by decide) (column - 2)

theorem closingMark_eq (line : Text) (endColumn : Nat) (h : 2 ≤ endColumn) : ∃ closing : Text,
    closingMark line endColumn = closing ++ "^" ∧ closing.length = endColumn ∧
      CodePoint.ofChar '^' ∉ closing := by
  have hdashes : max 1 ((endColumn : Int) - 1) = ((endColumn - 1 : Nat) : Int) := by omega
  unfold closingMark
  dsimp only
  rw [if_pos (by omega), hdashes]
  refine ⟨"|" ++ List.replicate (endColumn - 1) (CodePoint.ofChar '_'), ?_, ?_, ?_⟩
  · rw [← times_natCast]
    rfl
  · rw [List.length_append, List.length_replicate]
    show 1 + (endColumn - 1) = endColumn
    omega
  · exact caret_not_mem (by decide) (endColumn - 1)

theorem lineAt_of_lines {front rest : List Text} (hlines : lines = front ++ rest) (i : Nat)
    {line : Text} (h : rest[i]? = some line) :
    lineAt lines ((1 + front.length + i : Nat) : Int) = line := by
  have hindex : (((1 + front.length + i : Nat) : Int) - 1).toNat = front.length + i := by omega
  rw [lineAt, if_neg (by omega), hindex, hlines, List.getElem?_append_right (Nat.le_add_right ..),
    Nat.add_sub_cancel_left, h, Option.getD_some]

theorem paint_pair (a b : Piece) : StyledLine.paint false [a, b] = a.text ++ b.text :=
  congrArg (a.text ++ ·) (List.append_nil b.text)

theorem paint_continued (number : Int) : StyledLine.paint false (continued lines width number) =
    (numberGutter width number).text ++ ("| " ++ lineAt lines number) := by
  simp [continued, StyledLine.paint, Piece.paint]

/-- The rows of the lines between the first and the last one. -/
theorem map_paint_continued {number : Nat} {middle : List Text} (h : ∀ i line,
    middle[i]? = some line → lineAt lines ((number + (i + 1) : Nat) : Int) = line) :
    (List.range middle.length).map (fun i => StyledLine.paint false
      (continued lines width ((number + (i + 1) : Nat) : Int))) =
      middle.mapIdx fun i line =>
        (numberGutter width ((number + (i + 1) : Nat) : Int)).text ++ ("| " ++ line) := by
  refine List.ext_getElem (by simp) fun i hi _ => ?_
  rw [List.length_map, List.length_range] at hi
  rw [List.getElem_map, List.getElem_range, List.getElem_mapIdx, paint_continued,
    h i _ (List.getElem?_eq_getElem hi)]

/-! ## The rows at a place -/

theorem underlined_between (hp : 1 ≤ p.column) (hpq : p.column < q.column) :
    d.underlined (.between file p q) lines width =
      [[numberGutter width p.line, ⟨.plain, lineAt lines p.line⟩],
       [markGutter width, ⟨.alarm, List.replicate (p.column - 1) (CodePoint.ofChar ' ') ++
         List.replicate (q.column - p.column) (CodePoint.ofChar '^') ++ d.labelSuffix⟩]] := by
  have hcolumn : max ((p.column : Nat) : Int) 1 = p.column := by omega
  have hspan : max 1 ((q.column : Int) - p.column) = ((q.column - p.column : Nat) : Int) := by omega
  unfold underlined Location.between
  dsimp only
  rw [hcolumn, if_pos (by omega), hspan, ← spaces_natCast, ← times_natCast, Int.ofNat_sub hp]
  rfl

theorem bracketed_between (hp : 1 ≤ p.column) (hpq : p.line < q.line) :
    d.bracketed (.between file p q) lines width q.line =
      [[numberGutter width p.line, ⟨.plain, lineAt lines p.line⟩],
       [markGutter width, ⟨.alarm, openingMark p.column⟩]] ++
      (List.range (q.line - p.line - 1)).map
        (fun i => continued lines width ((p.line + (i + 1) : Nat) : Int)) ++
      [continued lines width q.line,
       [markGutter width,
        ⟨.alarm, closingMark (lineAt lines q.line) q.column ++ d.labelSuffix⟩]] := by
  have hcolumn : max ((p.column : Nat) : Int) 1 = p.column := by omega
  have hcount : ((q.line : Int) - p.line).toNat = q.line - p.line - 1 + 1 := by omega
  have hlast : (p.line : Int) + 1 + ((q.line - p.line - 1 : Nat) : Int) = q.line := by omega
  unfold bracketed Location.between
  dsimp only
  rw [hcolumn, hcount, List.range_succ, List.map_append, List.flatMap_append, List.map_singleton,
    List.flatMap_singleton, hlast, if_pos rfl, List.flatMap_map, ← List.append_assoc]
  congr 2
  rw [List.map_eq_flatMap]
  refine List.flatMap_congr fun i hi => ?_
  have hi := List.mem_range.1 hi
  rw [if_neg (by omega)]
  congr 2
  omega

/-- The rows at a place on lines of the source: the place, what shows and marks it, and the remarks. -/
theorem atSource_between {t : Text} (hp : 1 ≤ p.line) (hpq : p.line ≤ q.line)
    (hq : q.line ≤ t.lines.length) : ∃ place, d.atSource (.between file p q) t =
      place ++ (if p.line < q.line then
        d.bracketed (.between file p q) t.lines (Text.ofNat q.line).length q.line
      else d.underlined (.between file p q) t.lines (Text.ofNat q.line).length) ++
      d.remarks (Text.ofNat q.line).length := by
  have hend : (q.line : Int) ≠ 0 ∧ (p.line : Int) ≤ q.line := by omega
  have hlast : max (p.line : Int) (min (t.lines.length : Int) q.line) = q.line := by omega
  unfold atSource Location.between
  dsimp only
  rw [if_pos hend, hlast]
  simp only [Int.ofNat_lt]
  exact ⟨_, rfl⟩

/-! ## Rows about a stretch -/

section Stretch

variable {head own tail : Text} (hp : p = .behind head) (hq : q = .behind (head ++ own))
  (hlines : lines = (head ++ own ++ tail).lines) (hwidth : width = (Text.ofNat q.line).length)
include hp hq hlines hwidth

theorem marks_underlined (hown : Text.IsLine own) (hne : own ≠ []) :
    Marks (width + 3) d.labelSuffix head own tail
      ((d.underlined (.between file p q) lines width).map (StyledLine.paint false)) := by
  obtain ⟨front, more, haround, hfront⟩ := Text.exists_lines_through hown head tail
  have hstart : p.line = 1 + front.length := by rw [hp, hfront, Position.line_behind]
  have hstop : q.line = p.line := by
    rw [hq, hstart, hfront, Position.line_behind, List.count_append,
      List.count_eq_zero_of_not_mem hown, Nat.add_zero]
  have hleft : p.column = 1 + head.lastLine.length := by rw [hp, Position.column_behind]
  have hright : q.column = p.column + own.length := by
    rw [hq, hleft, Position.column_behind, Text.lastLine_append_of_isLine hown, List.length_append,
      Nat.add_assoc]
  have hpos : 0 < own.length := List.length_pos_of_ne_nil hne
  have hgutter : IsGutter (width + 3) (1 + head.count (CodePoint.ofChar '\n'))
      (numberGutter width p.line).text := by
    rw [hwidth, ← hfront, ← hstart]
    exact isGutter_numberGutter hstop.ge
  have hline : lineAt lines p.line = head.lastLine ++ own ++ tail.firstLine := by
    rw [hstart]
    exact lineAt_of_lines (hlines.trans haround) 0 List.getElem?_cons_zero
  rw [underlined_between (by omega) (by omega), hline, hright, Nat.add_sub_cancel_left, hleft,
    Nat.add_sub_cancel_left]
  simp only [List.map_cons, List.map_nil, paint_pair]
  exact .underlined hown hne hgutter (isBar_markGutter width)

theorem marks_bracketed (hown : ¬Text.IsLine own) (hfirst : own.firstLine ≠ [])
    (hlast : own.lastLine ≠ []) : Marks (width + 3) d.labelSuffix head own tail
      ((d.bracketed (.between file p q) lines width q.line).map (StyledLine.paint false)) := by
  obtain ⟨front, middle, more, haround, hfront, hinside, hmiddle⟩ :=
    Text.exists_lines_across hown head tail
  have hstart : p.line = 1 + front.length := by rw [hp, hfront, Position.line_behind]
  have hstop : q.line = p.line + (middle.length + 1) := by
    rw [hq, hstart, hfront, Position.line_behind, List.count_append, hmiddle, Nat.add_assoc]
  have hleft : p.column = 1 + head.lastLine.length := by rw [hp, Position.column_behind]
  have hright : q.column = 1 + own.lastLine.length := by
    rw [hq, Position.column_behind, Text.lastLine_append_of_not_isLine hown]
  have hpos : 0 < own.lastLine.length := List.length_pos_of_ne_nil hlast
  have hgutter : ∀ i ≤ middle.length + 1, IsGutter (width + 3)
      (1 + head.count (CodePoint.ofChar '\n') + i)
      (numberGutter width ((p.line + i : Nat) : Int)).text := by
    intro i hi
    rw [hwidth, ← hfront, ← hstart]
    exact isGutter_numberGutter (by omega)
  have hline (i : Nat) {line : Text} (h : ((head.lastLine ++ own.firstLine) ::
      (middle ++ (own.lastLine ++ tail.firstLine) :: more))[i]? = some line) :
      lineAt lines ((p.line + i : Nat) : Int) = line := by
    rw [hstart]
    exact lineAt_of_lines (hlines.trans haround) i h
  have hfirstLine : lineAt lines p.line = head.lastLine ++ own.firstLine :=
    hline 0 List.getElem?_cons_zero
  have hlastLine : lineAt lines q.line = own.lastLine ++ tail.firstLine := by
    rw [hstop]
    exact hline (middle.length + 1) (by simp)
  have hmiddleLine : ∀ i line, middle[i]? = some line →
      lineAt lines ((p.line + (i + 1) : Nat) : Int) = line := by
    intro i line hi
    obtain ⟨hlt, -⟩ := List.getElem?_eq_some_iff.1 hi
    exact hline (i + 1) (by rw [List.getElem?_cons_succ, List.getElem?_append_left hlt, hi])
  have hcount : q.line - p.line - 1 = middle.length := by omega
  obtain ⟨opening, hopening, hopeningLength, hopeningMark⟩ :=
    openingMark_eq p.column (by omega)
  obtain ⟨closing, hclosing, hclosingLength, hclosingMark⟩ :=
    closingMark_eq (lineAt lines q.line) q.column (by omega)
  -- the end column is one behind the last code point, and its line is moved by a margin of two
  have hmargin : closing.length + 1 = ("| " ++ own.lastLine).length := by
    rw [hclosingLength, hright, List.length_append]
    show 1 + own.lastLine.length + 1 = 2 + own.lastLine.length
    omega
  have hmarks : Marks (width + 3) d.labelSuffix head own tail _ :=
    .bracketed hinside hfirst hlast hgutter (isBar_markGutter width) ⟨by omega, hopeningMark⟩
      ⟨hmargin, hclosingMark⟩
  rw [bracketed_between (by omega) (by omega), hcount, hopening, hclosing]
  simp only [List.map_append, List.map_cons, List.map_nil, List.map_map, Function.comp_def,
    paint_pair, map_paint_continued hmiddleLine]
  rw [paint_continued, hfirstLine, hlastLine, hstop]
  exact hmarks

/-- A stretch that neither starts nor ends with a line feed is marked. -/
theorem marks_between (hfirst : own.firstLine ≠ []) (hlast : own.lastLine ≠ []) :
    Marks (width + 3) d.labelSuffix head own tail
      ((if p.line < q.line then d.bracketed (.between file p q) lines width q.line
        else d.underlined (.between file p q) lines width).map (StyledLine.paint false)) := by
  have hline : q.line = p.line + own.count (CodePoint.ofChar '\n') := by
    rw [hp, hq, Position.line_behind, Position.line_behind, List.count_append, Nat.add_assoc]
  by_cases hown : Text.IsLine own
  · have hne : own ≠ [] := by
      rintro rfl
      exact hfirst rfl
    rw [if_neg (by rw [hline, List.count_eq_zero_of_not_mem hown]; omega)]
    exact marks_underlined hp hq hlines hwidth hown hne
  · have hfeed := List.count_pos_iff.2 (not_not.1 hown)
    rw [if_pos (by omega)]
    exact marks_bracketed hp hq hlines hwidth hown hfirst hlast

end Stretch

/-! ## Diagnostics about trees -/

/-- A label stands behind a space. -/
theorem eq_space_of_head?_labelSuffix (d : Diagnostic) :
    ∀ c ∈ d.labelSuffix.head?, c = CodePoint.ofChar ' ' := by
  unfold labelSuffix
  split
  · rintro c ⟨⟩
    rfl
  · rintro c ⟨⟩

theorem render_atSource {l : Location} {sources : Sources} {t : Text} (hd : d.location = some l)
    (hsources : sources.lookup l.file = some t) : d.render sources false =
      Text.join "\n" ((d.headline :: d.atSource l t).map (StyledLine.paint false)) := by
  unfold render rows
  rw [hd]
  dsimp only
  rw [hsources]
  rfl

/-- The rendering at a tree's own stretch of a text. -/
theorem exists_marks {x : Sexp} {head own tail : Text} (hown : Grammar.Own x own)
    {sources : Sources}
    (hd : d.location = some (.between file (.behind head) (.behind (head ++ own))))
    (hsources : sources.lookup file = some (head ++ own ++ tail)) :
    ∃ front rows back width, d.render sources false = Text.join "\n" (front ++ rows ++ back) ∧
      Marks width d.labelSuffix head own tail rows := by
  generalize hp : Position.behind head = p at hd
  generalize hq : Position.behind (head ++ own) = q at hd
  have hstart : 1 ≤ p.line := by
    rw [← hp, Position.line_behind]
    omega
  have hle : p.line ≤ q.line := by
    rw [← hp, ← hq, Position.line_behind, Position.line_behind, List.count_append]
    omega
  have hstop : q.line ≤ (head ++ own ++ tail).lines.length := by
    rw [← hq, Text.length_lines, Position.line_behind]
    simp only [List.count_append]
    omega
  obtain ⟨hfirst, hlast⟩ := hown.ends
  obtain ⟨place, hrows⟩ := atSource_between (d := d) hstart hle hstop
  rw [render_atSource hd hsources, hrows, List.map_cons, List.map_append, List.map_append,
    ← List.cons_append, ← List.cons_append]
  exact ⟨_, _, _, _, rfl, marks_between hp.symm hq.symm rfl rfl hfirst hlast⟩

/-- **Carets mark exactly what they are about.** A source is read from a character's start on, and every
tree, at any depth, is placed at a stretch of the text that is its own. A diagnostic at that place shows
the lines of this stretch with their numbers and marks it; a label stands behind a space. -/
theorem render_of_reading {source : Source} {skipped body : Text}
    (h : source.Holds (skipped ++ body)) (file : Text) :
    ∃ r, source.read (Utf8.size skipped) file = .ok r ∧ ∀ v ∈ r.values, ∀ n : Node, n.Within v →
      ∃ head own tail, skipped ++ body = head ++ own ++ tail ∧ Grammar.Own n.sexp own ∧
        n.location = some (.between file (.behind head) (.behind (head ++ own))) ∧
        ∀ (d : Diagnostic) (sources : Sources), d.location = n.location →
          sources.lookup file = some (skipped ++ body) →
          (∀ c ∈ d.labelSuffix.head?, c = CodePoint.ofChar ' ') ∧
          ∃ front rows back width,
            d.render sources false = Text.join "\n" (front ++ rows ++ back) ∧
            Marks width d.labelSuffix head own tail rows := by
  refine ⟨_, Source.read_eq_ok_iff.2 ⟨skipped, body, h, rfl, rfl⟩, fun v hv n hn => ?_⟩
  obtain ⟨head, own, tail, rfl, hreads⟩ := Grammar.stretch_of_reading hv hn
  have hlocation := hreads.location
  rw [← Position.advance_append, ← Position.advance_append, Position.advance_start,
    Position.advance_start] at hlocation
  have htext : skipped ++ (head ++ own ++ tail) = skipped ++ head ++ own ++ tail := by simp
  refine ⟨skipped ++ head, own, tail, htext, hreads.own, hlocation, fun d sources hd hsources => ?_⟩
  rw [htext] at hsources
  exact ⟨d.eq_space_of_head?_labelSuffix, exists_marks hreads.own (hd.trans hlocation) hsources⟩

/-- Behind a character of two bytes: a list over three lines. -/
theorem render_of_reading_list :
    let source : Source := .text "é (f\n (g\n x))"
    source.Holds ("é" ++ " (f\n (g\n x))") ∧
    ∃ r, source.read (Utf8.size "é") "f" = .ok r ∧ ∀ v ∈ r.values, ∀ n : Node, n.Within v →
      ∃ head own tail, (("é" : String) : Text) ++ (" (f\n (g\n x))" : String) = head ++ own ++ tail ∧
        Grammar.Own n.sexp own ∧
        n.location = some (.between "f" (.behind head) (.behind (head ++ own))) ∧
        ∀ (d : Diagnostic) (sources : Sources), d.location = n.location →
          sources.lookup (("f" : String) : Text) = some ("é" ++ " (f\n (g\n x))") →
          (∀ c ∈ d.labelSuffix.head?, c = CodePoint.ofChar ' ') ∧
          ∃ front rows back width,
            d.render sources false = Text.join "\n" (front ++ rows ++ back) ∧
            Marks width d.labelSuffix head own tail rows :=
  have hholds : (Source.text "é (f\n (g\n x))").Holds ("é" ++ " (f\n (g\n x))") :=
    ⟨by decide, by decide⟩
  ⟨hholds, render_of_reading hholds "f"⟩

/-- The inner list of that text. -/
example : (Diagnostic.mk "bad" (some (.between "f" (.behind "é (f\n ") (.behind "é (f\n (g\n x)")))
    none none none (some "here")).render [("f", "é (f\n (g\n x))")] false =
    Text.join "\n" ["error: bad", " --> f:2:2", "  |", "2 |  (g", "  |  ^", "3 | |  x))",
      "  | |___^ here"] := by
  decide +kernel

end Diagnostic

end TypedSexp
