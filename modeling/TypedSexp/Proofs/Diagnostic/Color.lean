import Mathlib.Data.List.Forall2
import TypedSexp.Diagnostic.Basic
import TypedSexp.Proofs.Lists
import TypedSexp.Proofs.Number.Integers
/-!
# Colour changes nothing but colour

`Text.decolor` takes the control sequences out of a text: an escape character and a bracket, parameters,
intermediate code points and a final one. It knows nothing of styles. A text shows another one if taking
the sequences out in front of anything leaves the other one (`Text.Shows`); what a colored piece shows is
its bare text, and pieces, rows and reports show what their parts show. So a report in colour, without
its sequences, is the report without colour (`Diagnostic.decolor_render`), if no message, remark,
file name or source has an escape character of its own.
-/

namespace TypedSexp

/-! ## Control sequences -/

namespace CodePoint

/-- The escape character, which starts a control sequence. -/
def esc : CodePoint := '\x1b'

/-- From `0` to `?`: stands in the parameters of a control sequence. -/
def isParameter (c : CodePoint) : Bool := 0x30 ≤ c.val && c.val ≤ 0x3F

/-- From the blank to the slash: stands between the parameters and the end of a control sequence. -/
def isIntermediate (c : CodePoint) : Bool := 0x20 ≤ c.val && c.val ≤ 0x2F

/-- From `@` to the tilde: ends a control sequence. -/
def isFinal (c : CodePoint) : Bool := 0x40 ≤ c.val && c.val ≤ 0x7E

end CodePoint

namespace Text

/-- How many code points at the start of a text make a control sequence, if an escape character stands
in front of it. -/
def sequenceLength? : Text → Option Nat
  | [] => none
  | c :: t =>
    if c = '[' then
      let parameters := t.takeWhile CodePoint.isParameter
      let rest := t.drop parameters.length
      let intermediates := rest.takeWhile CodePoint.isIntermediate
      match rest.drop intermediates.length with
      | [] => none
      | d :: _ => if d.isFinal then some (parameters.length + intermediates.length + 2) else none
    else none

/-- Drops control sequences, from left to right; `skip` code points are dropped first. -/
def decolorFrom : Nat → Text → Text
  | _, [] => []
  | skip + 1, _ :: t => decolorFrom skip t
  | 0, c :: t =>
    if c = CodePoint.esc then
      match sequenceLength? t with
      | some n => decolorFrom n t
      | none => c :: decolorFrom 0 t
    else c :: decolorFrom 0 t

/-- The text without its control sequences. -/
def decolor (t : Text) : Text := decolorFrom 0 t

/-- No escape character stands in the text. -/
def Colorless (t : Text) : Prop := CodePoint.esc ∉ t

instance (t : Text) : Decidable t.Colorless := inferInstanceAs (Decidable (CodePoint.esc ∉ t))

/-- The text is an escape character, a bracket and what makes a control sequence with them. -/
def IsSequence (t : Text) : Prop :=
  ∃ (parameters intermediates : Text) (d : CodePoint), (∀ c ∈ parameters, c.isParameter) ∧
    (∀ c ∈ intermediates, c.isIntermediate) ∧ d.isFinal ∧
    t = CodePoint.esc :: CodePoint.ofChar '[' :: parameters ++ intermediates ++ [d]

/-- In front of anything, the text without its control sequences is the other text. -/
def Shows (s t : Text) : Prop := ∀ rest, decolor (s ++ rest) = t ++ decolor rest

variable {s t u v : Text}

/-! ## Taking them out -/

theorem decolorFrom_append (s t : Text) : decolorFrom s.length (s ++ t) = decolor t := by
  induction s with
  | nil => rfl
  | cons c s ih => exact ih

theorem sequenceLength?_eq {parameters intermediates : Text} {d : CodePoint}
    (hparameters : ∀ c ∈ parameters, c.isParameter)
    (hintermediates : ∀ c ∈ intermediates, c.isIntermediate) (hd : d.isFinal) (rest : Text) :
    sequenceLength? (CodePoint.ofChar '[' :: (parameters ++ (intermediates ++ d :: rest))) =
      some (parameters.length + intermediates.length + 2) := by
  have hfinal : d.isParameter = false ∧ d.isIntermediate = false := by
    simp only [CodePoint.isFinal, CodePoint.isParameter, CodePoint.isIntermediate,
      Bool.and_eq_true, Bool.and_eq_false_iff, decide_eq_true_eq, decide_eq_false_iff_not] at hd ⊢
    omega
  -- the parameters end at the first intermediate code point, or at the final one
  have hstop : (intermediates ++ d :: rest).takeWhile CodePoint.isParameter = [] := by
    cases intermediates with
    | nil => exact List.takeWhile_cons_of_neg (by rw [hfinal.1]; decide)
    | cons c _ =>
      have hc := hintermediates c List.mem_cons_self
      refine List.takeWhile_cons_of_neg ?_
      simp only [CodePoint.isIntermediate, CodePoint.isParameter, Bool.and_eq_true,
        decide_eq_true_eq] at hc ⊢
      omega
  have hfirst : (parameters ++ (intermediates ++ d :: rest)).takeWhile CodePoint.isParameter =
      parameters := by
    rw [List.takeWhile_append_of_pos hparameters, hstop, List.append_nil]
  have hsecond : (intermediates ++ d :: rest).takeWhile CodePoint.isIntermediate =
      intermediates := by
    rw [List.takeWhile_append_of_pos hintermediates,
      List.takeWhile_cons_of_neg (by rw [hfinal.2]; decide), List.append_nil]
  rw [sequenceLength?, if_pos rfl]
  simp only [hfirst, List.drop_left, hsecond, hd, if_true]

theorem IsSequence.shows (h : IsSequence s) : Shows s [] := by
  intro rest
  obtain ⟨parameters, intermediates, d, hparameters, hintermediates, hd, rfl⟩ := h
  have hlength := sequenceLength?_eq hparameters hintermediates hd rest
  have hdrop := decolorFrom_append
    (CodePoint.ofChar '[' :: (parameters ++ (intermediates ++ [d]))) rest
  simp only [List.cons_append, List.append_assoc, List.nil_append, List.length_cons,
    List.length_append, List.length_nil] at hdrop ⊢
  rw [decolor, decolorFrom, if_pos rfl, hlength]
  exact hdrop

theorem Colorless.shows (h : Colorless t) : Shows t t := by
  intro rest
  induction t with
  | nil => rfl
  | cons c t ih =>
    obtain ⟨hc, ht⟩ := not_or.1 (mt List.mem_cons.2 h)
    rw [List.cons_append, decolor, decolorFrom, if_neg (Ne.symm hc)]
    exact congrArg (c :: ·) (ih ht)

theorem Shows.nil : Shows [] [] := fun _ => rfl

theorem Shows.append (hs : Shows s t) (hu : Shows u v) : Shows (s ++ u) (t ++ v) := by
  intro rest
  rw [List.append_assoc, hs, hu, List.append_assoc]

theorem Shows.join {separator : Text} (hseparator : Colorless separator) {ss ts : List Text}
    (h : List.Forall₂ Shows ss ts) : Shows (join separator ss) (join separator ts) := by
  induction h with
  | nil => exact .nil
  | cons hs hrest ih =>
    cases hrest with
    | nil => exact hs
    | cons _ _ => exact (hs.append hseparator.shows).append ih

theorem Shows.decolor (h : Shows s t) : s.decolor = t := by
  have hs := h []
  rwa [List.append_nil, show Text.decolor [] = [] from rfl, List.append_nil] at hs

/-! ## Texts without an escape character -/

@[simp] theorem colorless_nil : Colorless [] := List.not_mem_nil

@[simp] theorem colorless_cons {c : CodePoint} :
    Colorless (c :: t) ↔ c.val ≠ 0x1B ∧ Colorless t := by
  unfold Colorless
  rw [List.mem_cons, not_or]
  refine and_congr_left fun _ => not_congr ⟨?_, fun h => ?_⟩
  · rintro rfl
    rfl
  · cases c
    cases h
    rfl

@[simp] theorem colorless_append : Colorless (s ++ t) ↔ Colorless s ∧ Colorless t := by
  unfold Colorless
  rw [List.mem_append, not_or]

theorem Colorless.of_subset (ht : Colorless t) (h : s ⊆ t) : Colorless s := fun hs => ht (h hs)

theorem colorless_times (ht : Colorless t) (n : Int) : Colorless (times t n) := by
  intro h
  obtain ⟨u, hu, hesc⟩ := List.mem_flatten.1 h
  rw [(List.mem_replicate.1 hu).2] at hesc
  exact ht hesc

@[simp] theorem colorless_ofNat (n : Nat) : Colorless (ofNat n) := fun h =>
  absurd (Spelling.isDigit_of_mem_ofNat CodePoint.esc h) (by decide)

@[simp] theorem colorless_ofInt (n : Int) : Colorless (ofInt n) := by
  cases n with
  | ofNat n => exact colorless_ofNat n
  | negSucc n => exact colorless_append.2 ⟨by decide, colorless_ofNat (n + 1)⟩

theorem subset_of_mem_lines : ∀ {t line : Text}, line ∈ t.lines → line ⊆ t
  | [], line, h => by
    rw [List.mem_singleton.1 h]
    exact List.Subset.refl _
  | c :: t, line, h => by
    rw [lines] at h
    split at h
    · rcases List.mem_cons.1 h with rfl | h
      · exact List.nil_subset _
      · exact List.Subset.trans (subset_of_mem_lines h) (List.subset_cons_self c t)
    · split at h
      · rw [List.mem_singleton.1 h]
        simp
      · rename_i first more hlines
        have hmem : ∀ {u}, u ∈ first :: more → u ⊆ t := fun {u} hu =>
          subset_of_mem_lines (hlines ▸ hu)
        rcases List.mem_cons.1 h with rfl | h
        · exact List.cons_subset_cons c (hmem List.mem_cons_self)
        · exact List.Subset.trans (hmem (List.mem_cons_of_mem _ h)) (List.subset_cons_self c t)

end Text

/-! ## What is painted -/

theorem Style.exists_parameters (style : Style) : ∀ code ∈ Style.reset :: style.codes,
    ∃ n ∈ (["0", "1", "31", "34", "36"] : List Text), (∀ c ∈ n, c.isParameter) ∧
      code = CodePoint.esc :: CodePoint.ofChar '[' :: n ++ "m" := by
  cases style with
  | plain => decide
  | strong => decide
  | alarm => decide
  | gutter => decide
  | hint => decide

theorem Style.isSequence (style : Style) {code : Text} (h : code ∈ Style.reset :: style.codes) :
    code.IsSequence := by
  obtain ⟨n, -, hn, rfl⟩ := style.exists_parameters code h
  exact ⟨n, [], 'm', hn, by simp, by decide, by rw [List.append_nil]; rfl⟩

theorem Style.shows_codes (style : Style) : Text.Shows style.codes.flatten [] := by
  have hcodes : ∀ code ∈ style.codes, code.IsSequence := fun code h =>
    style.isSequence (List.mem_cons_of_mem _ h)
  generalize style.codes = codes at hcodes
  induction codes with
  | nil => exact .nil
  | cons code codes ih =>
    obtain ⟨hcode, hcodes⟩ := List.forall_mem_cons.1 hcodes
    exact hcode.shows.append (ih hcodes)

theorem Piece.shows {p : Piece} (hp : p.text.Colorless) :
    Text.Shows (p.paint true) (p.paint false) := by
  have hreset : Text.Shows Style.reset [] :=
    (p.style.isSequence List.mem_cons_self).shows
  have hbare : p.paint false = p.text := rfl
  rw [hbare, paint]
  split
  · have h := (p.style.shows_codes.append hp.shows).append hreset
    rwa [List.nil_append, List.append_nil] at h
  · exact hp.shows

/-- No piece of the row has an escape character. -/
def StyledLine.Colorless (row : StyledLine) : Prop := ∀ p ∈ row, p.text.Colorless

@[simp] theorem StyledLine.colorless_nil : Colorless [] := by simp [Colorless]

@[simp] theorem StyledLine.colorless_cons {p : Piece} {row : StyledLine} :
    Colorless (p :: row) ↔ p.text.Colorless ∧ Colorless row := List.forall_mem_cons

theorem StyledLine.shows {row : StyledLine} (h : row.Colorless) :
    Text.Shows (row.paint true) (row.paint false) := by
  induction row with
  | nil => exact .nil
  | cons p row ih =>
    obtain ⟨hp, hrow⟩ := List.forall_mem_cons.1 h
    exact (Piece.shows hp).append (ih hrow)

theorem shows_paintLines {rows : List StyledLine} (h : ∀ row ∈ rows, row.Colorless) :
    Text.Shows (paintLines true rows) (paintLines false rows) := by
  refine .join (by decide) ?_
  rw [List.forall₂_map_left_iff, List.forall₂_map_right_iff, List.forall₂_same]
  exact fun row hrow => StyledLine.shows (h row hrow)

/-! ## What a diagnostic is laid out as -/

/-- No text that the diagnostic brings along has an escape character. -/
structure Diagnostic.Colorless (d : Diagnostic) : Prop where
  message : d.message.Colorless
  file : ∀ l ∈ d.location, l.file.Colorless
  code : ∀ t ∈ d.code, t.Colorless
  help : ∀ t ∈ d.help, t.Colorless
  note : ∀ t ∈ d.note, t.Colorless
  label : ∀ t ∈ d.label, t.Colorless

namespace Diagnostic

variable {d : Diagnostic} {l : Location} {lines : List Text} {width : Nat}

@[simp] theorem colorless_spaces (n : Int) : (spaces n).Colorless :=
  Text.colorless_times (by decide) n

theorem colorless_present {t : Text} {o : Option Text} (ho : ∀ t ∈ o, t.Colorless)
    (h : present o = some t) : t.Colorless := ho t (Option.eq_some_of_filter_eq_some h)

theorem colorless_lineAt (hlines : ∀ line ∈ lines, line.Colorless) (number : Int) :
    (lineAt lines number).Colorless := by
  unfold lineAt
  split
  · decide
  · cases hline : lines[(number - 1).toNat]? with
    | none => decide
    | some line => exact hlines line (List.mem_of_getElem? hline)

@[simp] theorem colorless_numberGutter (number : Int) :
    (numberGutter width number).text.Colorless := by
  simp [numberGutter]

@[simp] theorem colorless_markGutter : (markGutter width).text.Colorless := by
  simp [markGutter]

theorem colorless_openingMark (column : Int) : (openingMark column).Colorless := by
  unfold openingMark
  split
  · simp [Text.colorless_times]
  · decide

theorem colorless_closingMark (line : Text) (endColumn : Int) :
    (closingMark line endColumn).Colorless := by
  simp [closingMark, Text.colorless_times]

theorem colorless_continued (hlines : ∀ line ∈ lines, line.Colorless) (width : Nat) (number : Int) :
    (continued lines width number).Colorless := by
  simp [continued, colorless_lineAt hlines]

theorem colorless_render (hl : l.file.Colorless) : l.render.Colorless := by
  simp [Location.render, hl]

theorem colorless_remark {title t : Text} {o : Option Text} (ho : ∀ t ∈ o, t.Colorless)
    (htitle : title.Colorless) (h : present o = some t) : (remark width title t).Colorless := by
  simp [remark, htitle, colorless_present ho h]

namespace Colorless

variable (hd : d.Colorless)
include hd

theorem labelSuffix : d.labelSuffix.Colorless := by
  unfold Diagnostic.labelSuffix
  split
  · simp [colorless_present hd.label ‹_›]
  · decide

theorem headline : d.headline.Colorless := by
  unfold Diagnostic.headline
  cases hcode : present d.code with
  | none => simp [hd.message]
  | some c => simp [hd.message, colorless_present hd.code hcode]

theorem remarks (width : Nat) : ∀ row ∈ d.remarks width, row.Colorless := by
  have hshown : ∀ row ∈ ((present d.help).map (remark width "help")).toList ++
      ((present d.note).map (remark width "note")).toList, row.Colorless := by
    intro row hrow
    rcases List.mem_append.1 hrow with h | h
    · obtain ⟨t, ht, rfl⟩ := Option.map_eq_some_iff.1 (Option.mem_toList.1 h)
      exact colorless_remark hd.help (by decide) ht
    · obtain ⟨t, ht, rfl⟩ := Option.map_eq_some_iff.1 (Option.mem_toList.1 h)
      exact colorless_remark hd.note (by decide) ht
  unfold Diagnostic.remarks
  dsimp only
  split
  · simp
  · exact List.forall_mem_cons.2 ⟨by simp, hshown⟩

theorem underlined (hlines : ∀ line ∈ lines, line.Colorless) :
    ∀ row ∈ d.underlined l lines width, row.Colorless := by
  simp [Diagnostic.underlined, colorless_lineAt hlines, Text.colorless_times, hd.labelSuffix]

theorem bracketed (hlines : ∀ line ∈ lines, line.Colorless) (last : Int) :
    ∀ row ∈ d.bracketed l lines width last, row.Colorless := by
  unfold Diagnostic.bracketed
  simp only [List.forall_mem_append, List.forall_mem_cons]
  refine ⟨⟨?_, ?_, by simp⟩, fun row hrow => ?_⟩
  · simp [colorless_lineAt hlines]
  · simp [colorless_openingMark]
  · obtain ⟨number, -, hrow⟩ := List.mem_flatMap.1 hrow
    have hcontinued := colorless_continued hlines width number
    split at hrow
    · rcases List.mem_pair.1 hrow with rfl | rfl
      · exact hcontinued
      · simp [colorless_closingMark, hd.labelSuffix]
    · rwa [List.mem_singleton.1 hrow]

theorem atSource {source : Text} (hsource : source.Colorless) (hl : l.file.Colorless) :
    ∀ row ∈ d.atSource l source, row.Colorless := by
  have hlines : ∀ line ∈ source.lines, line.Colorless := fun line hline =>
    hsource.of_subset (Text.subset_of_mem_lines hline)
  have hbody (endLine last : Int) (width : Nat) : ∀ row ∈ (if l.line < endLine then
      d.bracketed l source.lines width last else d.underlined l source.lines width),
      row.Colorless := by
    split
    · exact hd.bracketed hlines last
    · exact hd.underlined hlines
  unfold Diagnostic.atSource
  simp only [List.forall_mem_append, List.forall_mem_cons]
  exact ⟨⟨⟨by simp [colorless_render hl], by simp, by simp⟩, hbody _ _ _⟩, hd.remarks _⟩

/-- The rows of a diagnostic have no escape character, wherever its place is. -/
theorem rows {sources : Sources} (hsources : ∀ e ∈ sources, e.2.Colorless) :
    ∀ row ∈ d.rows sources, row.Colorless := by
  have harrow {place : Text} (hplace : place.Colorless) :
      StyledLine.Colorless [⟨.gutter, " --> "⟩, ⟨.plain, place⟩] := by
    simp [hplace]
  have hfile := hd.file
  refine List.forall_mem_cons.2 ⟨hd.headline, ?_⟩
  cases hlocation : d.location with
  | none => exact List.forall_mem_cons.2 ⟨harrow (by decide), hd.remarks 1⟩
  | some l =>
    have hl : l.file.Colorless := hfile l hlocation
    dsimp only
    cases hsource : sources.lookup l.file with
    | none => exact List.forall_mem_cons.2 ⟨harrow (colorless_render hl), hd.remarks 1⟩
    | some source => exact hd.atSource (hsources _ (mem_of_lookup hsource)) hl

end Colorless

/-- **Colour changes nothing but colour.** Without its control sequences the colored text of a
diagnostic is its plain text, and so is that of a report on any diagnostics. -/
theorem decolor_render {sources : Sources} (hsources : ∀ e ∈ sources, e.2.Colorless) :
    (∀ d : Diagnostic, d.Colorless → (d.render sources true).decolor = d.render sources false) ∧
    ∀ entries : List Diagnostic, (∀ d ∈ entries, d.Colorless) →
      (Report.render ⟨sources, entries⟩ true).decolor = Report.render ⟨sources, entries⟩ false := by
  have hrender : ∀ d : Diagnostic, d.Colorless →
      Text.Shows (d.render sources true) (d.render sources false) := fun d hd =>
    shows_paintLines (hd.rows hsources)
  refine ⟨fun d hd => (hrender d hd).decolor, fun entries hentries => Text.Shows.decolor ?_⟩
  have hsummary : (Report.summary ⟨sources, entries⟩).Colorless := by
    unfold Report.summary
    dsimp only
    split
    · simp
    · simp
  refine .join (by decide) (List.rel_append ?_ (.cons (StyledLine.shows hsummary) .nil))
  rw [List.forall₂_map_left_iff, List.forall₂_map_right_iff, List.forall₂_same]
  exact fun d hd => hrender d (hentries d hd)

/-- A list over two lines, marked and remarked upon, and a place behind the end of the source. -/
theorem decolor_render_bracketed :
    let sources : Sources := [("f", "(a\n b)")]
    let d : Diagnostic :=
      ⟨"bad", some ⟨"f", 1, 1, 0, 6, 2, 4⟩, some "E1", some "try [1m", none, some "here"⟩
    let d' : Diagnostic := ⟨"late", some ⟨"f", 7, 3, 0, 0, 7, 1⟩, none, none, none, none⟩
    (∀ e ∈ sources, e.2.Colorless) ∧ (∀ e ∈ [d, d'], e.Colorless) ∧
    d.render sources true ≠ d.render sources false ∧
    (d.render sources true).decolor = d.render sources false ∧
    (Report.render ⟨sources, [d, d']⟩ true).decolor = Report.render ⟨sources, [d, d']⟩ false := by
  intro sources d d'
  have hsources : ∀ e ∈ sources, e.2.Colorless := by decide
  have hd : d.Colorless := ⟨by decide, by decide, by decide, by decide, by decide, by decide⟩
  have hd' : d'.Colorless := ⟨by decide, by decide, by decide, by decide, by decide, by decide⟩
  have hentries : ∀ e ∈ [d, d'], e.Colorless := by simp [hd, hd']
  obtain ⟨hrender, hreport⟩ := decolor_render hsources
  exact ⟨hsources, hentries, by decide +kernel, hrender d hd, hreport [d, d'] hentries⟩

end Diagnostic

end TypedSexp
