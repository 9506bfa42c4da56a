import TypedSexp.CommandLine.Run
import TypedSexp.Proofs.Document
/-!
# Checking and formatting agree

What stands at a path is either refused by every command, in the same words and without any output,
or it is a file of trees, and then the commands differ in nothing but what they print of these trees
(`answer_cases`). What formatting prints are the lines of a readable form. So a file that passes the
check is formatted into one that passes it too, with the same trees, and that is formatted into
itself (`check_format`).
-/

namespace TypedSexp.Command

/-! ## What stands at a path -/

section Answers

variable {t : Text} {xs : List Sexp}

/-- Of a way to write trees, every command prints what it has to say about these trees. -/
theorem answerText_of_written (ht : t.any CodePoint.isSurrogate = false)
    (hxs : Grammar.Written xs t) (command : Command) (path : Path) (color : Bool) :
    answerText command path t color = (output command path.name xs).map .done := by
  obtain ⟨nodes, hnodes, hsexps⟩ := map_eq_ok.1 ((Grammar.trees_eq_ok_iff ht path.render xs).2 hxs)
  unfold answerText
  rw [hnodes, ← hsexps, ← Node.sexps_eq_map]

/-- A text that is no way to write trees is refused by every command. -/
theorem answerText_of_not_written (ht : t.any CodePoint.isSurrogate = false)
    (hxs : ¬ ∃ xs, Grammar.Written xs t) (path : Path) (color : Bool) :
    ∃ err, ∀ command, answerText command path t color = .ok ⟨1, [], err⟩ := by
  obtain ⟨fault, hfault⟩ := Grammar.exists_fault_of_not_written ht path.render hxs
  refine ⟨report path.render t fault color, fun command => ?_⟩
  unfold answerText
  rw [hfault]

theorem answer_of_text {bytes : Utf8.Bytes} (h : Document.text bytes = .ok t) (command : Command)
    (path : Path) (color : Bool) :
    answer command path (.content bytes) color = answerText command path t color := by
  simp only [answer, h]

/-- A file whose text is a way to write trees is loaded as these trees, under any name. -/
theorem trees_of_written {bytes : Utf8.Bytes} (ht : Document.text bytes = .ok t)
    (hxs : Grammar.Written xs t) (file : Text) : Document.trees bytes file = .ok xs := by
  rw [Document.trees_of_text ht, Grammar.trees_eq_ok_iff (Document.any_isSurrogate_of_text ht)]
  exact hxs

end Answers

/-- What stands at a path is refused by every command in the same words, or is a file of trees of
which every command prints. -/
theorem answer_cases (path : Path) (state : FileState) (color : Bool) :
    (∃ err, ∀ command, answer command path state color = .ok ⟨1, [], err⟩) ∨
    ∃ bytes xs, state = .content bytes ∧ (∀ file, Document.trees bytes file = .ok xs) ∧
      ∀ command, answer command path state color = (output command path.name xs).map .done := by
  cases state with
  | missing => exact .inl ⟨_, fun _ => rfl⟩
  | directory => exact .inl ⟨_, fun _ => rfl⟩
  | unreadable reason => exact .inl ⟨_, fun _ => rfl⟩
  | content bytes =>
    cases ht : Document.text bytes with
    | error fault =>
      refine .inl ⟨(Answer.refuse ("could not read file: " ++ fault.message)).err, fun command => ?_⟩
      simp only [answer, ht]
      rfl
    | ok t =>
      have hsurrogate := Document.any_isSurrogate_of_text ht
      simp only [answer_of_text ht]
      by_cases hxs : ∃ xs, Grammar.Written xs t
      · obtain ⟨xs, hxs⟩ := hxs
        refine .inr ⟨bytes, xs, rfl, trees_of_written ht hxs, fun command => ?_⟩
        exact answerText_of_written hsurrogate hxs command path color
      · exact .inl (answerText_of_not_written hsurrogate hxs path color)

/-! ## What commands print -/

/-- The line that counts the trees of a file. -/
def tally (fileName : Text) (count : Nat) : Text :=
  fileName ++ ": " ++ Text.ofNat count ++ (if count = 1 then " form" else " forms") ++ " ok\n"

/-- The form in which a tree is printed again. -/
def form (human : Bool) (width : Int) (s : Sexp) : Text :=
  if human then s.layout { width } else s.print

theorem output_check (fileName : Text) (xs : List Sexp) :
    output .check fileName xs = .ok (tally fileName xs.length) := rfl

theorem output_format (human : Bool) (width : Int) (fileName : Text) (xs : List Sexp) :
    output (.format human (some width)) fileName xs =
      .ok (Document.lines (form human width) xs) := by
  cases human with
  | false => rfl
  | true => rfl

theorem readable_form (human : Bool) (width : Int) : Document.Readable (form human width) := by
  cases human with
  | false => exact .print
  | true => exact .layout { width }

/-! ## Checking and formatting -/

/-- **Formatting agrees with the check, and is settled.** The two have one exit code at whatever
stands at the path. If it is 1, formatting prints nothing. If it is 0, there is a file of trees, and
what formatting prints is the text of another: the other is loaded as the same trees, the check
counts as many in it, and formatted in the same way it is printed as it stands. -/
theorem check_format (human : Bool) (width : Int) (path : Path) (state : FileState)
    (color : Bool) :
    ∃ checked formatted,
      answer .check path state color = .ok checked ∧
      answer (.format human (some width)) path state color = .ok formatted ∧
      formatted.code = checked.code ∧
      (checked.code = 1 ∧ formatted.out = [] ∨
        checked.code = 0 ∧ ∃ bytes again xs,
          state = .content bytes ∧
          Utf8.encode? formatted.out = some again ∧
          checked = .done (tally path.name xs.length) ∧
          (∀ file, (Document.load bytes file).map (List.map Node.sexp) = .ok xs) ∧
          (∀ file, (Document.load again file).map (List.map Node.sexp) = .ok xs) ∧
          ∀ path' color',
            answer .check path' (.content again) color' =
              .ok (.done (tally path'.name xs.length)) ∧
            answer (.format human (some width)) path' (.content again) color' =
              .ok (.done formatted.out)) := by
  rcases answer_cases path state color with ⟨err, hanswer⟩ | ⟨bytes, xs, hstate, hxs, hanswer⟩
  · exact ⟨_, _, hanswer _, hanswer _, rfl, .inl ⟨rfl, rfl⟩⟩
  · have hform := readable_form human width
    obtain ⟨again, hagain, ht⟩ := hform.exists_bytes xs
    have hsurrogate := Document.any_isSurrogate_of_text ht
    have hwritten := (hform.piece_lines xs).written
    have hcheck := hanswer .check
    have hformat := hanswer (.format human (some width))
    rw [output_check] at hcheck
    rw [output_format] at hformat
    refine ⟨_, _, hcheck, hformat, rfl, .inr ⟨rfl, bytes, again, xs, hstate, hagain, rfl, hxs, ?_⟩⟩
    refine ⟨?_, ?_⟩
    · exact trees_of_written ht hwritten
    · intro path' color'
      have hprinted : ∀ command, answer command path' (.content again) color' =
          (output command path'.name xs).map .done := by
        intro command
        rw [answer_of_text ht, answerText_of_written hsurrogate hwritten]
      refine ⟨by rw [hprinted, output_check]; rfl, ?_⟩
      rw [hprinted, output_format]
      rfl

end TypedSexp.Command
