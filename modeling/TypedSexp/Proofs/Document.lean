import TypedSexp.Document
import TypedSexp.Proofs.Results
import TypedSexp.Proofs.Sexp.RoundTrip
import TypedSexp.Proofs.Sexp.Sources
/-!
# Documents are read back

A form of trees is readable if it writes its tree and has no code points but printable ones and line
feeds (`Readable`). The canonical form and the human layouts are readable. The lines of a readable
form write all the trees, since a line feed stands behind each of them; they have an encoding, since
no surrogate is printable, and reading them changes nothing, since no carriage return is. So what was
saved is loaded again (`load_save`).
-/

namespace TypedSexp

namespace Document

/-! ## Line ends -/

/-- The line ends of a text without carriage returns are left as they are. -/
theorem normalize_of_not_mem {t : Text} (h : ∀ c ∈ t, c ≠ '\r') : normalize t = t := by
  fun_induction normalize t with
  | case1 => rfl
  | case2 more ih => exact absurd rfl (h _ List.mem_cons_self)
  | case3 d more hd ih => exact absurd rfl (h _ List.mem_cons_self)
  | case4 => exact absurd rfl (h _ List.mem_cons_self)
  | case5 c rest hc ih => rw [ih fun d hd => h d (List.mem_cons_of_mem c hd)]

/-- Line feeds come in, and nothing else. -/
theorem mem_normalize {c : CodePoint} {t : Text} (h : c ∈ normalize t) : c ∈ t ∨ c = '\n' := by
  fun_induction normalize t with
  | case1 => exact .inl h
  | case2 more ih =>
    rcases List.mem_cons.1 h with rfl | h
    · exact .inr rfl
    · exact (ih h).imp_left fun hc => List.mem_cons_of_mem _ (List.mem_cons_of_mem _ hc)
  | case3 d more hd ih =>
    rcases List.mem_cons.1 h with rfl | h
    · exact .inr rfl
    · exact (ih h).imp_left fun hc => List.mem_cons_of_mem _ hc
  | case4 => exact .inr (by simpa using h)
  | case5 d rest hd ih =>
    rcases List.mem_cons.1 h with rfl | h
    · exact .inl List.mem_cons_self
    · exact (ih h).imp_left fun hc => List.mem_cons_of_mem _ hc

/-- The text of a file has no surrogates. -/
theorem any_isSurrogate_of_text {bytes : Utf8.Bytes} {t : Text} (h : text bytes = .ok t) :
    t.any CodePoint.isSurrogate = false := by
  obtain ⟨raw, hraw, rfl⟩ := map_eq_ok.1 h
  have hnone := (Utf8.encode?_eq_some_iff.1 (Utf8.decode_eq_ok_iff.1 hraw)).1
  refine List.any_eq_false.2 fun c hc => ?_
  rcases mem_normalize hc with hc | rfl
  · exact List.any_eq_false.1 hnone c hc
  · decide

/-! ## Readable forms -/

/-- A form in which trees can be read back from a file. -/
structure Readable (form : Sexp → Text) : Prop where
  piece : ∀ s, Grammar.Piece [s] (form s)
  printable : ∀ s, ∀ c ∈ form s, c.isPrintable ∨ c = '\n'

theorem Readable.print : Readable Sexp.print :=
  ⟨Grammar.piece_print, fun s c hc => .inl (Grammar.isPrintable_print s c hc)⟩

theorem Readable.layout (l : Layout) : Readable fun s => s.layout l :=
  ⟨Grammar.piece_layoutAt l 0, Grammar.mem_layoutAt l 0⟩

theorem Readable.form (human : Bool) : Readable (form human) := by
  cases human with
  | false => exact .print
  | true => exact .layout {}

/-- The trees in a form, each with a line feed behind it. -/
def lines (form : Sexp → Text) (trees : List Sexp) : Text := trees.flatMap fun s => form s ++ "\n"

/-! ## Lines -/

namespace Readable

variable {form : Sexp → Text}

/-- The line feed behind a tree keeps it apart from the next one. -/
theorem piece_lines (hform : Readable form) (trees : List Sexp) :
    Grammar.Piece trees (lines form trees) := by
  have hgap : Grammar.Gap (("\n" : String) : Text) := .of_blanks (by decide)
  induction trees with
  | nil => exact .nil
  | cons s trees ih =>
    have hlines := (hform.piece s).append hgap (by decide) ih
    simpa [lines] using hlines

theorem printable_lines (hform : Readable form) (trees : List Sexp) :
    ∀ c ∈ lines form trees, c.isPrintable ∨ c = '\n' := by
  intro c hc
  obtain ⟨s, _, hc⟩ := List.mem_flatMap.1 hc
  rcases List.mem_append.1 hc with hc | hc
  · exact hform.printable s c hc
  · exact .inr (by simpa using hc)

/-- The lines of trees have a file, and its text is these lines. -/
theorem exists_bytes (hform : Readable form) (trees : List Sexp) :
    ∃ bytes, Utf8.encode? (lines form trees) = some bytes ∧ text bytes = .ok (lines form trees) := by
  have hprintable := hform.printable_lines trees
  have hsurrogate := Grammar.any_isSurrogate_of_mem hprintable
  have hreturn : ∀ c ∈ lines form trees, c ≠ '\r' := by
    rintro c hc rfl
    rcases hprintable _ hc with h | h
    · exact absurd h (by decide)
    · exact absurd h (by decide)
  obtain ⟨bytes, hbytes⟩ : ∃ bytes, Utf8.encode? (lines form trees) = some bytes :=
    ⟨_, Utf8.encode?_eq_some_iff.2 ⟨hsurrogate, rfl⟩⟩
  refine ⟨bytes, hbytes, ?_⟩
  rw [text, Utf8.decode_eq_ok_iff.2 hbytes]
  exact congrArg Except.ok (normalize_of_not_mem hreturn)

/-- The lines of trees are read as these trees. -/
theorem trees_lines (hform : Readable form) (trees : List Sexp) (file : Text) :
    (Source.text (lines form trees)).trees file = .ok trees := by
  have hsurrogate := Grammar.any_isSurrogate_of_mem (hform.printable_lines trees)
  rw [Grammar.trees_eq_ok_iff hsurrogate]
  exact (hform.piece_lines trees).written

end Readable

/-! ## Saving and loading -/

/-- The trees of a file, or the failure. -/
abbrev trees (bytes : Utf8.Bytes) (file : Text) : Except ReadFailure (List Sexp) :=
  (load bytes file).map (List.map Node.sexp)

/-- The one tree of a file, or the failure. -/
abbrev tree (bytes : Utf8.Bytes) (file : Text) : Except ReadFailure Sexp :=
  (loadOne bytes file).map Node.sexp

/-- A file is read as its text is. -/
theorem trees_of_text {bytes : Utf8.Bytes} {t : Text} (h : text bytes = .ok t) (file : Text) :
    trees bytes file = (Source.text t).trees file := by
  unfold trees load source
  rw [h]
  rfl

/-- One tree is loaded from a file where all its trees are this one. -/
theorem tree_eq_ok_iff {bytes : Utf8.Bytes} {t : Text} (h : text bytes = .ok t) (file : Text)
    (s : Sexp) : tree bytes file = .ok s ↔ trees bytes file = .ok [s] := by
  have hone : tree bytes file = (Source.text t).tree file := by
    unfold tree loadOne source
    rw [h]
    rfl
  rw [hone, trees_of_text h, Grammar.tree_eq_ok_iff (any_isSurrogate_of_text h)]

/-- **What was saved is loaded again**, in the canonical form or in the human layout. Every list of
trees has a file, whose text is just what was rendered, and the file is loaded as these trees; the
file of one tree is loaded as this tree. -/
theorem load_save (human : Bool) (file : Text) :
    (∀ xs, ∃ bytes, save? human xs = some bytes ∧ text bytes = .ok (render human xs) ∧
      (load bytes file).map (List.map Node.sexp) = .ok xs) ∧
    ∀ s, ∃ bytes, save? human [s] = some bytes ∧ (loadOne bytes file).map Node.sexp = .ok s := by
  have hform := Readable.form human
  have hall : ∀ xs, ∃ bytes, save? human xs = some bytes ∧ text bytes = .ok (render human xs) ∧
      trees bytes file = .ok xs := by
    intro xs
    obtain ⟨bytes, hbytes, htext⟩ := hform.exists_bytes xs
    refine ⟨bytes, hbytes, htext, ?_⟩
    rw [trees_of_text htext]
    exact hform.trees_lines xs file
  refine ⟨hall, fun s => ?_⟩
  obtain ⟨bytes, hbytes, htext, htrees⟩ := hall [s]
  exact ⟨bytes, hbytes, (tree_eq_ok_iff htext file s).2 htrees⟩

/-- Two atoms that hold a carriage return and a lone surrogate, saved and loaded. -/
example : (save? true [.atom "a\rb", .atom [⟨0xD800, by decide⟩]]).map (trees · "f") =
    some (.ok [.atom "a\rb", .atom [⟨0xD800, by decide⟩]]) := by
  decide +kernel

end Document

end TypedSexp
