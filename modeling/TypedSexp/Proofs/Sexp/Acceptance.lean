import TypedSexp.Proofs.Sexp.Assembly
/-!
# Reading accepts the grammar

A text without surrogates is read as some trees exactly if it is a way to write them
(`parseMany_ok_iff_written`); so no text is written for two lists of trees, and every other text is
malformed. Reading one tree agrees with reading all of them.
-/

namespace TypedSexp

/-- The trees of a reading, or the failure. -/
abbrev Source.trees (source : Source) (file : Text) : Except ReadFailure (List Sexp) :=
  (source.parseMany 0 file).map (List.map Node.sexp)

/-- The one tree of a reading, or the failure. -/
abbrev Source.tree (source : Source) (file : Text) : Except ReadFailure Sexp :=
  (source.parse 0 file).map Node.sexp

namespace Grammar

/-! ## Readings and the grammar -/

theorem written_of_reading {file t : Text} {p : Position} {vs : List Node}
    (h : Reading.of file p t = ⟨vs, none⟩) : Written (vs.map Node.sexp) t := by
  have hassembled :
      Reading.assemble file (Scan.of p t).unterminated [] (Scan.of p t).tokens = ⟨vs, none⟩ := h
  have hscan := lexemes?_of p t
  unfold Scan.lexemes? at hscan
  cases hu : (Scan.of p t).unterminated with
  | some q =>
    rw [hu] at hassembled
    exact absurd (congrArg Reading.fault hassembled) (assemble_unterminated q _ _)
  | none =>
    rw [hu] at hassembled hscan
    have hspaced := lexemes?_eq_some_iff.1 hscan.symm
    refine ⟨_, ?_, hspaced⟩
    have hw := hspaced.wellFormed
    exact spells_of_assemble (fun t ht => hw _ (List.mem_map_of_mem ht)) hassembled

theorem reading_of_written {xs : List Sexp} {t : Text} (h : Written xs t) (file : Text)
    (p : Position) : ∃ vs, Reading.of file p t = ⟨vs, none⟩ ∧ vs.map Node.sexp = xs := by
  obtain ⟨ls, hspells, hspaced⟩ := h
  obtain ⟨ts, hts, hscan⟩ := scan_of_spaced hspaced p
  obtain ⟨ns, hns, hmakes⟩ := hspells.makes ts hts
  refine ⟨ns, ?_, hns⟩
  have hread : Reading.assemble file none [] (ts ++ []) = _ := hmakes.assemble none [] []
  rw [List.append_nil] at hread
  simp only [Reading.of, hscan, hread, receive, Reading.assemble, List.getLast?_nil, List.append_nil]

/-- The trees of a text are determined by it. -/
theorem Written.unique {xs ys : List Sexp} {t : Text} (hx : Written xs t) (hy : Written ys t) :
    xs = ys := by
  obtain ⟨vs, hv, rfl⟩ := reading_of_written hx [] .start
  obtain ⟨ws, hw, rfl⟩ := reading_of_written hy [] .start
  rw [(Reading.mk.inj (hv.symm.trans hw)).1]

/-! ## Sources -/

theorem split_text {t : Text} (ht : t.any CodePoint.isSurrogate = false) :
    (Source.text t).split 0 = .ok ([], t) := by
  have hsize : ¬ ((0 : Int) < 0 ∨ (Utf8.size t : Int) < 0) := by omega
  unfold Source.split
  simp only [ht, Bool.false_eq_true, if_false, pure_bind, if_neg hsize, Int.toNat_zero,
    Source.splitAtByte]
  rfl

/-- What reading a text gives: its trees, or the fault of its reading. -/
theorem parseMany_text {t : Text} (ht : t.any CodePoint.isSurrogate = false) (file : Text) :
    (Source.text t).parseMany 0 file =
      match Reading.of file .start t with
      | ⟨values, none⟩ => .ok values
      | ⟨_, some fault⟩ => .error (.parse fault) := by
  have hread : (Source.text t).read 0 file = .ok (Reading.of file .start t) := by
    unfold Source.read
    rw [split_text ht]
    rfl
  unfold Source.parseMany
  rw [hread]
  generalize Reading.of file .start t = r
  obtain ⟨values, fault⟩ := r
  cases fault <;> rfl

theorem trees_eq_ok_iff {t : Text} (ht : t.any CodePoint.isSurrogate = false) (file : Text)
    (xs : List Sexp) : (Source.text t).trees file = .ok xs ↔ Written xs t := by
  rw [Source.trees, parseMany_text ht]
  constructor
  · intro h
    split at h
    · rename_i values hr
      obtain rfl : values.map Node.sexp = xs := Except.ok.inj h
      exact written_of_reading hr
    · exact absurd h (by simp [Except.map])
  · intro h
    obtain ⟨vs, hr, rfl⟩ := reading_of_written h file .start
    rw [hr]
    rfl

theorem exists_fault_of_not_written {t : Text} (ht : t.any CodePoint.isSurrogate = false)
    (file : Text) (h : ¬ ∃ xs, Written xs t) :
    ∃ fault, (Source.text t).parseMany 0 file = .error (.parse fault) := by
  rw [parseMany_text ht]
  split
  · rename_i values hr
    exact absurd ⟨_, written_of_reading hr⟩ h
  · exact ⟨_, rfl⟩

/-- One tree is read where reading all of them gives just this one. -/
theorem tree_eq_ok_iff {t : Text} (ht : t.any CodePoint.isSurrogate = false) (file : Text)
    (s : Sexp) : (Source.text t).tree file = .ok s ↔ (Source.text t).trees file = .ok [s] := by
  rw [Source.trees, parseMany_text ht, Source.tree, Source.parse, split_text ht]
  simp only [Position.advance_nil]
  generalize Reading.of file .start t = r
  match r with
  | ⟨[], none⟩ => simp [Except.map]
  | ⟨[], some fault⟩ => simp [Except.map]
  | ⟨[v], none⟩ => simp [Except.map]
  | ⟨[v], some fault⟩ => simp [Except.map]
  | ⟨v :: w :: vs, none⟩ => simp [Except.map]
  | ⟨v :: w :: vs, some fault⟩ => simp [Except.map]

/-- **Reading accepts exactly the grammar.** A text without surrogates is read as the trees that it
is a way to write. A text that is a way to write none is malformed. One tree is read exactly where
all trees of the text are this one. -/
theorem parseMany_ok_iff_written {t : Text} (ht : t.any CodePoint.isSurrogate = false)
    (file : Text) :
    (∀ xs, (Source.text t).trees file = .ok xs ↔ Written xs t) ∧
    ((¬ ∃ xs, Written xs t) →
      ∃ fault, (Source.text t).parseMany 0 file = .error (.parse fault)) ∧
    ∀ s, (Source.text t).tree file = .ok s ↔ (Source.text t).trees file = .ok [s] :=
  ⟨trees_eq_ok_iff ht file, exists_fault_of_not_written ht file, tree_eq_ok_iff ht file⟩

/-- A list of a bare atom, a quoted one with an escape, and a comment without a line feed. -/
theorem parseMany_ok_iff_written_quoted :
    let t : Text := "(a\"b;\\n\") ; c"
    t.any CodePoint.isSurrogate = false ∧
    (∀ xs, (Source.text t).trees "f" = .ok xs ↔ Written xs t) ∧
    ((¬ ∃ xs, Written xs t) → ∃ fault, (Source.text t).parseMany 0 "f" = .error (.parse fault)) ∧
    ∀ s, (Source.text t).tree "f" = .ok s ↔ (Source.text t).trees "f" = .ok [s] :=
  ⟨by decide, parseMany_ok_iff_written (by decide) "f"⟩

end Grammar

end TypedSexp
