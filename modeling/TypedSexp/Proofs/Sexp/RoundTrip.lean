import Mathlib.Data.List.Forall2
import TypedSexp.Proofs.Sexp.Acceptance
import TypedSexp.Proofs.Sexp.Escape
import TypedSexp.Sexp.Printer
/-!
# Printed trees are read back

A printed tree is a piece of text (`Piece`): it writes the tree wherever a bare atom could stand.
Pieces are put together with gaps that are not empty between them, and parentheses around them; the
canonical form and the human layout do nothing else. So both are ways to write the tree, and reading
gives it back (`read_print_and_layout`).
-/

namespace TypedSexp

namespace Grammar

/-! ## Pieces of text -/

/-- The text writes the trees, in front of whatever may follow a bare atom. -/
def Piece (xs : List Sexp) (t : Text) : Prop :=
  ∃ ls, Spells xs ls ∧ ∀ more rest, Spaced true more rest → Spaced false (ls ++ more) (t ++ rest)

theorem Spaced.weaken {ls : List Lexeme} {t : Text} (h : Spaced true ls t) : Spaced false ls t := by
  cases h with
  | last hg => exact .last hg
  | lexeme hg hl _ hrest => exact .lexeme hg hl (by simp) hrest

theorem Piece.nil : Piece [] [] := ⟨[], .nil, fun _ _ h => h.weaken⟩

theorem Piece.written {xs : List Sexp} {t : Text} (h : Piece xs t) : Written xs t := by
  obtain ⟨ls, hspells, hspaced⟩ := h
  refine ⟨ls, hspells, ?_⟩
  have hend := hspaced [] [] (.last (.gap .nil))
  rwa [List.append_nil, List.append_nil] at hend

/-- One lexeme is a piece. -/
theorem Piece.lexeme {x : Sexp} {l : Lexeme} (hl : WellFormed l) (hx : Spells [x] [l]) :
    Piece [x] l.source := by
  refine ⟨[l], hx, fun more rest h => ?_⟩
  refine Spaced.cons hl (by simp) ?_
  cases isBareLexeme l with
  | true => exact h
  | false => exact h.weaken

/-- An atom is written as one lexeme, quoted or not. -/
theorem exists_lexeme_format (t : Text) :
    ∃ l, WellFormed l ∧ Spells [.atom t] [l] ∧ l.source = Atom.format t := by
  unfold Atom.format
  by_cases hq : Atom.needsQuotes t
  · rw [if_pos hq]
    have hbody := Atom.quotedBody_flatMap_escapeOne t
    have hspells : Spells [.atom t] [.quoted (t.flatMap Atom.escapeOne)] := by
      have hs := Spells.quoted hbody .nil
      rwa [Atom.unescape_flatMap_escapeOne] at hs
    exact ⟨.quoted _, hbody, hspells, by simp [Lexeme.source, Atom.quote]⟩
  · rw [if_neg hq]
    have hbare : WellFormed (.bare t) := by
      unfold Atom.needsQuotes at hq
      simp only [Bool.or_eq_true, Bool.not_eq_true', not_or, Bool.not_eq_false] at hq
      exact ⟨by simpa using hq.1.1, List.all_eq_true.1 hq.1.2⟩
    exact ⟨.bare t, hbare, .bare hbare .nil, rfl⟩

theorem Piece.format (t : Text) : Piece [.atom t] (Atom.format t) := by
  obtain ⟨l, hl, hspells, hsource⟩ := exists_lexeme_format t
  rw [← hsource]
  exact Piece.lexeme hl hspells

theorem Piece.append {xs ys : List Sexp} {s g t : Text} (hs : Piece xs s) (hg : Gap g)
    (hne : g ≠ []) (ht : Piece ys t) : Piece (xs ++ ys) (s ++ (g ++ t)) := by
  obtain ⟨ls, hls, hspaced⟩ := hs
  obtain ⟨ms, hms, hspaced'⟩ := ht
  refine ⟨ls ++ ms, hls.append hms, fun more rest h => ?_⟩
  rw [List.append_assoc, List.append_assoc, List.append_assoc]
  exact hspaced _ _ ((hspaced' _ _ h).prepend hg hne)

theorem Piece.list {items : List Sexp} {t : Text} (h : Piece items t) :
    Piece [.list items] ("(" ++ t ++ ")") := by
  obtain ⟨ls, hls, hspaced⟩ := h
  refine ⟨.opening :: ls ++ [.closing], .list hls .nil, fun more rest h => ?_⟩
  have hclosing : Spaced true (.closing :: more) (")" ++ rest) :=
    Spaced.cons trivial (fun _ => rfl) h.weaken
  have hinner := hspaced _ _ hclosing
  have hopening : Spaced false (.opening :: (ls ++ .closing :: more)) ("(" ++ (t ++ (")" ++ rest))) :=
    Spaced.cons trivial (fun _ => rfl) hinner
  simpa using hopening

/-! ## Several pieces -/

/-- Texts that are pieces of one tree each. -/
abbrev Pieces : List Sexp → List Text → Prop := List.Forall₂ fun x t => Piece [x] t

/-- A separator of blanks stands between two pieces. -/
theorem Piece.join {sep : Text} (hsep : Gap sep) (hne : sep ≠ []) {xs : List Sexp}
    {ts : List Text} (h : Pieces xs ts) : Piece xs (Text.join sep ts) := by
  induction h with
  | nil => exact .nil
  | @cons x t xs ts hx hxs ih =>
    cases hxs with
    | nil => exact hx
    | cons _ _ =>
      unfold Text.join
      rw [List.append_assoc]
      exact hx.append hsep hne ih

theorem gap_space : Gap " " := .of_blanks (by decide)

/-- A margin is a line feed and spaces. -/
theorem mem_margin {l : Layout} {level : Nat} {c : CodePoint}
    (hc : c ∈ (("\n" : String) : Text) ++ l.margin level) : c = '\n' ∨ c = ' ' := by
  rcases List.mem_append.1 hc with hc | hc
  · exact .inl (by simpa using hc)
  · unfold Layout.margin Text.times at hc
    obtain ⟨spaces, hspaces, hc⟩ := List.mem_flatten.1 hc
    rw [(List.mem_replicate.1 hspaces).2] at hc
    obtain ⟨space, hspace, hc⟩ := List.mem_flatten.1 hc
    rw [(List.mem_replicate.1 hspace).2] at hc
    exact .inr (by simpa using hc)

theorem gap_margin (l : Layout) (level : Nat) : Gap ("\n" ++ l.margin level) := by
  refine .of_blanks fun c hc => ?_
  rcases mem_margin hc with rfl | rfl
  · decide
  · decide

/-- Items on lines of their own follow a first one. -/
theorem Piece.broken (l : Layout) (level : Nat) {xs : List Sexp} {ts : List Text}
    (hxs : Pieces xs ts) {ys : List Sexp} {t : Text} (ht : Piece ys t) :
    Piece (ys ++ xs) (t ++ ts.flatMap (l.broken level)) := by
  induction hxs generalizing ys t with
  | nil => simpa using ht
  | @cons x s xs ts hx _ ih =>
    have hfirst := ih (ht.append (gap_margin l level) (by simp) hx)
    simpa [Layout.broken] using hfirst

theorem Piece.arrange (l : Layout) (level : Nat) {xs : List Sexp} {ts : List Text}
    (h : Pieces xs ts) : Piece [.list xs] (l.arrange level ts) := by
  have hline := (Piece.join gap_space (by decide) h).list
  cases h with
  | nil => exact hline
  | cons hx hxs =>
    simp only [Layout.arrange]
    split
    · exact hline
    · have hbroken := (Piece.broken l (level + 1) hxs hx).list
      simpa using hbroken

/-! ## Printed trees -/

mutual

theorem piece_print : ∀ s : Sexp, Piece [s] s.print
  | .atom t => .format t
  | .list items => (Piece.join gap_space (by decide) (pieces_printAll items)).list

theorem pieces_printAll : ∀ items : List Sexp, Pieces items (Sexp.printAll items)
  | [] => .nil
  | x :: xs => .cons (piece_print x) (pieces_printAll xs)

end

mutual

theorem piece_layoutAt (l : Layout) : ∀ (level : Nat) (s : Sexp), Piece [s] (s.layoutAt l level)
  | _, .atom t => .format t
  | level, .list items => .arrange l level (pieces_layoutAll l (level + 1) items)

theorem pieces_layoutAll (l : Layout) :
    ∀ (level : Nat) (items : List Sexp), Pieces items (Sexp.layoutAll l level items)
  | _, [] => .nil
  | level, x :: xs => .cons (piece_layoutAt l level x) (pieces_layoutAll l level xs)

end

/-! ## The code points of printed trees -/

section CodePoints

variable {p : CodePoint → Prop}

theorem forall_mem_format (hp : ∀ c : CodePoint, c.isPrintable → p c) (t : Text) :
    ∀ c ∈ Atom.format t, p c := by
  intro c hc
  refine hp c ?_
  unfold Atom.format at hc
  by_cases hq : Atom.needsQuotes t
  · rw [if_pos hq, Atom.quote] at hc
    have hquote : ∀ c ∈ (("\"" : String) : Text), c.isPrintable := by decide
    rcases List.mem_append.1 hc with hc | hc
    · rcases List.mem_append.1 hc with hc | hc
      · exact hquote c hc
      · obtain ⟨d, _, hc⟩ := List.mem_flatMap.1 hc
        exact List.all_eq_true.1 (Atom.isPrintable_escapeOne d) c hc
    · exact hquote c hc
  · rw [if_neg hq] at hc
    simp only [Atom.needsQuotes, Bool.or_eq_true, Bool.not_eq_true', not_or,
      Bool.not_eq_false] at hq
    exact List.all_eq_true.1 hq.2 c hc

theorem forall_mem_join {sep : Text} (hsep : ∀ c ∈ sep, p c) :
    ∀ {ts : List Text}, (∀ t ∈ ts, ∀ c ∈ t, p c) → ∀ c ∈ Text.join sep ts, p c
  | [], _ => by simp [Text.join]
  | [t], h => h t List.mem_cons_self
  | t :: u :: ts, h => by
    have hrest := forall_mem_join hsep fun s hs => h s (List.mem_cons_of_mem t hs)
    unfold Text.join
    rw [List.forall_mem_append, List.forall_mem_append]
    exact ⟨⟨h t List.mem_cons_self, hsep⟩, hrest⟩

/-- Parentheses are printable. -/
theorem forall_mem_list (hp : ∀ c : CodePoint, c.isPrintable → p c) {t : Text}
    (h : ∀ c ∈ t, p c) : ∀ c ∈ (("(" : String) : Text) ++ t ++ (")" : String), p c := by
  have hopen : ∀ c ∈ (("(" : String) : Text), c.isPrintable := by decide
  have hclose : ∀ c ∈ ((")" : String) : Text), c.isPrintable := by decide
  rw [List.forall_mem_append, List.forall_mem_append]
  exact ⟨⟨fun c hc => hp c (hopen c hc), h⟩, fun c hc => hp c (hclose c hc)⟩

theorem forall_mem_arrange (hp : ∀ c : CodePoint, c.isPrintable → p c) (hn : p '\n') (l : Layout)
    (level : Nat) {ts : List Text} (h : ∀ t ∈ ts, ∀ c ∈ t, p c) :
    ∀ c ∈ l.arrange level ts, p c := by
  have hspace : ∀ c ∈ ((" " : String) : Text), c.isPrintable := by decide
  have hline := forall_mem_list hp (forall_mem_join (fun c hc => hp c (hspace c hc)) h)
  cases ts with
  | nil => exact hline
  | cons t ts =>
    simp only [Layout.arrange]
    split
    · exact hline
    · rw [List.append_assoc (_ : Text) t]
      refine forall_mem_list hp (List.forall_mem_append.2 ⟨h t List.mem_cons_self, ?_⟩)
      intro c hc
      obtain ⟨s, hs, hc⟩ := List.mem_flatMap.1 hc
      rcases List.mem_append.1 hc with hc | hc
      · rcases mem_margin hc with rfl | rfl
        · exact hn
        · exact hp _ (by decide)
      · exact h s (List.mem_cons_of_mem t hs) c hc

end CodePoints

mutual

theorem isPrintable_print : ∀ s : Sexp, ∀ c ∈ s.print, c.isPrintable
  | .atom t => forall_mem_format (fun _ h => h) t
  | .list items =>
    forall_mem_list (fun _ h => h) (forall_mem_join (by decide) (isPrintable_printAll items))

theorem isPrintable_printAll :
    ∀ items : List Sexp, ∀ t ∈ Sexp.printAll items, ∀ c ∈ t, c.isPrintable
  | [] => by simp [Sexp.printAll]
  | x :: xs => by
    intro t ht
    rcases List.mem_cons.1 ht with rfl | ht
    · exact isPrintable_print x
    · exact isPrintable_printAll xs t ht

end

mutual

theorem mem_layoutAt (l : Layout) :
    ∀ (level : Nat) (s : Sexp), ∀ c ∈ s.layoutAt l level, c.isPrintable ∨ c = '\n'
  | _, .atom t => forall_mem_format (fun _ h => .inl h) t
  | level, .list items =>
    forall_mem_arrange (fun _ h => .inl h) (.inr rfl) l level (mem_layoutAll l (level + 1) items)

theorem mem_layoutAll (l : Layout) : ∀ (level : Nat) (items : List Sexp),
    ∀ t ∈ Sexp.layoutAll l level items, ∀ c ∈ t, c.isPrintable ∨ c = '\n'
  | _, [] => by simp [Sexp.layoutAll]
  | level, x :: xs => by
    intro t ht
    rcases List.mem_cons.1 ht with rfl | ht
    · exact mem_layoutAt l level x
    · exact mem_layoutAll l level xs t ht

end

theorem any_isSurrogate_of_mem {t : Text} (h : ∀ c ∈ t, c.isPrintable ∨ c = '\n') :
    t.any CodePoint.isSurrogate = false := by
  refine List.any_eq_false.2 fun c hc => ?_
  rcases h c hc with hc | rfl
  · simp [CodePoint.not_isSurrogate_of_isPrintable hc]
  · decide

theorem tree_of_piece {s : Sexp} {t : Text} (hs : Piece [s] t)
    (ht : ∀ c ∈ t, c.isPrintable ∨ c = '\n') (file : Text) :
    (Source.text t).tree file = .ok s := by
  have hsurrogate := any_isSurrogate_of_mem ht
  rw [tree_eq_ok_iff hsurrogate, trees_eq_ok_iff hsurrogate]
  exact hs.written

/-- **Reading gives back what was printed**, in the canonical form and in every human layout. The
canonical form is printable, so it is one line; a layout is printable but for its line feeds. -/
theorem read_print_and_layout (s : Sexp) (l : Layout) (file : Text) :
    (Source.text s.print).tree file = .ok s ∧ (Source.text (s.layout l)).tree file = .ok s ∧
      s.print.isPrintable ∧ ∀ c ∈ s.layout l, c.isPrintable ∨ c = '\n' := by
  have hprint := isPrintable_print s
  have hlayout := mem_layoutAt l 0 s
  refine ⟨?_, ?_, ?_, hlayout⟩
  · exact tree_of_piece (piece_print s) (fun c hc => .inl (hprint c hc)) file
  · exact tree_of_piece (piece_layoutAt l 0 s) hlayout file
  · exact List.all_eq_true.2 hprint

end Grammar

end TypedSexp
