import TypedSexp.Proofs.Sexp.RoundTrip
/-!
# What the human layout breaks

A list is laid out from its items, so it is broken if one of them is; and an item is broken if it does
not fit behind the margin of its level, wherever it really stands. A layout that is one line is the
canonical form (`layoutAt_of_isLine`), and it is one line exactly if every list of several items in the
tree fits behind the margin of its level (`layoutAt_eq_print_iff`).

Each list around a tree adds two parentheses to it, so while a level is no wider than two spaces,
everything in a tree fits if the tree does (`layout_eq_print`). Behind wider margins it need not: the
first item stays on the line of its parenthesis, but it must fit as if it stood behind its margin, and
a tree that fits as a whole is broken (`fitting_broken`).
-/

namespace TypedSexp

namespace Sexp

/-! ## Trees in trees -/

/-- What holds of atoms, and of lists if it holds of their items, holds of all trees. -/
@[elab_as_elim]
theorem induction {P : Sexp → Prop} (atom : ∀ t, P (.atom t))
    (list : ∀ items, (∀ x ∈ items, P x) → P (.list items)) (s : Sexp) : P s :=
  Sexp.rec (motive_2 := fun items => ∀ x ∈ items, P x) atom list
    (fun _ hx => absurd hx List.not_mem_nil)
    (fun _ _ hx hxs => List.forall_mem_cons.2 ⟨hx, hxs⟩) s

/-- The tree stands in another one, inside so many lists. -/
inductive Within : Nat → Sexp → Sexp → Prop
  | self {s : Sexp} : Within 0 s s
  | item {depth : Nat} {t x : Sexp} {items : List Sexp} (hx : x ∈ items) :
      Within depth t x → Within (depth + 1) t (.list items)

/-- The tree is a list of more than one item. -/
def hasSeveral : Sexp → Bool
  | .list (_ :: _ :: _) => true
  | _ => false

theorem layoutAll_eq_map (l : Layout) (level : Nat) (items : List Sexp) :
    layoutAll l level items = items.map (layoutAt l level) := by
  induction items with
  | nil => rfl
  | cons x xs ih => rw [layoutAll, ih, List.map_cons]

theorem printAll_eq_map (items : List Sexp) : printAll items = items.map print := by
  induction items with
  | nil => rfl
  | cons x xs ih => rw [printAll, ih, List.map_cons]

end Sexp

/-! ## One line -/

namespace Text

/-- The text has no line feed. -/
def IsLine (t : Text) : Prop := CodePoint.ofChar '\n' ∉ t

theorem isLine_append {s t : Text} : IsLine (s ++ t) ↔ IsLine s ∧ IsLine t := by
  simp [IsLine]

theorem join_cons_cons (separator t u : Text) (ts : List Text) :
    join separator (t :: u :: ts) = t ++ separator ++ join separator (u :: ts) := rfl

theorem isLine_join_space : ∀ {ts : List Text}, IsLine (join " " ts) ↔ ∀ t ∈ ts, IsLine t
  | [] => by simp [join, IsLine]
  | [t] => by simp [join]
  | t :: u :: ts => by
    have hspace : IsLine (" " : String) := by unfold IsLine; decide
    rw [join_cons_cons, isLine_append, isLine_append, isLine_join_space]
    simp only [hspace, and_true, List.forall_mem_cons]

end Text

open Text (IsLine)

theorem isLine_print (s : Sexp) : IsLine s.print := by
  intro hmem
  exact absurd (Grammar.isPrintable_print s _ hmem) (by decide)

/-- Parentheses do not end a line. -/
theorem isLine_parentheses {t : Text} :
    IsLine ((("(" : String) : Text) ++ t ++ (")" : String)) ↔ IsLine t := by
  have hopen : IsLine ("(" : String) := by unfold IsLine; decide
  have hclose : IsLine (")" : String) := by unfold IsLine; decide
  rw [Text.isLine_append, Text.isLine_append]
  simp only [hopen, hclose, true_and, and_true]

namespace Layout

variable {l : Layout} {level : Nat}

/-- A margin is made of spaces. -/
theorem margin_eq (l : Layout) (level : Nat) :
    l.margin level = List.replicate (level * l.indent.toNat) (CodePoint.ofChar ' ') := by
  have hone : Text.times (" " : String) l.indent =
      List.replicate l.indent.toNat (CodePoint.ofChar ' ') := List.flatten_replicate_singleton
  rw [margin, hone]
  exact List.flatten_replicate_replicate

theorem length_margin (l : Layout) (level : Nat) :
    (l.margin level).length = level * l.indent.toNat := by
  rw [margin_eq, List.length_replicate]

theorem isLine_margin (l : Layout) (level : Nat) : IsLine (l.margin level) := by
  rw [margin_eq]
  intro hmem
  exact absurd (List.eq_of_mem_replicate hmem) (by decide)

theorem fits_iff {line : Text} :
    l.fits level line ↔ ((l.margin level).length + line.length : Int) ≤ l.width ∧ IsLine line := by
  simp [fits, IsLine]

/-- A list of several items that is laid out on one line fits. -/
theorem fits_of_isLine {t u : Text} {ts : List Text} (h : IsLine (l.arrange level (t :: u :: ts))) :
    l.fits level ("(" ++ Text.join " " (t :: u :: ts) ++ ")") := by
  by_contra hfits
  rw [arrange, if_neg hfits] at h
  -- the second item would stand on a line of its own
  refine absurd ?_ h
  simp [broken]

/-- A list of one item is never broken. -/
theorem arrange_singleton (l : Layout) (level : Nat) (t : Text) :
    l.arrange level [t] = "(" ++ t ++ ")" := by
  simp [arrange, Text.join]

/-- A list that is laid out on one line has all items on it. -/
theorem arrange_of_isLine {ts : List Text} (h : IsLine (l.arrange level ts)) :
    l.arrange level ts = "(" ++ Text.join " " ts ++ ")" := by
  rcases ts with _ | ⟨t, _ | ⟨u, ts⟩⟩
  · rfl
  · exact arrange_singleton l level t
  · rw [arrange, if_pos (fits_of_isLine h)]

end Layout

namespace Sexp

variable {l : Layout}

/-- **A layout on one line is the canonical form.** -/
theorem layoutAt_of_isLine (s : Sexp) : ∀ level, IsLine (s.layoutAt l level) →
    s.layoutAt l level = s.print := by
  induction s using Sexp.induction with
  | atom t => exact fun _ _ => rfl
  | list items ih =>
    intro level h
    rw [layoutAt] at h ⊢
    have hline := Layout.arrange_of_isLine h
    rw [hline, isLine_parentheses, Text.isLine_join_space, layoutAll_eq_map, List.forall_mem_map] at h
    rw [hline, print, layoutAll_eq_map, printAll_eq_map,
      List.map_congr_left fun x hx => ih x hx (level + 1) (h x hx)]

/-- A list stays on one line if its items do, and it fits, which matters if there are several. -/
theorem layoutAt_list_eq_print_iff {level : Nat} {items : List Sexp} :
    (list items).layoutAt l level = (list items).print ↔
      (∀ x ∈ items, x.layoutAt l (level + 1) = x.print) ∧
      ((list items).hasSeveral →
        ((l.margin level).length + (list items).print.length : Int) ≤ l.width) := by
  have hprint := isLine_print (list items)
  constructor
  · intro h
    rw [layoutAt] at h
    have hline : IsLine (l.arrange level (layoutAll l (level + 1) items)) := by rwa [h]
    have harrange := Layout.arrange_of_isLine hline
    refine ⟨fun x hx => layoutAt_of_isLine x (level + 1) ?_, fun hseveral => ?_⟩
    · rw [harrange, isLine_parentheses, Text.isLine_join_space, layoutAll_eq_map,
        List.forall_mem_map] at hline
      exact hline x hx
    · rcases items with _ | ⟨x, _ | ⟨y, rest⟩⟩
      · cases hseveral
      · cases hseveral
      · have hfits := Layout.fits_of_isLine hline
        rw [← h, harrange]
        exact (Layout.fits_iff.1 hfits).1
  · rintro ⟨hitems, hfits⟩
    have hall : layoutAll l (level + 1) items = printAll items := by
      rw [layoutAll_eq_map, printAll_eq_map, List.map_congr_left hitems]
    rw [layoutAt, hall]
    rcases items with _ | ⟨x, _ | ⟨y, rest⟩⟩
    · rfl
    · exact Layout.arrange_singleton l level x.print
    · exact if_pos (Layout.fits_iff.2 ⟨hfits rfl, hprint⟩)

/-- **A tree stays on one line exactly if every list of several items in it fits** behind the margin of
its level. -/
theorem layoutAt_eq_print_iff (s : Sexp) : ∀ level, s.layoutAt l level = s.print ↔
    ∀ (depth : Nat) (t : Sexp), t.Within depth s → t.hasSeveral →
      ((l.margin (level + depth)).length + t.print.length : Int) ≤ l.width := by
  induction s using Sexp.induction with
  | atom t =>
    intro level
    refine iff_of_true rfl fun depth t ht hseveral => ?_
    cases ht with
    | self => cases hseveral
  | list items ih =>
    intro level
    rw [layoutAt_list_eq_print_iff]
    constructor
    · rintro ⟨hitems, hfits⟩ depth t ht hseveral
      cases ht with
      | self => exact hfits hseveral
      | @item depth _ x _ hx ht =>
        have hx := (ih x hx (level + 1)).1 (hitems x hx) depth t ht hseveral
        rwa [Nat.add_assoc, Nat.add_comm 1] at hx
    · intro h
      refine ⟨fun x hx => (ih x hx (level + 1)).2 fun depth t ht hseveral => ?_, h 0 _ .self⟩
      rw [Nat.add_assoc, Nat.add_comm 1]
      exact h (depth + 1) t (.item hx ht) hseveral

/-! ## Trees that fit -/

theorem length_le_join {t : Text} : ∀ {ts : List Text}, t ∈ ts →
    t.length ≤ (Text.join " " ts).length
  | [u], h => by simp [List.mem_singleton.1 h, Text.join]
  | u :: v :: ts, h => by
    rw [Text.join_cons_cons, List.length_append, List.length_append]
    rcases List.mem_cons.1 h with rfl | h
    · omega
    · have := length_le_join h
      omega

/-- Each list around a tree adds two parentheses. -/
theorem Within.length_print_le {depth : Nat} {t s : Sexp} (h : t.Within depth s) :
    t.print.length + 2 * depth ≤ s.print.length := by
  induction h with
  | self => omega
  | @item depth t x items hx _ ih =>
    have hlength : (list items).print.length = (Text.join " " (printAll items)).length + 2 := by
      simp [print]
    have hx : x.print ∈ printAll items := by
      rw [printAll_eq_map]
      exact List.mem_map_of_mem hx
    have := length_le_join hx
    omega

/-- **What the human layout keeps on one line.** A tree is laid out as its canonical form exactly if
every list of several items in it fits when indented as deep as it stands. With at most two spaces for
a level all of them do if the tree itself fits. -/
theorem layout_eq_print {l : Layout} (hl : 0 ≤ l.indent) (s : Sexp) :
    (s.layout l = s.print ↔ ∀ (depth : Nat) (t : Sexp), t.Within depth s → t.hasSeveral →
      depth * l.indent + t.print.length ≤ l.width) ∧
    (l.indent ≤ 2 → s.print.length ≤ l.width → s.layout l = s.print) := by
  have hcolumn (depth : Nat) : ((l.margin (0 + depth)).length : Int) = depth * l.indent := by
    rw [Layout.length_margin, Nat.zero_add, Int.natCast_mul, Int.toNat_of_nonneg hl]
  have hiff := layoutAt_eq_print_iff (l := l) s 0
  simp only [hcolumn] at hiff
  refine ⟨hiff, fun hnarrow hfits => hiff.2 fun depth t ht _ => ?_⟩
  have hlength := ht.length_print_le
  have hindent : (depth : Int) * l.indent ≤ depth * 2 :=
    Int.mul_le_mul_of_nonneg_left hnarrow (Int.natCast_nonneg depth)
  omega

/-- A list of a pair, seven wide with two spaces for a level. -/
theorem layout_eq_print_pair :
    let l : Layout := ⟨2, 7⟩
    let s : Sexp := .list [.list [.atom "a", .atom "b"]]
    0 ≤ l.indent ∧ l.indent ≤ 2 ∧ s.print.length ≤ l.width ∧
    (s.layout l = s.print ↔ ∀ (depth : Nat) (t : Sexp), t.Within depth s → t.hasSeveral →
      depth * l.indent + t.print.length ≤ l.width) ∧ s.layout l = "((a b))" := by
  have hl : 0 ≤ (⟨2, 7⟩ : Layout).indent := by decide
  have hpair := layout_eq_print hl (.list [.list [.atom "a", .atom "b"]])
  exact ⟨hl, by decide, by decide, hpair.1, hpair.2 (by decide) (by decide)⟩

/-- With three spaces for a level a pair in a list is broken, though the whole is seven wide and seven
are allowed. -/
theorem fitting_broken :
    let l : Layout := ⟨3, 7⟩
    let s : Sexp := .list [.list [.atom "a", .atom "b"]]
    0 ≤ l.indent ∧ s.print = "((a b))" ∧ s.print.length ≤ l.width ∧
      s.layout l = "((a\n      b))" ∧ s.layout l ≠ s.print := by
  decide +kernel

end Sexp

end TypedSexp
