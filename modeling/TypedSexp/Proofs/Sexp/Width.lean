import TypedSexp.Proofs.Sexp.Fitting
import TypedSexp.Proofs.Sexp.Places
/-!
# The human layout keeps the width

A list fits if it fits behind the margin of its level. It may stand elsewhere, because the first item of
a broken list stays on the line of its parenthesis; but if a level is at least one space wide, this
column is never to the right of the margin, whatever chain of first items leads to it. So a list that is
laid out as a whole ends within the width. Where items of one list share a line, the list is laid out as
a whole (`Node.KeepsWidth`), and besides such a list a line has an indentation and parentheses only
(`Sexp.IsLayoutLine`). The places are those at which the layout is read.
-/

namespace TypedSexp

/-! ## What is laid out at a level -/

/-- The layout of a tree at a level: an atom, an empty list, a whole list of several items that fits
behind the margin, or a list with every item but the first one on a line of its own. -/
inductive Layout.Shows (l : Layout) (level : Nat) : Sexp → Text → Prop
  | atom (t : Text) : Shows l level (.atom t) (Sexp.atom t).print
  | empty : Shows l level .empty Sexp.empty.print
  | whole {s : Sexp} (h : ((l.margin level).length + s.print.length : Int) ≤ l.width) :
      Shows l level s s.print
  | broken (x : Sexp) (rest : List Sexp) : Shows l level (.list (x :: rest))
      ("(" ++ (x.layoutAt l (level + 1) ++
        rest.flatMap fun y => l.broken (level + 1) (y.layoutAt l (level + 1))) ++ ")")

theorem Layout.shows_layoutAt (l : Layout) (level : Nat) (s : Sexp) :
    l.Shows level s (s.layoutAt l level) := by
  match s with
  | .atom t => exact .atom t
  | .list [] => exact .empty
  | .list (x :: rest) =>
    have harrange : (Sexp.list (x :: rest)).layoutAt l level =
        l.arrange level (Sexp.layoutAll l (level + 1) (x :: rest)) := rfl
    rw [Sexp.layoutAll, arrange] at harrange
    by_cases hfits : l.fits level ("(" ++ Text.join " "
        (x.layoutAt l (level + 1) :: Sexp.layoutAll l (level + 1) rest) ++ ")")
    · rw [if_pos hfits] at harrange
      rw [← harrange] at hfits
      obtain ⟨hwidth, hline⟩ := fits_iff.1 hfits
      rw [Sexp.layoutAt_of_isLine _ _ hline] at hwidth ⊢
      exact .whole hwidth
    · rw [if_neg hfits, Sexp.layoutAll_eq_map, List.flatMap_map] at harrange
      rw [harrange, List.append_assoc (_ : Text) (x.layoutAt l (level + 1))]
      exact .broken x rest

/-! ## Lines -/

namespace Text

variable {P Q R : Text → Prop} {c : CodePoint} {s t : Text}

theorem join_cons (separator t : Text) (ts : List Text) :
    join separator (t :: ts) = t ++ ts.flatMap fun u => separator ++ u := by
  induction ts generalizing t with
  | nil => simp [join]
  | cons u ts ih => rw [join_cons_cons, ih, List.flatMap_cons, List.append_assoc, List.append_assoc]

/-- The first line of the text satisfies one predicate, and the others another one. -/
def HasLines (P Q : Text → Prop) (t : Text) : Prop :=
  ∃ first more, t.lines = first :: more ∧ P first ∧ ∀ line ∈ more, Q line

theorem exists_lines (t : Text) : ∃ first more, t.lines = first :: more := by
  unfold lines
  split
  · exact ⟨_, _, rfl⟩
  · split
    · exact ⟨_, _, rfl⟩
    · split
      · exact ⟨_, _, rfl⟩
      · exact ⟨_, _, rfl⟩

theorem lines_feed (t : Text) : lines (CodePoint.ofChar '\n' :: t) = [] :: t.lines := if_pos rfl

theorem lines_cons {first : Text} {more : List Text} (hc : c ≠ CodePoint.ofChar '\n')
    (ht : t.lines = first :: more) : lines (c :: t) = (c :: first) :: more := by
  rw [lines, if_neg hc, ht]

theorem hasLines_nil : HasLines P Q [] ↔ P [] := by
  simp [HasLines, lines]

theorem hasLines_feed : HasLines P Q (CodePoint.ofChar '\n' :: t) ↔ P [] ∧ HasLines Q Q t := by
  obtain ⟨first, more, ht⟩ := t.exists_lines
  unfold HasLines
  rw [lines_feed, ht]
  simp

theorem hasLines_cons (hc : c ≠ CodePoint.ofChar '\n') :
    HasLines P Q (c :: t) ↔ HasLines (fun line => P (c :: line)) Q t := by
  obtain ⟨first, more, ht⟩ := t.exists_lines
  unfold HasLines
  rw [lines_cons hc ht, ht]
  simp

theorem isLine_cons : IsLine (c :: t) ↔ c ≠ CodePoint.ofChar '\n' ∧ IsLine t := by
  unfold IsLine
  rw [List.mem_cons, not_or, ne_comm]

/-- A text in front is in front of the first line. -/
theorem hasLines_append (hs : IsLine s) :
    HasLines P Q (s ++ t) ↔ HasLines (fun line => P (s ++ line)) Q t := by
  induction s generalizing P with
  | nil => rfl
  | cons c s ih =>
    obtain ⟨hc, hs⟩ := isLine_cons.1 hs
    rw [List.cons_append, hasLines_cons hc, ih hs]
    rfl

theorem hasLines_of_isLine (ht : IsLine t) : HasLines P Q t ↔ P t := by
  have happend := hasLines_append (P := P) (Q := Q) (t := []) ht
  rwa [List.append_nil, hasLines_nil, List.append_nil] at happend

theorem HasLines.imp (h : HasLines P Q t) (hP : ∀ line, P line → R line) : HasLines R Q t := by
  obtain ⟨first, more, ht, hfirst, hmore⟩ := h
  exact ⟨first, more, ht, hP first hfirst, hmore⟩

/-- Lines follow on lines. -/
theorem HasLines.append (h : HasLines P Q s) (h' : HasLines Q Q t) :
    HasLines P Q (s ++ CodePoint.ofChar '\n' :: t) := by
  induction s generalizing P with
  | nil => exact hasLines_feed.2 ⟨hasLines_nil.1 h, h'⟩
  | cons c s ih =>
    rw [List.cons_append]
    by_cases hc : c = CodePoint.ofChar '\n'
    · subst hc
      obtain ⟨hP, hs⟩ := hasLines_feed.1 h
      exact hasLines_feed.2 ⟨hP, ih hs⟩
    · exact (hasLines_cons hc).2 (ih ((hasLines_cons hc).1 h))

/-- A text behind is behind the last line, which may be the first one. -/
theorem HasLines.close (ht : IsLine t) (hP : ∀ line, P line → P (line ++ t))
    (hQ : ∀ line, Q line → Q (line ++ t)) (h : HasLines P Q s) : HasLines P Q (s ++ t) := by
  induction s generalizing P with
  | nil => exact (hasLines_of_isLine ht).2 (hP [] (hasLines_nil.1 h))
  | cons c s ih =>
    rw [List.cons_append]
    by_cases hc : c = CodePoint.ofChar '\n'
    · subst hc
      obtain ⟨hfirst, hs⟩ := hasLines_feed.1 h
      exact hasLines_feed.2 ⟨hfirst, ih hQ hs⟩
    · exact (hasLines_cons hc).2 (ih (fun line => hP (c :: line)) ((hasLines_cons hc).1 h))

end Text

namespace Sexp

variable {l : Layout} {s : Sexp}

/-- A piece of a line, from a column on: opening parentheses, then an atom, an empty list or a list
that ends within the width, then closing parentheses. What stands there is part of the tree. -/
def IsRow (s : Sexp) (l : Layout) (column : Nat) (row : Text) : Prop :=
  ∃ (opened closed depth : Nat) (x : Sexp), x.Within depth s ∧
    row = List.replicate opened (CodePoint.ofChar '(') ++ x.print ++
      List.replicate closed (CodePoint.ofChar ')') ∧
    (x.isAtom ∨ x = .empty ∨ ((column + opened + x.print.length : Nat) : Int) ≤ l.width)

/-- A line of a layout: the margin of a level and what stands behind it. -/
def IsLayoutLine (s : Sexp) (l : Layout) (line : Text) : Prop :=
  ∃ level row, line = l.margin level ++ row ∧ s.IsRow l (l.margin level).length row

theorem Within.inner {depth : Nat} {x : Sexp} {items : List Sexp}
    (h : (list items).Within depth s) (hx : x ∈ items) : x.Within (depth + 1) s := by
  generalize ht : list items = t at h
  induction h with
  | self =>
    subst ht
    exact .item hx .self
  | item hy _ ih => exact .item hy (ih ht)

theorem IsRow.opened {column : Nat} {row : Text} (h : s.IsRow l (column + 1) row) :
    s.IsRow l column ("(" ++ row) := by
  obtain ⟨opened, closed, depth, x, hx, rfl, hfits⟩ := h
  refine ⟨opened + 1, closed, depth, x, hx, by simp [List.replicate_succ], ?_⟩
  rwa [Nat.add_assoc column 1, Nat.add_comm 1] at hfits

theorem IsRow.closed {column : Nat} {row : Text} (h : s.IsRow l column row) :
    s.IsRow l column (row ++ ")") := by
  obtain ⟨opened, closed, depth, x, hx, rfl, hfits⟩ := h
  exact ⟨opened, closed + 1, depth, x, hx, by simp [List.replicate_succ'], hfits⟩

theorem IsLayoutLine.closed {line : Text} (h : s.IsLayoutLine l line) :
    s.IsLayoutLine l (line ++ ")") := by
  obtain ⟨level, row, rfl, hrow⟩ := h
  exact ⟨level, row ++ ")", by simp, hrow.closed⟩

/-- Items on lines of their own follow on lines. -/
theorem hasLines_broken {P : Text → Prop} {level : Nat} {rest : List Sexp}
    (hrest : ∀ y ∈ rest, Text.HasLines (s.IsRow l (l.margin level).length) (s.IsLayoutLine l)
      (y.layoutAt l level)) {t : Text} (ht : Text.HasLines P (s.IsLayoutLine l) t) :
    Text.HasLines P (s.IsLayoutLine l)
      (t ++ rest.flatMap fun y => l.broken level (y.layoutAt l level)) := by
  induction rest generalizing t with
  | nil => simpa using ht
  | cons y rest ih =>
    obtain ⟨hy, hrest⟩ := List.forall_mem_cons.1 hrest
    rw [List.flatMap_cons, ← List.append_assoc]
    refine ih hrest ?_
    refine ht.append ((Text.hasLines_append (Layout.isLine_margin l level)).2 (hy.imp ?_))
    exact fun row hrow => ⟨level, row, rfl, hrow⟩

/-- **The lines of a tree at a level**, if it stands no further to the right than the margin. -/
theorem hasLines_layoutAt (hl : 1 ≤ l.indent) (x : Sexp) : ∀ (level column : Nat),
    x.Within level s → column ≤ (l.margin level).length →
    Text.HasLines (s.IsRow l column) (s.IsLayoutLine l) (x.layoutAt l level) := by
  induction x using Sexp.induction with
  | atom t =>
    intro level column hx _
    refine (Text.hasLines_of_isLine (isLine_print (.atom t))).2 ?_
    exact ⟨0, 0, level, .atom t, hx, by simp, .inl rfl⟩
  | list items ih =>
    intro level column hx hcolumn
    have hshows := l.shows_layoutAt level (.list items)
    generalize (list items).layoutAt l level = t at hshows
    cases hshows with
    | empty =>
      refine (Text.hasLines_of_isLine (isLine_print .empty)).2 ?_
      exact ⟨0, 0, level, .empty, hx, by simp, .inr (.inl rfl)⟩
    | whole hfits =>
      refine (Text.hasLines_of_isLine (isLine_print _)).2 ?_
      exact ⟨0, 0, level, _, hx, by simp, .inr (.inr (by omega))⟩
    | broken x rest =>
      have hmargin := Layout.length_margin l level
      have hnext := Layout.length_margin l (level + 1)
      rw [Nat.succ_mul] at hnext
      -- the parenthesis is no wider than a level, so the first item is not right of its margin
      have hcolumn : column + 1 ≤ (l.margin (level + 1)).length := by omega
      have hfirst := ih x List.mem_cons_self (level + 1) (column + 1)
        (hx.inner List.mem_cons_self) hcolumn
      have hrest : ∀ y ∈ rest, Text.HasLines (s.IsRow l (l.margin (level + 1)).length)
          (s.IsLayoutLine l) (y.layoutAt l (level + 1)) := fun y hy =>
        ih y (List.mem_cons_of_mem x hy) (level + 1) _ (hx.inner (List.mem_cons_of_mem x hy)) le_rfl
      have hopen : Text.IsLine ("(" : String) := by unfold Text.IsLine; decide
      have hclose : Text.IsLine (")" : String) := by unfold Text.IsLine; decide
      refine .close hclose (fun _ h => h.closed) (fun _ h => h.closed) ?_
      refine (Text.hasLines_append hopen).2 ((hasLines_broken hrest hfirst).imp ?_)
      exact fun row hrow => hrow.opened

end Sexp

/-! ## Places on lines -/

namespace Position

theorem line_advance (p : Position) (t : Text) :
    (p.advance t).line = p.line + t.count (CodePoint.ofChar '\n') := by
  induction t generalizing p with
  | nil => rfl
  | cons c t ih =>
    rw [advance_cons, ih, step]
    by_cases hc : c = CodePoint.ofChar '\n'
    · subst hc
      rw [if_pos rfl, List.count_cons_self]
      dsimp only
      omega
    · rw [if_neg hc, List.count_cons_of_ne hc]

theorem column_advance {t : Text} (ht : Text.IsLine t) (p : Position) :
    (p.advance t).column = p.column + t.length := by
  induction t generalizing p with
  | nil => rfl
  | cons c t ih =>
    obtain ⟨hc, ht⟩ := Text.isLine_cons.1 ht
    rw [advance_cons, ih ht, step, if_neg hc, List.length_cons]
    dsimp only
    omega

theorem line_advance_of_isLine {t : Text} (ht : Text.IsLine t) (p : Position) :
    (p.advance t).line = p.line := by
  rw [line_advance, List.count_eq_zero_of_not_mem ht, Nat.add_zero]

/-- Behind a line feed and a margin. -/
theorem column_margin (p : Position) (l : Layout) (level : Nat) :
    (p.advance ("\n" ++ l.margin level)).column = (l.margin level).length + 1 := by
  rw [advance_append, column_advance (l.isLine_margin level), Nat.add_comm]
  rfl

end Position

/-- The line is one of those over which the location reaches. -/
def Location.Covers (l : Location) (line : Int) : Prop := l.line ≤ line ∧ line ≤ l.endLine

/-- Of two trees the first one ends on a line above that on which the second one starts. -/
def Node.Above (a b : Node) : Prop :=
  ∀ la lb, a.location = some la → b.location = some lb → la.endLine < lb.line

/-- Where two items of a list share a line, the list is on this line as a whole and ends within the
width. -/
def Node.KeepsWidth (width : Int) (n : Node) : Prop :=
  ∀ items place, (Node.list items place).Within n → ∀ a b, [a, b].Sublist items →
    ∀ la lb line, a.location = some la → b.location = some lb → la.Covers line → lb.Covers line →
    ∃ l, place = some l ∧ l.line = line ∧ l.endLine = line ∧ l.endColumn - 1 ≤ width

/-- Items that stand one above another share no line. -/
theorem Node.keepsWidth_list {width : Int} {items : List Node} {place : Option Location}
    (hitems : ∀ n ∈ items, n.KeepsWidth width) (habove : items.Pairwise Node.Above) :
    (Node.list items place).KeepsWidth width := by
  intro items' place' hwithin a b hab la lb line hla hlb ha hb
  cases hwithin with
  | self =>
    have := List.pairwise_iff_forall_sublist.1 habove hab la lb hla hlb
    unfold Location.Covers at ha hb
    omega
  | item hn hwithin => exact hitems _ hn items' place' hwithin a b hab la lb line hla hlb ha hb

theorem Node.Within.trans {a b c : Node} (hab : a.Within b) (hbc : b.Within c) : a.Within c := by
  induction hbc with
  | self => exact hab
  | item hi _ ih => exact .item hi ih

namespace Grammar

variable {file : Text}

/-! ## Reading from a place -/

theorem Placed.weaken {p : Position} {b : Bool} {ts : List Token} {t : Text}
    (h : Placed p true ts t) : Placed p b ts t := by
  cases h with
  | nil => exact .nil
  | cons hg hl hs hrest => exact .cons hg hl (fun _ => hs rfl) hrest

theorem Placed.append {p : Position} {b : Bool} {ts us : List Token} {t u : Text}
    (h : Placed p b ts t) (h' : Placed (p.advance t) true us u) :
    Placed p b (ts ++ us) (t ++ u) := by
  induction h with
  | nil => exact h'.weaken
  | cons hg hl hs _ ih =>
    rw [List.append_assoc]
    refine .cons hg hl hs (ih ?_)
    rwa [Position.advance_append, Position.advance_append] at h'

theorem placed_lexeme (p : Position) {b : Bool} {l : Lexeme} (hl : WellFormed l)
    (hs : b → ¬isBareLexeme l) : Placed p b [⟨l, p, p.advance l.source⟩] l.source := by
  have h : Placed p b [⟨l, p, p.advance l.source⟩] ([] ++ l.source ++ []) :=
    .cons .nil hl (fun hb hbare => absurd hbare (hs hb)) .nil
  simpa using h

/-- A gap separates tokens from a bare atom. -/
theorem Placed.separated {p : Position} {b : Bool} {gap : Text} {ts : List Token} {t : Text}
    (hg : Gap gap) (hne : gap ≠ []) (hts : ts ≠ []) (h : Placed (p.advance gap) false ts t) :
    Placed p b ts (gap ++ t) := by
  cases h with
  | nil => exact absurd rfl hts
  | cons hg' hl _ hrest =>
    rw [← Position.advance_append p gap] at hrest ⊢
    rw [← List.append_assoc, ← List.append_assoc]
    exact .cons (hg.append hg') hl (fun _ _ => by simp [hne]) hrest

theorem Makes.ne_nil {ts : List Token} {n : Node} (h : Makes file ts [n]) : ts ≠ [] := by
  rintro rfl
  cases h

/-- An atom is read from its written form. -/
theorem exists_reads_atom (file : Text) (p : Position) (t : Text) :
    ∃ n, Reads file p (Sexp.atom t).print (.atom t) n := by
  obtain ⟨l, hl, hspells, hsource⟩ := exists_lexeme_format t
  obtain ⟨ns, hns, hmakes⟩ : ∃ ns, ns.map Node.sexp = [.atom t] ∧
      Makes file [⟨l, p, p.advance l.source⟩] ns := hspells.makes _ rfl
  obtain ⟨n, rfl, hn⟩ : ∃ n, ns = [n] ∧ n.sexp = .atom t := by
    simpa [List.map_eq_singleton_iff] using hns
  obtain ⟨first, last, hfirst, hlast, hlocation⟩ := hmakes.place
  obtain rfl := Option.some.inj hfirst
  obtain rfl := Option.some.inj hlast
  have hplaced := placed_lexeme p (b := false) hl (by simp)
  rw [hsource] at hlocation hmakes hplaced
  exact ⟨n, hn, hlocation, _, hmakes, hplaced⟩

/-- A list is read from its items between parentheses. -/
theorem reads_list {p : Position} {ts : List Token} {t : Text} {ns : List Node}
    (hmakes : Makes file ts ns) (hplaced : Placed (p.advance ("(" : String)) false ts t) :
    Reads file p ("(" ++ t ++ ")") (.list (ns.map Node.sexp))
      (.list ns (some (.between file p (p.advance ("(" ++ t ++ ")"))))) := by
  have hclosing : Placed ((p.advance ("(" : String)).advance t) true
      [⟨.closing, (p.advance ("(" : String)).advance t, p.advance ("(" ++ t ++ ")")⟩]
      (")" : String) := by
    rw [Position.advance_append, Position.advance_append]
    exact placed_lexeme _ trivial (by simp [isBareLexeme])
  have hopening : Placed p false (⟨.opening, p, p.advance ("(" : String)⟩ :: (ts ++
      [⟨.closing, (p.advance ("(" : String)).advance t, p.advance ("(" ++ t ++ ")")⟩]))
      (([] : Text) ++ Lexeme.opening.source ++ (t ++ (")" : String))) :=
    .cons .nil trivial (by simp) (hplaced.append hclosing)
  have hlist : Makes file (⟨.opening, p, p.advance ("(" : String)⟩ :: ts ++
      [⟨.closing, (p.advance ("(" : String)).advance t, p.advance ("(" ++ t ++ ")")⟩])
      [.list ns (some (.between file p (p.advance ("(" ++ t ++ ")"))))] := .list hmakes .nil
  refine ⟨by simp [Node.sexp, Node.sexps_eq_map], rfl, _, hlist, ?_⟩
  rw [List.append_assoc]
  exact hopening

/-- Items behind separators are read one after another, each below the one before it if the separator
ends a line. -/
theorem exists_reads_items {separator : Text} (hgap : Gap separator) (hne : separator ≠ [])
    {f : Sexp → Text} {Good : Node → Prop} {ys : List Sexp}
    (h : ∀ y ∈ ys, ∀ p : Position, ∃ n, Reads file (p.advance separator) (f y) y n ∧ Good n)
    (p : Position) :
    ∃ ns ts, ns.map Node.sexp = ys ∧ Makes file ts ns ∧
      Placed p true ts (ys.flatMap fun y => separator ++ f y) ∧ (∀ n ∈ ns, Good n) ∧
      (¬ Text.IsLine separator → ns.Pairwise Node.Above ∧
        ∀ n ∈ ns, ∀ l : Location, n.location = some l → (p.line : Int) < l.line) := by
  induction ys generalizing p with
  | nil => exact ⟨[], [], rfl, .nil, .nil, by simp, by simp⟩
  | cons y ys ih =>
    obtain ⟨hy, hys⟩ := List.forall_mem_cons.1 h
    obtain ⟨n, ⟨hsexp, hlocation, ts, hmakes, hplaced⟩, hgood⟩ := hy p
    obtain ⟨ns, us, hsexps, hmakes', hplaced', hgoods, habove⟩ := ih hys (p.advance (separator ++ f y))
    rw [← Position.advance_append] at hlocation
    have hfirst : Placed p true ts (separator ++ f y) :=
      .separated hgap hne hmakes.ne_nil hplaced
    refine ⟨n :: ns, ts ++ us, by simp [hsexp, hsexps], hmakes.append hmakes',
      hfirst.append hplaced', List.forall_mem_cons.2 ⟨hgood, hgoods⟩, fun hline => ?_⟩
    obtain ⟨hpairs, hbelow⟩ := habove hline
    have hstart : p.line < (p.advance separator).line := by
      have hfeed := List.count_pos_iff.2 (not_not.1 hline)
      have := p.line_advance separator
      omega
    have hstop : (p.advance separator).line ≤ (p.advance (separator ++ f y)).line := by
      rw [Position.advance_append, Position.line_advance _ (f y)]
      omega
    refine ⟨List.pairwise_cons.2 ⟨fun m hm la lb hla hlb => ?_, hpairs⟩, ?_⟩
    · obtain rfl := Option.some.inj (hlocation.symm.trans hla)
      exact hbelow m hm lb hlb
    · rw [List.forall_mem_cons]
      refine ⟨fun l hl => ?_, fun m hm l hl => ?_⟩
      · obtain rfl := Option.some.inj (hlocation.symm.trans hl)
        exact Int.ofNat_lt.2 hstart
      · have := hbelow m hm l hl
        omega

/-- A list of items is read from the first item and the others behind separators. -/
theorem exists_reads_list (f : Sexp → Text) (Good : Node → Prop) {separator : Text}
    (hgap : Gap separator) (hne : separator ≠ []) {p : Position} {x : Sexp} {rest : List Sexp}
    (hx : ∃ n, Reads file (p.advance ("(" : String)) (f x) x n ∧ Good n)
    (hrest : ∀ y ∈ rest, ∀ p : Position, ∃ n, Reads file (p.advance separator) (f y) y n ∧ Good n) :
    ∃ ns l, Reads file p ("(" ++ (f x ++ rest.flatMap fun y => separator ++ f y) ++ ")")
        (.list (x :: rest)) (.list ns l) ∧
      (∀ n ∈ ns, Good n) ∧ (¬ Text.IsLine separator → ns.Pairwise Node.Above) := by
  obtain ⟨n, ⟨hsexp, hlocation, ts, hmakes, hplaced⟩, hgood⟩ := hx
  obtain ⟨ns, us, hsexps, hmakes', hplaced', hgoods, habove⟩ :=
    exists_reads_items hgap hne hrest ((p.advance ("(" : String)).advance (f x))
  have hreads := reads_list (hmakes.append hmakes') (hplaced.append hplaced')
  have hitems : ([n] ++ ns).map Node.sexp = x :: rest := by simp [hsexp, hsexps]
  rw [hitems] at hreads
  refine ⟨[n] ++ ns, _, hreads, List.forall_mem_cons.2 ⟨hgood, hgoods⟩, fun hline => ?_⟩
  obtain ⟨hpairs, hbelow⟩ := habove hline
  refine List.pairwise_cons.2 ⟨fun m hm la lb hla hlb => ?_, hpairs⟩
  obtain rfl := Option.some.inj (hlocation.symm.trans hla)
  exact hbelow m hm lb hlb

/-- A tree is read from its canonical form. -/
theorem exists_reads_print (file : Text) (x : Sexp) : ∀ p, ∃ n, Reads file p x.print x n := by
  induction x using Sexp.induction with
  | atom t => exact fun p => exists_reads_atom file p t
  | list items ih =>
    intro p
    cases items with
    | nil => exact ⟨_, reads_list .nil .nil⟩
    | cons x rest =>
      obtain ⟨hx, hrest⟩ := List.forall_mem_cons.1 ih
      have hprint : (Sexp.list (x :: rest)).print =
          "(" ++ (x.print ++ rest.flatMap fun y => ((" " : String) : Text) ++ y.print) ++ ")" := by
        rw [Sexp.print, Sexp.printAll, Sexp.printAll_eq_map, Text.join_cons, List.flatMap_map]
      obtain ⟨n, hn⟩ := hx (p.advance ("(" : String))
      obtain ⟨ns, l, hreads, -, -⟩ := exists_reads_list Sexp.print (fun _ => True) gap_space
        (by decide) ⟨n, hn, trivial⟩ fun y hy q => (hrest y hy _).imp fun n hn => ⟨hn, trivial⟩
      rw [hprint]
      exact ⟨_, hreads⟩

/-! ## Trees on one line -/

/-- What is read from one line is on it, and ends where it ends at the latest. -/
theorem Reads.place {p : Position} {t : Text} {x : Sexp} {n m : Node} (h : Reads file p t x n)
    (ht : Text.IsLine t) (hm : m.Within n) : ∃ l, m.location = some l ∧ l.line = p.line ∧
      l.endLine = p.line ∧ l.endColumn ≤ p.column + t.length := by
  obtain ⟨ts, hmakes, hplaced⟩ := h.tokens
  have hplaced : Placed p false ([] ++ ts) t := hplaced
  obtain ⟨head, own, tail, rfl, hreads⟩ := hmakes.stretch hm hplaced
  rw [Text.isLine_append] at ht
  obtain ⟨hhead, hown⟩ := Text.isLine_append.1 ht.1
  have hcolumn := Position.column_advance hown (p.advance head)
  rw [Position.column_advance hhead] at hcolumn
  refine ⟨_, hreads.location, ?_, ?_, ?_⟩
  · exact congrArg Int.ofNat (Position.line_advance_of_isLine hhead p)
  · refine congrArg Int.ofNat ?_
    rw [Position.line_advance_of_isLine hown, Position.line_advance_of_isLine hhead]
  · show (((p.advance head).advance own).column : Int) ≤ _
    rw [hcolumn, List.length_append, List.length_append]
    omega

theorem Reads.keepsWidth {p : Position} {t : Text} {x : Sexp} {n : Node} {width : Int}
    (h : Reads file p t x n) (ht : Text.IsLine t) (hwidth : p.column + t.length - 1 ≤ width) :
    n.KeepsWidth width := by
  intro items place hwithin a b hab la lb line hla hlb hline _
  obtain ⟨l, hl, hstart, hstop, hcolumn⟩ := h.place ht hwithin
  have ha : a ∈ items := hab.subset List.mem_cons_self
  obtain ⟨la', hla', hastart, hastop, -⟩ := h.place ht ((Node.Within.item ha .self).trans hwithin)
  obtain rfl := Option.some.inj (hla.symm.trans hla')
  unfold Location.Covers at hline
  exact ⟨l, hl, by omega, by omega, by omega⟩

/-! ## Layouts -/

variable {l : Layout}

/-- **A layout is read with every list within the width**, if the tree stands no further to the right
than the margin of its level. -/
theorem exists_reads_layoutAt (hl : 1 ≤ l.indent) (file : Text) (x : Sexp) :
    ∀ (level : Nat) (p : Position), p.column ≤ (l.margin level).length + 1 →
      ∃ n, Reads file p (x.layoutAt l level) x n ∧ n.KeepsWidth l.width := by
  induction x using Sexp.induction with
  | atom t =>
    intro level p _
    obtain ⟨n, hn⟩ := exists_reads_atom file p t
    refine ⟨n, hn, fun items place hwithin => ?_⟩
    have hsexp := hn.sexp
    cases hwithin with
    | self => cases hsexp
    | item _ _ => cases hsexp
  | list items ih =>
    intro level p hcolumn
    have hshows := l.shows_layoutAt level (.list items)
    generalize (Sexp.list items).layoutAt l level = t at hshows
    cases hshows with
    | empty =>
      refine ⟨_, reads_list .nil .nil, Node.keepsWidth_list (by simp) .nil⟩
    | whole hfits =>
      obtain ⟨n, hn⟩ := exists_reads_print file (.list items) p
      exact ⟨n, hn, hn.keepsWidth (isLine_print _) (by omega)⟩
    | broken x rest =>
      obtain ⟨hx, hrest⟩ := List.forall_mem_cons.1 ih
      have hmargin := l.length_margin level
      have hnext := l.length_margin (level + 1)
      rw [Nat.succ_mul] at hnext
      have hfirst : (p.advance ("(" : String)).column ≤ (l.margin (level + 1)).length + 1 := by
        have hopen : Text.IsLine ("(" : String) := by unfold Text.IsLine; decide
        rw [Position.column_advance hopen]
        show p.column + 1 ≤ _
        omega
      have hbelow (q : Position) := (Position.column_margin q l (level + 1)).le
      obtain ⟨ns, place, hreads, hgood, habove⟩ := exists_reads_list
        (fun y => y.layoutAt l (level + 1)) (Node.KeepsWidth l.width) (gap_margin l (level + 1))
        (by simp) (hx (level + 1) _ hfirst) fun y hy q => hrest y hy (level + 1) _ (hbelow q)
      exact ⟨_, hreads, Node.keepsWidth_list hgood (habove (by simp [Text.IsLine]))⟩

/-- What is read from a whole text is the answer of parsing it. -/
theorem Reads.parse {t : Text} {x : Sexp} {n : Node} (h : Reads file .start t x n)
    (ht : t.any CodePoint.isSurrogate = false) : (Source.text t).parse 0 file = .ok n := by
  obtain ⟨ts, hmakes, hplaced⟩ := h.tokens
  have hscan : Scan.of .start (t ++ []) = ⟨ts ++ (Scan.of (Position.start.advance t) []).tokens,
      (Scan.of (Position.start.advance t) []).unterminated⟩ := hplaced.scan (by simp)
  rw [scan_lastGap (.gap .nil), List.append_nil, List.append_nil] at hscan
  have hassemble := hmakes.assemble none [] []
  rw [List.append_nil] at hassemble
  have hreading : Reading.of file .start t = ⟨[n], none⟩ := by
    unfold Reading.of
    rw [hscan]
    exact hassemble
  unfold Source.parse
  rw [split_text ht]
  simp only [Position.advance_nil, hreading]

end Grammar

namespace Sexp

/-- **The human layout keeps the width**, if a level is at least one space wide. Read back, every list
with two items on one line is on this line as a whole and ends within the width. Every line has the
margin of a level, opening parentheses, one atom, empty list or list that ends within the width, and
closing parentheses. -/
theorem layout_keeps_width {l : Layout} (hl : 1 ≤ l.indent) (s : Sexp) (file : Text) :
    (∃ n, (Source.text (s.layout l)).parse 0 file = .ok n ∧ n.sexp = s ∧ n.KeepsWidth l.width) ∧
    ∀ line ∈ (s.layout l).lines, s.IsLayoutLine l line := by
  constructor
  · obtain ⟨n, hreads, hwidth⟩ := Grammar.exists_reads_layoutAt hl file s 0 .start (by
      rw [Layout.length_margin, Nat.zero_mul]
      exact le_rfl)
    have hsurrogate := Grammar.any_isSurrogate_of_mem (Grammar.mem_layoutAt l 0 s)
    exact ⟨n, hreads.parse hsurrogate, hreads.sexp, hwidth⟩
  · obtain ⟨first, more, hlines, hfirst, hmore⟩ := hasLines_layoutAt hl s 0 0 .self (Nat.zero_le _)
    rw [layout, hlines, List.forall_mem_cons]
    refine ⟨⟨0, first, ?_, ?_⟩, hmore⟩
    · simp [Layout.margin_eq]
    · rwa [Layout.length_margin, Nat.zero_mul]

/-- A list of two pairs behind a head, of which the second one is as wide as can be. -/
theorem layout_keeps_width_pairs :
    let l : Layout := ⟨1, 11⟩
    let s : Sexp := .list [.list [.list [.atom "head"], .list [.atom "first", .atom "1"]],
      .list [.atom "second", .atom "2"]]
    1 ≤ l.indent ∧ s.layout l = "(((head)\n  (first 1))\n (second 2))" ∧
    (∃ n, (Source.text (s.layout l)).parse 0 "f" = .ok n ∧ n.sexp = s ∧ n.KeepsWidth l.width) ∧
    ∀ line ∈ (s.layout l).lines, s.IsLayoutLine l line :=
  ⟨by decide, by decide +kernel, layout_keeps_width (by decide) _ "f"⟩

end Sexp

end TypedSexp
