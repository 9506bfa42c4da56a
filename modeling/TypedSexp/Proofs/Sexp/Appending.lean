import TypedSexp.Proofs.Sexp.Places
/-!
# Text may be appended on a new line

A line feed ends a comment and a bare atom. So the values of a text are still there, at their places,
when more text follows on a new line, and if the text is read to its end, the values of the appended
text follow: the same trees, as many lines and bytes further down (`read_append_line`). Places move
down with the text because reading never looks at them (`reading_down`).
-/

namespace TypedSexp

/-! ## Moving places down -/

/-- The point, where some lines with some bytes are put before its text. -/
def Position.down (bytes lines : Nat) (p : Position) : Position :=
  ⟨bytes + p.offset, lines + p.line, p.column⟩

/-- The location, where some lines with some bytes are put before its text. -/
def Location.down (bytes lines : Nat) (l : Location) : Location :=
  { l with
    line := lines + l.line
    start := bytes + l.start
    stop := bytes + l.stop
    endLine := lines + l.endLine }

namespace Node

mutual

/-- The tree, where some lines with some bytes are put before its text. -/
def down (bytes lines : Nat) : Node → Node
  | .atom t l => .atom t (l.map (Location.down bytes lines))
  | .list items l => .list (downs bytes lines items) (l.map (Location.down bytes lines))

/-- The trees, where some lines with some bytes are put before their text. -/
def downs (bytes lines : Nat) : List Node → List Node
  | [] => []
  | n :: ns => down bytes lines n :: downs bytes lines ns

end

variable (bytes lines : Nat)

theorem downs_eq_map (ns : List Node) : downs bytes lines ns = ns.map (down bytes lines) := by
  induction ns with
  | nil => rfl
  | cons n ns ih => simp [downs, ih]

mutual

@[simp] theorem sexp_down : ∀ n : Node, (n.down bytes lines).sexp = n.sexp
  | .atom _ _ => rfl
  | .list items _ => by simp [down, sexp, sexps_downs items]

theorem sexps_downs : ∀ ns : List Node, sexps (downs bytes lines ns) = sexps ns
  | [] => rfl
  | n :: ns => by simp [downs, sexps, sexp_down n, sexps_downs ns]

end

end Node

section
variable (bytes lines : Nat)

/-- The fault at its new place. -/
def ParseFault.down (fault : ParseFault) : ParseFault :=
  { fault with location := fault.location.down bytes lines }

/-- The trees and the fault at their new places. -/
def Reading.down (r : Reading) : Reading :=
  ⟨r.values.map (Node.down bytes lines), r.fault.map (ParseFault.down bytes lines)⟩

theorem Reading.sexp_down (r : Reading) :
    (r.down bytes lines).values.map Node.sexp = r.values.map Node.sexp := by
  simp [Reading.down]

theorem Reading.message_down (r : Reading) :
    (r.down bytes lines).fault.map (·.cause.message) = r.fault.map (·.cause.message) := by
  simp only [Reading.down, Option.map_map]
  rfl

/-- The token at its new place. -/
def Token.down (t : Token) : Token :=
  ⟨t.lexeme, t.start.down bytes lines, t.stop.down bytes lines⟩

/-- The tokens and the open quote at their new places. -/
def Scan.down (s : Scan) : Scan :=
  ⟨s.tokens.map (Token.down bytes lines), s.unterminated.map (Position.down bytes lines)⟩

/-- The open list at its new place. -/
def Reading.Frame.down (frame : Reading.Frame) : Reading.Frame :=
  ⟨frame.opening.down bytes lines, frame.items.map (Node.down bytes lines)⟩

namespace Position

theorem step_down (p : Position) (c : CodePoint) :
    (p.down bytes lines).step c = (p.step c).down bytes lines := by
  unfold step
  split_ifs <;> simp [down, Nat.add_assoc]

theorem advance_down (p : Position) (t : Text) :
    (p.down bytes lines).advance t = (p.advance t).down bytes lines := by
  induction t generalizing p with
  | nil => rfl
  | cons c t ih => rw [advance_cons, advance_cons, step_down, ih]

/-- The point behind a text and a line feed is the start of the text, moved down. -/
theorem behind_line (x : Text) : behind (x ++ [CodePoint.ofChar '\n']) =
    start.down (Utf8.size (x ++ [CodePoint.ofChar '\n']))
      ((x ++ [CodePoint.ofChar '\n']).count (CodePoint.ofChar '\n')) := by
  simp [behind, start, down, Nat.add_comm]

end Position

theorem Location.between_down (file : Text) (p q : Position) :
    Location.between file (p.down bytes lines) (q.down bytes lines) =
      (Location.between file p q).down bytes lines := by
  simp [Location.between, Location.down, Position.down]

end

namespace Grammar

section
variable (bytes lines : Nat)

theorem scan_down (p : Position) (t : Text) :
    Scan.of (p.down bytes lines) t = (Scan.of p t).down bytes lines := by
  induction hn : t.length using Nat.strongRecOn generalizing p t with
  | ind n ih =>
    subst hn
    cases hf : Front.of t with
    | nothing => rw [scan_of_nothing hf, scan_of_nothing hf]; rfl
    | unterminated => rw [scan_of_unterminated hf, scan_of_unterminated hf]; rfl
    | gap skipped rest =>
      rw [scan_of_gap hf, scan_of_gap hf, Position.advance_down,
        ih rest.length (Front.length_gap hf) _ rest rfl]
    | lexeme l rest =>
      rw [scan_of_lexeme hf, scan_of_lexeme hf, Position.advance_down,
        ih rest.length (Front.length_lexeme hf) _ rest rfl]
      rfl

variable {bytes lines} {file : Text} {unterminated : Option Position}

theorem quotePlace_down (p : Position) :
    Reading.quotePlace file (p.down bytes lines) = (Reading.quotePlace file p).down bytes lines :=
  Location.between_down bytes lines file p ⟨p.offset + 1, p.line, p.column + 1⟩

/-- Trees are received at their new places, if what follows is read there. -/
theorem receive_down {ts : List Token}
    (h : ∀ frames : List Reading.Frame, Reading.assemble file (unterminated.map (.down bytes lines))
      (frames.map (.down bytes lines)) (ts.map (Token.down bytes lines)) =
        (Reading.assemble file unterminated frames ts).down bytes lines)
    (frames : List Reading.Frame) (n : Node) :
    receive file (unterminated.map (.down bytes lines)) (frames.map (.down bytes lines))
        [n.down bytes lines] (ts.map (Token.down bytes lines)) =
      (receive file unterminated frames [n] ts).down bytes lines := by
  cases frames with
  | nil =>
    have := h []
    rw [List.map_nil] at this ⊢
    rw [receive, this]
    rfl
  | cons frame outer => exact h ({ frame with items := n :: frame.items } :: outer)

theorem assemble_down (ts : List Token) : ∀ frames : List Reading.Frame,
    Reading.assemble file (unterminated.map (.down bytes lines)) (frames.map (.down bytes lines))
        (ts.map (Token.down bytes lines)) =
      (Reading.assemble file unterminated frames ts).down bytes lines := by
  induction ts with
  | nil =>
    intro frames
    rw [List.map_nil]
    cases unterminated with
    | some p =>
      simp only [Option.map_some, Reading.assemble, quotePlace_down]
      rfl
    | none =>
      cases hlast : frames.getLast? with
      | none =>
        simp only [Option.map_none, Reading.assemble, List.getLast?_map, hlast]
        rfl
      | some frame =>
        simp only [Option.map_some, Option.map_none, Reading.assemble, List.getLast?_map, hlast,
          Reading.place, Reading.Frame.down, Token.down, Location.between_down]
        rfl
  | cons token rest ih =>
    intro frames
    obtain ⟨l, p, q⟩ := token
    simp only [List.map_cons, Token.down]
    cases l with
    | opening =>
      rw [assemble_opening, assemble_opening]
      exact ih (⟨⟨.opening, p, q⟩, []⟩ :: frames)
    | bare t =>
      rw [assemble_bare, assemble_bare, Location.between_down]
      exact receive_down ih frames (.atom t (some (.between file p q)))
    | quoted body =>
      rw [assemble_quoted, assemble_quoted, Location.between_down]
      exact receive_down ih frames (.atom (Atom.unescape body) (some (.between file p q)))
    | closing =>
      cases frames with
      | nil =>
        simp only [List.map_nil, Reading.assemble, Reading.place, Location.between_down]
        rfl
      | cons frame outer =>
        have hlist := receive_down ih outer
          (.list frame.items.reverse (some (.between file frame.opening.start q)))
        rw [Node.down, Node.downs_eq_map, List.map_reverse, Option.map_some,
          ← Location.between_down] at hlist
        rw [List.map_cons, assemble_closing, assemble_closing]
        exact hlist

/-- **Reading a text further down gives the same trees and the same fault, further down.** -/
theorem reading_down (p : Position) (t : Text) :
    Reading.of file (p.down bytes lines) t = (Reading.of file p t).down bytes lines := by
  rw [Reading.of, scan_down]
  exact assemble_down (Scan.of p t).tokens []

end

/-! ## What a text is read as when more follows -/

theorem LastGap.line {gap : Text} (h : LastGap gap) : Gap (gap ++ [CodePoint.ofChar '\n']) := by
  have hline : Gap [CodePoint.ofChar '\n'] := .blank (by decide) .nil
  cases h with
  | gap h => exact h.append hline
  | comment hb h =>
    rw [List.append_assoc]
    exact h.append (.comment hb .nil)

/-- A line feed ends a bare atom. -/
theorem takeWhile_isBare_line {t : Text} (h : t.takeWhile Atom.isBare = []) (rest : Text) :
    (t ++ CodePoint.ofChar '\n' :: rest).takeWhile Atom.isBare = [] := by
  cases t with
  | nil => exact List.takeWhile_cons_of_neg (by decide)
  | cons c t =>
    refine List.takeWhile_cons_of_neg fun hc => ?_
    rw [List.takeWhile_cons_of_pos hc] at h
    cases h

variable {file : Text}

/-- Trees that are placed in front of a text are its first values, and the rest is read behind them. -/
theorem reading_append {p : Position} {ts : List Token} {vs : List Node} {t rest : Text}
    (hplaced : Placed p false ts t) (hmakes : Makes file ts vs)
    (hrest : endsBare false ts → rest.takeWhile Atom.isBare = []) :
    Reading.of file p (t ++ rest) =
      ⟨vs ++ (Reading.of file (p.advance t) rest).values, (Reading.of file (p.advance t) rest).fault⟩ := by
  rw [Reading.of, hplaced.scan hrest, hmakes.assemble]
  rfl

/-- The values of a text stay when it is continued on a new line. -/
theorem values_line {p : Position} {x : Text} {r : Reading} (h : Reading.of file p x = r) (y : Text) :
    r.values <+: (Reading.of file p (x ++ CodePoint.ofChar '\n' :: y)).values := by
  obtain ⟨vs, fault⟩ := r
  rw [← List.append_nil vs] at h
  obtain ⟨front, back, htokens, hmakes, -⟩ := exists_makes h
  obtain ⟨x₁, x₂, rfl, hplaced, hends, -⟩ := scan_cut (b := false) htokens (by simp)
  rw [List.append_assoc, reading_append hplaced hmakes fun hb => takeWhile_isBare_line (hends hb) y]
  exact List.prefix_append _ _

/-- Behind the values of a text that is read to its end there is a gap. -/
theorem placed_of_reading {p : Position} {x : Text} {vs : List Node}
    (h : Reading.of file p x = ⟨vs, none⟩) : ∃ ts x₁ x₂, x = x₁ ++ x₂ ∧ Placed p false ts x₁ ∧
      Makes file ts vs ∧ LastGap x₂ := by
  rw [← List.append_nil vs] at h
  obtain ⟨ts, back, htokens, hmakes, hback⟩ := exists_makes h
  cases hu : (Scan.of p x).unterminated with
  | some q =>
    rw [hu] at hback
    exact absurd (congrArg Reading.fault hback) (assemble_unterminated q _ _)
  | none =>
    rw [hu] at hback
    obtain ⟨-, rfl⟩ := tokens_of_assemble_nothing back [] hback
    obtain ⟨x₁, x₂, rfl, hplaced, -, hscan⟩ := scan_cut (b := false) htokens (by simp)
    rw [hu] at hscan
    exact ⟨ts, x₁, x₂, rfl, hplaced, hmakes, lastGap_of_scan hscan⟩

/-- A text that is read to its end is followed by what the new line is read as. -/
theorem reading_line {p : Position} {x : Text} {vs : List Node}
    (h : Reading.of file p x = ⟨vs, none⟩) (y : Text) :
    Reading.of file p (x ++ [CodePoint.ofChar '\n'] ++ y) =
      ⟨vs ++ (Reading.of file (p.advance (x ++ [CodePoint.ofChar '\n'])) y).values,
        (Reading.of file (p.advance (x ++ [CodePoint.ofChar '\n'])) y).fault⟩ := by
  obtain ⟨ts, x₁, x₂, rfl, hplaced, hmakes, hlast⟩ := placed_of_reading h
  have hrest : (x₂ ++ [CodePoint.ofChar '\n'] ++ y).takeWhile Atom.isBare = [] :=
    hlast.line.takeWhile_isBare_append (by simp) y
  have hgap : Reading.of file (p.advance x₁) (x₂ ++ [CodePoint.ofChar '\n'] ++ y) =
      Reading.of file ((p.advance x₁).advance (x₂ ++ [CodePoint.ofChar '\n'])) y := by
    rw [Reading.of, scan_past_gap hlast.line]
    rfl
  have hread := reading_append hplaced hmakes fun _ => hrest
  rw [hgap, ← Position.advance_append] at hread
  simpa using hread

end Grammar

namespace Source

open Grammar

theorem read_text {t : Text} (ht : t.any CodePoint.isSurrogate = false) (file : Text) :
    (Source.text t).read 0 file = .ok (Reading.of file .start t) :=
  read_eq_ok_iff.2 ⟨[], t, ⟨ht, rfl⟩, rfl, rfl⟩

/-- **Text that is appended on a new line disturbs nothing.** The values of `x` are the first values of
`x`, a line feed and `y`, at the same places. If `x` is read to its end, then the values of `y` follow,
as far down as the lines of `x` take them, and the reading ends as that of `y` ends. -/
theorem read_append_line {x y : Text} (hx : x.any CodePoint.isSurrogate = false)
    (hy : y.any CodePoint.isSurrogate = false) (file : Text) :
    ∃ rx ry r, (Source.text x).read 0 file = .ok rx ∧ (Source.text y).read 0 file = .ok ry ∧
      (Source.text (x ++ "\n" ++ y)).read 0 file = .ok r ∧ rx.values <+: r.values ∧
      (rx.fault = none →
        let bytes := Utf8.size (x ++ "\n")
        let lines := (x ++ "\n").count (CodePoint.ofChar '\n')
        r = ⟨rx.values ++ (ry.down bytes lines).values, (ry.down bytes lines).fault⟩ ∧
        r.values.map Node.sexp = rx.values.map Node.sexp ++ ry.values.map Node.sexp ∧
        r.fault.map (·.cause.message) = ry.fault.map (·.cause.message)) := by
  have hxy : (x ++ "\n" ++ y).any CodePoint.isSurrogate = false := by
    rw [List.any_append, List.any_append, hx, hy]
    rfl
  refine ⟨_, _, _, read_text hx file, read_text hy file, read_text hxy file, ?_, fun hfault => ?_⟩
  · have hprefix := values_line (r := Reading.of file .start x) rfl y
    rw [List.append_assoc]
    exact hprefix
  · have hends : Reading.of file .start x = ⟨(Reading.of file .start x).values, none⟩ := by
      rw [← hfault]
    have hread := reading_line hends y
    rw [Position.advance_start, Position.behind_line, reading_down] at hread
    intro bytes lines
    have hr : Reading.of file .start (x ++ "\n" ++ y) =
        ⟨(Reading.of file .start x).values ++ ((Reading.of file .start y).down bytes lines).values,
          ((Reading.of file .start y).down bytes lines).fault⟩ := hread
    refine ⟨hr, ?_, ?_⟩
    · rw [hr, List.map_append, Reading.sexp_down]
    · rw [hr, Reading.message_down]

/-- A text that ends in a comment, and one with a list that stays open. -/
theorem read_append_line_comment :
    let x : Text := "a;b"
    let y : Text := "c(d"
    x.any CodePoint.isSurrogate = false ∧ y.any CodePoint.isSurrogate = false ∧
    ∃ rx ry r, (Source.text x).read 0 "f" = .ok rx ∧ (Source.text y).read 0 "f" = .ok ry ∧
      (Source.text (x ++ "\n" ++ y)).read 0 "f" = .ok r ∧ rx.values <+: r.values ∧
      (rx.fault = none →
        let bytes := Utf8.size (x ++ "\n")
        let lines := (x ++ "\n").count (CodePoint.ofChar '\n')
        r = ⟨rx.values ++ (ry.down bytes lines).values, (ry.down bytes lines).fault⟩ ∧
        r.values.map Node.sexp = rx.values.map Node.sexp ++ ry.values.map Node.sexp ∧
        r.fault.map (·.cause.message) = ry.fault.map (·.cause.message)) :=
  ⟨by decide, by decide, read_append_line (by decide) (by decide) "f"⟩

end Source

end TypedSexp
