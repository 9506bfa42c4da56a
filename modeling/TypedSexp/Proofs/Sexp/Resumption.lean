import TypedSexp.Proofs.Sexp.Sources
/-!
# Reading can be resumed

The tokens of a value end where its location stops (`Makes.place`, `Placed.last`), and a scan can be
cut there. So reading the rest of a source from the place where a value stops gives the values behind
it, at the same places, and ends as the whole reading ends (`read_resume`).
-/

namespace TypedSexp

namespace Grammar

variable {file : Text}

/-- A tree is placed from the start of its first token to the end of its last one. -/
theorem Makes.place {ts : List Token} {v : Node} (h : Makes file ts [v]) :
    ∃ first last, ts.head? = some first ∧ ts.getLast? = some last ∧
      v.location = some (.between file first.start last.stop) := by
  cases h with
  | bare h => cases h; exact ⟨_, _, rfl, rfl, rfl⟩
  | quoted h => cases h; exact ⟨_, _, rfl, rfl, rfl⟩
  | list _ h =>
    cases h
    exact ⟨_, _, rfl, List.getLast?_concat, rfl⟩

/-- The last of the tokens ends where their text ends. -/
theorem Placed.last {p : Position} {afterBare : Bool} {ts : List Token} {t : Text} {last : Token}
    (h : Placed p afterBare ts t) (hlast : ts.getLast? = some last) : last.stop = p.advance t := by
  induction h with
  | nil => cases hlast
  | @cons p afterBare gap t l ts hg hl hs hrest ih =>
    rw [Position.advance_append, Position.advance_append]
    cases ts with
    | nil =>
      cases hrest
      cases hlast
      rfl
    | cons token ts => exact ih (by rwa [List.getLast?_cons_cons] at hlast)

/-- A reading is cut behind a value: the rest of the text gives the rest of the reading. -/
theorem reading_cut {p : Position} {t : Text} {before after : List Node} {v : Node}
    {fault : Option ParseFault} (h : Reading.of file p t = ⟨before ++ v :: after, fault⟩) :
    ∃ t₁ t₂ l, t = t₁ ++ t₂ ∧ v.location = some l ∧ l.stop = (p.advance t₁).offset ∧
      Reading.of file (p.advance t₁) t₂ = ⟨after, fault⟩ := by
  obtain ⟨front, back, htokens, -, hrest⟩ := exists_makes h
  obtain ⟨piece, rest, rfl, hmakes, hafter⟩ := delivers_of_assemble .nil hrest
  rw [← List.append_assoc] at htokens
  obtain ⟨t₁, t₂, ht, hplaced, -, hscan⟩ := scan_cut (b := false) htokens (by simp)
  rw [List.nil_append] at hmakes
  obtain ⟨first, last, -, hlast, hlocation⟩ := hmakes.place
  refine ⟨t₁, t₂, _, ht, hlocation, ?_, ?_⟩
  · rw [hplaced.last (by rw [List.getLast?_append, hlast]; rfl)]
    rfl
  · show Reading.assemble file (Scan.of (p.advance t₁) t₂).unterminated [] (Scan.of _ t₂).tokens = _
    rw [hscan]
    exact hafter

end Grammar

namespace Source

/-- **Reading can be resumed behind any value.** From the place where a value stops on, a source is
read as the values behind it, at the same places, and with the same fault or none. -/
theorem read_resume {source : Source} {start : Int} {file : Text} {r : Reading}
    (h : source.read start file = .ok r) {before after : List Node} {v : Node}
    (hv : r.values = before ++ v :: after) :
    ∃ l, v.location = some l ∧ source.read l.stop file = .ok ⟨after, r.fault⟩ := by
  obtain ⟨values, fault⟩ := r
  obtain rfl : values = before ++ v :: after := hv
  obtain ⟨skipped, body, hholds, rfl, hr⟩ := read_eq_ok_iff.1 h
  obtain ⟨t₁, t₂, l, rfl, hlocation, hstop, hrest⟩ := Grammar.reading_cut hr
  refine ⟨l, hlocation, read_eq_ok_iff.2 ⟨skipped ++ t₁, t₂, ?_, ?_, ?_⟩⟩
  · rwa [List.append_assoc]
  · rw [hstop, ← Position.advance_append, Position.offset_advance]
    simp [Position.start]
  · rw [Position.advance_append, hrest]

/-- A character of two bytes, a comment, a list over two lines, and a list that stays open. -/
def unclosed : Source := .text "é;c\n(a\n)(x"

theorem read_unclosed : unclosed.read 0 "f" =
    .ok ⟨[.atom "é" (some ⟨"f", 1, 1, 0, 2, 1, 2⟩),
        .list [.atom "a" (some ⟨"f", 2, 2, 6, 7, 2, 3⟩)] (some ⟨"f", 2, 1, 5, 9, 3, 2⟩)],
      some ⟨.unclosed, ⟨"f", 3, 2, 9, 10, 3, 3⟩⟩⟩ := by
  have hscan : Scan.of .start "é;c\n(a\n)(x" =
      ⟨[⟨.bare "é", .start, ⟨2, 1, 2⟩⟩, ⟨.opening, ⟨5, 2, 1⟩, ⟨6, 2, 2⟩⟩,
        ⟨.bare "a", ⟨6, 2, 2⟩, ⟨7, 2, 3⟩⟩, ⟨.closing, ⟨8, 3, 1⟩, ⟨9, 3, 2⟩⟩,
        ⟨.opening, ⟨9, 3, 2⟩, ⟨10, 3, 3⟩⟩, ⟨.bare "x", ⟨10, 3, 3⟩, ⟨11, 3, 4⟩⟩], none⟩ := by
    decide +kernel
  refine read_eq_ok_iff.2 ⟨[], "é;c\n(a\n)(x", ⟨by decide, rfl⟩, rfl, ?_⟩
  rw [Reading.of, Position.advance_nil, hscan]
  rfl

/-- The reading goes on behind the first atom. -/
theorem read_resume_unclosed :
    ∃ l, (Node.atom "é" (some ⟨"f", 1, 1, 0, 2, 1, 2⟩)).location = some l ∧
      unclosed.read l.stop "f" =
        .ok ⟨[.list [.atom "a" (some ⟨"f", 2, 2, 6, 7, 2, 3⟩)] (some ⟨"f", 2, 1, 5, 9, 3, 2⟩)],
          some ⟨.unclosed, ⟨"f", 3, 2, 9, 10, 3, 3⟩⟩⟩ := by
  have hvalues {a b : Node} : [a, b] = [] ++ a :: [b] := rfl
  exact read_resume read_unclosed hvalues

end Source

end TypedSexp
