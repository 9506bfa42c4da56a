import TypedSexp.Proofs.Sexp.Places
/-!
# Where a malformed text is blamed

A text that is no list of trees has a first offence, in the order of its tokens (`Offends`): a closing
parenthesis while no list is open, a double quote that starts a token and is never closed, or, if
there is neither, the outermost parenthesis that stays open. Reading fails exactly at this offence,
with the trees that are complete before it (`reading_eq_failed_iff`). Nothing else can go wrong, because
a terminal matches wherever the next code point is not a double quote (`front_unterminated_iff`).
-/

namespace TypedSexp

theorem Position.advance_behind (s t : Text) : (behind s).advance t = behind (s ++ t) := by
  rw [← advance_start, ← advance_append, advance_start]

namespace Grammar

open Reading (assemble)

variable {file : Text}

/-! ## Where no terminal matches -/

/-- What a terminal of the scanner matches: a lexeme, a comment without the line feed that ends it, or
a run of blanks. -/
inductive Terminal : Text → Prop
  | lexeme {l : Lexeme} : WellFormed l → Terminal l.source
  | comment {body : Text} : CodePoint.ofChar '\n' ∉ body → Terminal (CodePoint.ofChar ';' :: body)
  | blanks {t : Text} : t ≠ [] → (∀ c ∈ t, c.isBlank) → Terminal t

/-- No double quote ends the body that the text starts with. -/
def NeverClosed (t : Text) : Prop :=
  ∀ body rest, QuotedBody body → t ≠ body ++ CodePoint.ofChar '"' :: rest

theorem closeQuote?_eq_none_iff {t : Text} : closeQuote? t = none ↔ NeverClosed t := by
  constructor
  · rintro h body rest hbody rfl
    rw [hbody.closeQuote? rest] at h
    cases h
  · intro h
    cases hq : closeQuote? t with
    | none => rfl
    | some parts =>
      obtain ⟨body, rest⟩ := parts
      refine absurd ?_ (h body rest (quotedBody_of_closeQuote? hq))
      rw [Front.eq_of_closeQuote hq, List.append_assoc]
      rfl

theorem front_unterminated {t : Text} : Front.of t = .unterminated ↔
    ∃ after, t = CodePoint.ofChar '"' :: after ∧ NeverClosed after := by
  constructor
  · intro h
    cases t with
    | nil => cases h
    | cons c t =>
      simp only [Front.of] at h
      split_ifs at h with _ _ hc
      cases hq : closeQuote? t with
      | some parts => rw [hq] at h; cases h
      | none => exact ⟨t, by rw [hc], closeQuote?_eq_none_iff.1 hq⟩
  · rintro ⟨after, rfl, hafter⟩
    have hq := closeQuote?_eq_none_iff.2 hafter
    simp only [Front.of, hq]
    rfl

/-- What the front takes off is matched by a terminal. -/
theorem terminal_of_front {t : Text} (hne : t ≠ []) (hopen : Front.of t ≠ .unterminated) :
    ∃ s rest, Terminal s ∧ t = s ++ rest := by
  cases hf : Front.of t with
  | nothing => exact absurd (front_nothing hf) hne
  | unterminated => exact absurd hf hopen
  | lexeme l rest => exact ⟨_, rest, .lexeme (front_lexeme hf).1, Front.eq_of_lexeme hf⟩
  | gap skipped rest =>
    obtain ⟨c, t, rfl, hc | rfl⟩ := front_gap hf
    · exact ⟨[c], t, .blanks (by simp) (by simpa using hc), rfl⟩
    · refine ⟨_, t.dropWhile Front.inComment, .comment (takeWhile_not_mem t), ?_⟩
      rw [List.cons_append, List.takeWhile_append_dropWhile]

/-- **The scanner stops only where no terminal matches, and there only at a double quote.** -/
theorem front_unterminated_iff {t : Text} : Front.of t = .unterminated ↔
    t ≠ [] ∧ ∀ s rest, Terminal s → t ≠ s ++ rest := by
  constructor
  · intro h
    obtain ⟨after, rfl, hafter⟩ := front_unterminated.1 h
    refine ⟨List.cons_ne_nil _ _, fun s rest hs ht => ?_⟩
    cases hs with
    | lexeme hl =>
      rename_i l
      cases l with
      | opening => exact absurd (List.cons.inj ht).1 (by decide)
      | closing => exact absurd (List.cons.inj ht).1 (by decide)
      | quoted body =>
        refine hafter body rest hl ?_
        simpa [Lexeme.source] using (List.cons.inj ht).2
      | bare w =>
        obtain ⟨hne, hall⟩ := hl
        obtain ⟨c, w, rfl⟩ := List.exists_cons_of_ne_nil hne
        obtain rfl := (List.cons.inj ht).1
        exact absurd (hall _ List.mem_cons_self) (by decide)
    | comment _ => exact absurd (List.cons.inj ht).1 (by decide)
    | blanks hne hall =>
      obtain ⟨c, w, rfl⟩ := List.exists_cons_of_ne_nil hne
      obtain rfl := (List.cons.inj ht).1
      exact absurd (hall _ List.mem_cons_self) (by decide)
  · rintro ⟨hne, hnone⟩
    by_contra hopen
    obtain ⟨s, rest, hs, ht⟩ := terminal_of_front hne hopen
    exact hnone s rest hs ht

/-! ## The first offence -/

/-- The location of one code point behind a text. -/
def onePlace (file before : Text) (c : CodePoint) : Location :=
  .between file (.behind before) (.behind (before ++ [c]))

/-- The first offence of a text that stands behind another one: the trees that are complete before it,
and the fault, which is placed at one code point. The tokens up to there are those of these trees and
those of lists that are still open. -/
inductive Offends (file skipped : Text) : Text → List Node → ParseFault → Prop
  /-- A closing parenthesis while no list is open. -/
  | closing {ts : List Token} {vs : List Node} {t gap after : Text} :
      Placed (.behind skipped) false ts t → Makes file ts vs → Gap gap →
      Offends file skipped (t ++ gap ++ CodePoint.ofChar ')' :: after) vs
        ⟨.unexpectedClosing, onePlace file (skipped ++ (t ++ gap)) ')'⟩
  /-- A double quote that starts a token and is never closed. -/
  | quote {ts pending : List Token} {frames : List Reading.Frame} {vs : List Node}
      {t gap after : Text} :
      Placed (.behind skipped) false (ts ++ pending) t → Makes file ts vs → Begun file frames pending →
      Gap gap → NeverClosed after →
      Offends file skipped (t ++ gap ++ CodePoint.ofChar '"' :: after) vs
        ⟨.unterminatedQuote, onePlace file (skipped ++ (t ++ gap)) '"'⟩
  /-- The outermost parenthesis that is open at the end. -/
  | unclosed {ts pending : List Token} {frames : List Reading.Frame} {vs : List Node}
      {t gap after last : Text} {p q : Position} :
      Placed (.behind skipped) false ts t → Makes file ts vs → Gap gap →
      p = .behind (skipped ++ (t ++ gap)) →
      q = .behind (skipped ++ (t ++ gap) ++ [CodePoint.ofChar '(']) →
      Placed q false pending after → Begun file frames (⟨.opening, p, q⟩ :: pending) → LastGap last →
      Offends file skipped (t ++ gap ++ CodePoint.ofChar '(' :: (after ++ last)) vs
        ⟨.unclosed, onePlace file (skipped ++ (t ++ gap)) '('⟩

/-! ## From the offence to the reading -/

variable {unterminated : Option Position}

/-- The tokens since the last value open just the lists that are still open. -/
theorem Begun.reached {frames : List Reading.Frame} {pending : List Token}
    (h : Begun file frames pending) (rest : List Token) :
    assemble file unterminated [] (pending ++ rest) = assemble file unterminated frames rest := by
  induction h generalizing rest with
  | nil => rfl
  | cons _ hi ih =>
    rw [List.append_assoc, ih, List.cons_append, assemble_opening, hi.assemble, Grammar.receive,
      List.reverse_reverse, List.append_nil]

theorem Begun.head? {frames : List Reading.Frame} {pending : List Token}
    (h : Begun file frames pending) :
    pending.head? = frames.getLast?.map Reading.Frame.opening := by
  induction h with
  | nil => rfl
  | @cons items p q outer before inner _ _ ih =>
    rw [List.head?_append, ih, List.getLast?_cons]
    cases outer.getLast? <;> rfl

theorem Begun.opening {frames : List Reading.Frame} {pending : List Token}
    (h : Begun file frames pending) : ∀ frame ∈ frames, frame.opening.lexeme = .opening := by
  induction h with
  | nil => simp
  | cons _ _ ih => exact List.forall_mem_cons.2 ⟨rfl, ih⟩

theorem assemble_quote (p : Position) (frames : List Reading.Frame) :
    assemble file (some p) frames [] = .failed .unterminatedQuote (Reading.quotePlace file p) := by
  rw [assemble]

theorem assemble_unclosed {frames : List Reading.Frame} {token : Token}
    (h : frames.getLast?.map Reading.Frame.opening = some token) :
    assemble file none frames [] = .failed .unclosed (Reading.place file token) := by
  obtain ⟨frame, hlast, rfl⟩ := Option.map_eq_some_iff.1 h
  simp only [assemble, hlast]

theorem quotePlace_behind (before : Text) :
    Reading.quotePlace file (.behind before) = onePlace file before '"' := by
  rw [onePlace, ← Position.advance_behind]
  rfl

/-- Placed tokens and a gap are scanned over, if no bare atom follows. -/
theorem Placed.scan_gap {p : Position} {ts : List Token} {t gap rest : Text}
    (h : Placed p false ts t) (hgap : Gap gap) (hrest : rest.takeWhile Atom.isBare = []) :
    Scan.of p (t ++ gap ++ rest) = ⟨ts ++ (Scan.of (p.advance (t ++ gap)) rest).tokens,
      (Scan.of (p.advance (t ++ gap)) rest).unterminated⟩ := by
  have hnext : (gap ++ rest).takeWhile Atom.isBare = [] := by
    by_cases hne : gap = []
    · rwa [hne]
    · exact hgap.takeWhile_isBare_append hne rest
  rw [List.append_assoc, h.scan fun _ => hnext, scan_past_gap hgap, Position.advance_append]

/-- A lexeme of one code point is a token where it stands, and what is behind it is scanned from there
on. -/
theorem scan_one {c : CodePoint} {l : Lexeme} {after : Text}
    (h : Front.of (c :: after) = .lexeme l after) (before : Text) :
    Scan.of (.behind before) (c :: after) =
      ⟨⟨l, .behind before, .behind (before ++ [c])⟩ ::
          (Scan.of (.behind (before ++ [c])) after).tokens,
        (Scan.of (.behind (before ++ [c])) after).unterminated⟩ := by
  have hfront : [c] ++ after = l.source ++ after := Front.eq_of_lexeme h
  have hsource : l.source = [c] := (List.append_cancel_right hfront).symm
  rw [scan_of_lexeme h, hsource, Position.advance_behind]

/-- **Reading fails at the first offence**, with the trees that are complete before it. -/
theorem reading_of_offends {skipped t : Text} {vs : List Node} {fault : ParseFault}
    (h : Offends file skipped t vs fault) :
    Reading.of file (.behind skipped) t = ⟨vs, some fault⟩ := by
  cases h with
  | @closing ts _ t gap after hplaced hmakes hgap =>
    have hnext : (CodePoint.ofChar ')' :: after).takeWhile Atom.isBare = [] :=
      List.takeWhile_cons_of_neg (by decide)
    have hscan := hplaced.scan_gap hgap hnext
    rw [Position.advance_behind, scan_one (l := .closing) rfl] at hscan
    rw [Reading.of, hscan, hmakes.assemble]
    simp [receive, assemble, Reading.failed, Reading.place, onePlace]
  | @quote ts pending frames _ t gap after hplaced hmakes hbegun hgap hafter =>
    have hnext : (CodePoint.ofChar '"' :: after).takeWhile Atom.isBare = [] :=
      List.takeWhile_cons_of_neg (by decide)
    have hscan := hplaced.scan_gap hgap hnext
    rw [Position.advance_behind, scan_of_unterminated (front_unterminated.2 ⟨after, rfl, hafter⟩)]
      at hscan
    rw [Reading.of, hscan, List.append_assoc, hmakes.assemble, receive, hbegun.reached,
      assemble_quote, quotePlace_behind]
    simp [Reading.failed]
  | @unclosed ts pending frames _ t gap after last p q hplaced hmakes hgap hp hq hafter hbegun hlast =>
    have hnext : (CodePoint.ofChar '(' :: (after ++ last)).takeWhile Atom.isBare = [] :=
      List.takeWhile_cons_of_neg (by decide)
    have hscan := hplaced.scan_gap hgap hnext
    rw [Position.advance_behind, scan_one (l := .opening) rfl, ← hp, ← hq,
      hafter.scan fun _ => hlast.takeWhile_isBare, scan_lastGap hlast, List.append_nil] at hscan
    have hrest : assemble file none [] (⟨.opening, p, q⟩ :: pending ++ []) = _ := hbegun.reached []
    rw [List.append_nil, assemble_unclosed hbegun.head?.symm] at hrest
    rw [Reading.of, hscan, hmakes.assemble, receive, hrest, onePlace, ← hp, ← hq]
    simp [Reading.failed, Reading.place]

/-! ## From the reading to the offence -/

/-- What the tokens behind the last value are blamed for. -/
def Blamed (file : Text) (unterminated : Option Position) (ts : List Token) (fault : ParseFault) :
    Prop :=
  (∃ p q rest, ts = ⟨.closing, p, q⟩ :: rest ∧ fault = ⟨.unexpectedClosing, .between file p q⟩) ∨
  ∃ frames, Begun file frames ts ∧
    ((∃ p, unterminated = some p ∧ fault = ⟨.unterminatedQuote, Reading.quotePlace file p⟩) ∨
      unterminated = none ∧ ∃ p q rest, ts = ⟨.opening, p, q⟩ :: rest ∧
        fault = ⟨.unclosed, .between file p q⟩)

theorem Begun.blamed {frames : List Reading.Frame} {ts : List Token} {fault : ParseFault}
    (h : Begun file frames ts)
    (hfault : Reading.assemble file unterminated frames [] = ⟨[], some fault⟩) :
    Blamed file unterminated ts fault := by
  refine .inr ⟨frames, h, ?_⟩
  cases unterminated with
  | some p =>
    rw [assemble_quote] at hfault
    cases hfault
    exact .inl ⟨p, rfl, rfl⟩
  | none =>
    cases hlast : frames.getLast? with
    | none =>
      simp only [Reading.assemble, hlast] at hfault
      cases hfault
    | some frame =>
      have hhead := h.head?
      have hopening := h.opening frame (List.mem_of_getLast? hlast)
      rw [hlast] at hhead
      obtain ⟨⟨l, p, q⟩, items⟩ := frame
      obtain rfl : l = .opening := hopening
      obtain ⟨rest, rfl⟩ := List.head?_eq_some_iff.1 hhead
      rw [assemble_unclosed (by rw [hlast]; rfl)] at hfault
      cases hfault
      exact .inr ⟨rfl, p, q, rest, rfl, rfl⟩

/-- A tree that is received without becoming a value is an item. -/
theorem Begun.item {frames : List Reading.Frame} {before piece ts : List Token} {n : Node}
    {fault : ParseFault} (hb : Begun file frames before) (hp : Makes file piece [n])
    (h : Grammar.receive file unterminated frames [n] ts = ⟨[], some fault⟩) :
    ∃ frames, Begun file frames (before ++ piece) ∧
      assemble file unterminated frames ts = ⟨[], some fault⟩ := by
  cases hb with
  | nil => cases (Reading.mk.inj h).1
  | @cons items p q outer before inner hb hi =>
    have hitems : Makes file (inner ++ piece) (n :: items).reverse := by
      rw [List.reverse_cons]
      exact hi.append hp
    exact ⟨_, by simpa using Begun.cons (p := p) (q := q) hb hitems, h⟩

theorem blamed_of_assemble {ts : List Token} {fault : ParseFault} :
    ∀ {frames : List Reading.Frame} {before : List Token}, Begun file frames before →
      assemble file unterminated frames ts = ⟨[], some fault⟩ →
      Blamed file unterminated (before ++ ts) fault := by
  induction ts with
  | nil =>
    intro frames before hb h
    rw [List.append_nil]
    exact hb.blamed h
  | cons token rest ih =>
    intro frames before hb h
    obtain ⟨l, p, q⟩ := token
    have next {frames : List Reading.Frame} (hb : Begun file frames (before ++ [⟨l, p, q⟩]))
        (h : assemble file unterminated frames rest = ⟨[], some fault⟩) :
        Blamed file unterminated (before ++ ⟨l, p, q⟩ :: rest) fault := by
      simpa using ih hb h
    cases l with
    | opening =>
      rw [assemble_opening] at h
      exact next (.cons hb .nil) h
    | bare t =>
      rw [assemble_bare] at h
      obtain ⟨frames, hb, h⟩ := hb.item (.bare .nil) h
      exact next hb h
    | quoted body =>
      rw [assemble_quoted] at h
      obtain ⟨frames, hb, h⟩ := hb.item (.quoted .nil) h
      exact next hb h
    | closing =>
      cases hb with
      | nil =>
        cases h
        exact .inl ⟨p, q, rest, rfl, rfl⟩
      | @cons items p₀ q₀ outer before inner hb hi =>
        rw [assemble_closing] at h
        have hp : Makes file (⟨.opening, p₀, q₀⟩ :: inner ++ [⟨.closing, p, q⟩])
            [.list items.reverse (some (.between file p₀ q))] := .list hi .nil
        obtain ⟨frames, hb, h⟩ := hb.item hp h
        exact next (by simpa using hb) h

/-- An open quote without a token before it stands behind a gap. -/
theorem unterminated_of_scan {p q : Position} {t : Text} (h : Scan.of p t = ⟨[], some q⟩) :
    ∃ gap after, t = gap ++ CodePoint.ofChar '"' :: after ∧ Gap gap ∧ NeverClosed after ∧
      q = p.advance gap := by
  obtain ⟨gap, rest, rfl, hscan, hfound⟩ := passesGap p t
  rw [hscan] at h
  rcases hfound with ⟨-, rfl⟩ | ⟨hgap, hfront | ⟨l, after, hfront⟩⟩
  · rw [scan_of_nothing rfl] at h
    cases h
  · obtain ⟨after, rfl, hafter⟩ := front_unterminated.1 hfront
    rw [scan_of_unterminated hfront] at h
    exact ⟨gap, after, rfl, hgap, hafter, by cases h; rfl⟩
  · rw [scan_of_lexeme hfront] at h
    cases h

/-- Behind some tokens of a text the next one stands behind a gap. -/
theorem next_token {skipped t : Text} {front back : List Token} {l : Lexeme} {p q : Position}
    (h : (Scan.of (.behind skipped) t).tokens = front ++ ⟨l, p, q⟩ :: back) :
    ∃ t₁ gap after, t = t₁ ++ gap ++ (l.source ++ after) ∧
      Placed (.behind skipped) false front t₁ ∧ Gap gap ∧
      p = .behind (skipped ++ (t₁ ++ gap)) ∧ q = .behind (skipped ++ (t₁ ++ gap) ++ l.source) ∧
      Scan.of q after = ⟨back, (Scan.of (.behind skipped) t).unterminated⟩ := by
  obtain ⟨t₁, t₂, rfl, hplaced, -, hscan⟩ := scan_cut (b := false) h (by simp)
  obtain ⟨gap, l, after, rfl, hgap, -, htoken, hrest, -⟩ := scan_first (congrArg Scan.tokens hscan)
  cases htoken
  refine ⟨t₁, gap, after, by simp, hplaced, hgap, ?_, ?_, ?_⟩
  · simp only [Position.advance_behind, List.append_assoc]
  · simp only [Position.advance_behind, List.append_assoc]
  · rw [hrest, hscan]

/-- **A reading that fails is blamed on the first offence.** -/
theorem offends_of_reading {skipped t : Text} {vs : List Node} {fault : ParseFault}
    (h : Reading.of file (.behind skipped) t = ⟨vs, some fault⟩) :
    Offends file skipped t vs fault := by
  rw [← List.append_nil vs] at h
  obtain ⟨front, back, htokens, hmakes, hback⟩ := exists_makes h
  have hblamed := blamed_of_assemble .nil hback
  rw [List.nil_append] at hblamed
  rcases hblamed with ⟨p, q, rest, rfl, rfl⟩ | ⟨frames, hbegun, hend⟩
  · obtain ⟨t₁, gap, after, rfl, hplaced, hgap, rfl, rfl, -⟩ := next_token htokens
    exact .closing hplaced hmakes hgap
  rcases hend with ⟨p, hopen, rfl⟩ | ⟨hclosed, p, q, pending, rfl, rfl⟩
  · rw [← List.append_nil (front ++ back)] at htokens
    obtain ⟨t₁, t₂, rfl, hplaced, -, hscan⟩ := scan_cut (b := false) htokens (by simp)
    rw [hopen] at hscan
    obtain ⟨gap, after, rfl, hgap, hafter, rfl⟩ := unterminated_of_scan hscan
    rw [← Position.advance_append, Position.advance_behind, quotePlace_behind, ← List.append_assoc]
    exact .quote hplaced hmakes hbegun hgap hafter
  · obtain ⟨t₁, gap, after, rfl, hplaced, hgap, hp, hq, hscan⟩ := next_token htokens
    rw [hclosed] at hscan
    -- the tokens behind the parenthesis are placed up to a last gap
    have hbehind : (Scan.of q after).tokens = pending ++ [] := by rw [hscan, List.append_nil]
    obtain ⟨t₂, last, rfl, hpending, -, hlast⟩ := scan_cut (b := false) hbehind (by simp)
    rw [hscan] at hlast
    have hfault : (⟨.unclosed, .between file p q⟩ : ParseFault) =
        ⟨.unclosed, onePlace file (skipped ++ (t₁ ++ gap)) '('⟩ := by rw [hp, hq]; rfl
    rw [hfault]
    have hlast : LastGap last := lastGap_of_scan hlast
    have hoffends := Offends.unclosed hplaced hmakes hgap hp hq hpending hbegun hlast
    exact hoffends

theorem reading_eq_failed_iff {skipped t : Text} {vs : List Node} {fault : ParseFault} :
    Reading.of file (.behind skipped) t = ⟨vs, some fault⟩ ↔ Offends file skipped t vs fault :=
  ⟨offends_of_reading, reading_of_offends⟩

/-- The wording of an offence. -/
theorem Offends.message {skipped t : Text} {vs : List Node} {fault : ParseFault}
    (h : Offends file skipped t vs fault) :
    fault.cause.message = "unexpected closing parenthesis" ∨
    fault.cause.message = "unterminated quoted atom" ∨
    fault.cause.message = "unclosed parenthesis: input ended before the matching `)`" := by
  cases h with
  | closing => exact .inl rfl
  | quote => exact .inr (.inl rfl)
  | unclosed => exact .inr (.inr rfl)

end Grammar

namespace Source

open Grammar

/-- **A malformed text is blamed on its first offence.** A source is read from each character's start
on. The reading fails exactly with the trees before the first offence, at the offence, and with one of
three messages. Wherever no terminal matches there is a double quote that is never closed, so no
character is unexpected. -/
theorem read_failed_iff {source : Source} {skipped body : Text} (h : source.Holds (skipped ++ body))
    (file : Text) : ∃ r, source.read (Utf8.size skipped) file = .ok r ∧
      (∀ vs fault, r = ⟨vs, some fault⟩ ↔ Offends file skipped body vs fault) ∧
      (∀ fault, r.fault = some fault →
        fault.cause.message = "unexpected closing parenthesis" ∨
        fault.cause.message = "unterminated quoted atom" ∨
        fault.cause.message = "unclosed parenthesis: input ended before the matching `)`") ∧
      ∀ before rest, body = before ++ rest → rest ≠ [] → (∀ s after, Terminal s → rest ≠ s ++ after) →
        ∃ after, rest = CodePoint.ofChar '"' :: after ∧ NeverClosed after := by
  refine ⟨_, read_eq_ok_iff.2 ⟨skipped, body, h, rfl, rfl⟩, fun vs fault => ?_, fun fault hfault => ?_,
    fun before rest _ hne hnone => front_unterminated.1 (front_unterminated_iff.2 ⟨hne, hnone⟩)⟩
  · rw [Position.advance_start]
    exact reading_eq_failed_iff
  · rw [Position.advance_start] at hfault
    exact (offends_of_reading (congrArg (Reading.mk _) hfault)).message

/-- Behind a character of two bytes: a list, and a quote that is never closed inside of another list. -/
theorem read_failed_iff_quote :
    let source : Source := .text "é(a) (b \"c)"
    source.Holds ("é" ++ "(a) (b \"c)") ∧
    ∃ r, source.read (Utf8.size "é") "f" = .ok r ∧
      (∀ vs fault, r = ⟨vs, some fault⟩ ↔ Offends "f" "é" "(a) (b \"c)" vs fault) ∧
      (∀ fault, r.fault = some fault →
        fault.cause.message = "unexpected closing parenthesis" ∨
        fault.cause.message = "unterminated quoted atom" ∨
        fault.cause.message = "unclosed parenthesis: input ended before the matching `)`") ∧
      ∀ before rest, (("(a) (b \"c)" : String) : Text) = before ++ rest → rest ≠ [] →
        (∀ s after, Terminal s → rest ≠ s ++ after) →
        ∃ after, rest = CodePoint.ofChar '"' :: after ∧ NeverClosed after :=
  have hholds : (Source.text "é(a) (b \"c)").Holds ("é" ++ "(a) (b \"c)") := ⟨by decide, by decide⟩
  ⟨hholds, read_failed_iff hholds "f"⟩

end Source

end TypedSexp
