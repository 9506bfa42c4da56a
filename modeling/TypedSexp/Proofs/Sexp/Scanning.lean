import Mathlib.Data.List.TakeWhile
import Mathlib.Tactic.SplitIfs
import TypedSexp.Proofs.Sexp.Grammar
/-!
# Scanning finds the lexemes of the grammar

A scan goes over a gap up to the next lexeme (`scan_past_gap`, `passesGap`). So its tokens stand at
their places in the text (`Placed`), and behind any of them the scan can be cut (`scan_cut`). The
other way round, tokens that are placed in a text are what its scan finds, whatever follows them
(`Placed.scan`). `lexemes? t` forgets the positions of a scan. It is some list exactly if the text is
spaced as that list of lexemes (`lexemes?_eq_some_iff`).
-/

namespace TypedSexp

/-- The lexemes of a scan, unless a quote stays open. -/
def Scan.lexemes? (s : Scan) : Option (List Lexeme) :=
  match s.unterminated with
  | none => some (s.tokens.map Token.lexeme)
  | some _ => none

namespace Grammar

/-- The lexemes of a text, unless a quote stays open. -/
def lexemes? (t : Text) : Option (List Lexeme) := (Scan.of .start t).lexemes?

/-! ## Positions do not matter -/

theorem scan_of_lexeme {p : Position} {t rest : Text} {l : Lexeme}
    (h : Front.of t = .lexeme l rest) : Scan.of p t =
      ⟨⟨l, p, p.advance l.source⟩ :: (Scan.of (p.advance l.source) rest).tokens,
        (Scan.of (p.advance l.source) rest).unterminated⟩ := by
  rw [Scan.of]
  split <;> rename_i hf <;> rw [h] at hf <;> cases hf
  rfl

theorem scan_of_gap {p : Position} {t skipped rest : Text} (h : Front.of t = .gap skipped rest) :
    Scan.of p t = Scan.of (p.advance skipped) rest := by
  rw [Scan.of]
  split <;> rename_i hf <;> rw [h] at hf <;> cases hf
  rfl

theorem scan_of_nothing {p : Position} {t : Text} (h : Front.of t = .nothing) :
    Scan.of p t = ⟨[], none⟩ := by
  rw [Scan.of]
  split <;> rename_i hf <;> rw [h] at hf <;> cases hf

theorem scan_of_unterminated {p : Position} {t : Text} (h : Front.of t = .unterminated) :
    Scan.of p t = ⟨[], some p⟩ := by
  rw [Scan.of]
  split <;> rename_i hf <;> rw [h] at hf <;> cases hf

theorem scan_lexeme {p : Position} {t rest : Text} {l : Lexeme} (h : Front.of t = .lexeme l rest) :
    (Scan.of p t).lexemes? = ((Scan.of (p.advance l.source) rest).lexemes?).map (l :: ·) := by
  rw [scan_of_lexeme h]
  simp only [Scan.lexemes?]
  split <;> simp

theorem scan_gap {p : Position} {t skipped rest : Text} (h : Front.of t = .gap skipped rest) :
    (Scan.of p t).lexemes? = (Scan.of (p.advance skipped) rest).lexemes? := by
  rw [scan_of_gap h]

theorem scan_nothing {p : Position} {t : Text} (h : Front.of t = .nothing) :
    (Scan.of p t).lexemes? = some [] := by
  rw [scan_of_nothing h]
  rfl

theorem scan_unterminated {p : Position} {t : Text} (h : Front.of t = .unterminated) :
    (Scan.of p t).lexemes? = none := by
  rw [scan_of_unterminated h]
  rfl

/-- Where a text starts does not matter for its lexemes. -/
theorem lexemes?_of (p : Position) (t : Text) : (Scan.of p t).lexemes? = lexemes? t := by
  suffices h : ∀ (n : Nat) (t : Text) (p q : Position), t.length ≤ n →
      (Scan.of p t).lexemes? = (Scan.of q t).lexemes? from h t.length t p .start (Nat.le_refl _)
  intro n
  induction n with
  | zero =>
    intro t p q hn
    obtain rfl : t = [] := List.length_eq_zero_iff.1 (by omega)
    rw [scan_nothing rfl, scan_nothing rfl]
  | succ n ih =>
    intro t p q hn
    cases h : Front.of t with
    | nothing => rw [scan_nothing h, scan_nothing h]
    | unterminated => rw [scan_unterminated h, scan_unterminated h]
    | gap skipped rest =>
      have := Front.length_gap h
      rw [scan_gap h, scan_gap h]
      exact ih rest _ _ (by omega)
    | lexeme l rest =>
      have := Front.length_lexeme h
      rw [scan_lexeme h, scan_lexeme h, ih rest _ (q.advance l.source) (by omega)]

/-! ## One equation for each class of first code points -/

/-- A code point that starts none of the lexemes with a structural code point. -/
theorem not_structural {c : CodePoint} (h : Atom.isStructural c = false) :
    c ≠ '(' ∧ c ≠ ')' ∧ c ≠ '"' ∧ c ≠ ';' := by
  simpa [Atom.isStructural, and_assoc] using h

theorem isStructural_of_isBlank {c : CodePoint} (h : c.isBlank) : Atom.isStructural c = false := by
  cases hs : Atom.isStructural c with
  | false => rfl
  | true =>
    have hc : c = '(' ∨ c = ')' ∨ c = '"' ∨ c = ';' := by
      simpa [Atom.isStructural, or_assoc] using hs
    rcases hc with rfl | rfl | rfl | rfl <;> exact absurd h (by decide)

theorem isBlank_and_isStructural_of_isBare {c : CodePoint} (h : Atom.isBare c) :
    c.isBlank = false ∧ Atom.isStructural c = false := by
  simpa [Atom.isBare] using h

theorem front_blank {c : CodePoint} {t : Text} (hc : c.isBlank) :
    Front.of (c :: t) = .gap (c :: t.takeWhile CodePoint.isBlank) (t.dropWhile CodePoint.isBlank) := by
  obtain ⟨h1, h2, h3, h4⟩ := not_structural (isStructural_of_isBlank hc)
  simp [Front.of, h1, h2, h3, h4, hc]

theorem inComment_of_not_mem {body : Text} (hb : CodePoint.ofChar '\n' ∉ body) :
    ∀ c ∈ body, Front.inComment c := by
  intro c hc
  simp only [Front.inComment, decide_eq_true_eq]
  rintro rfl
  exact hb hc

theorem front_comment (t : Text) :
    Front.of (CodePoint.ofChar ';' :: t) =
      .gap (CodePoint.ofChar ';' :: t.takeWhile Front.inComment) (t.dropWhile Front.inComment) := by
  rfl

theorem front_of_closed {t body after : Text} (h : closeQuote? t = some (body, after)) :
    Front.of (CodePoint.ofChar '"' :: t) = .lexeme (.quoted body) after := by
  simp only [Front.of, h]
  rfl

theorem front_quoted {body : Text} (hb : QuotedBody body) (t : Text) :
    Front.of (CodePoint.ofChar '"' :: (body ++ CodePoint.ofChar '"' :: t)) =
      .lexeme (.quoted body) t :=
  front_of_closed (hb.closeQuote? t)

theorem front_bare {w t : Text} (hw : WellFormed (.bare w)) (ht : t.takeWhile Atom.isBare = []) :
    Front.of (w ++ t) = .lexeme (.bare w) t := by
  obtain ⟨hne, hall⟩ := hw
  cases w with
  | nil => exact absurd rfl hne
  | cons c w =>
    obtain ⟨hb, hs⟩ := isBlank_and_isStructural_of_isBare (hall c List.mem_cons_self)
    obtain ⟨h1, h2, h3, h4⟩ := not_structural hs
    have hw' : ∀ d ∈ w, Atom.isBare d := fun d hd => hall d (List.mem_cons_of_mem c hd)
    have hd : t.dropWhile Atom.isBare = t := by
      have := List.takeWhile_append_dropWhile (p := Atom.isBare) (l := t)
      rwa [ht, List.nil_append] at this
    simp only [List.cons_append, Front.of, h1, h2, h3, h4, hb, if_false, Bool.false_eq_true]
    rw [List.takeWhile_append_of_pos hw', List.dropWhile_append_of_pos hw', ht, hd, List.append_nil]

/-- A lexeme of the grammar is taken whole, unless it is bare and the text goes on with it. -/
theorem front_source {l : Lexeme} {t : Text} (hl : WellFormed l)
    (ht : isBareLexeme l → t.takeWhile Atom.isBare = []) :
    Front.of (l.source ++ t) = .lexeme l t := by
  cases l with
  | opening => rfl
  | closing => rfl
  | bare w => exact front_bare hl (ht rfl)
  | quoted body =>
    have := front_quoted hl t
    simpa [Lexeme.source] using this

/-! ## A scan goes over gaps -/

theorem scan_blank {p : Position} {c : CodePoint} {t : Text} (hc : c.isBlank) :
    Scan.of p (c :: t) = Scan.of (p.step c) t := by
  rw [scan_of_gap (front_blank hc), Position.advance_cons]
  cases t with
  | nil => rfl
  | cons d t =>
    by_cases hd : d.isBlank
    · rw [List.takeWhile_cons_of_pos hd, List.dropWhile_cons_of_pos hd, scan_of_gap (front_blank hd)]
    · rw [List.takeWhile_cons_of_neg hd, List.dropWhile_cons_of_neg hd, Position.advance_nil]

/-- A comment runs up to its line feed. -/
theorem front_comment_line {body : Text} (hb : CodePoint.ofChar '\n' ∉ body) (t : Text) :
    Front.of (CodePoint.ofChar ';' :: (body ++ CodePoint.ofChar '\n' :: t)) =
      .gap (CodePoint.ofChar ';' :: body) (CodePoint.ofChar '\n' :: t) := by
  have hall := inComment_of_not_mem hb
  have hline : Front.inComment (CodePoint.ofChar '\n') ≠ true := by decide
  rw [front_comment, List.takeWhile_append_of_pos hall, List.dropWhile_append_of_pos hall,
    List.takeWhile_cons_of_neg hline, List.dropWhile_cons_of_neg hline, List.append_nil]

theorem front_lastComment {body : Text} (hb : CodePoint.ofChar '\n' ∉ body) :
    Front.of (CodePoint.ofChar ';' :: body) = .gap (CodePoint.ofChar ';' :: body) [] := by
  have hall := inComment_of_not_mem hb
  have htake : body.takeWhile Front.inComment = body := List.takeWhile_eq_self_iff.2 hall
  rw [front_comment, htake, List.dropWhile_eq_nil_iff.2 hall]

theorem scan_comment {body : Text} (hb : CodePoint.ofChar '\n' ∉ body) (p : Position) (t : Text) :
    Scan.of p (CodePoint.ofChar ';' :: body ++ CodePoint.ofChar '\n' :: t) =
      Scan.of (p.advance (CodePoint.ofChar ';' :: body ++ [CodePoint.ofChar '\n'])) t := by
  rw [List.cons_append, scan_of_gap (front_comment_line hb t), scan_blank (by decide),
    Position.advance_append]
  rfl

/-- **Scanning a gap and what follows it is scanning what follows it.** -/
theorem scan_past_gap {g : Text} (hg : Gap g) (p : Position) (t : Text) :
    Scan.of p (g ++ t) = Scan.of (p.advance g) t := by
  induction hg generalizing p with
  | nil => rfl
  | blank hc _ ih => rw [List.cons_append, scan_blank hc, ih, Position.advance_cons]
  | @comment body rest hb _ ih =>
    have hsplit (s : Text) : CodePoint.ofChar ';' :: body ++ CodePoint.ofChar '\n' :: s =
        CodePoint.ofChar ';' :: body ++ [CodePoint.ofChar '\n'] ++ s := by simp
    have hline : CodePoint.ofChar ';' :: body ++ CodePoint.ofChar '\n' :: rest ++ t =
        CodePoint.ofChar ';' :: body ++ CodePoint.ofChar '\n' :: (rest ++ t) := by simp
    rw [hline, scan_comment hb, ih, hsplit rest, Position.advance_append _ _ rest]

theorem scan_lastGap {g : Text} (hg : LastGap g) (p : Position) : Scan.of p g = ⟨[], none⟩ := by
  cases hg with
  | gap h =>
    have := scan_past_gap h p []
    rwa [List.append_nil, scan_of_nothing (t := []) rfl] at this
  | comment hb h => rw [scan_past_gap h, scan_of_gap (front_lastComment hb), scan_of_nothing rfl]

theorem takeWhile_not_mem (t : Text) : CodePoint.ofChar '\n' ∉ t.takeWhile Front.inComment := by
  intro h
  have hall := List.all_eq_true.1 (List.all_takeWhile (p := Front.inComment) (l := t)) _ h
  exact absurd hall (by decide)

/-- What stands behind a comment: nothing, or a line feed. -/
theorem dropWhile_inComment (t : Text) :
    t.dropWhile Front.inComment = [] ∨
      ∃ rest, t.dropWhile Front.inComment = CodePoint.ofChar '\n' :: rest := by
  cases h : t.dropWhile Front.inComment with
  | nil => exact .inl rfl
  | cons c rest =>
    have hc := List.head_dropWhile_not (p := Front.inComment) (l := t) (by rw [h]; simp)
    simp only [h, List.head_cons] at hc
    have : c = '\n' := by simpa [Front.inComment] using hc
    exact .inr ⟨rest, by rw [this]⟩

/-! ## What a scan goes over -/

/-- A lexeme in front is well formed, and a bare one is taken whole. -/
theorem front_lexeme {t rest : Text} {l : Lexeme} (h : Front.of t = .lexeme l rest) :
    WellFormed l ∧ (isBareLexeme l → rest.takeWhile Atom.isBare = [] ∧ t.takeWhile Atom.isBare ≠ []) := by
  cases t with
  | nil => simp [Front.of] at h
  | cons c t =>
    simp only [Front.of] at h
    split_ifs at h with h1 h2 h3 h4 h5
    · obtain ⟨rfl, rfl⟩ := Front.lexeme.inj h
      exact ⟨trivial, by simp [isBareLexeme]⟩
    · obtain ⟨rfl, rfl⟩ := Front.lexeme.inj h
      exact ⟨trivial, by simp [isBareLexeme]⟩
    · cases hq : closeQuote? t with
      | none => simp [hq] at h
      | some parts =>
        rw [hq] at h
        obtain ⟨rfl, rfl⟩ := Front.lexeme.inj h
        exact ⟨quotedBody_of_closeQuote? hq, by simp [isBareLexeme]⟩
    · obtain ⟨rfl, rfl⟩ := Front.lexeme.inj h
      have hc : Atom.isBare c := by simp [Atom.isBare, Atom.isStructural, h1, h2, h3, h4, h5]
      refine ⟨⟨by simp, ?_⟩, fun _ => ⟨?_, by simp [hc]⟩⟩
      · intro d hd
        rcases List.mem_cons.1 hd with rfl | hd
        · exact hc
        · exact List.all_eq_true.1 (List.all_takeWhile (p := Atom.isBare) (l := t)) d hd
      · cases hd : t.dropWhile Atom.isBare with
        | nil => rfl
        | cons d rest =>
          have hne := List.head_dropWhile_not (p := Atom.isBare) (l := t) (by rw [hd]; simp)
          simp only [hd, List.head_cons] at hne
          simp [hne]

theorem front_nothing {t : Text} (h : Front.of t = .nothing) : t = [] := by
  cases t with
  | nil => rfl
  | cons c t =>
    simp only [Front.of] at h
    split_ifs at h
    split at h <;> cases h

theorem front_gap {t skipped rest : Text} (h : Front.of t = .gap skipped rest) :
    ∃ c t', t = c :: t' ∧ (c.isBlank ∨ c = ';') := by
  cases t with
  | nil => simp [Front.of] at h
  | cons c t =>
    simp only [Front.of] at h
    split_ifs at h with _ _ _ h4 h5
    · split at h <;> cases h
    · exact ⟨c, t, rfl, .inr h4⟩
    · exact ⟨c, t, rfl, .inl h5⟩

/-- The scan of the text goes over a gap first. Behind it there is a lexeme or a quote that stays
open, unless the gap is the whole text. -/
def PassesGap (p : Position) (t : Text) : Prop :=
  ∃ gap rest, t = gap ++ rest ∧ Scan.of p t = Scan.of (p.advance gap) rest ∧
    (LastGap gap ∧ rest = [] ∨
      Gap gap ∧ (Front.of rest = .unterminated ∨ ∃ l after, Front.of rest = .lexeme l after))

theorem PassesGap.prepend {p : Position} {s t : Text} (hs : Gap s)
    (hscan : Scan.of p (s ++ t) = Scan.of (p.advance s) t) (ht : PassesGap (p.advance s) t) :
    PassesGap p (s ++ t) := by
  obtain ⟨gap, rest, rfl, hrest, hfound⟩ := ht
  refine ⟨s ++ gap, rest, (List.append_assoc ..).symm, ?_, ?_⟩
  · rw [hscan, hrest, Position.advance_append]
  · exact hfound.imp (fun h => ⟨h.1.prepend hs, h.2⟩) fun h => ⟨hs.append h.1, h.2⟩

theorem passesGap (p : Position) (t : Text) : PassesGap p t := by
  induction hn : t.length using Nat.strongRecOn generalizing p t with
  | ind n ih =>
    subst hn
    cases hf : Front.of t with
    | nothing => exact ⟨[], t, rfl, rfl, .inl ⟨.gap .nil, front_nothing hf⟩⟩
    | unterminated => exact ⟨[], t, rfl, rfl, .inr ⟨.nil, .inl hf⟩⟩
    | lexeme l after => exact ⟨[], t, rfl, rfl, .inr ⟨.nil, .inr ⟨l, after, hf⟩⟩⟩
    | gap skipped rest =>
      obtain ⟨c, t, rfl, hc | rfl⟩ := front_gap hf
      · exact .prepend (s := [c]) (.blank hc .nil) (scan_blank hc) (ih t.length (by simp) _ t rfl)
      · have ht := List.takeWhile_append_dropWhile (p := Front.inComment) (l := t)
        have hbody := takeWhile_not_mem t
        generalize t.takeWhile Front.inComment = body at ht hbody
        rcases dropWhile_inComment t with hd | ⟨r, hd⟩
        · rw [hd, List.append_nil] at ht
          subst ht
          exact ⟨_, [], (List.append_nil _).symm, scan_of_gap (front_lastComment hbody),
            .inl ⟨.comment hbody .nil, rfl⟩⟩
        · -- the line feed belongs to the comment
          rw [hd] at ht
          subst ht
          have htext : CodePoint.ofChar ';' :: (body ++ CodePoint.ofChar '\n' :: r) =
              CodePoint.ofChar ';' :: body ++ [CodePoint.ofChar '\n'] ++ r := by simp
          have hlen : r.length < (CodePoint.ofChar ';' :: (body ++ CodePoint.ofChar '\n' :: r)).length := by
            simp
            omega
          rw [htext]
          refine .prepend (.comment hbody .nil) ?_ (ih r.length hlen _ r rfl)
          rw [← htext]
          exact scan_comment hbody p r

/-! ## Tokens stand at their places -/

/-- A text that ends with the last of some tokens. From the position on, their lexemes are written
with gaps before and between them, and each token knows its two ends. Between two bare atoms there is
a gap; `afterBare` says that the text follows one. -/
inductive Placed : Position → Bool → List Token → Text → Prop
  | nil {p : Position} {afterBare : Bool} : Placed p afterBare [] []
  | cons {p : Position} {afterBare : Bool} {gap t : Text} {l : Lexeme} {ts : List Token} (hg : Gap gap)
      (hl : WellFormed l) (hs : afterBare → isBareLexeme l → gap ≠ []) :
      Placed ((p.advance gap).advance l.source) (isBareLexeme l) ts t →
      Placed p afterBare (⟨l, p.advance gap, (p.advance gap).advance l.source⟩ :: ts)
        (gap ++ l.source ++ t)

/-- A first token: what it is, where it stands, and the scan of the text behind it. -/
theorem scan_first {p : Position} {t : Text} {token : Token} {ts : List Token}
    (h : (Scan.of p t).tokens = token :: ts) :
    ∃ gap l rest, t = gap ++ l.source ++ rest ∧ Gap gap ∧ WellFormed l ∧
      token = ⟨l, p.advance gap, (p.advance gap).advance l.source⟩ ∧
      Scan.of ((p.advance gap).advance l.source) rest = ⟨ts, (Scan.of p t).unterminated⟩ ∧
      (isBareLexeme l → rest.takeWhile Atom.isBare = [] ∧
        (gap = [] → t.takeWhile Atom.isBare ≠ [])) := by
  obtain ⟨gap, rest, rfl, hscan, hfound⟩ := passesGap p t
  rw [hscan] at h ⊢
  rcases hfound with ⟨-, rfl⟩ | ⟨hgap, hfront | ⟨l, after, hfront⟩⟩
  · rw [scan_of_nothing rfl] at h
    cases h
  · rw [scan_of_unterminated hfront] at h
    cases h
  · rw [scan_of_lexeme hfront] at h ⊢
    obtain ⟨rfl, rfl⟩ := List.cons.inj h
    obtain ⟨hl, hbare⟩ := front_lexeme hfront
    have htext := Front.eq_of_lexeme hfront
    refine ⟨gap, l, after, by rw [htext, List.append_assoc], hgap, hl, rfl, rfl, fun hl => ?_⟩
    obtain ⟨hafter, hne⟩ := hbare hl
    refine ⟨hafter, ?_⟩
    rintro rfl
    exact hne

/-- The last of some tokens is a bare atom; without a token, whether one stands before them. -/
def endsBare (afterBare : Bool) (ts : List Token) : Bool :=
  ts.foldl (fun _ t => isBareLexeme t.lexeme) afterBare

/-- **A scan can be cut behind any of its tokens.** What it found so far stands at its places, and
scanning from there on finds the rest. A bare atom is not cut. -/
theorem scan_cut {front back : List Token} : ∀ {p : Position} {t : Text} {b : Bool},
    (Scan.of p t).tokens = front ++ back → (b → t.takeWhile Atom.isBare = []) →
    ∃ t₁ t₂, t = t₁ ++ t₂ ∧ Placed p b front t₁ ∧
      (endsBare b front → t₂.takeWhile Atom.isBare = []) ∧
      Scan.of (p.advance t₁) t₂ = ⟨back, (Scan.of p t).unterminated⟩ := by
  induction front with
  | nil =>
    intro p t b h hb
    exact ⟨[], t, rfl, .nil, hb, by rw [Position.advance_nil, ← List.nil_append back, ← h]⟩
  | cons token ts ih =>
    intro p t b h hb
    obtain ⟨gap, l, rest, rfl, hgap, hl, rfl, hscan, hbare⟩ := scan_first h
    obtain ⟨t₁, t₂, rfl, hplaced, hends, hrest⟩ :=
      ih (p := (p.advance gap).advance l.source) (t := rest) (b := isBareLexeme l)
        (congrArg Scan.tokens hscan) fun hl => (hbare hl).1
    refine ⟨gap ++ l.source ++ t₁, t₂, by simp, .cons hgap hl ?_ hplaced, hends, ?_⟩
    · rintro hafter hl rfl
      exact (hbare hl).2 rfl (hb hafter)
    · rw [Position.advance_append, Position.advance_append, hrest, hscan]

theorem Placed.takeWhile_isBare {p : Position} {ts : List Token} {t rest : Text}
    (h : Placed p true ts t) (hrest : endsBare true ts → rest.takeWhile Atom.isBare = []) :
    (t ++ rest).takeWhile Atom.isBare = [] := by
  cases h with
  | nil => exact hrest rfl
  | cons hg _ hs _ =>
    rw [List.append_assoc, List.append_assoc]
    exact takeWhile_isBare_lexeme hg (hs rfl) _

/-- **Placed tokens are what a scan finds.** What follows them is scanned from there on, if it does not
go on with a bare atom at their end. -/
theorem Placed.scan {p : Position} {b : Bool} {ts : List Token} {t rest : Text}
    (h : Placed p b ts t) (hrest : endsBare b ts → rest.takeWhile Atom.isBare = []) :
    Scan.of p (t ++ rest) = ⟨ts ++ (Scan.of (p.advance t) rest).tokens,
      (Scan.of (p.advance t) rest).unterminated⟩ := by
  induction h with
  | nil => rfl
  | @cons p b gap t l ts hg hl hs hplaced ih =>
    have hfront : Front.of (l.source ++ (t ++ rest)) = .lexeme l (t ++ rest) := by
      refine front_source hl fun hbare => ?_
      rw [hbare] at hplaced
      exact hplaced.takeWhile_isBare fun hends => hrest (by rw [← hends, ← hbare]; rfl)
    rw [List.append_assoc, List.append_assoc, scan_past_gap hg, scan_of_lexeme hfront, ih hrest,
      Position.advance_append, Position.advance_append, List.cons_append]

/-- Without a token and an open quote there is nothing but a gap. -/
theorem lastGap_of_scan {p : Position} {t : Text} (h : Scan.of p t = ⟨[], none⟩) : LastGap t := by
  obtain ⟨gap, rest, rfl, hscan, hfound⟩ := passesGap p t
  rw [hscan] at h
  rcases hfound with ⟨hgap, rfl⟩ | ⟨hgap, hfront | ⟨l, after, hfront⟩⟩
  · rwa [List.append_nil]
  · rw [scan_of_unterminated hfront] at h
    cases h
  · rw [scan_of_lexeme hfront] at h
    cases h

theorem Placed.spaced {p : Position} {b : Bool} {ts : List Token} {t gap : Text}
    (h : Placed p b ts t) (hg : LastGap gap) : Spaced b (ts.map Token.lexeme) (t ++ gap) := by
  induction h with
  | nil => exact .last hg
  | cons hg hl hs _ ih =>
    rw [List.append_assoc]
    exact .lexeme hg hl hs ih

/-! ## Scanning and spacing agree -/

/-- The lexemes of a spaced text have their places in it. -/
theorem Spaced.placed {b : Bool} {ls : List Lexeme} {t : Text} (h : Spaced b ls t) (p : Position) :
    ∃ ts t' gap, t = t' ++ gap ∧ LastGap gap ∧ Placed p b ts t' ∧ ts.map Token.lexeme = ls := by
  induction h generalizing p with
  | last hg => exact ⟨[], [], _, rfl, hg, .nil, rfl⟩
  | lexeme hg hl hs _ ih =>
    obtain ⟨ts, t', gap, rfl, hgap, hplaced, rfl⟩ := ih _
    exact ⟨_, _, gap, (List.append_assoc ..).symm, hgap, .cons hg hl hs hplaced, rfl⟩

theorem scan_of_spaced {ls : List Lexeme} {t : Text} (h : Spaced false ls t) (p : Position) :
    ∃ ts, ts.map Token.lexeme = ls ∧ Scan.of p t = ⟨ts, none⟩ := by
  obtain ⟨ts, t', gap, rfl, hgap, hplaced, hts⟩ := h.placed p
  refine ⟨ts, hts, ?_⟩
  rw [hplaced.scan fun _ => hgap.takeWhile_isBare, scan_lastGap hgap, List.append_nil]

theorem lexemes?_of_spaced {ls : List Lexeme} {t : Text} (h : Spaced false ls t) :
    lexemes? t = some ls := by
  obtain ⟨ts, rfl, hscan⟩ := scan_of_spaced h .start
  rw [lexemes?, hscan]
  rfl

/-- **The lexemes that are found are spaced as the text.** -/
theorem spaced_of_lexemes? {t : Text} {ls : List Lexeme} (h : lexemes? t = some ls) :
    Spaced false ls t := by
  rw [lexemes?, Scan.lexemes?] at h
  cases hu : (Scan.of .start t).unterminated with
  | some q => simp [hu] at h
  | none =>
    obtain rfl : (Scan.of .start t).tokens.map Token.lexeme = ls := by simpa [hu] using h
    obtain ⟨t₁, t₂, ht, hplaced, -, hrest⟩ := scan_cut (p := .start) (t := t) (b := false)
      (List.append_nil _).symm (by simp)
    rw [hu] at hrest
    have hspaced := hplaced.spaced (lastGap_of_scan hrest)
    rwa [← ht] at hspaced

/-- **The scanner finds some lexemes exactly if the text is spaced as they are.** -/
theorem lexemes?_eq_some_iff {t : Text} {ls : List Lexeme} :
    lexemes? t = some ls ↔ Spaced false ls t :=
  ⟨spaced_of_lexemes?, lexemes?_of_spaced⟩

end Grammar

end TypedSexp
