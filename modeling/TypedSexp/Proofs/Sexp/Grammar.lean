import TypedSexp.Sexp.Reading
/-!
# The grammar of texts

`Written xs t` says that the text `t` is a way to write the trees `xs`: the sources of their lexemes
in order (`Spells`), with blanks and comments before, between and after them (`Spaced`). The
relations mention no scanner and no stack. The scanner is shown to find the lexemes of exactly the
texts that are spaced (`lexemes?_eq_some_iff`): a bare atom is taken whole, because what separates it
from a bare neighbour is never empty.
-/

namespace TypedSexp

namespace Grammar

/-! ## The relations -/

/-- What may stand between two double quotes: a backslash takes the next code point along, and
neither a quote nor a backslash stands alone. -/
inductive QuotedBody : Text → Prop
  | nil : QuotedBody []
  | plain {c : CodePoint} {t : Text} (hq : c ≠ '"') (hb : c ≠ '\\') :
      QuotedBody t → QuotedBody (c :: t)
  | pair (c : CodePoint) {t : Text} : QuotedBody t → QuotedBody (CodePoint.ofChar '\\' :: c :: t)

/-- Blanks and comments; a comment runs to a line feed. -/
inductive Gap : Text → Prop
  | nil : Gap []
  | blank {c : CodePoint} {t : Text} (hc : c.isBlank) : Gap t → Gap (c :: t)
  | comment {body t : Text} (hb : CodePoint.ofChar '\n' ∉ body) :
      Gap t → Gap (CodePoint.ofChar ';' :: body ++ CodePoint.ofChar '\n' :: t)

/-- A gap at the end of a text, where a comment needs no line feed. -/
inductive LastGap : Text → Prop
  | gap {t : Text} : Gap t → LastGap t
  | comment {t body : Text} (hb : CodePoint.ofChar '\n' ∉ body) :
      Gap t → LastGap (t ++ CodePoint.ofChar ';' :: body)

/-- A bare lexeme is a run of bare code points, a quoted one has a body. -/
def WellFormed : Lexeme → Prop
  | .opening => True
  | .closing => True
  | .bare t => t ≠ [] ∧ ∀ c ∈ t, Atom.isBare c
  | .quoted body => QuotedBody body

/-- The lexeme is a bare atom. -/
def isBareLexeme : Lexeme → Bool
  | .bare _ => true
  | _ => false

/-- The lexemes of trees. An atom is its text, or a body that stands for its text. -/
inductive Spells : List Sexp → List Lexeme → Prop
  | nil : Spells [] []
  | bare {t : Text} {xs : List Sexp} {ls : List Lexeme} (ht : WellFormed (.bare t)) :
      Spells xs ls → Spells (.atom t :: xs) (.bare t :: ls)
  | quoted {body : Text} {xs : List Sexp} {ls : List Lexeme} (hb : QuotedBody body) :
      Spells xs ls → Spells (.atom (Atom.unescape body) :: xs) (.quoted body :: ls)
  | list {items xs : List Sexp} {inner ls : List Lexeme} :
      Spells items inner → Spells xs ls →
      Spells (.list items :: xs) (.opening :: inner ++ .closing :: ls)

/-- A text of lexemes with gaps before, between and after them. Between two bare atoms there is a
gap; `afterBare` says that the text follows one. -/
inductive Spaced : Bool → List Lexeme → Text → Prop
  | last {afterBare : Bool} {gap : Text} : LastGap gap → Spaced afterBare [] gap
  | lexeme {afterBare : Bool} {gap t : Text} {l : Lexeme} {ls : List Lexeme} (hg : Gap gap)
      (hl : WellFormed l) (hs : afterBare → isBareLexeme l → gap ≠ []) :
      Spaced (isBareLexeme l) ls t → Spaced afterBare (l :: ls) (gap ++ l.source ++ t)

/-- The text is a way to write the trees. -/
def Written (xs : List Sexp) (t : Text) : Prop := ∃ ls, Spells xs ls ∧ Spaced false ls t

/-! ## Gaps and lexemes by their first code points -/

theorem Gap.append {s t : Text} (hs : Gap s) (ht : Gap t) : Gap (s ++ t) := by
  induction hs with
  | nil => exact ht
  | blank hc _ ih => exact .blank hc ih
  | comment hb _ ih =>
    rw [List.append_assoc, List.cons_append, List.cons_append]
    exact .comment hb ih

theorem Gap.of_blanks {t : Text} (h : ∀ c ∈ t, c.isBlank) : Gap t := by
  induction t with
  | nil => exact .nil
  | cons c t ih =>
    exact .blank (h c List.mem_cons_self) (ih fun d hd => h d (List.mem_cons_of_mem c hd))

theorem LastGap.prepend {s t : Text} (hs : Gap s) (ht : LastGap t) : LastGap (s ++ t) := by
  cases ht with
  | gap h => exact .gap (hs.append h)
  | comment hb h =>
    rw [← List.append_assoc]
    exact .comment hb (hs.append h)

theorem Spaced.prepend {s t : Text} {b : Bool} {ls : List Lexeme} (hs : Gap s) (hne : s ≠ [])
    (ht : Spaced false ls t) : Spaced b ls (s ++ t) := by
  cases ht with
  | last h => exact .last (h.prepend hs)
  | lexeme hg hl _ hrest =>
    rw [List.append_assoc, ← List.append_assoc, ← List.append_assoc]
    exact .lexeme (hs.append hg) hl (fun _ _ h => hne (List.append_eq_nil_iff.1 h).1) hrest

/-- A first lexeme without a gap before it. -/
theorem Spaced.cons {b : Bool} {l : Lexeme} {ls : List Lexeme} {t : Text} (hl : WellFormed l)
    (hs : b → isBareLexeme l = false) (h : Spaced (isBareLexeme l) ls t) :
    Spaced b (l :: ls) (l.source ++ t) := by
  have hgap : b → isBareLexeme l → ([] : Text) ≠ [] := by
    intro hb hbare
    rw [hs hb] at hbare
    exact absurd hbare (by decide)
  have hspaced := Spaced.lexeme .nil hl hgap h
  rwa [List.nil_append] at hspaced

/-- The lexemes of a spaced text are well formed. -/
theorem Spaced.wellFormed {b : Bool} {ls : List Lexeme} {t : Text} (h : Spaced b ls t) :
    ∀ l ∈ ls, WellFormed l := by
  induction h with
  | last _ => simp
  | lexeme _ hl _ _ ih =>
    intro m hm
    rcases List.mem_cons.1 hm with rfl | hm
    · exact hl
    · exact ih m hm

theorem not_isBare_of_isBlank {c : CodePoint} (h : c.isBlank) : Atom.isBare c = false := by
  simp [Atom.isBare, h]

theorem Gap.head_not_isBare {s : Text} (hs : Gap s) (hne : s ≠ []) :
    ∃ c t, s = c :: t ∧ Atom.isBare c = false := by
  cases hs with
  | nil => exact absurd rfl hne
  | blank hc _ => exact ⟨_, _, rfl, not_isBare_of_isBlank hc⟩
  | comment hb _ => exact ⟨_, _, rfl, by decide⟩

/-- A gap or another lexeme ends a bare atom. -/
theorem Gap.takeWhile_isBare {s : Text} (hs : Gap s) : s.takeWhile Atom.isBare = [] := by
  by_cases hne : s = []
  · rw [hne, List.takeWhile_nil]
  · obtain ⟨c, t, rfl, hc⟩ := hs.head_not_isBare hne
    exact List.takeWhile_cons_of_neg (by rw [hc]; decide)

theorem Gap.takeWhile_isBare_append {s : Text} (hs : Gap s) (hne : s ≠ []) (t : Text) :
    (s ++ t).takeWhile Atom.isBare = [] := by
  obtain ⟨c, s, rfl, hc⟩ := hs.head_not_isBare hne
  exact List.takeWhile_cons_of_neg (by rw [hc]; decide)

theorem LastGap.takeWhile_isBare {s : Text} (hs : LastGap s) : s.takeWhile Atom.isBare = [] := by
  cases hs with
  | gap h => exact h.takeWhile_isBare
  | @comment g body hb h =>
    by_cases hne : g = []
    · rw [hne]
      exact List.takeWhile_cons_of_neg (by decide)
    · exact h.takeWhile_isBare_append hne _

theorem takeWhile_isBare_lexeme {gap : Text} {l : Lexeme} (hg : Gap gap)
    (hs : isBareLexeme l → gap ≠ []) (t : Text) :
    (gap ++ (l.source ++ t)).takeWhile Atom.isBare = [] := by
  by_cases hne : gap = []
  · subst hne
    -- without a gap the lexeme is not bare, so it starts with a structural code point
    cases l with
    | bare w => exact absurd rfl (hs rfl)
    | opening => exact List.takeWhile_cons_of_neg (by decide)
    | closing => exact List.takeWhile_cons_of_neg (by decide)
    | quoted body => exact List.takeWhile_cons_of_neg (by decide)
  · exact hg.takeWhile_isBare_append hne _

/-! ## Quoted bodies -/

theorem QuotedBody.append {s t : Text} (hs : QuotedBody s) (ht : QuotedBody t) :
    QuotedBody (s ++ t) := by
  induction hs with
  | nil => exact ht
  | plain hq hb _ ih => exact .plain hq hb ih
  | pair c _ ih => exact .pair c ih

theorem QuotedBody.of_plain {t : Text} (h : ∀ c ∈ t, c ≠ '"' ∧ c ≠ '\\') : QuotedBody t := by
  induction t with
  | nil => exact .nil
  | cons c t ih =>
    have hc := h c List.mem_cons_self
    exact .plain hc.1 hc.2 (ih fun d hd => h d (List.mem_cons_of_mem c hd))

/-- A body ends at the first quote behind it. -/
theorem QuotedBody.closeQuote? {body : Text} (h : QuotedBody body) (rest : Text) :
    closeQuote? (body ++ CodePoint.ofChar '"' :: rest) = some (body, rest) := by
  induction h with
  | nil => unfold TypedSexp.closeQuote?; simp
  | plain hq hb _ ih => rw [List.cons_append]; unfold TypedSexp.closeQuote?; simp [hq, hb, ih]
  | pair c _ ih =>
    have hne : CodePoint.ofChar '\\' ≠ CodePoint.ofChar '"' := by decide
    rw [List.cons_append]; unfold TypedSexp.closeQuote?; simp [hne, ih]

/-- What stands before the closing quote is a body. -/
theorem quotedBody_of_closeQuote? {t body after : Text}
    (h : closeQuote? t = some (body, after)) : QuotedBody body := by
  fun_induction closeQuote? t generalizing body after with
  | case1 => simp at h
  | case2 rest =>
    obtain ⟨rfl, rfl⟩ : [] = body ∧ rest = after := by simpa using h
    exact .nil
  | case3 => simp at h
  | case4 d more _ ih =>
    obtain ⟨⟨b, a⟩, hba, he⟩ := Option.map_eq_some_iff.1 h
    obtain ⟨rfl, rfl⟩ := Prod.mk.inj he
    exact .pair d (ih hba)
  | case5 c rest hq hb ih =>
    obtain ⟨⟨b, a⟩, hba, he⟩ := Option.map_eq_some_iff.1 h
    obtain ⟨rfl, rfl⟩ := Prod.mk.inj he
    exact .plain hq hb (ih hba)

end Grammar

end TypedSexp
