import TypedSexp.Sexp.Atom
import TypedSexp.Sexp.Location
/-!
# Tokens

`Front.of` says what stands at the front of a text: nothing, a gap of blanks or a comment, a lexeme,
or a double quote that is never closed. Lexemes are as long as they can be. `Scan.of` takes fronts
off a text until it ends or a quote stays open.
-/

namespace TypedSexp

/-- A lexical unit. A quoted one holds what stands between its quotes, escapes unread. -/
inductive Lexeme where
  | opening
  | closing
  | bare (text : Text)
  | quoted (body : Text)
deriving DecidableEq, Repr

namespace Lexeme

/-- The text that a lexeme is written with. -/
def source : Lexeme → Text
  | .opening => "("
  | .closing => ")"
  | .bare t => t
  | .quoted body => "\"" ++ body ++ "\""

end Lexeme

/-- Splits a text at its first double quote that no backslash escapes: what stands before it and
what follows it. -/
def closeQuote? : Text → Option (Text × Text)
  | [] => none
  | c :: rest =>
    if c = '"' then some ([], rest)
    else if c = '\\' then
      match rest with
      | [] => none
      | d :: more => (closeQuote? more).map fun (body, after) => (c :: d :: body, after)
    else (closeQuote? rest).map fun (body, after) => (c :: body, after)

/-- What stands at the front of a text, and the rest behind it. -/
inductive Front where
  | nothing
  | gap (skipped rest : Text)
  | lexeme (l : Lexeme) (rest : Text)
  | unterminated
deriving Repr

namespace Front

/-- A code point inside a comment. -/
def inComment (c : CodePoint) : Bool := c ≠ '\n'

/-- The front of a text. -/
def of : Text → Front
  | [] => .nothing
  | c :: rest =>
    if c = '(' then .lexeme .opening rest
    else if c = ')' then .lexeme .closing rest
    else if c = '"' then
      match closeQuote? rest with
      | some (body, after) => .lexeme (.quoted body) after
      | none => .unterminated
    else if c = ';' then .gap (c :: rest.takeWhile inComment) (rest.dropWhile inComment)
    else if c.isBlank then
      .gap (c :: rest.takeWhile CodePoint.isBlank) (rest.dropWhile CodePoint.isBlank)
    else .lexeme (.bare (c :: rest.takeWhile Atom.isBare)) (rest.dropWhile Atom.isBare)

theorem eq_of_closeQuote {t body after : Text} (h : closeQuote? t = some (body, after)) :
    t = body ++ "\"" ++ after := by
  fun_induction closeQuote? t generalizing body after with
  | case1 => simp at h
  | case2 rest =>
    obtain ⟨rfl, rfl⟩ : [] = body ∧ rest = after := by simpa using h
    rfl
  | case3 => simp at h
  | case4 d more _ ih =>
    obtain ⟨⟨b, a⟩, hba, he⟩ := Option.map_eq_some_iff.1 h
    obtain ⟨rfl, rfl⟩ := Prod.mk.inj he
    simp [ih hba]
  | case5 c rest _ _ ih =>
    obtain ⟨⟨b, a⟩, hba, he⟩ := Option.map_eq_some_iff.1 h
    obtain ⟨rfl, rfl⟩ := Prod.mk.inj he
    simp [ih hba]

/-- A lexeme's source is what the text starts with. -/
theorem eq_of_lexeme {t rest : Text} {l : Lexeme} (h : of t = .lexeme l rest) :
    t = l.source ++ rest := by
  cases t with
  | nil => simp [of] at h
  | cons c t =>
    simp only [of] at h
    split at h
    · rename_i hc; obtain ⟨rfl, rfl⟩ := Front.lexeme.inj h; rw [hc]; rfl
    split at h
    · rename_i hc; obtain ⟨rfl, rfl⟩ := Front.lexeme.inj h; rw [hc]; rfl
    split at h
    · rename_i hc
      split at h
      · rename_i hq
        obtain ⟨rfl, rfl⟩ := Front.lexeme.inj h
        simp [Lexeme.source, eq_of_closeQuote hq, hc]
      · simp at h
    split at h
    · simp at h
    split at h
    · simp at h
    · obtain ⟨rfl, rfl⟩ := Front.lexeme.inj h; simp [Lexeme.source]

/-- A gap is not empty. -/
theorem length_gap {t skipped rest : Text} (h : of t = .gap skipped rest) :
    rest.length < t.length := by
  cases t with
  | nil => simp [of] at h
  | cons c t =>
    simp only [of] at h
    split at h
    · simp at h
    split at h
    · simp at h
    split at h
    · split at h <;> simp at h
    split at h
    · obtain ⟨rfl, rfl⟩ := Front.gap.inj h
      exact Nat.lt_succ_of_le (List.dropWhile_suffix _).length_le
    split at h
    · obtain ⟨rfl, rfl⟩ := Front.gap.inj h
      exact Nat.lt_succ_of_le (List.dropWhile_suffix _).length_le
    · simp at h

/-- A lexeme is written with at least one code point. -/
theorem length_lexeme {t rest : Text} {l : Lexeme} (h : of t = .lexeme l rest) :
    rest.length < t.length := by
  have ht := eq_of_lexeme h
  have hl : 0 < l.source.length := by
    cases l with
    | bare w =>
      cases t with
      | nil => simp [of] at h
      | cons c t =>
        simp only [of] at h
        split at h
        · simp at h
        split at h
        · simp at h
        split at h
        · split at h <;> simp at h
        split at h
        · simp at h
        split at h
        · simp at h
        · obtain ⟨hw, -⟩ := Front.lexeme.inj h
          simp [Lexeme.source, ← Lexeme.bare.inj hw]
    | _ => simp [Lexeme.source]
  rw [ht, List.length_append]; omega

end Front

/-- A lexeme and the positions before and after it. -/
structure Token where
  lexeme : Lexeme
  start : Position
  stop : Position
deriving DecidableEq, Repr

/-- The tokens of a text, and where a quote is left open, which ends them early. -/
structure Scan where
  tokens : List Token
  unterminated : Option Position
deriving DecidableEq, Repr

/-- Scans a text that starts at a position. -/
def Scan.of (p : Position) (t : Text) : Scan :=
  match _h : Front.of t with
  | .nothing => ⟨[], none⟩
  | .unterminated => ⟨[], some p⟩
  | .gap skipped rest => Scan.of (p.advance skipped) rest
  | .lexeme l rest =>
    let stop := p.advance l.source
    let scan := Scan.of stop rest
    { scan with tokens := ⟨l, p, stop⟩ :: scan.tokens }
termination_by t.length
decreasing_by
  · exact Front.length_gap (by assumption)
  · exact Front.length_lexeme (by assumption)

end TypedSexp
