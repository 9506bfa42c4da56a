import TypedSexp.Proofs.Sexp.Scanning
/-!
# Assembling tokens follows the grammar

`Makes ts ns` says which trees some tokens make, and where these are placed. `Reading.assemble` keeps
the open lists on a stack. Read forwards, tokens put just the trees that they make into the innermost
open list (`Makes.assemble`). Read backwards, the stack is accounted for by the tokens since the last
value (`Begun`): each open list by its parenthesis and the tokens of its items. So each value is made
of the tokens since the one before it (`delivers_of_assemble`), and behind it the reading goes on with
an empty stack. A reading without a fault has used up its tokens, and its values are what their
lexemes spell (`spells_of_assemble`).
-/

namespace TypedSexp

namespace Grammar

open Reading (Frame assemble)

theorem Spells.append {xs ys : List Sexp} {ls ms : List Lexeme} (h : Spells xs ls)
    (h' : Spells ys ms) : Spells (xs ++ ys) (ls ++ ms) := by
  induction h with
  | nil => exact h'
  | bare ht _ ih => exact .bare ht ih
  | quoted hb _ ih => exact .quoted hb ih
  | list hi _ _ ih =>
    rw [List.cons_append, List.append_assoc, List.cons_append]
    exact .list hi ih

section
variable (file : Text) (unterminated : Option Position)

/-! ## One step -/

/-- Complete trees go to the innermost open list; without one they are values. -/
def receive : List Frame → List Node → List Token → Reading
  | [], ns, rest =>
    let r := assemble file unterminated [] rest
    { r with values := ns ++ r.values }
  | frame :: outer, ns, rest =>
    assemble file unterminated ({ frame with items := ns.reverse ++ frame.items } :: outer) rest

theorem receive_nil (frames : List Frame) (rest : List Token) :
    receive file unterminated frames [] rest = assemble file unterminated frames rest := by
  cases frames <;> rfl

theorem assemble_opening (p q : Position) (frames : List Frame) (rest : List Token) :
    assemble file unterminated frames (⟨.opening, p, q⟩ :: rest) =
      assemble file unterminated (⟨⟨.opening, p, q⟩, []⟩ :: frames) rest := by
  cases frames <;> rfl

theorem assemble_bare (t : Text) (p q : Position) (frames : List Frame) (rest : List Token) :
    assemble file unterminated frames (⟨.bare t, p, q⟩ :: rest) =
      receive file unterminated frames [.atom t (some (.between file p q))] rest := by
  cases frames <;> rfl

theorem assemble_quoted (body : Text) (p q : Position) (frames : List Frame)
    (rest : List Token) :
    assemble file unterminated frames (⟨.quoted body, p, q⟩ :: rest) =
      receive file unterminated frames
        [.atom (Atom.unescape body) (some (.between file p q))] rest := by
  cases frames <;> rfl

theorem assemble_closing (frame : Frame) (p q : Position) (outer : List Frame)
    (rest : List Token) :
    assemble file unterminated (frame :: outer) (⟨.closing, p, q⟩ :: rest) =
      receive file unterminated outer
        [.list frame.items.reverse (some (.between file frame.opening.start q))] rest := by
  cases outer <;> rfl

/-! ## Tokens and the trees that they make -/

/-- The trees that tokens make: each atom is placed as its token, and each list from the start of its
parenthesis to the end of the closing one. -/
inductive Makes : List Token → List Node → Prop
  | nil : Makes [] []
  | bare {t : Text} {p q : Position} {ts : List Token} {ns : List Node} : Makes ts ns →
      Makes (⟨.bare t, p, q⟩ :: ts) (.atom t (some (.between file p q)) :: ns)
  | quoted {body : Text} {p q : Position} {ts : List Token} {ns : List Node} : Makes ts ns →
      Makes (⟨.quoted body, p, q⟩ :: ts)
        (.atom (Atom.unescape body) (some (.between file p q)) :: ns)
  | list {p q p' q' : Position} {inner ts : List Token} {items ns : List Node} :
      Makes inner items → Makes ts ns →
      Makes (⟨.opening, p, q⟩ :: inner ++ ⟨.closing, p', q'⟩ :: ts)
        (.list items (some (.between file p q')) :: ns)

variable {file}

theorem Makes.append {ts us : List Token} {ns ms : List Node} (h : Makes file ts ns)
    (h' : Makes file us ms) : Makes file (ts ++ us) (ns ++ ms) := by
  induction h with
  | nil => exact h'
  | bare _ ih => exact .bare ih
  | quoted _ ih => exact .quoted ih
  | list hi _ _ ih =>
    rw [List.append_assoc, List.cons_append]
    exact .list hi ih

/-- Tokens spell the trees that they make. -/
theorem Makes.spells {ts : List Token} {ns : List Node} (h : Makes file ts ns)
    (hw : ∀ t ∈ ts, WellFormed t.lexeme) : Spells (ns.map Node.sexp) (ts.map Token.lexeme) := by
  induction h with
  | nil => exact .nil
  | bare _ ih =>
    rw [List.forall_mem_cons] at hw
    exact .bare hw.1 (ih hw.2)
  | quoted _ ih =>
    rw [List.forall_mem_cons] at hw
    exact .quoted hw.1 (ih hw.2)
  | list _ _ ihItems ih =>
    rw [List.cons_append, List.forall_mem_cons, List.forall_mem_append, List.forall_mem_cons] at hw
    obtain ⟨-, hinner, -, hrest⟩ := hw
    have hitems := ihItems hinner
    rw [← Node.sexps_eq_map] at hitems
    simpa [Node.sexp] using Spells.list hitems (ih hrest)

/-- Lexemes that spell trees belong to tokens that make them. -/
theorem Spells.makes {xs : List Sexp} {ls : List Lexeme} (h : Spells xs ls) :
    ∀ ts : List Token, ts.map Token.lexeme = ls → ∃ ns, ns.map Node.sexp = xs ∧ Makes file ts ns := by
  induction h with
  | nil =>
    intro ts hts
    obtain rfl : ts = [] := List.map_eq_nil_iff.1 hts
    exact ⟨[], rfl, .nil⟩
  | bare _ _ ih =>
    intro ts hts
    obtain ⟨⟨l, p, q⟩, back, rfl, rfl, hback⟩ := List.map_eq_cons_iff.1 hts
    obtain ⟨ns, hns, hmakes⟩ := ih back hback
    exact ⟨_, by simp [Node.sexp, hns], .bare hmakes⟩
  | quoted _ _ ih =>
    intro ts hts
    obtain ⟨⟨l, p, q⟩, back, rfl, rfl, hback⟩ := List.map_eq_cons_iff.1 hts
    obtain ⟨ns, hns, hmakes⟩ := ih back hback
    exact ⟨_, by simp [Node.sexp, hns], .quoted hmakes⟩
  | list _ _ ihItems ih =>
    intro ts hts
    obtain ⟨front, back, rfl, hfront, hback⟩ := List.map_eq_append_iff.1 hts
    obtain ⟨⟨l, p, q⟩, front, rfl, rfl, hinner⟩ := List.map_eq_cons_iff.1 hfront
    obtain ⟨⟨l, p', q'⟩, back, rfl, rfl, hls⟩ := List.map_eq_cons_iff.1 hback
    obtain ⟨ms, hms, hitems⟩ := ihItems front hinner
    obtain ⟨ns, hns, hmakes⟩ := ih back hls
    exact ⟨_, by simp [Node.sexp, Node.sexps_eq_map, hms, hns], .list hitems hmakes⟩

/-! ## Forwards: tokens put their trees where a tree belongs -/

/-- Trees are received as soon as the lexemes behind them are read so. -/
theorem receive_append {frames : List Frame} {ns ms : List Node} {ts rest : List Token}
    (h : ∀ frames, assemble file unterminated frames (ts ++ rest) =
      receive file unterminated frames ms rest) :
    receive file unterminated frames ns (ts ++ rest) =
      receive file unterminated frames (ns ++ ms) rest := by
  cases frames with
  | nil =>
    have := h []
    simp only [receive] at this ⊢
    rw [this]
    simp
  | cons frame outer =>
    simp only [receive]
    rw [h]
    simp [receive]

/-- **Tokens put the trees that they make where a tree belongs.** -/
theorem Makes.assemble {ts : List Token} {ns : List Node} (h : Makes file ts ns) :
    ∀ (frames : List Frame) (rest : List Token),
      Reading.assemble file unterminated frames (ts ++ rest) =
        receive file unterminated frames ns rest := by
  induction h with
  | nil => exact fun frames rest => (receive_nil file unterminated frames rest).symm
  | bare _ ih =>
    intro frames rest
    rw [List.cons_append, assemble_bare, receive_append unterminated fun frames => ih frames rest]
    rfl
  | quoted _ ih =>
    intro frames rest
    rw [List.cons_append, assemble_quoted, receive_append unterminated fun frames => ih frames rest]
    rfl
  | list _ _ ihItems ih =>
    intro frames rest
    rw [List.cons_append, List.cons_append, List.append_assoc, assemble_opening, ihItems]
    -- the items are in the list that was opened, and it closes
    show Reading.assemble file unterminated (⟨⟨.opening, _, _⟩, _ ++ []⟩ :: frames) _ = _
    rw [List.cons_append, assemble_closing,
      receive_append unterminated fun frames => ih frames rest]
    simp

/-! ## Backwards: what is read is made of tokens -/

/-- The tokens since the last value: for each open list, the outermost first, its parenthesis and
the tokens of its items. -/
inductive Begun (file : Text) : List Frame → List Token → Prop
  | nil : Begun file [] []
  | cons {items : List Node} {p q : Position} {outer : List Frame} {before inner : List Token} :
      Begun file outer before → Makes file inner items.reverse →
      Begun file (⟨⟨.opening, p, q⟩, items⟩ :: outer) (before ++ ⟨.opening, p, q⟩ :: inner)

variable {unterminated}

/-- The first value is made of the tokens since the last one, those before and some of those to come,
and the tokens behind it give the rest of the reading. -/
def Delivers (file : Text) (unterminated : Option Position) (before ts : List Token) (v : Node)
    (rest : Reading) : Prop :=
  ∃ front back, ts = front ++ back ∧ Makes file (before ++ front) [v] ∧
    assemble file unterminated [] back = rest

variable {v : Node} {vs : List Node} {fault : Option ParseFault}

theorem Delivers.cons {before ts : List Token} {token : Token} {rest : Reading}
    (h : Delivers file unterminated (before ++ [token]) ts v rest) :
    Delivers file unterminated before (token :: ts) v rest := by
  obtain ⟨front, back, rfl, hmakes, hback⟩ := h
  exact ⟨token :: front, back, rfl, by simpa using hmakes, hback⟩

/-- A tree that is received closes the account of its tokens. If no list is open it is the value, and
else it is an item, and what follows decides about the value. -/
theorem Begun.receive {frames : List Frame} {before piece ts : List Token} {n : Node}
    (hb : Begun file frames before) (hp : Makes file piece [n])
    (h : receive file unterminated frames [n] ts = ⟨v :: vs, fault⟩)
    (ih : ∀ frames before, Begun file frames before →
      assemble file unterminated frames ts = ⟨v :: vs, fault⟩ →
      Delivers file unterminated before ts v ⟨vs, fault⟩) :
    Delivers file unterminated (before ++ piece) ts v ⟨vs, fault⟩ := by
  cases hb with
  | nil =>
    obtain ⟨hvalues, hfault⟩ := Reading.mk.inj h
    obtain ⟨rfl, hrest⟩ := List.cons.inj hvalues
    refine ⟨[], ts, rfl, by simpa using hp, ?_⟩
    rw [← hrest, ← hfault]
    rfl
  | @cons items p q outer before inner hb hi =>
    have hitems : Makes file (inner ++ piece) (n :: items).reverse := by
      rw [List.reverse_cons]
      exact hi.append hp
    simpa using ih _ _ (.cons hb hitems) h

/-- **The first value of a reading is made of the tokens up to it.** -/
theorem delivers_of_assemble {ts : List Token} : ∀ {frames : List Frame} {before : List Token},
    Begun file frames before → assemble file unterminated frames ts = ⟨v :: vs, fault⟩ →
    Delivers file unterminated before ts v ⟨vs, fault⟩ := by
  induction ts with
  | nil =>
    intro frames before _ h
    simp only [assemble] at h
    split at h <;> cases h
  | cons token rest ih =>
    intro frames before hb h
    have ih := fun frames before => @ih frames before
    obtain ⟨l, p, q⟩ := token
    cases l with
    | opening =>
      rw [assemble_opening] at h
      exact .cons (ih _ _ (.cons hb .nil) h)
    | bare t =>
      rw [assemble_bare] at h
      exact .cons (hb.receive (.bare .nil) h ih)
    | quoted body =>
      rw [assemble_quoted] at h
      exact .cons (hb.receive (.quoted .nil) h ih)
    | closing =>
      cases hb with
      | nil => cases h
      | @cons items p₀ q₀ outer before inner hb hi =>
        rw [assemble_closing] at h
        have hp : Makes file (⟨.opening, p₀, q₀⟩ :: inner ++ [⟨.closing, p, q⟩])
            [.list items.reverse (some (.between file p₀ q))] := .list hi .nil
        exact .cons (by simpa using hb.receive hp h ih)

/-- **The values of a reading are made of the tokens up to the last of them.** -/
theorem exists_makes {vs ws : List Node} {fault : Option ParseFault} {ts : List Token}
    (h : assemble file unterminated [] ts = ⟨vs ++ ws, fault⟩) :
    ∃ front back, ts = front ++ back ∧ Makes file front vs ∧
      assemble file unterminated [] back = ⟨ws, fault⟩ := by
  induction vs generalizing ts with
  | nil => exact ⟨[], ts, rfl, .nil, h⟩
  | cons v vs ih =>
    obtain ⟨first, ts, rfl, hfirst, hrest⟩ := delivers_of_assemble .nil h
    obtain ⟨front, back, rfl, hmakes, hback⟩ := ih hrest
    exact ⟨first ++ front, back, (List.append_assoc ..).symm, hfirst.append hmakes, hback⟩

/-- A reading without a value and without a fault has no tokens. -/
theorem tokens_of_assemble_nothing : ∀ (ts : List Token) (frames : List Frame),
    assemble file none frames ts = ⟨[], none⟩ → frames = [] ∧ ts = []
  | [], [], _ => ⟨rfl, rfl⟩
  | [], frame :: outer, h => by
    -- an open list at the end is a fault
    obtain ⟨last, hlast⟩ : ∃ last, (frame :: outer).getLast? = some last := ⟨_, List.getLast?_cons⟩
    simp only [assemble, hlast, Reading.failed] at h
    exact absurd (congrArg Reading.fault h) (by simp)
  | ⟨l, p, q⟩ :: rest, frames, h => by
    have ih := tokens_of_assemble_nothing rest
    have received {frames : List Frame} {n : Node} :
        Grammar.receive file none frames [n] rest ≠ ⟨[], none⟩ := by
      intro h
      cases frames with
      | nil => simp [Grammar.receive] at h
      | cons frame outer => exact absurd (ih _ h).1 (by simp)
    cases l with
    | opening =>
      rw [assemble_opening] at h
      exact absurd (ih _ h).1 (by simp)
    | bare t => exact absurd (assemble_bare .. ▸ h) received
    | quoted body => exact absurd (assemble_quoted .. ▸ h) received
    | closing =>
      cases frames with
      | nil => cases h
      | cons frame outer => exact absurd (assemble_closing .. ▸ h) received

/-- **The values of a reading without a fault are spelled by what was read.** -/
theorem spells_of_assemble {ts : List Token} {vs : List Node} (hw : ∀ t ∈ ts, WellFormed t.lexeme)
    (h : assemble file none [] ts = ⟨vs, none⟩) :
    Spells (vs.map Node.sexp) (ts.map Token.lexeme) := by
  rw [← List.append_nil vs] at h
  obtain ⟨front, back, rfl, hmakes, hback⟩ := exists_makes h
  obtain ⟨-, rfl⟩ := tokens_of_assemble_nothing back [] hback
  rw [List.append_nil] at hw ⊢
  exact hmakes.spells hw

/-- A quote that stays open is a fault, if nothing else is. -/
theorem assemble_unterminated (p : Position) (ts : List Token) (frames : List Frame) :
    (assemble file (some p) frames ts).fault ≠ none := by
  induction ts generalizing frames with
  | nil => simp [assemble, Reading.failed]
  | cons token rest ih =>
    obtain ⟨l, q, q'⟩ := token
    have hreceive (frames : List Frame) (ns : List Node) :
        (receive file (some p) frames ns rest).fault ≠ none := by
      cases frames <;> exact ih _
    cases l with
    | opening => rw [assemble_opening]; exact ih _
    | bare t => rw [assemble_bare]; exact hreceive _ _
    | quoted body => rw [assemble_quoted]; exact hreceive _ _
    | closing =>
      cases frames with
      | nil => simp [assemble, Reading.failed]
      | cons frame outer => rw [assemble_closing]; exact hreceive _ _

end

end Grammar

end TypedSexp
