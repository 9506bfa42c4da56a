import TypedSexp.Text.Basic
/-!
# S-expressions

An S-expression is an atom, which is any text, or a list of S-expressions. Equality is structural
and decidable.
-/

namespace TypedSexp

/-- A tree of texts. -/
inductive Sexp where
  | atom (text : Text)
  | list (items : List Sexp)
deriving Repr, Inhabited

namespace Sexp

mutual

/-- Decides equality of two trees. -/
def decEq : (a b : Sexp) → Decidable (a = b)
  | .atom s, .atom t =>
    if h : s = t then isTrue (by rw [h]) else isFalse (by simpa using h)
  | .list xs, .list ys =>
    match decEqAll xs ys with
    | isTrue h => isTrue (by rw [h])
    | isFalse h => isFalse (by simpa using h)
  | .atom _, .list _ => isFalse (by simp)
  | .list _, .atom _ => isFalse (by simp)

/-- Decides equality of two lists of trees. -/
def decEqAll : (xs ys : List Sexp) → Decidable (xs = ys)
  | [], [] => isTrue rfl
  | x :: xs, y :: ys =>
    match decEq x y, decEqAll xs ys with
    | isTrue hx, isTrue hxs => isTrue (by rw [hx, hxs])
    | isFalse h, _ => isFalse (by simp [h])
    | _, isFalse h => isFalse (by simp [h])
  | [], _ :: _ => isFalse (by simp)
  | _ :: _, [] => isFalse (by simp)

end

instance : DecidableEq Sexp := decEq

/-- The tree is an atom. -/
def isAtom : Sexp → Bool
  | .atom _ => true
  | .list _ => false

/-- The list without items. -/
def empty : Sexp := .list []

/-- How many atoms and lists a tree holds, and how deep it is: an atom and an empty list have depth
one. -/
structure Census where
  atoms : Nat
  lists : Nat
  depth : Nat
deriving DecidableEq, Repr

mutual

/-- Counts the nodes of a tree. -/
def census : Sexp → Census
  | .atom _ => ⟨1, 0, 1⟩
  | .list items =>
    let c := censusAll items
    ⟨c.atoms, c.lists + 1, c.depth + 1⟩

/-- Counts the nodes of several trees; the depth is that of the deepest. -/
def censusAll : List Sexp → Census
  | [] => ⟨0, 0, 0⟩
  | x :: xs =>
    let a := census x
    let b := censusAll xs
    ⟨a.atoms + b.atoms, a.lists + b.lists, max a.depth b.depth⟩

end

end Sexp

end TypedSexp
