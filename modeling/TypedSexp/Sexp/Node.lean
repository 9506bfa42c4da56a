import TypedSexp.Sexp.Basic
import TypedSexp.Sexp.Location
/-!
# Located trees

A `Node` is an S-expression in which every atom and list may know where it was read. `Node.sexp`
forgets the places; two nodes mean the same if it maps them to one tree.
-/

namespace TypedSexp

/-- An S-expression with places. -/
inductive Node where
  | atom (text : Text) (location : Option Location)
  | list (items : List Node) (location : Option Location)
deriving Repr, Inhabited

namespace Node

/-- Where the node was read. -/
def location : Node → Option Location
  | .atom _ l => l
  | .list _ l => l

/-- The node at another place; only its top moves. -/
def withLocation : Node → Option Location → Node
  | .atom t _, l => .atom t l
  | .list items _, l => .list items l

mutual

/-- The tree without places. -/
def sexp : Node → Sexp
  | .atom t _ => .atom t
  | .list items _ => .list (sexps items)

/-- The trees without places. -/
def sexps : List Node → List Sexp
  | [] => []
  | x :: xs => sexp x :: sexps xs

end

mutual

/-- A tree as a node that was read nowhere. -/
def ofSexp : Sexp → Node
  | .atom t => .atom t none
  | .list items => .list (ofSexps items) none

/-- Trees as nodes that were read nowhere. -/
def ofSexps : List Sexp → List Node
  | [] => []
  | x :: xs => ofSexp x :: ofSexps xs

end

theorem sexps_eq_map (ns : List Node) : sexps ns = ns.map sexp := by
  induction ns with
  | nil => rfl
  | cons n ns ih => simp [sexps, ih]

mutual

/-- Forgetting no places at all gives the tree back. -/
theorem sexp_ofSexp : ∀ s : Sexp, (ofSexp s).sexp = s
  | .atom _ => rfl
  | .list items => by simp [ofSexp, sexp, sexps_ofSexps items]

theorem sexps_ofSexps : ∀ xs : List Sexp, sexps (ofSexps xs) = xs
  | [] => rfl
  | x :: xs => by simp [ofSexps, sexps, sexp_ofSexp x, sexps_ofSexps xs]

end

@[simp] theorem sexp_withLocation (n : Node) (l : Option Location) :
    (n.withLocation l).sexp = n.sexp := by
  cases n <;> rfl

end Node

end TypedSexp
