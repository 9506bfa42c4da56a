import TypedSexp.Sexp.Node
/-!
# Drafts

A draft is a tree from outside in which something may stand that is no S-expression. It becomes a
`Node` if nothing foreign is in it; otherwise the first foreign thing, from the left, is reported by
the name of its type.
-/

namespace TypedSexp

/-- A tree that may hold foreign things. -/
inductive Draft where
  | atom (text : Text) (location : Option Location)
  | list (items : List Draft) (location : Option Location)
  | foreign (typeName : Text)
deriving Repr

namespace Draft

/-- The draft is a tree; further down there may be foreign things in it. -/
def isTree : Draft → Bool
  | .foreign _ => false
  | _ => true

/-- A tree in a number of lists, one inside another. -/
def nested (x : Draft) : Nat → Draft
  | 0 => x
  | n + 1 => .list [nested x n] none

mutual

/-- The node of a draft, or the type name of the first foreign thing. -/
def node : Draft → Except Text Node
  | .atom t l => .ok (.atom t l)
  | .list items l => do .ok (.list (← nodes items) l)
  | .foreign typeName => .error typeName

/-- The nodes of several drafts. -/
def nodes : List Draft → Except Text (List Node)
  | [] => .ok []
  | x :: xs => do
    let n ← node x
    let ns ← nodes xs
    .ok (n :: ns)

end

mutual

/-- An S-expression as a draft that was read nowhere. -/
def ofSexp : Sexp → Draft
  | .atom t => .atom t none
  | .list items => .list (ofSexps items) none

/-- S-expressions as drafts that were read nowhere. -/
def ofSexps : List Sexp → List Draft
  | [] => []
  | x :: xs => ofSexp x :: ofSexps xs

end

mutual

/-- An S-expression holds nothing foreign. -/
@[simp] theorem node_ofSexp : ∀ s : Sexp, (ofSexp s).node = .ok (.ofSexp s)
  | .atom _ => rfl
  | .list items => by simp [ofSexp, node, Node.ofSexp, nodes_ofSexps items, bind, Except.bind]

@[simp] theorem nodes_ofSexps : ∀ xs : List Sexp, nodes (ofSexps xs) = .ok (Node.ofSexps xs)
  | [] => rfl
  | x :: xs => by
    simp [ofSexps, nodes, Node.ofSexps, node_ofSexp x, nodes_ofSexps xs, bind, Except.bind]

end

end Draft

end TypedSexp
