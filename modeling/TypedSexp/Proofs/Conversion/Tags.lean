import Mathlib.Data.List.Induction
import TypedSexp.Conversion.Entries
/-!
# Which tag a tag names

The table of tags is filled in one pass, in which a key that is taken stands for no tag any more. What
is found in it does not depend on the pass: a tag is found under its key if no other tag has that key
(`Tags.lookup_folded`). So a tag names the declared tag that is the same, or else the only one with
the same key (`Tags.resolveBy?_eq_some_iff`), whatever the keys are.
-/

namespace TypedSexp

namespace Tags

variable {fold : Text → Text} {folding : Bool} {tags : List Text} {t tag : Text}

theorem folded_concat : folded fold (tags ++ [tag]) = enter fold (folded fold tags) tag := by
  rw [folded, List.foldl_append]
  rfl

/-- What stands under a key: nothing if no tag has the key, and no tag if several have it. -/
theorem lookup_folded (tags : List Text) (key : Text) : (folded fold tags).lookup key =
    match tags.filter fun u => fold u == key with
    | [] => none
    | [u] => some (some u)
    | _ => some none := by
  induction tags using List.reverseRecOn with
  | nil => rfl
  | append_singleton tags tag ih =>
    rw [folded_concat, enter, List.filter_append, List.lookup_cons]
    by_cases hkey : fold tag = key
    · subst hkey
      rw [ih]
      match tags.filter fun u => fold u == fold tag with
      | [] => simp
      | [_] => simp
      | _ :: _ :: _ => simp
    · have hne : (key == fold tag) = false := beq_false_of_ne (Ne.symm hkey)
      simp [hne, hkey, ih]

/-- What the table gives for a tag is the only declared tag with the same key. -/
theorem join_lookup_folded_eq_some_iff :
    ((folded fold tags).lookup (fold t)).join = some tag ↔
      (tags.filter fun u => fold u == fold t) = [tag] := by
  rw [lookup_folded]
  match tags.filter fun u => fold u == fold t with
  | [] => simp
  | [_] => simp
  | _ :: _ :: _ => simp

/-- **What a tag names**, whatever the keys are: the same tag if it is declared, and otherwise, with
`folding`, the only declared tag with the same key. -/
theorem resolveBy?_eq_some_iff : resolveBy? fold folding tags t = some tag ↔
    tag ∈ tags ∧ tag = t ∨
    t ∉ tags ∧ folding = true ∧ (tags.filter fun u => fold u == fold t) = [tag] := by
  unfold resolveBy?
  by_cases hmem : t ∈ tags
  · rw [if_pos (by simpa using hmem)]
    constructor
    · intro h
      obtain rfl := Option.some.inj h
      exact .inl ⟨hmem, rfl⟩
    · rintro (⟨-, rfl⟩ | ⟨hnot, -⟩)
      · rfl
      · exact absurd hmem hnot
  · rw [if_neg (by simpa using hmem)]
    cases folding with
    | false => simpa using fun hdeclared (heq : tag = t) => hmem (heq ▸ hdeclared)
    | true =>
      rw [if_pos rfl, join_lookup_folded_eq_some_iff]
      constructor
      · exact fun h => .inr ⟨hmem, rfl, h⟩
      · rintro (⟨hdeclared, rfl⟩ | ⟨-, -, h⟩)
        · exact absurd hdeclared hmem
        · exact h

/-- Of three tags that are equal without case each is named by itself only. -/
example : resolveBy? Text.caseFold true ["Dot", "DOT", "dOT", "Disc"] "dot" = none ∧
    resolveBy? Text.caseFold true ["Dot", "DOT", "dOT", "Disc"] "dOT" = some (Text.ofString "dOT") ∧
    resolveBy? Text.caseFold true ["Dot", "DOT", "dOT", "Disc"] "disc" = some (Text.ofString "Disc") ∧
    resolveBy? Text.caseFold false ["Dot", "DOT", "dOT", "Disc"] "disc" = none := by
  decide +kernel

/-- A declared tag names itself. -/
theorem resolve?_of_mem (h : t ∈ tags) : resolve? folding tags t = some t :=
  resolveBy?_eq_some_iff.2 (.inl ⟨h, rfl⟩)

/-- What a tag names is declared. -/
theorem mem_of_resolveBy? (h : resolveBy? fold folding tags t = some tag) : tag ∈ tags := by
  rcases resolveBy?_eq_some_iff.1 h with ⟨hmem, -⟩ | ⟨-, -, hfilter⟩
  · exact hmem
  · have hfirst : tag ∈ tags.filter fun u => fold u == fold t := hfilter ▸ List.mem_cons_self
    exact (List.mem_filter.1 hfirst).1

/-- The order of declaration does not matter. -/
theorem resolveBy?_perm {tags' : List Text} (h : tags.Perm tags') :
    resolveBy? fold folding tags t = resolveBy? fold folding tags' t := by
  have hfilter (tag : Text) : (tags.filter fun u => fold u == fold t) = [tag] ↔
      (tags'.filter fun u => fold u == fold t) = [tag] := by
    rw [← List.perm_singleton, ← List.perm_singleton]
    exact ⟨(h.filter _).symm.trans, (h.filter _).trans⟩
  ext tag
  rw [resolveBy?_eq_some_iff, resolveBy?_eq_some_iff, h.mem_iff, h.mem_iff, hfilter]

end Tags

end TypedSexp
