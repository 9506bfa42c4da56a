import TypedSexp.Description.Head
/-!
# Heads are found in as many rounds as there are definitions

Each round keeps the heads that are known (`Grows`) and finds another one, unless nothing changes any
more. There are only as many heads as definitions, so the heads of a catalog are a fixed point
(`headsFrom_heads`).
-/

namespace TypedSexp

/-- The heads that are known in the first list are the same in the second. -/
def Grows (known later : List Head) : Prop :=
  known.length = later.length ∧
    ∀ (i : Nat) (h : Head), known[i]? = some h → h ≠ .endless → later[i]? = some h

namespace Grows

variable {known later : List Head}

theorem getElem?_eq (h : Grows known later) {id : DefinitionId} (hne : known[id]? ≠ some .endless) :
    later[id]? = known[id]? := by
  cases hk : known[id]? with
  | none =>
    rw [List.getElem?_eq_none_iff] at hk ⊢
    rw [← h.1]
    exact hk
  | some head => exact h.2 id head hk (fun he => hne (by rw [hk, he]))

end Grows

/-! ## Heads grow with what is known -/

namespace Plan

theorem headAt_eq (through : Bool) (heads : List Head) : ∀ (i : Nat) (cs : List Converter),
    headAt through heads i cs = ((cs[i]?).map fun c => c.plan.head through heads).getD .shape
  | _, [] => by simp [headAt]
  | 0, c :: cs => by simp [headAt]
  | i + 1, c :: cs => by simp [headAt, headAt_eq through heads i cs]

variable {known later : List Head} (through : Bool)

mutual

theorem head_grows (h : Grows known later) : ∀ (p : Plan), p.head through known ≠ .endless →
    p.head through later = p.head through known
  | .link cell id args, hne => by
    have hid : later[id]? = known[id]? := by
      refine h.getElem?_eq fun he => hne ?_
      simp [head, he]
    unfold head at hne ⊢
    rw [hid]
    cases hk : known[id]? with
    | none => rfl
    | some found =>
      cases found with
      | shape => rfl
      | endless => rfl
      | parameter i =>
        rw [hk] at hne
        exact headAt_grows h i args hne
  | .option _ inner, hne => by
    unfold head at hne ⊢
    by_cases ht : through
    · rw [if_pos ht] at hne
      rw [if_pos ht, if_pos ht]
      exact head_grows h inner.plan hne
    · rw [if_neg ht, if_neg ht]
  | .primitive _, _ => rfl
  | .custom _, _ => rfl
  | .sealed _, _ => rfl
  | .list .., _ => rfl
  | .array .., _ => rfl
  | .tuple .., _ => rfl
  | .record _, _ => rfl
  | .variant .., _ => rfl

theorem headAt_grows (h : Grows known later) : ∀ (i : Nat) (cs : List Converter),
    headAt through known i cs ≠ .endless → headAt through later i cs = headAt through known i cs
  | _, [], _ => by simp [headAt]
  | 0, c :: _, hne => head_grows h c.plan hne
  | i + 1, _ :: cs, hne => headAt_grows h i cs hne

end

end Plan

namespace Description

theorem headAt_eq (through : Bool) (heads : List Head) : ∀ (i : Nat) (ds : List Description),
    headAt through heads i ds = ((ds[i]?).map fun d => d.head through heads).getD .shape
  | _, [] => by simp [headAt]
  | 0, d :: ds => by simp [headAt]
  | i + 1, d :: ds => by simp [headAt, headAt_eq through heads i ds]

variable {known later : List Head} (through : Bool)

mutual

theorem head_grows (h : Grows known later) : ∀ (d : Description), d.head through known ≠ .endless →
    d.head through later = d.head through known
  | .recursive id none, hne => by
    have hid : later[id]? = known[id]? := by
      refine h.getElem?_eq fun he => hne ?_
      simp [head, he]
    simp [head, hid]
  | .recursive id (some args), hne => by
    rw [head] at hne
    rw [head, head, headOf_grows h id args hne]
  | .applied id args, hne => by
    rw [head] at hne
    rw [head, head, headOf_grows h id args hne]
  | .option inner, hne => by
    unfold head at hne ⊢
    by_cases ht : through
    · rw [if_pos ht] at hne
      rw [if_pos ht, if_pos ht]
      exact head_grows h inner hne
    · rw [if_neg ht, if_neg ht]
  | .given c, hne => by
    rw [head] at hne
    rw [head, head, Plan.head_grows through h c.plan hne]
  | .parameter .., _ => by simp [head]
  | .primitive _, _ => by simp [head]
  | .product _, _ => by simp [head]
  | .record .., _ => by simp [head]
  | .sum _, _ => by simp [head]
  | .polyVariant _, _ => by simp [head]
  | .list _, _ => by simp [head]
  | .array .., _ => by simp [head]
  | .sealed, _ => by simp [head]
  | .notConverter _, _ => by simp [head]
  | .foreign _, _ => by simp [head]

theorem headOf_grows (h : Grows known later) (id : DefinitionId) : ∀ (args : List Description),
    headOf through known id args ≠ .endless →
      headOf through later id args = headOf through known id args
  | args, hne => by
    have hid : later[id]? = known[id]? := by
      refine h.getElem?_eq fun he => hne ?_
      simp [headOf, he]
    unfold headOf at hne ⊢
    rw [hid]
    cases hk : known[id]? with
    | none => rfl
    | some found =>
      cases found with
      | shape => rfl
      | endless => rfl
      | parameter i =>
        rw [hk] at hne
        exact headAt_grows h i args hne

theorem headAt_grows (h : Grows known later) : ∀ (i : Nat) (ds : List Description),
    headAt through known i ds ≠ .endless → headAt through later i ds = headAt through known i ds
  | _, [], _ => by simp [headAt]
  | 0, d :: ds, hne => by
    rw [headAt] at hne
    rw [headAt, headAt, head_grows h d hne]
  | i + 1, d :: ds, hne => by
    rw [headAt] at hne
    rw [headAt, headAt, headAt_grows h i ds hne]

end

end Description

/-! ## The rounds come to an end -/

/-- How many heads are known. -/
def knownCount (heads : List Head) : Nat := (heads.filter fun h => h ≠ .endless).length

theorem knownCount_le (heads : List Head) : knownCount heads ≤ heads.length :=
  List.length_filter_le ..

theorem knownCount_cons (h : Head) (heads : List Head) :
    knownCount (h :: heads) = knownCount heads + if h = .endless then 0 else 1 := by
  unfold knownCount
  by_cases hh : h = .endless
  · simp [hh]
  · simp [hh]

/-- Heads that grow and change come to be known. -/
theorem eq_or_knownCount_lt : ∀ {known later : List Head}, Grows known later →
    known = later ∨ knownCount known < knownCount later
  | [], [], _ => .inl rfl
  | [], _ :: _, h => by simp [Grows] at h
  | _ :: _, [], h => by simp [Grows] at h
  | a :: known, b :: later, h => by
    have htail : Grows known later :=
      ⟨by simpa using h.1, fun i c hi hne => by simpa using h.2 (i + 1) c (by simpa using hi) hne⟩
    have hhead : a ≠ .endless → b = a := fun hne => by simpa using h.2 0 a rfl hne
    rw [knownCount_cons, knownCount_cons]
    rcases eq_or_knownCount_lt htail with rfl | hlt
    · by_cases ha : a = .endless
      · by_cases hb : b = .endless
        · exact .inl (by rw [ha, hb])
        · right
          rw [if_pos ha, if_neg hb]
          omega
      · exact .inl (by rw [hhead ha])
    · right
      by_cases ha : a = .endless
      · rw [if_pos ha]
        omega
      · rw [hhead ha]
        omega

namespace Catalog

variable (catalog : Catalog) (through : Bool)

theorem headsFrom_grows {known later : List Head} (h : Grows known later) :
    Grows (catalog.headsFrom through known) (catalog.headsFrom through later) := by
  refine ⟨by simp [headsFrom], fun i head hi hne => ?_⟩
  unfold headsFrom at hi ⊢
  rw [List.getElem?_map] at hi ⊢
  cases hd : catalog[i]? with
  | none => simp [hd] at hi
  | some d =>
    cases hb : d.body with
    | none =>
      rw [hd] at hi
      simpa [hb] using hi
    | some body =>
      have hhead : body.head through known = head := by simpa [hd, hb] using hi
      have hlater := Description.head_grows through h body (by rw [hhead]; exact hne)
      simp [hb, hlater, hhead]

theorem headsWithin_grows (rounds : Nat) :
    Grows (catalog.headsWithin through rounds) (catalog.headsWithin through (rounds + 1)) := by
  induction rounds with
  | zero =>
    refine ⟨by simp [headsWithin, headsFrom], fun i h hi hne => ?_⟩
    rw [headsWithin, List.getElem?_map] at hi
    obtain ⟨d, _, rfl⟩ := Option.map_eq_some_iff.1 hi
    exact absurd rfl hne
  | succ rounds ih => exact catalog.headsFrom_grows through ih

theorem length_headsWithin (rounds : Nat) :
    (catalog.headsWithin through rounds).length = catalog.length := by
  cases rounds <;> simp [headsWithin, headsFrom]

/-- Either the rounds have come to an end, or every round has found a head. -/
theorem headsWithin_stable_or (rounds : Nat) :
    catalog.headsWithin through (rounds + 1) = catalog.headsWithin through rounds ∨
      rounds < knownCount (catalog.headsWithin through (rounds + 1)) := by
  induction rounds with
  | zero =>
    rcases eq_or_knownCount_lt (catalog.headsWithin_grows through 0) with h | h
    · exact .inl h.symm
    · exact .inr (by omega)
  | succ rounds ih =>
    rcases eq_or_knownCount_lt (catalog.headsWithin_grows through (rounds + 1)) with h | h
    · exact .inl h.symm
    · rcases ih with hstable | hcount
      · -- what is stable once stays so
        exact .inl (congrArg (catalog.headsFrom through) hstable)
      · exact .inr (by omega)

/-- **The heads of a catalog are a fixed point.** -/
theorem headsFrom_heads : catalog.headsFrom through (catalog.heads through) = catalog.heads through := by
  show catalog.headsWithin through (catalog.length + 1) = catalog.headsWithin through catalog.length
  rcases catalog.headsWithin_stable_or through catalog.length with h | h
  · exact h
  · have hle := knownCount_le (catalog.headsWithin through (catalog.length + 1))
    rw [length_headsWithin] at hle
    omega

/-- The head of a definition is that of its body. -/
theorem getElem?_headsFrom {known : List Head} {id : DefinitionId} {d : Definition}
    {body : Description} (hd : catalog[id]? = some d) (hb : d.body = some body) :
    (catalog.headsFrom through known)[id]? = some (body.head through known) := by
  rw [headsFrom, List.getElem?_map, hd, Option.map_some, hb]
  rfl

end Catalog

end TypedSexp
