import TypedSexp.Proofs.Value.Likeness
/-!
# What a comparison has looked at

A comparison that answers true has compared what the values hold. `Value.Agrees` says that two values
were found equal, by themselves or as items of other values: the items of two lists agree one by one,
the entries of two records by name, and so on for each kind of value.
-/

namespace TypedSexp.Value

/-- The values were found equal. -/
def Agrees (x y : Value) : Prop :=
  isSameNan x y = true ∨ x.same y = .ok true ∨ eqWith false x y = .ok true

variable {x y : Value} {xs ys : List Value}

theorem agrees_of_item (h : (if isSameNan x y then .ok true else eqWith false x y) = .ok true) :
    x.Agrees y := by
  by_cases hnan : isSameNan x y = true
  · exact .inl hnan
  · rw [if_neg hnan] at h
    exact .inr (.inr h)

/-- Only floats and arrays are compared in another way by themselves than inside other values. -/
theorem Agrees.eqWith (h : x.Agrees y) (hfloat : ∀ z, x ≠ .float z)
    (harray : ∀ e s xs, x ≠ .array e s xs) : Value.eqWith false x y = .ok true := by
  rcases h with h | h | h
  · cases x with
    | float z => exact absurd rfl (hfloat z)
    | _ => simp [isSameNan] at h
  · have hy : ∀ e s ys, y ≠ .array e s ys := by
      rintro e s ys rfl
      cases x with
      | array e s xs => exact harray e s xs rfl
      | _ => simp [same] at h
    rw [same] at h
    · exact h
    · exact harray
    · exact hy
    · exact fun e s xs _ _ _ hx _ => harray e s xs hx
  · exact h

/-- A comparison in steps is true if every step is. -/
theorem step_eq_true {here rest : Except ValueFault Bool} :
    (here >>= fun b => if b then rest else .ok false) = .ok true ↔
      here = .ok true ∧ rest = .ok true := by
  cases here with
  | error e => simp [bind, Except.bind]
  | ok b => cases b <;> simp [bind, Except.bind]

theorem guarded_eq_true {p : Prop} [Decidable p] {rest : Except ValueFault Bool} :
    (if p then rest else .ok false) = .ok true ↔ p ∧ rest = .ok true := by
  by_cases hp : p <;> simp [hp]

/-! ## Items -/

/-- Items are compared in order. -/
theorem agrees_of_eqAll : ∀ {xs ys : List Value}, eqAll xs ys = .ok true →
    xs.length = ys.length ∧ ∀ x y, (x, y) ∈ xs.zip ys → x.Agrees y
  | [], ys, h => by
    obtain rfl : ys = [] := by simpa [eqAll] using h
    exact ⟨rfl, by simp⟩
  | _ :: _, [], h => by simp [eqAll] at h
  | x :: xs, y :: ys, h => by
    rw [eqAll, step_eq_true] at h
    obtain ⟨hlen, hrest⟩ := agrees_of_eqAll h.2
    refine ⟨congrArg Nat.succ hlen, fun u w hmem => ?_⟩
    rcases List.mem_cons.1 hmem with heq | hmem
    · obtain ⟨rfl, rfl⟩ := Prod.mk.inj heq
      exact agrees_of_item h.1
    · exact hrest u w hmem

/-- Entries are compared by name. -/
theorem agrees_of_eqEntries {fs : List (Text × Value)} : ∀ {es : List (Text × Value)},
    eqEntries es fs = .ok true → ∀ name x y, es.lookup name = some x → fs.lookup name = some y →
      x.Agrees y
  | [], _, _, _, _, hx, _ => absurd hx (by simp)
  | (n, u) :: es, h, name, x, y, hx, hy => by
    rw [eqEntries] at h
    rw [List.lookup_cons] at hx
    cases hn : name == n with
    | true =>
      rw [hn] at hx
      obtain rfl := Option.some.inj hx
      rw [← eq_of_beq hn] at h
      simp only [hy, step_eq_true] at h
      exact agrees_of_item h.1
    | false =>
      rw [hn] at hx
      cases hw : fs.lookup n with
      | none => simp [hw] at h
      | some w =>
        simp only [hw, step_eq_true] at h
        exact agrees_of_eqEntries h.2 name x y hx hy

/-- Fields of instances are compared in order. -/
theorem agrees_of_eqFields : ∀ {es fs : List (Text × Value)}, eqFields es fs = .ok true →
    ∀ x y, (x, y) ∈ (es.map Prod.snd).zip (fs.map Prod.snd) → x.Agrees y
  | [], _, _, _, _, hmem => absurd hmem (by simp)
  | _ :: _, [], h, _, _, _ => by simp [eqFields] at h
  | (_, x) :: es, (_, y) :: fs, h, u, w, hmem => by
    rw [eqFields, step_eq_true] at h
    rcases List.mem_cons.1 hmem with heq | hmem
    · obtain ⟨rfl, rfl⟩ := Prod.mk.inj heq
      exact agrees_of_item h.1
    · exact agrees_of_eqFields h.2 u w hmem

/-! ## Elements of arrays -/

/-- Two elements of arrays of one element type are the same number, or values found equal. -/
def ElementsAgree (e : ElementType) (x y : Value) : Prop :=
  if e = .any then x.Agrees y
  else ∃ m n, x.numeral? = some m ∧ y.numeral? = some n ∧ m.eq n = true

theorem elementsAgree_of_numbers {e : ElementType} (he : e ≠ .any)
    {answer : Except ValueFault Bool} (hanswer : onNumerals (eqTyped e e) x y = .numbers answer)
    (h : answer = .ok true) : ElementsAgree e x y := by
  rw [ElementsAgree, if_neg he]
  unfold onNumerals at hanswer
  cases hm : x.numeral? with
  | none => simp [hm, h] at hanswer
  | some m =>
    cases hn : y.numeral? with
    | none => simp [hm, hn, h] at hanswer
    | some n => exact ⟨m, n, rfl, rfl, by simpa [hm, hn, h, eqTyped] using hanswer⟩

/-- Elements of two arrays are compared in order. -/
theorem elementsAgree_of_sameElements {e : ElementType} : ∀ {xs ys : List Value},
    sameElements e e xs ys = .ok true → ∀ x y, (x, y) ∈ xs.zip ys → ElementsAgree e x y
  | [], _, _, _, _, hmem => absurd hmem (by simp)
  | _ :: _, [], _, _, _, hmem => absurd hmem (by simp)
  | x :: xs, y :: ys, h, u, w, hmem => by
    have hsplit : ElementsAgree e x y ∧ sameElements e e xs ys = .ok true := by
      by_cases he : e = .any
      · simp only [sameElements, he, true_or, if_true] at h ⊢
        cases hxy : x.eq y with
        | error fault => simp [hxy, bind, Except.bind] at h
        | ok b =>
          cases hrest : sameElements .any .any xs ys with
          | error fault => simp [hxy, hrest, bind, Except.bind] at h
          | ok rest =>
            obtain ⟨rfl, rfl⟩ : b = true ∧ rest = true := by
              simpa [hxy, hrest, bind, Except.bind] using h
            exact ⟨by rw [ElementsAgree, if_pos rfl]; exact .inr (.inr hxy), rfl⟩
      · simp only [sameElements, he, false_or, if_false] at h
        cases hxy : onNumerals (eqTyped e e) x y with
        | values v => simp [hxy, bind, Except.bind, pure, Except.pure] at h; split at h <;> simp at h
        | numbers answer =>
          cases hanswer : answer with
          | error fault => simp [hxy, hanswer, bind, Except.bind] at h
          | ok b =>
            cases hrest : sameElements e e xs ys with
            | error fault => simp [hxy, hanswer, hrest, bind, Except.bind] at h
            | ok rest =>
              obtain ⟨rfl, rfl⟩ : b = true ∧ rest = true := by
                simpa [hxy, hanswer, hrest, bind, Except.bind] using h
              exact ⟨elementsAgree_of_numbers he hxy hanswer, rfl⟩
    rcases List.mem_cons.1 hmem with heq | hmem
    · obtain ⟨rfl, rfl⟩ := Prod.mk.inj heq
      exact hsplit.1
    · exact elementsAgree_of_sameElements hsplit.2 u w hmem

/-! ## Comparison with what is no array -/

section

variable {b : Value}

theorem content_of_plain (a : Value) (hb : b.isElementwise = false) : content a b = .ok b := by
  cases b with
  | array e s xs => simp [isElementwise] at hb
  | _ => rfl

theorem eq_list (xs : List Value) : b.isElementwise = false → (Value.list xs).eq b =
    match b with
    | .list ys => if xs.length = ys.length then eqAll xs ys else .ok false
    | _ => .ok false := by
  intro hb
  rcases xs with _ | ⟨x, _ | ⟨x', xs⟩⟩ <;> cases b <;>
    simp [eq, eqWith, isElementwise, @eq_comm Nat 1] at hb ⊢

theorem eq_tuple (xs : List Value) : b.isElementwise = false → (Value.tuple xs).eq b =
    match b with
    | .tuple ys => eqAll xs ys
    | _ => .ok false := by
  intro hb
  rcases xs with _ | ⟨x, _ | ⟨x', xs⟩⟩ <;> cases b <;> simp [eq, eqWith, isElementwise] at hb ⊢

theorem eq_variant (tag : Text) (xs : List Value) : b.isElementwise = false →
    (Value.variant tag xs).eq b =
      match b with
      | .variant tag' ys => if tag = tag' then eqAll xs ys else .ok false
      | _ => .ok false := by
  intro hb
  rw [eq, eqWith, content_of_plain _ hb]
  cases b <;> rfl

theorem eq_record (es : List (Text × Value)) : b.isElementwise = false → (Value.record es).eq b =
    match b with
    | .record fs => if es.length = fs.length then eqEntries es fs else .ok false
    | _ => .ok false := by
  intro hb
  rw [eq, eqWith, content_of_plain _ hb]
  cases b <;> rfl

theorem eq_none (hb : b.isElementwise = false) : Value.none.eq b = .ok b.isNone := by
  rw [eq, eqWith, content_of_plain _ hb]
  cases b <;> rfl

theorem eq_text (t : Text) : b.isElementwise = false → (Value.text t).eq b =
    match b with
    | .text u => .ok (t == u)
    | _ => .ok false := by
  intro hb
  rw [eq, eqWith, eqText, content_of_plain _ hb]
  cases b <;> simp [isElementwise, isArray, bind, Except.bind] at hb ⊢

theorem eqNumber_of_plain {flag : Bool} {x : Value} {m : Numeral} (hb : b.isElementwise = false) :
    eqNumber flag x m b = .ok (b.numeral?.any m.eq) := by
  cases b <;> simp_all [isElementwise, eqNumber]

end

/-! ## Kinds of values -/

theorem agrees_of_list (h : (Value.list xs).Agrees (.list ys)) :
    xs.length = ys.length ∧ ∀ x y, (x, y) ∈ xs.zip ys → x.Agrees y := by
  have h : (Value.list xs).eq (.list ys) = .ok true := h.eqWith (by simp) (by simp)
  simp only [eq_list (b := .list ys) xs rfl, guarded_eq_true] at h
  exact agrees_of_eqAll h.2

theorem agrees_of_tuple (h : (Value.tuple xs).Agrees (.tuple ys)) :
    xs.length = ys.length ∧ ∀ x y, (x, y) ∈ xs.zip ys → x.Agrees y := by
  have h : (Value.tuple xs).eq (.tuple ys) = .ok true := h.eqWith (by simp) (by simp)
  simp only [eq_tuple (b := .tuple ys) xs rfl] at h
  exact agrees_of_eqAll h

theorem agrees_of_variant {tag tag' : Text} (h : (Value.variant tag xs).Agrees (.variant tag' ys)) :
    tag = tag' ∧ xs.length = ys.length ∧ ∀ x y, (x, y) ∈ xs.zip ys → x.Agrees y := by
  have h := h.eqWith (by simp) (by simp)
  simp only [Value.eqWith, content, content?, bind, Except.bind, guarded_eq_true] at h
  exact ⟨h.1, agrees_of_eqAll h.2⟩

theorem agrees_of_object {name name' : Text} {es fs : List (Text × Value)}
    (h : (Value.object name es).Agrees (.object name' fs)) :
    name = name' ∧ ∀ x y, (x, y) ∈ (es.map Prod.snd).zip (fs.map Prod.snd) → x.Agrees y := by
  have h := h.eqWith (by simp) (by simp)
  simp only [Value.eqWith, content, content?, bind, Except.bind, guarded_eq_true] at h
  exact ⟨h.1, agrees_of_eqFields h.2⟩

theorem agrees_of_record {es fs : List (Text × Value)} (h : (Value.record es).Agrees (.record fs)) :
    ∀ name x y, es.lookup name = some x → fs.lookup name = some y → x.Agrees y := by
  have h := h.eqWith (by simp) (by simp)
  simp only [Value.eqWith, content, content?, bind, Except.bind, guarded_eq_true] at h
  exact agrees_of_eqEntries h.2

/-- Two arrays of one element type have the same shape, or one item each. -/
theorem agrees_of_array {e : ElementType} {s t : Shape}
    (h : (Value.array e s xs).Agrees (.array e t ys)) :
    (s = t ∨ xs.length = 1 ∧ ys.length = 1) ∧ ∀ x y, (x, y) ∈ xs.zip ys → ElementsAgree e x y := by
  rcases h with h | h | h
  · simp [isSameNan] at h
  · rw [same] at h
    by_cases hshape : s = t
    · rw [if_pos hshape] at h
      exact ⟨.inl hshape, elementsAgree_of_sameElements h⟩
    · simp [hshape] at h
  · rcases xs with _ | ⟨x, _ | ⟨x', xs⟩⟩
    · simp [Value.eqWith] at h
    · rcases ys with _ | ⟨y, _ | ⟨y', ys⟩⟩
      · simp [Value.eqWith, meeting, isPlainNumber, leaf?] at h
      · refine ⟨.inr ⟨rfl, rfl⟩, fun u w hmem => ?_⟩
        obtain ⟨rfl, rfl⟩ : u = x ∧ w = y := by simpa using hmem
        by_cases he : e = .any
        · rw [ElementsAgree, if_pos he]
          exact .inr (.inr (by simpa [Value.eqWith, meeting, isPlainNumber, leaf?, he] using h))
        · cases hmeet : onNumerals (eqTyped e e) u w with
          | values v => 
            unfold onNumerals at hmeet
            split at hmeet <;> simp at hmeet
          | numbers answer =>
            refine elementsAgree_of_numbers he hmeet ?_
            simpa [Value.eqWith, meeting, isPlainNumber, leaf?, he, hmeet] using h
      · simp [Value.eqWith, meeting, isPlainNumber, leaf?] at h
    · simp [Value.eqWith] at h

/-- Nothing is found equal to what holds nothing else. -/
theorem content_of_agrees_none (h : Value.none.Agrees y) : y.content? = some .none := by
  have h := h.eqWith (by simp) (by simp)
  cases hy : y.content? with
  | none => simp [Value.eqWith, content, hy, bind, Except.bind] at h
  | some z =>
    cases z with
    | none => rfl
    | _ => simp [Value.eqWith, content, hy, bind, Except.bind] at h

end TypedSexp.Value
