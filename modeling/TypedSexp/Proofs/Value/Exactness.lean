import TypedSexp.Proofs.Results
import TypedSexp.Proofs.Value.Comparison
import TypedSexp.Proofs.Value.Data
/-!
# Equality with arrays inside values

`Value.same` understands two arrays that it is given. An array inside another value it meets like any
item, and then compares it element by element with what stands on the other side: that has an answer
only if one element meets one element, and one element is taken for the array that holds it.

`same_decides` says what this comes to for plain data. `Meets` is the course of a comparison: items
are compared in order, and what stands behind a difference is never looked at. Where no array is met,
the answer is whether the two values match; where one is met that has not exactly one element, there
is no answer; and values that match are never told apart.
-/

namespace TypedSexp.Value

/-! ## The course of a comparison -/

/-- Comparing items in order comes to these two: all in front of them match. -/
inductive Reaches : List Value → List Value → Value → Value → Prop
  | head {x y : Value} {xs ys : List Value} : Reaches (x :: xs) (y :: ys) x y
  | tail {a b x y : Value} {xs ys : List Value} (h : a.Matches b) (hrest : Reaches xs ys x y) :
      Reaches (a :: xs) (b :: ys) x y

/-- Comparing entries with those of another record, in order, comes to these two values. -/
inductive ReachesEntry (fs : List (Text × Value)) : List (Text × Value) → Value → Value → Prop
  | head {name : Text} {x y : Value} {es : List (Text × Value)} (hy : fs.lookup name = some y) :
      ReachesEntry fs ((name, x) :: es) x y
  | tail {name : Text} {a b x y : Value} {es : List (Text × Value)} (hb : fs.lookup name = some b)
      (h : a.Matches b) (hrest : ReachesEntry fs es x y) : ReachesEntry fs ((name, a) :: es) x y

/-- Comparing two values comes to two values in them of which the property holds. Lists and records
of different lengths are different at once. -/
inductive Meets (p : Value → Value → Prop) : Value → Value → Prop
  | here {x y : Value} (h : p x y) : Meets p x y
  | list {xs ys : List Value} {x y : Value} (hlen : xs.length = ys.length) (h : Reaches xs ys x y)
      (hxy : Meets p x y) : Meets p (.list xs) (.list ys)
  | tuple {xs ys : List Value} {x y : Value} (h : Reaches xs ys x y) (hxy : Meets p x y) :
      Meets p (.tuple xs) (.tuple ys)
  | variant {tag : Text} {xs ys : List Value} {x y : Value} (h : Reaches xs ys x y)
      (hxy : Meets p x y) : Meets p (.variant tag xs) (.variant tag ys)
  | record {es fs : List (Text × Value)} {x y : Value} (hlen : es.length = fs.length)
      (h : ReachesEntry fs es x y) (hxy : Meets p x y) : Meets p (.record es) (.record fs)

/-- Comparing two values comes to two values inside them, elements of arrays or items of anything
else; all elements of two arrays of one shape are compared. -/
inductive MeetsInside (p : Value → Value → Prop) : Value → Value → Prop
  | elements {e f : ElementType} {s : Shape} {xs ys : List Value} {x y : Value}
      (h : (x, y) ∈ xs.zip ys) (hxy : Meets p x y) : MeetsInside p (.array e s xs) (.array f s ys)
  | items {x y : Value} (hx : x.isArray = false) (hy : y.isArray = false) (h : Meets p x y) :
      MeetsInside p x y

/-- One of the two values is an array. -/
def EitherArray (x y : Value) : Prop := x.isArray = true ∨ y.isArray = true

/-- The value is an array with no element, or with several. -/
def isCrowd : Value → Bool
  | .array _ _ xs => xs.length != 1
  | _ => false

/-- One of the two values is an array without exactly one element. -/
def EitherCrowd (x y : Value) : Prop := x.isCrowd = true ∨ y.isCrowd = true

/-! ## Answers -/

/-- The comparison has an answer, which is whether the property holds. -/
def Decides (answer : Except ValueFault Bool) (p : Prop) : Prop :=
  ∃ r, answer = .ok r ∧ (r = true ↔ p)

section Answers

variable {here rest answer : Except ValueFault Bool} {p q : Prop}

theorem decides_ok {b : Bool} (h : b = true ↔ p) : Decides (.ok b) p := ⟨b, rfl, h⟩

theorem decides_false (h : ¬p) : Decides (.ok false) p := decides_ok (by simp [h])

theorem Decides.congr (h : Decides answer p) (hpq : p ↔ q) : Decides answer q := by
  obtain ⟨r, hr, hiff⟩ := h
  exact ⟨r, hr, hiff.trans hpq⟩

/-- A comparison in steps: what follows a difference is not looked at. -/
theorem Decides.step (h : Decides here p) (hrest : p → Decides rest q) :
    Decides (here >>= fun b => if b then rest else .ok false) (p ∧ q) := by
  obtain ⟨r, rfl, hiff⟩ := h
  cases r with
  | false =>
    refine decides_false fun hpq => ?_
    exact absurd (hiff.2 hpq.1) (by simp)
  | true =>
    have hp : p := hiff.1 rfl
    exact (hrest hp).congr (by simp [hp])

theorem decides_guarded [Decidable p] (h : p → Decides rest q) :
    Decides (if p then rest else .ok false) (p ∧ q) := by
  by_cases hp : p
  · rw [if_pos hp]
    exact (h hp).congr (by simp [hp])
  · rw [if_neg hp]
    exact decides_false fun hpq => hp hpq.1

/-- Two comparisons that are both made. -/
theorem Decides.both (h : Decides here p) (hrest : Decides rest q) :
    Decides (do let b ← here; let c ← rest; .ok (b && c)) (p ∧ q) := by
  obtain ⟨r, rfl, hr⟩ := h
  obtain ⟨r', rfl, hr'⟩ := hrest
  exact ⟨r && r', rfl, by rw [Bool.and_eq_true, hr, hr']⟩

theorem step_eq_error {fault : ValueFault} (hhere : here ≠ .ok false) (hrest : rest = .error fault) :
    ∃ fault', (here >>= fun b => if b then rest else .ok false) = .error fault' := by
  match here, hhere with
  | .error fault', _ => exact ⟨fault', rfl⟩
  | .ok true, _ => exact ⟨fault, hrest⟩
  | .ok false, h => exact absurd rfl h

theorem step_ne_false (hhere : here ≠ .ok false) (hrest : rest ≠ .ok false) :
    (here >>= fun b => if b then rest else .ok false) ≠ .ok false := by
  match here, hhere with
  | .error fault', _ => exact nofun
  | .ok true, _ => exact hrest
  | .ok false, h => exact absurd rfl h

end Answers

/-! ## Comparison in order -/

section Order

variable {xs ys : List Value} {es fs : List (Text × Value)} {x y : Value}

/-- Only floats can be the same occurrence without being equal. -/
theorem item_eq (hx : x.IsData) :
    (if isSameNan x y then .ok true else eqWith false x y) = x.eq y := by
  rw [if_neg]
  · rfl
  · cases hx <;> simp [isSameNan, vector]

theorem eqAll_cons (hx : x.IsData) : eqAll (x :: xs) (y :: ys) =
    x.eq y >>= fun b => if b then eqAll xs ys else .ok false := by
  rw [eqAll, item_eq hx]

theorem eqEntries_cons {name : Text} (hx : x.IsData) (hy : fs.lookup name = some y) :
    eqEntries ((name, x) :: es) fs =
      x.eq y >>= fun b => if b then eqEntries es fs else .ok false := by
  rw [eqEntries]
  simp only [hy, item_eq hx]

theorem Reaches.mem (h : Reaches xs ys x y) : x ∈ xs ∧ y ∈ ys := by
  induction h with
  | head => exact ⟨List.mem_cons_self, List.mem_cons_self⟩
  | tail _ _ ih => exact ⟨List.mem_cons_of_mem _ ih.1, List.mem_cons_of_mem _ ih.2⟩

theorem ReachesEntry.mem (h : ReachesEntry fs es x y) :
    (∃ e ∈ es, e.2 = x) ∧ ∃ e ∈ fs, e.2 = y := by
  induction h with
  | head hy => exact ⟨⟨_, List.mem_cons_self, rfl⟩, _, mem_of_lookup hy, rfl⟩
  | tail _ _ _ ih =>
    obtain ⟨⟨e, he, hx⟩, hy⟩ := ih
    exact ⟨⟨e, List.mem_cons_of_mem _ he, hx⟩, hy⟩

theorem eqAll_decides : ∀ {xs ys : List Value}, (∀ x ∈ xs, x.IsData) →
    (∀ x y, Reaches xs ys x y → Decides (x.eq y) (x.Matches y)) →
    Decides (eqAll xs ys) (xs.length = ys.length ∧ ∀ x y, (x, y) ∈ xs.zip ys → x.Matches y)
  | [], ys, _, _ => by
    rw [eqAll]
    exact decides_ok (by cases ys <;> simp)
  | x :: xs, [], _, _ => by
    rw [eqAll]
    exact decides_false (by simp)
  | x :: xs, y :: ys, hdata, h => by
    rw [eqAll_cons (hdata x List.mem_cons_self)]
    have hrest : x.Matches y → Decides (eqAll xs ys)
        (xs.length = ys.length ∧ ∀ x y, (x, y) ∈ xs.zip ys → x.Matches y) := fun hxy =>
      eqAll_decides (fun u hu => hdata u (List.mem_cons_of_mem _ hu)) fun u w huw =>
        h u w (.tail hxy huw)
    refine ((h x y .head).step hrest).congr ?_
    simp only [List.length_cons, Nat.add_right_cancel_iff, List.zip_cons_cons, List.mem_cons,
      Prod.mk.injEq]
    constructor
    · rintro ⟨hxy, hlen, hall⟩
      refine ⟨hlen, ?_⟩
      rintro u w (⟨rfl, rfl⟩ | hmem)
      · exact hxy
      · exact hall u w hmem
    · rintro ⟨hlen, hall⟩
      exact ⟨hall x y (.inl ⟨rfl, rfl⟩), hlen, fun u w hmem => hall u w (.inr hmem)⟩

theorem eqEntries_decides : ∀ {es : List (Text × Value)}, (∀ e ∈ es, e.2.IsData) →
    (∀ x y, ReachesEntry fs es x y → Decides (x.eq y) (x.Matches y)) →
    Decides (eqEntries es fs) (∀ e ∈ es, ∃ y, fs.lookup e.1 = some y ∧ e.2.Matches y)
  | [], _, _ => by
    rw [eqEntries]
    exact decides_ok (by simp)
  | (name, x) :: es, hdata, h => by
    cases hy : fs.lookup name with
    | none =>
      rw [eqEntries]
      simp only [hy]
      exact decides_false (by simp [hy])
    | some y =>
      rw [eqEntries_cons (hdata _ List.mem_cons_self) hy]
      have hrest : x.Matches y → Decides (eqEntries es fs)
          (∀ e ∈ es, ∃ y, fs.lookup e.1 = some y ∧ e.2.Matches y) := fun hxy =>
        eqEntries_decides (fun e he => hdata e (List.mem_cons_of_mem _ he)) fun u w huw =>
          h u w (.tail hy hxy huw)
      exact ((h x y (.head hy)).step hrest).congr (by simp [hy])

end Order

/-! ## Where no array is met -/

section Exact

variable {a b : Value} {xs ys : List Value}

theorem plain_of_not_meets (hb : b.IsData) (h : ¬Meets EitherArray a b) :
    b.isElementwise = false := by
  rw [isElementwise_of_isData hb, ← Bool.not_eq_true]
  exact fun harray => h (.here (.inr harray))

/-- Items are decided in order, as far as they are compared without meeting an array. -/
theorem items_decide (hxs : ∀ x ∈ xs, x.IsData) (hys : ∀ y ∈ ys, y.IsData)
    (hitems : ∀ x ∈ xs, ∀ {y : Value}, y.IsData → ¬Meets EitherArray x y →
      Decides (x.eq y) (x.Matches y))
    (h : ∀ x y, Reaches xs ys x y → ¬Meets EitherArray x y) :
    Decides (eqAll xs ys) (xs.length = ys.length ∧ ∀ x y, (x, y) ∈ xs.zip ys → x.Matches y) :=
  eqAll_decides hxs fun x y hxy => hitems x hxy.mem.1 (hys y hxy.mem.2) (h x y hxy)

/-- **Where comparing data meets no array, the answer is whether the two match.** -/
theorem eq_decides (ha : a.IsData) (hb : b.IsData) (h : ¬Meets EitherArray a b) :
    Decides (a.eq b) (a.Matches b) := by
  -- A value matches only its own kind, and with any other kind the comparison ends at once.
  induction ha generalizing b with
  | none =>
    rw [eq_none (plain_of_not_meets hb h), matches_none]
    exact decides_ok (by cases b <;> simp [isNone])
  | bool t =>
    rw [matches_number rfl, eq, eqWith, eqNumber_of_plain (plain_of_not_meets hb h)]
    exact decides_ok Iff.rfl
  | int n =>
    rw [matches_number rfl, eq, eqWith, eqNumber_of_plain (plain_of_not_meets hb h)]
    exact decides_ok Iff.rfl
  | text t =>
    rw [eq_text t (plain_of_not_meets hb h), matches_text]
    cases hb with
    | text u => exact decides_ok (by simp [@eq_comm Text u])
    | _ => exact decides_false (by rintro ⟨⟩)
  | @list xs hxs ih =>
    rw [eq_list xs (plain_of_not_meets hb h), matches_list]
    cases hb with
    | @list ys hys =>
      have hall (hlen : xs.length = ys.length) := items_decide hxs hys ih fun x y hxy hmeets =>
        h (.list hlen hxy hmeets)
      exact (decides_guarded hall).congr (by simp)
    | _ => exact decides_false (by rintro ⟨_, ⟨⟩, _⟩)
  | @tuple xs hxs ih =>
    rw [eq_tuple xs (plain_of_not_meets hb h), matches_tuple]
    cases hb with
    | @tuple ys hys =>
      have hall := items_decide hxs hys ih fun x y hxy hmeets => h (.tuple hxy hmeets)
      exact hall.congr (by simp)
    | _ => exact decides_false (by rintro ⟨_, ⟨⟩, _⟩)
  | @variant tag xs hxs ih =>
    rw [eq_variant tag xs (plain_of_not_meets hb h), matches_variant]
    cases hb with
    | @variant tag' ys hys =>
      have hall : tag = tag' → Decides (eqAll xs ys) (xs.length = ys.length ∧
          ∀ x y, (x, y) ∈ xs.zip ys → x.Matches y) := by
        rintro rfl
        exact items_decide hxs hys ih fun x y hxy hmeets => h (.variant hxy hmeets)
      refine (decides_guarded hall).congr ?_
      simp [@eq_comm Text tag']
    | _ => exact decides_false (by rintro ⟨_, ⟨⟩, _⟩)
  | @record es hnames hes ih =>
    rw [eq_record es (plain_of_not_meets hb h)]
    cases hb with
    | @record fs _ hfs =>
      rw [matches_record hnames]
      refine decides_guarded fun hlen => eqEntries_decides hes fun x y hxy => ?_
      obtain ⟨⟨e, he, rfl⟩, e', he', rfl⟩ := hxy.mem
      exact ih e he (hfs e' he') fun hmeets => h (.record hlen hxy hmeets)
    | _ =>
      refine decides_false fun hmatch => ?_
      cases hmatch with
      | number hx => simp [numeral?] at hx
  | numbers _ => exact absurd (.here (.inl rfl)) h
  | values _ _ => exact absurd (.here (.inl rfl)) h

end Exact

/-! ## Where there is no answer -/

section Crowd

variable {a b : Value} {flag : Bool}

theorem exists_of_isCrowd (h : b.isCrowd = true) :
    ∃ e s ys, b = .array e s ys ∧ ys.length ≠ 1 := by
  cases b with
  | array e s ys => exact ⟨e, s, ys, rfl, by simpa [isCrowd] using h⟩
  | _ => simp [isCrowd] at h

theorem content_of_isCrowd (a : Value) (h : b.isCrowd = true) :
    content a b = .error (unclear a b) := by
  obtain ⟨e, s, ys, rfl, hlen⟩ := exists_of_isCrowd h
  match ys, hlen with
  | [], _ => rfl
  | [_], hlen => exact absurd rfl hlen
  | _ :: _ :: _, _ => rfl

theorem eqNumber_of_isCrowd {x : Value} {m : Numeral} (h : b.isCrowd = true) :
    ∃ fault, eqNumber flag x m b = .error fault := by
  obtain ⟨e, s, ys, rfl, hlen⟩ := exists_of_isCrowd h
  match ys, hlen with
  | [], _ => exact ⟨_, rfl⟩
  | [_], hlen => exact absurd rfl hlen
  | _ :: _ :: _, _ => exact ⟨_, rfl⟩

theorem isElementwise_of_isCrowd (h : b.isCrowd = true) : b.isElementwise = true := by
  obtain ⟨e, s, ys, rfl, _⟩ := exists_of_isCrowd h
  rfl

theorem meeting_of_isCrowd (e : ElementType) (x : Value) (h : b.isCrowd = true) :
    meeting e x b = Option.none := by
  obtain ⟨f, s, ys, rfl, hlen⟩ := exists_of_isCrowd h
  match ys, hlen with
  | [], _ => rfl
  | [_], hlen => exact absurd rfl hlen
  | _ :: _ :: _, _ => rfl

/-- An array is not compared with an array without exactly one element, nor is that with anything. -/
theorem eqWith_array_of_isCrowd {e : ElementType} {s : Shape} {xs : List Value}
    (h : EitherCrowd (.array e s xs) b) : ∃ fault, eqWith flag (.array e s xs) b = .error fault := by
  rcases xs with _ | ⟨x, _ | ⟨x', xs⟩⟩
  · exact ⟨_, by rw [eqWith]; simp⟩
  · rcases h with h | h
    · simp [isCrowd] at h
    · exact ⟨_, by rw [eqWith, meeting_of_isCrowd e x h]⟩
  · exact ⟨_, by rw [eqWith]; simp⟩

/-- A list is compared with an array element by element. -/
theorem eqWith_list (xs : List Value) : b.isElementwise = true → eqWith flag (.list xs) b =
    match xs with
    | [x] => eqWith true x b
    | xs => .error (unclear (.list xs) b) := by
  intro hb
  rcases xs with _ | ⟨x, _ | ⟨x', xs⟩⟩ <;> cases b <;> simp [eqWith, isElementwise] at hb ⊢

/-- A tuple is compared with an array element by element. -/
theorem eqWith_tuple (xs : List Value) : b.isElementwise = true → eqWith flag (.tuple xs) b =
    match xs with
    | [x] => eqWith true x b
    | xs => .error (unclear (.tuple xs) b) := by
  intro hb
  rcases xs with _ | ⟨x, _ | ⟨x', xs⟩⟩ <;> cases b <;> simp [eqWith, isElementwise] at hb ⊢

theorem EitherCrowd.right (h : EitherCrowd a b) (ha : a.isArray = false) : b.isCrowd = true := by
  rcases h with h | h
  · obtain ⟨e, s, xs, rfl, _⟩ := exists_of_isCrowd h
    exact absurd ha nofun
  · exact h

/-- An array without exactly one element is compared with nothing. -/
theorem eqWith_of_isCrowd (ha : a.IsData) (h : EitherCrowd a b) :
    ∃ fault, eqWith flag a b = .error fault := by
  -- A sequence of one is compared with an array by its item, hence the induction.
  induction ha generalizing flag with
  | none => exact ⟨_, by rw [eqWith, content_of_isCrowd _ (h.right rfl)]; rfl⟩
  | bool t =>
    rw [eqWith]
    exact eqNumber_of_isCrowd (h.right rfl)
  | int n =>
    rw [eqWith]
    exact eqNumber_of_isCrowd (h.right rfl)
  | text t => exact ⟨_, by rw [eqWith, eqText, content_of_isCrowd _ (h.right rfl)]; rfl⟩
  | @list xs hxs ih =>
    rw [eqWith_list xs (isElementwise_of_isCrowd (h.right rfl))]
    rcases xs with _ | ⟨x, _ | ⟨x', xs⟩⟩
    · exact ⟨_, rfl⟩
    · exact ih x List.mem_cons_self (.inr (h.right rfl))
    · exact ⟨_, rfl⟩
  | @tuple xs hxs ih =>
    rw [eqWith_tuple xs (isElementwise_of_isCrowd (h.right rfl))]
    rcases xs with _ | ⟨x, _ | ⟨x', xs⟩⟩
    · exact ⟨_, rfl⟩
    · exact ih x List.mem_cons_self (.inr (h.right rfl))
    · exact ⟨_, rfl⟩
  | variant _ _ => exact ⟨_, by rw [eqWith, content_of_isCrowd _ (h.right rfl)]; rfl⟩
  | record _ _ _ => exact ⟨_, by rw [eqWith, content_of_isCrowd _ (h.right rfl)]; rfl⟩
  | numbers _ => exact eqWith_array_of_isCrowd h
  | values _ _ => exact eqWith_array_of_isCrowd h

end Crowd

/-! ## Elements of arrays -/

section Elements

variable {e f : ElementType} {s : Shape} {xs ys : List Value} {x y : Value} {m n : Numeral}

/-- Numbers are compared as numbers, whatever stands around them. -/
theorem eq_of_numerals (hx : x.IsData) (hy : y.IsData) (hm : x.numeral? = some m)
    (hn : y.numeral? = some n) : x.eq y = .ok (m.eq n) := by
  have hplain : y.isElementwise = false := by
    cases hy <;> simp [numeral?, vector] at hn <;> rfl
  have hany : y.numeral?.any m.eq = m.eq n := by rw [hn]; rfl
  cases hx with
  | bool b =>
    obtain rfl := Option.some.inj hm
    rw [eq, eqWith, eqNumber_of_plain hplain, hany]
  | int k =>
    obtain rfl := Option.some.inj hm
    rw [eq, eqWith, eqNumber_of_plain hplain, hany]
  | _ => simp [numeral?, vector] at hm

/-- Numbers of two arrays are compared like the same numbers outside of them. -/
theorem onNumerals_of_isItem (hx : e.IsItem x) (hy : f.IsItem y) :
    onNumerals (eqTyped e f) x y = .numbers (x.eq y) := by
  obtain ⟨_, he, hxdata, m, hm⟩ := isItem_cases hx
  obtain ⟨_, hf, hydata, n, hn⟩ := isItem_cases hy
  simp only [onNumerals, hm, hn, eqTyped, he, hf, beq_self_eq_true, if_true]
  rw [eq_of_numerals hxdata hydata hm hn]

theorem typed_of_isElement (hx : IsElement e x) (hy : IsElement f y) (h : ¬(e = .any ∨ f = .any)) :
    onNumerals (eqTyped e f) x y = .numbers (x.eq y) := by
  rw [not_or] at h
  rcases hx with hx | ⟨he, _⟩
  · rcases hy with hy | ⟨hf, _⟩
    · exact onNumerals_of_isItem hx hy
    · exact absurd hf h.2
  · exact absurd he h.1

/-- Two arrays of one element each are compared by it, wherever they stand. -/
theorem eq_single {t : Shape} (hx : IsElement e x) (hy : IsElement f y) :
    (Value.array e s [x]).eq (.array f t [y]) = x.eq y := by
  have hmeet : meeting e x (.array f t [y]) =
      some (if e = .any ∨ f = .any then .values y else onNumerals (eqTyped e f) x y) := by
    simp [meeting, isPlainNumber, leaf?]
  rw [eq, eqWith, hmeet]
  by_cases hany : e = .any ∨ f = .any
  · rw [if_pos hany]
    rfl
  · rw [if_neg hany, typed_of_isElement hx hy hany]

theorem sameElements_cons (hx : IsElement e x) (hy : IsElement f y) :
    sameElements e f (x :: xs) (y :: ys) =
      (do let b ← x.eq y; let c ← sameElements e f xs ys; .ok (b && c)) := by
  rw [sameElements]
  by_cases hany : e = .any ∨ f = .any
  · rw [if_pos hany]
  · rw [if_neg hany, typed_of_isElement hx hy hany]

end Elements

/-! ## Values that match are not told apart -/

section NotApart

variable {a b : Value} {xs ys : List Value} {es fs : List (Text × Value)}

theorem eqAll_ne_false : ∀ {xs ys : List Value}, (∀ x ∈ xs, x.IsData) → (∀ y ∈ ys, y.IsData) →
    xs.length = ys.length →
    (∀ x y, (x, y) ∈ xs.zip ys → x.IsData → y.IsData → x.eq y ≠ .ok false) →
    eqAll xs ys ≠ .ok false
  | [], [], _, _, _, _ => by simp [eqAll]
  | x :: xs, y :: ys, hxs, hys, hlen, h => by
    rw [List.forall_mem_cons] at hxs hys
    rw [eqAll_cons hxs.1]
    refine step_ne_false (h x y List.mem_cons_self hxs.1 hys.1) ?_
    exact eqAll_ne_false hxs.2 hys.2 (Nat.succ.inj hlen) fun u w hmem =>
      h u w (List.mem_cons_of_mem _ hmem)

theorem eqEntries_ne_false : ∀ {es : List (Text × Value)}, (∀ e ∈ es, e.2.IsData) →
    (∀ e ∈ es, ∃ y, fs.lookup e.1 = some y ∧ e.2.eq y ≠ .ok false) → eqEntries es fs ≠ .ok false
  | [], _, _ => by simp [eqEntries]
  | (name, x) :: es, hes, h => by
    obtain ⟨y, hy, hxy⟩ := h (name, x) List.mem_cons_self
    rw [List.forall_mem_cons] at hes h
    rw [eqEntries_cons hes.1 hy]
    exact step_ne_false hxy (eqEntries_ne_false hes.2 h.2)

theorem eq_ne_false (ha : a.IsData) (hb : b.IsData) (h : a.Matches b) : a.eq b ≠ .ok false := by
  induction h with
  | none =>
    rw [eq_none rfl]
    exact nofun
  | number hx hy h =>
    rw [eq_of_numerals ha hb hx hy, h]
    exact nofun
  | text t =>
    rw [eq_text (b := .text t) t rfl]
    simp
  | @list xs ys hlen _ ih =>
    have hall := eqAll_ne_false (isData_list ha) (isData_list hb) hlen ih
    simpa only [eq_list (b := .list ys) xs rfl, if_pos hlen] using hall
  | @tuple xs ys hlen _ ih =>
    have hall := eqAll_ne_false (isData_tuple ha) (isData_tuple hb) hlen ih
    simpa only [eq_tuple (b := .tuple ys) xs rfl] using hall
  | @variant tag xs ys hlen _ ih =>
    have hall := eqAll_ne_false (isData_variant ha) (isData_variant hb) hlen ih
    simpa only [eq_variant (b := .variant tag ys) tag xs rfl, if_true] using hall
  | @record es fs hnames _ ih =>
    have hes := isData_record ha
    have hlen : es.length = fs.length := by simpa using hnames.length_eq
    have hall : eqEntries es fs ≠ .ok false := eqEntries_ne_false hes fun e he => by
      obtain ⟨y, hy⟩ := exists_lookup_of_mem (hnames.subset (List.mem_map_of_mem he))
      have hydata := isData_record hb (e.1, y) (mem_of_lookup hy)
      exact ⟨y, hy, ih e.1 e.2 y he hy (hes e he) hydata⟩
    simpa only [eq_record (b := .record fs) es rfl, if_pos hlen] using hall
  | @array e f s xs ys hlen _ ih =>
    have hx := (isElement_of_isData ha).2
    have hy := (isElement_of_isData hb).2
    have hcrowd : xs.length ≠ 1 → (array e s xs).eq (array f s ys) ≠ .ok false := by
      intro hxs
      obtain ⟨fault, hfault⟩ : ∃ fault, (array e s xs).eq (array f s ys) = .error fault :=
        eqWith_array_of_isCrowd (.inl (by simpa [isCrowd] using hxs))
      rw [hfault]
      exact nofun
    match xs, ys, hlen with
    | [x], [y], _ =>
      rw [List.forall_mem_singleton] at hx hy
      rw [eq_single hx hy]
      exact ih x y List.mem_cons_self hx.isData hy.isData
    | [], [], _ => exact hcrowd nofun
    | _ :: _ :: _, _ :: _ :: _, _ => exact hcrowd (by simp)

/-! ## What the course comes to -/

theorem eqAll_error {x y : Value} {fault : ValueFault} (h : Reaches xs ys x y)
    (hxs : ∀ x ∈ xs, x.IsData) (hys : ∀ y ∈ ys, y.IsData) (hxy : x.eq y = .error fault) :
    ∃ fault', eqAll xs ys = .error fault' := by
  induction h with
  | head =>
    rw [eqAll_cons (hxs _ List.mem_cons_self), hxy]
    exact ⟨fault, rfl⟩
  | tail hmatch _ ih =>
    rw [List.forall_mem_cons] at hxs hys
    obtain ⟨fault', hrest⟩ := ih hxs.2 hys.2 hxy
    rw [eqAll_cons hxs.1]
    exact step_eq_error (eq_ne_false hxs.1 hys.1 hmatch) hrest

theorem eqEntries_error {x y : Value} {fault : ValueFault} (h : ReachesEntry fs es x y)
    (hes : ∀ e ∈ es, e.2.IsData) (hfs : ∀ e ∈ fs, e.2.IsData) (hxy : x.eq y = .error fault) :
    ∃ fault', eqEntries es fs = .error fault' := by
  induction h with
  | head hy =>
    rw [eqEntries_cons (hes _ List.mem_cons_self) hy, hxy]
    exact ⟨fault, rfl⟩
  | tail hb hmatch _ ih =>
    rw [List.forall_mem_cons] at hes
    obtain ⟨fault', hrest⟩ := ih hes.2 hxy
    rw [eqEntries_cons hes.1 hb]
    exact step_eq_error (eq_ne_false hes.1 (hfs _ (mem_of_lookup hb)) hmatch) hrest

/-- **A comparison that comes to an array without exactly one element has no answer.** -/
theorem eq_error (ha : a.IsData) (hb : b.IsData) (h : Meets EitherCrowd a b) :
    ∃ fault, a.eq b = .error fault := by
  induction h with
  | here h => exact eqWith_of_isCrowd ha h
  | @list xs ys x y hlen h _ ih =>
    obtain ⟨fault, hxy⟩ := ih (isData_list ha x h.mem.1) (isData_list hb y h.mem.2)
    have hall := eqAll_error h (isData_list ha) (isData_list hb) hxy
    simpa only [eq_list (b := .list ys) xs rfl, if_pos hlen] using hall
  | @tuple xs ys x y h _ ih =>
    obtain ⟨fault, hxy⟩ := ih (isData_tuple ha x h.mem.1) (isData_tuple hb y h.mem.2)
    have hall := eqAll_error h (isData_tuple ha) (isData_tuple hb) hxy
    simpa only [eq_tuple (b := .tuple ys) xs rfl] using hall
  | @variant tag xs ys x y h _ ih =>
    obtain ⟨fault, hxy⟩ := ih (isData_variant ha x h.mem.1) (isData_variant hb y h.mem.2)
    have hall := eqAll_error h (isData_variant ha) (isData_variant hb) hxy
    simpa only [eq_variant (b := .variant tag ys) tag xs rfl, if_true] using hall
  | @record es fs x y hlen h _ ih =>
    obtain ⟨⟨e, he, rfl⟩, e', he', rfl⟩ := h.mem
    obtain ⟨fault, hxy⟩ := ih (isData_record ha e he) (isData_record hb e' he')
    have hall := eqEntries_error h (isData_record ha) (isData_record hb) hxy
    simpa only [eq_record (b := .record fs) es rfl, if_pos hlen] using hall

end NotApart

/-! ## Two arrays -/

section Arrays

variable {e f : ElementType}

theorem both_eq_error {here rest : Except ValueFault Bool} {fault : ValueFault}
    (h : here = .error fault ∨ rest = .error fault) :
    ∃ fault', (do let b ← here; let c ← rest; .ok (b && c)) = .error fault' := by
  match here, rest, h with
  | .error fault', _, _ => exact ⟨fault', rfl⟩
  | .ok b, .error fault', _ => exact ⟨fault', rfl⟩
  | .ok b, .ok c, h => simp at h

theorem both_ne_false {here rest : Except ValueFault Bool} (hhere : here ≠ .ok false)
    (hrest : rest ≠ .ok false) : (do let b ← here; let c ← rest; .ok (b && c)) ≠ .ok false := by
  intro h
  obtain ⟨b, rfl, hb⟩ := bind_eq_ok.1 h
  obtain ⟨c, rfl, hc⟩ := bind_eq_ok.1 hb
  have hand : (b && c) = false := Except.ok.inj hc
  rcases Bool.and_eq_false_iff.1 hand with rfl | rfl
  · exact hhere rfl
  · exact hrest rfl

theorem sameElements_decides : ∀ {xs ys : List Value}, (∀ x ∈ xs, IsElement e x) →
    (∀ y ∈ ys, IsElement f y) →
    (∀ x y, (x, y) ∈ xs.zip ys → Decides (x.eq y) (x.Matches y)) →
    Decides (sameElements e f xs ys) (∀ x y, (x, y) ∈ xs.zip ys → x.Matches y)
  | [], _, _, _, _ => decides_ok (by simp)
  | _ :: _, [], _, _, _ => decides_ok (by simp)
  | x :: xs, y :: ys, hxs, hys, h => by
    rw [List.forall_mem_cons] at hxs hys
    rw [sameElements_cons hxs.1 hys.1]
    have hrest := sameElements_decides hxs.2 hys.2 fun u w hmem => h u w (List.mem_cons_of_mem _ hmem)
    refine ((h x y List.mem_cons_self).both hrest).congr ?_
    simp only [List.zip_cons_cons, List.mem_cons, Prod.mk.injEq]
    constructor
    · rintro ⟨hxy, hall⟩ u w (⟨rfl, rfl⟩ | hmem)
      · exact hxy
      · exact hall u w hmem
    · intro hall
      exact ⟨hall x y (.inl ⟨rfl, rfl⟩), fun u w hmem => hall u w (.inr hmem)⟩

theorem sameElements_error {x y : Value} {fault : ValueFault} (hxy : x.eq y = .error fault) :
    ∀ {xs ys : List Value}, (∀ x ∈ xs, IsElement e x) → (∀ y ∈ ys, IsElement f y) →
    (x, y) ∈ xs.zip ys → ∃ fault', sameElements e f xs ys = .error fault'
  | [], _, _, _, hmem => absurd hmem (by simp)
  | _ :: _, [], _, _, hmem => absurd hmem (by simp)
  | u :: xs, w :: ys, hxs, hys, hmem => by
    rw [List.forall_mem_cons] at hxs hys
    rw [sameElements_cons hxs.1 hys.1]
    rcases List.mem_cons.1 hmem with heq | hmem
    · obtain ⟨rfl, rfl⟩ := Prod.mk.inj heq
      exact both_eq_error (.inl hxy)
    · obtain ⟨fault', hrest⟩ := sameElements_error hxy hxs.2 hys.2 hmem
      exact both_eq_error (.inr hrest)

theorem sameElements_ne_false : ∀ {xs ys : List Value}, (∀ x ∈ xs, IsElement e x) →
    (∀ y ∈ ys, IsElement f y) → (∀ x y, (x, y) ∈ xs.zip ys → x.eq y ≠ .ok false) →
    sameElements e f xs ys ≠ .ok false
  | [], _, _, _, _ => nofun
  | _ :: _, [], _, _, _ => nofun
  | x :: xs, y :: ys, hxs, hys, h => by
    rw [List.forall_mem_cons] at hxs hys
    rw [sameElements_cons hxs.1 hys.1]
    refine both_ne_false (h x y List.mem_cons_self) ?_
    exact sameElements_ne_false hxs.2 hys.2 fun u w hmem => h u w (List.mem_cons_of_mem _ hmem)

end Arrays

/-! ## Equality -/

section Same

variable {a b : Value}

theorem exists_of_isArray (h : a.isArray = true) : ∃ e s xs, a = .array e s xs := by
  cases a with
  | array e s xs => exact ⟨e, s, xs, rfl⟩
  | _ => simp [isArray] at h

/-- Two arrays are compared element by element, an array with what is none not at all. -/
theorem same_cases (ha : a.IsData) (hb : b.IsData) :
    (a.isArray = false ∧ b.isArray = false ∧ a.same b = a.eq b) ∨
    (∃ e f xs ys, a = .vector e xs ∧ b = .vector f ys ∧ (∀ x ∈ xs, IsElement e x) ∧
      (∀ y ∈ ys, IsElement f y) ∧
      a.same b = if xs.length = ys.length then sameElements e f xs ys else .ok false) ∨
    (a.isArray ≠ b.isArray ∧ a.same b = .ok false) := by
  cases hisa : a.isArray with
  | true =>
    obtain ⟨e, s, xs, rfl⟩ := exists_of_isArray hisa
    cases hisb : b.isArray with
    | true =>
      obtain ⟨f, t, ys, rfl⟩ := exists_of_isArray hisb
      obtain ⟨rfl, hxs⟩ := isElement_of_isData ha
      obtain ⟨rfl, hys⟩ := isElement_of_isData hb
      refine .inr (.inl ⟨e, f, xs, ys, rfl, rfl, hxs, hys, ?_⟩)
      simp [same]
    | false =>
      refine .inr (.inr ⟨Bool.noConfusion, ?_⟩)
      cases b with
      | array => simp [isArray] at hisb
      | _ => simp [same]
  | false =>
    cases hisb : b.isArray with
    | true =>
      obtain ⟨f, t, ys, rfl⟩ := exists_of_isArray hisb
      refine .inr (.inr ⟨Bool.noConfusion, ?_⟩)
      cases a with
      | array => simp [isArray] at hisa
      | _ => simp [same]
    | false =>
      refine .inl ⟨rfl, rfl, ?_⟩
      have hane : ∀ e s xs, a ≠ .array e s xs := fun e s xs heq => by simp [heq, isArray] at hisa
      have hbne : ∀ f t ys, b ≠ .array f t ys := fun f t ys heq => by simp [heq, isArray] at hisb
      rw [same]
      · exact hane
      · exact hbne
      · exact fun e s xs _ _ _ heq _ => hane e s xs heq

theorem same_exact (ha : a.IsData) (hb : b.IsData) (h : ¬MeetsInside EitherArray a b) :
    Decides (a.same b) (a.Matches b) := by
  rcases same_cases ha hb with ⟨hisa, hisb, hsame⟩ | ⟨e, f, xs, ys, rfl, rfl, hxs, hys, hsame⟩ |
    ⟨hne, hsame⟩
  · rw [hsame]
    exact eq_decides ha hb fun hmeets => h (.items hisa hisb hmeets)
  · rw [hsame, matches_vector]
    refine decides_guarded fun hlen => sameElements_decides hxs hys fun x y hmem => ?_
    have hx := (hxs x (List.of_mem_zip hmem).1).isData
    have hy := (hys y (List.of_mem_zip hmem).2).isData
    refine eq_decides hx hy fun hmeets => h ?_
    rw [vector, vector, hlen]
    exact .elements hmem hmeets
  · rw [hsame]
    exact decides_false fun hmatch => hne (isArray_of_matches hmatch)

theorem same_error (ha : a.IsData) (hb : b.IsData) (h : MeetsInside EitherCrowd a b) :
    ∃ fault, a.same b = .error fault := by
  cases h with
  | @elements e f s xs ys x y hmem hmeets =>
    obtain ⟨hs, hxs⟩ := isElement_of_isData ha
    obtain ⟨_, hys⟩ := isElement_of_isData hb
    have hx := (hxs x (List.of_mem_zip hmem).1).isData
    have hy := (hys y (List.of_mem_zip hmem).2).isData
    obtain ⟨fault, hxy⟩ := eq_error hx hy hmeets
    rw [same, if_pos rfl]
    exact sameElements_error hxy hxs hys hmem
  | items hisa hisb hmeets =>
    rcases same_cases ha hb with ⟨_, _, hsame⟩ | ⟨e, f, xs, ys, rfl, rfl, _⟩ | ⟨hne, _⟩
    · rw [hsame]
      exact eq_error ha hb hmeets
    · simp [isArray, vector] at hisa
    · exact absurd (hisa.trans hisb.symm) hne

theorem same_ne_false (ha : a.IsData) (hb : b.IsData) (h : a.Matches b) : a.same b ≠ .ok false := by
  rcases same_cases ha hb with ⟨_, _, hsame⟩ | ⟨e, f, xs, ys, rfl, rfl, hxs, hys, hsame⟩ |
    ⟨hne, _⟩
  · rw [hsame]
    exact eq_ne_false ha hb h
  · obtain ⟨hlen, hall⟩ := matches_vector.1 h
    rw [hsame, if_pos hlen]
    refine sameElements_ne_false hxs hys fun x y hmem => ?_
    have hx := (hxs x (List.of_mem_zip hmem).1).isData
    have hy := (hys y (List.of_mem_zip hmem).2).isData
    exact eq_ne_false hx hy (hall x y hmem)
  · exact absurd (isArray_of_matches h) hne

/-- **Equality of data.** Where no array is met inside the values, there is an answer, which is
whether they match. Where an array is met that has not exactly one element, there is none. Values
that match are never told apart. -/
theorem same_decides (ha : a.IsData) (hb : b.IsData) :
    (¬MeetsInside EitherArray a b → Decides (a.same b) (a.Matches b)) ∧
    (MeetsInside EitherCrowd a b → ∃ fault, a.same b = .error fault) ∧
    (a.Matches b → a.same b ≠ .ok false) :=
  ⟨same_exact ha hb, same_error ha hb, same_ne_false ha hb⟩

/-- A number beside an array of several elements. -/
def besideArray (n : Int) : Value := .tuple [.int n, .vector .int64 [.int 1, .int 2]]

theorem isData_besideArray (n : Int) : (besideArray n).IsData := by
  refine .tuple fun x hx => ?_
  rcases List.mem_pair.1 hx with rfl | rfl
  · exact .int n
  · refine .numbers fun x hx => ?_
    rcases List.mem_pair.1 hx with rfl | rfl
    · exact ⟨1, rfl, by decide⟩
    · exact ⟨2, rfl, by decide⟩

/-- A difference in front of the array hides it. -/
theorem not_meetsInside_besideArray : ¬MeetsInside EitherArray (besideArray 1) (besideArray 2) := by
  rintro (_ | ⟨_, _, h⟩)
  cases h with
  | here h => simp [EitherArray, besideArray, isArray] at h
  | tuple h hxy =>
    cases h with
    | head =>
      cases hxy with
      | here h => simp [EitherArray, isArray] at h
    | tail hmatch =>
      rw [matches_number rfl] at hmatch
      simp [numeral?, Numeral.eq] at hmatch

theorem same_decides_besideArray :
    Decides ((besideArray 1).same (besideArray 2)) ((besideArray 1).Matches (besideArray 2)) ∧
    (∃ fault, (besideArray 1).same (besideArray 1) = .error fault) ∧
    (besideArray 1).same (besideArray 1) ≠ .ok false := by
  have h1 := isData_besideArray 1
  have hmet : MeetsInside EitherCrowd (besideArray 1) (besideArray 1) := by
    have hmatch : (Value.int 1).Matches (.int 1) := .number rfl rfl rfl
    exact .items rfl rfl (.tuple (.tail hmatch .head) (.here (.inl rfl)))
  exact ⟨(same_decides h1 (isData_besideArray 2)).1 not_meetsInside_besideArray,
    (same_decides h1 h1).2.1 hmet, (same_decides h1 h1).2.2 (.refl h1)⟩

/-- Beside an equal number two equal arrays have no answer, and an array of one element is found
equal to the element. -/
theorem same_of_array_inside :
    ((besideArray 1).IsData ∧ (besideArray 1).Matches (besideArray 1) ∧
      (besideArray 1).same (besideArray 1) = .error .ambiguousTruth) ∧
    ((Value.list [.vector .int64 [.int 1]]).IsData ∧ (Value.list [.int 1]).IsData ∧
      ¬(Value.list [.vector .int64 [.int 1]]).Matches (.list [.int 1]) ∧
      (Value.list [.vector .int64 [.int 1]]).same (.list [.int 1]) = .ok true) := by
  have hdata : (Value.list [.vector .int64 [.int 1]]).IsData := by
    refine .list fun x hx => ?_
    obtain rfl := List.mem_singleton.1 hx
    refine .numbers fun x hx => ?_
    obtain rfl := List.mem_singleton.1 hx
    exact ⟨1, rfl, by decide⟩
  have hdata' : (Value.list [.int 1]).IsData := by
    refine .list fun x hx => ?_
    obtain rfl := List.mem_singleton.1 hx
    exact .int 1
  refine ⟨⟨isData_besideArray 1, .refl (isData_besideArray 1), ?_⟩, hdata, hdata', ?_, ?_⟩
  · simp [besideArray, vector, same, eq, eqWith, isElementwise, eqAll, isSameNan, eqNumber, numeral?,
      Numeral.eq, crowd, unclear, outline, Shape.stretch?, Shape.stretchReversed?, Shape.size,
      ElementType.int64, bind, Except.bind]
  · intro h
    obtain ⟨ys, heq, _, hall⟩ := matches_list.1 h
    obtain rfl := list.inj heq
    have harray := isArray_of_matches (hall _ _ List.mem_cons_self)
    simp [isArray, vector] at harray
  · simp [vector, same, eq, eqWith, isElementwise, eqAll, isSameNan, meeting, isPlainNumber,
      ElementType.int64, onNumerals, numeral?, eqPlain, Numeral.eq, bind, Except.bind]

end Same

end TypedSexp.Value
