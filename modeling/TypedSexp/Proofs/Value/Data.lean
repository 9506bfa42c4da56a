import Mathlib.Data.List.Perm.Subperm
import TypedSexp.Proofs.Lists
import TypedSexp.Value.Equality
/-!
# Data

Plain values: nothing, truth values, integers and texts, put together by sequences, records, variants
and arrays of one dimension. `Value.Matches` is equality of data by structure, for arrays wherever
they stand; it says what two values are, not how they are compared.
-/

namespace TypedSexp

/-- An array of numbers holds the number. -/
def ElementType.IsItem : ElementType → Value → Prop
  | .integer signed width, x => ∃ n, x = .int n ∧ holds signed width n = true
  | .boolean, x => ∃ b, x = .bool b
  | _, _ => False

namespace Value

/-! ## Data -/

/-- A value built from nothing, truth values, integers and texts by sequences, records, variants and
arrays of one dimension. -/
inductive IsData : Value → Prop
  | none : IsData .none
  | bool (b : Bool) : IsData (.bool b)
  | int (n : Int) : IsData (.int n)
  | text (t : Text) : IsData (.text t)
  | list {xs : List Value} (h : ∀ x ∈ xs, IsData x) : IsData (.list xs)
  | tuple {xs : List Value} (h : ∀ x ∈ xs, IsData x) : IsData (.tuple xs)
  | variant {tag : Text} {xs : List Value} (h : ∀ x ∈ xs, IsData x) : IsData (.variant tag xs)
  | record {es : List (Text × Value)} (hnames : (es.map Prod.fst).Nodup)
      (h : ∀ e ∈ es, IsData e.2) : IsData (.record es)
  | numbers {e : ElementType} {xs : List Value} (h : ∀ x ∈ xs, e.IsItem x) : IsData (.vector e xs)
  | values {xs : List Value} (h : ∀ x ∈ xs, IsData x) : IsData (.vector .any xs)

/-- Two values of the same structure with equal leaves. A truth value is the number one or zero, and
arrays are compared by shape and elements, whatever their element types. -/
inductive Matches : Value → Value → Prop
  | none : Matches .none .none
  | number {x y : Value} {m n : Numeral} (hx : x.numeral? = some m) (hy : y.numeral? = some n)
      (h : m.eq n = true) : Matches x y
  | text (t : Text) : Matches (.text t) (.text t)
  | list {xs ys : List Value} (hlen : xs.length = ys.length)
      (h : ∀ x y, (x, y) ∈ xs.zip ys → Matches x y) : Matches (.list xs) (.list ys)
  | tuple {xs ys : List Value} (hlen : xs.length = ys.length)
      (h : ∀ x y, (x, y) ∈ xs.zip ys → Matches x y) : Matches (.tuple xs) (.tuple ys)
  | variant {tag : Text} {xs ys : List Value} (hlen : xs.length = ys.length)
      (h : ∀ x y, (x, y) ∈ xs.zip ys → Matches x y) : Matches (.variant tag xs) (.variant tag ys)
  | record {es fs : List (Text × Value)} (hnames : (es.map Prod.fst).Perm (fs.map Prod.fst))
      (h : ∀ name x y, (name, x) ∈ es → fs.lookup name = some y → Matches x y) :
      Matches (.record es) (.record fs)
  | array {e f : ElementType} {s : Shape} {xs ys : List Value} (hlen : xs.length = ys.length)
      (h : ∀ x y, (x, y) ∈ xs.zip ys → Matches x y) : Matches (.array e s xs) (.array f s ys)

/-! ## What matches a value -/

section Matching

variable {b : Value} {xs : List Value}

theorem matches_none : Value.none.Matches b ↔ b = .none := by
  constructor
  · intro h
    cases h with
    | none => rfl
    | number hx => cases hx
  · rintro rfl
    exact .none

theorem matches_number {x : Value} {m : Numeral} (hx : x.numeral? = some m) :
    x.Matches b ↔ b.numeral?.any m.eq = true := by
  rw [Option.any_eq_true]
  constructor
  · intro h
    cases h with
    | number hx' hy h =>
      obtain rfl := Option.some.inj (hx'.symm.trans hx)
      exact ⟨_, hy, h⟩
    | _ => cases hx
  · rintro ⟨n, hn, h⟩
    exact .number hx hn h

theorem matches_text {t : Text} : (Value.text t).Matches b ↔ b = .text t := by
  constructor
  · intro h
    cases h with
    | text => rfl
    | number hx => cases hx
  · rintro rfl
    exact .text t

theorem matches_list : (Value.list xs).Matches b ↔
    ∃ ys, b = .list ys ∧ xs.length = ys.length ∧ ∀ x y, (x, y) ∈ xs.zip ys → x.Matches y := by
  constructor
  · intro h
    cases h with
    | list hlen h => exact ⟨_, rfl, hlen, h⟩
    | number hx => cases hx
  · rintro ⟨ys, rfl, hlen, h⟩
    exact .list hlen h

theorem matches_tuple : (Value.tuple xs).Matches b ↔
    ∃ ys, b = .tuple ys ∧ xs.length = ys.length ∧ ∀ x y, (x, y) ∈ xs.zip ys → x.Matches y := by
  constructor
  · intro h
    cases h with
    | tuple hlen h => exact ⟨_, rfl, hlen, h⟩
    | number hx => cases hx
  · rintro ⟨ys, rfl, hlen, h⟩
    exact .tuple hlen h

theorem matches_variant {tag : Text} : (Value.variant tag xs).Matches b ↔
    ∃ ys, b = .variant tag ys ∧ xs.length = ys.length ∧
      ∀ x y, (x, y) ∈ xs.zip ys → x.Matches y := by
  constructor
  · intro h
    cases h with
    | variant hlen h => exact ⟨_, rfl, hlen, h⟩
    | number hx => cases hx
  · rintro ⟨ys, rfl, hlen, h⟩
    exact .variant hlen h

theorem matches_array {e : ElementType} {s : Shape} : (Value.array e s xs).Matches b ↔
    ∃ f ys, b = .array f s ys ∧ xs.length = ys.length ∧
      ∀ x y, (x, y) ∈ xs.zip ys → x.Matches y := by
  constructor
  · intro h
    cases h with
    | array hlen h => exact ⟨_, _, rfl, hlen, h⟩
    | number hx => cases hx
  · rintro ⟨f, ys, rfl, hlen, h⟩
    exact .array hlen h

/-- Records of distinct names match if they are of one size and each entry matches that of its
name. -/
theorem matches_record {es fs : List (Text × Value)} (hnames : (es.map Prod.fst).Nodup) :
    (Value.record es).Matches (.record fs) ↔ es.length = fs.length ∧
      ∀ e ∈ es, ∃ y, fs.lookup e.1 = some y ∧ e.2.Matches y := by
  constructor
  · intro h
    cases h with
    | number hx => cases hx
    | record hperm h =>
      refine ⟨by simpa using hperm.length_eq, fun e he => ?_⟩
      obtain ⟨y, hy⟩ := exists_lookup_of_mem (hperm.subset (List.mem_map_of_mem he))
      exact ⟨y, hy, h e.1 e.2 y he hy⟩
  · rintro ⟨hlen, h⟩
    have hsub : es.map Prod.fst ⊆ fs.map Prod.fst := by
      intro name hname
      obtain ⟨e, he, rfl⟩ := List.mem_map.1 hname
      obtain ⟨y, hy, _⟩ := h e he
      exact mem_names_of_lookup hy
    refine .record ?_ fun name x y hx hy => ?_
    · exact (List.subperm_of_subset hnames hsub).perm_of_length_le (by simp [hlen])
    · obtain ⟨y', hy', hxy⟩ := h (name, x) hx
      obtain rfl := Option.some.inj (hy.symm.trans hy')
      exact hxy

end Matching

/-! ## What data is made of -/

section Parts

variable {xs : List Value}

theorem isData_list (h : (Value.list xs).IsData) : ∀ x ∈ xs, x.IsData := by
  cases h with
  | list h => exact h

theorem isData_tuple (h : (Value.tuple xs).IsData) : ∀ x ∈ xs, x.IsData := by
  cases h with
  | tuple h => exact h

theorem isData_variant {tag : Text} (h : (Value.variant tag xs).IsData) : ∀ x ∈ xs, x.IsData := by
  cases h with
  | variant h => exact h

theorem isData_record {es : List (Text × Value)} (h : (Value.record es).IsData) :
    ∀ e ∈ es, e.2.IsData := by
  cases h with
  | record _ h => exact h

variable {e : ElementType} {s : Shape} {x : Value}

/-- An array of data holds the value: a number of its type, or data of any kind. -/
def IsElement (e : ElementType) (x : Value) : Prop := e.IsItem x ∨ e = .any ∧ x.IsData

theorem isElement_of_isData (h : (Value.array e s xs).IsData) :
    s = [xs.length] ∧ ∀ x ∈ xs, IsElement e x := by
  cases h with
  | numbers h => exact ⟨rfl, fun x hx => .inl (h x hx)⟩
  | values h => exact ⟨rfl, fun x hx => .inr ⟨rfl, h x hx⟩⟩

theorem isItem_cases (h : e.IsItem x) :
    e ≠ .any ∧ e.isFloat = false ∧ x.IsData ∧ ∃ n, x.numeral? = some (.int n) := by
  cases e with
  | integer signed width =>
    obtain ⟨n, rfl, _⟩ := h
    exact ⟨nofun, rfl, .int n, _, rfl⟩
  | boolean =>
    obtain ⟨b, rfl⟩ := h
    exact ⟨nofun, rfl, .bool b, _, rfl⟩
  | _ => exact h.elim

theorem IsElement.isData (h : IsElement e x) : x.IsData := by
  rcases h with h | ⟨_, h⟩
  · exact (isItem_cases h).2.2.1
  · exact h

theorem isElementwise_of_isData (h : x.IsData) : x.isElementwise = x.isArray := by
  cases h <;> rfl

end Parts

/-- Data matches itself. -/
theorem Matches.refl {a : Value} (h : a.IsData) : a.Matches a := by
  have hself : ∀ {xs : List Value}, (∀ x ∈ xs, x.Matches x) →
      ∀ x y, (x, y) ∈ xs.zip xs → x.Matches y := by
    intro xs hxs x y hmem
    obtain rfl := eq_of_mem_zip_self hmem
    exact hxs x (List.of_mem_zip hmem).1
  induction h with
  | none => exact .none
  | bool b => exact .number rfl rfl (by simp [Numeral.eq])
  | int n => exact .number rfl rfl (by simp [Numeral.eq])
  | text t => exact .text t
  | list _ ih => exact .list rfl (hself ih)
  | tuple _ ih => exact .tuple rfl (hself ih)
  | variant _ ih => exact .variant rfl (hself ih)
  | @record es hnames _ ih =>
    exact (matches_record hnames).2 ⟨rfl, fun e he => ⟨e.2, lookup_of_mem hnames he, ih e he⟩⟩
  | numbers h =>
    refine .array rfl (hself fun x hx => ?_)
    obtain ⟨_, _, _, n, hn⟩ := isItem_cases (h x hx)
    exact .number hn hn (by simp [Numeral.eq])
  | values _ ih => exact .array rfl (hself ih)

/-- Only an array matches an array. -/
theorem isArray_of_matches {a b : Value} (h : a.Matches b) : a.isArray = b.isArray := by
  have hplain : ∀ {v : Value} {k : Numeral}, v.numeral? = some k → v.isArray = false := by
    intro v k hk
    cases v with
    | array => simp [numeral?] at hk
    | _ => rfl
  cases h with
  | number hx hy => rw [hplain hx, hplain hy]
  | _ => rfl

theorem matches_vector {e f : ElementType} {xs ys : List Value} :
    (Value.vector e xs).Matches (.vector f ys) ↔
      xs.length = ys.length ∧ ∀ x y, (x, y) ∈ xs.zip ys → x.Matches y := by
  rw [vector, matches_array]
  simp only [vector, array.injEq, List.cons.injEq, and_true]
  constructor
  · rintro ⟨_, _, ⟨rfl, hlen, rfl⟩, _, h⟩
    exact ⟨hlen.symm, h⟩
  · rintro ⟨hlen, h⟩
    exact ⟨f, ys, ⟨rfl, hlen.symm, rfl⟩, hlen, h⟩

end Value

end TypedSexp
