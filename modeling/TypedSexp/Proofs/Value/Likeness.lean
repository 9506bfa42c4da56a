import TypedSexp.Converter.Basic
import TypedSexp.Proofs.Lists
import TypedSexp.Value.Equality
import TypedSexp.Value.Sequence
/-!
# Values that are equal

`Value.Like` is equality of values through and through: records are equal if they have the same
entries, in whatever order, floats if they are the same number or both none. It holds for arrays
inside other values as well, where `Value.same` may have no answer.

Comparison takes an array for its one item where nothing stands on the other side. `lone` says
whether `Like` does so, too; without it (`Value.Alike`) equal values have the same shape.
-/

namespace TypedSexp

/-! ## Numbers -/

namespace Binary64

theorem numEq_cases {x y : Binary64} (h : x.numEq y = true) :
    x = y ∨ (x.isZero = true ∧ y.isZero = true) := by
  cases x <;> cases y <;> simp [numEq] at h ⊢ <;> exact h

theorem numEq_of_isZero {x y : Binary64} (hx : x.isZero = true) (hy : y.isZero = true) :
    x.numEq y = true := by
  cases x <;> cases y <;> simp [isZero] at hx hy
  simp [numEq, isZero, hx, hy]

theorem numEq_symm {x y : Binary64} (h : x.numEq y = true) : y.numEq x = true := by
  rcases numEq_cases h with rfl | ⟨hx, hy⟩
  · exact h
  · exact numEq_of_isZero hy hx

theorem numEq_trans {x y z : Binary64} (h : x.numEq y = true) (h' : y.numEq z = true) :
    x.numEq z = true := by
  rcases numEq_cases h with rfl | ⟨hx, hy⟩
  · exact h'
  · rcases numEq_cases h' with rfl | ⟨_, hz⟩
    · exact h
    · exact numEq_of_isZero hx hz

end Binary64

namespace Value

/-- The two values are equal, the order of the entries of records aside. -/
inductive Like (lone : Prop) : Value → Value → Prop
  | refl (v : Value) : Like lone v v
  | nan (p q : Nat) : Like lone (.float (.nan p)) (.float (.nan q))
  | float {x y : Binary64} (h : x.numEq y = true) : Like lone (.float x) (.float y)
  | nothing {x y : Value} (hlone : lone) (hx : x.content? = some .none)
      (hy : y.content? = some .none) : Like lone x y
  | list {xs ys : List Value} (hlen : xs.length = ys.length)
      (h : ∀ x y, (x, y) ∈ xs.zip ys → Like lone x y) : Like lone (.list xs) (.list ys)
  | tuple {xs ys : List Value} (hlen : xs.length = ys.length)
      (h : ∀ x y, (x, y) ∈ xs.zip ys → Like lone x y) : Like lone (.tuple xs) (.tuple ys)
  | array {element : ElementType} {shape : Shape} {xs ys : List Value}
      (hlen : xs.length = ys.length) (h : ∀ x y, (x, y) ∈ xs.zip ys → Like lone x y) :
      Like lone (.array element shape xs) (.array element shape ys)
  | variant {tag : Text} {xs ys : List Value} (hlen : xs.length = ys.length)
      (h : ∀ x y, (x, y) ∈ xs.zip ys → Like lone x y) : Like lone (.variant tag xs) (.variant tag ys)
  | record {es fs : List (Text × Value)} (hnames : (es.map Prod.fst).Perm (fs.map Prod.fst))
      (h : ∀ name x y, es.lookup name = some x → fs.lookup name = some y → Like lone x y) :
      Like lone (.record es) (.record fs)
  | object {className : Text} {es fs : List (Text × Value)}
      (hnames : es.map Prod.fst = fs.map Prod.fst)
      (h : ∀ name x y, es.lookup name = some x → fs.lookup name = some y → Like lone x y) :
      Like lone (.object className es) (.object className fs)

/-- The two values are equal and of the same shape. -/
abbrev Alike : Value → Value → Prop := Like False

/-- The two values are equal, where an array that holds only nothing is nothing. -/
abbrev Equal : Value → Value → Prop := Like True

namespace Like

variable {lone : Prop} {x y z : Value}

theorem symm (h : Like lone x y) : Like lone y x := by
  induction h with
  | refl v => exact .refl v
  | nan p q => exact .nan q p
  | float h => exact .float (Binary64.numEq_symm h)
  | nothing hlone hx hy => exact .nothing hlone hy hx
  | list hlen _ ih => exact .list hlen.symm fun x y hmem => ih y x (mem_zip_swap hmem)
  | tuple hlen _ ih => exact .tuple hlen.symm fun x y hmem => ih y x (mem_zip_swap hmem)
  | array hlen _ ih => exact .array hlen.symm fun x y hmem => ih y x (mem_zip_swap hmem)
  | variant hlen _ ih => exact .variant hlen.symm fun x y hmem => ih y x (mem_zip_swap hmem)
  | record hnames _ ih => exact .record hnames.symm fun name x y hx hy => ih name y x hy hx
  | object hnames _ ih => exact .object hnames.symm fun name x y hx hy => ih name y x hy hx

/-- Equal values hold nothing together. -/
theorem content_iff (h : Like lone x y) :
    x.content? = some .none ↔ y.content? = some .none := by
  induction h with
  | refl v => rfl
  | nothing _ hx hy => exact iff_of_true hx hy
  | @array _ _ xs ys hlen _ ih =>
    match xs, ys, hlen with
    | [], [], _ => simp [content?]
    | [x], [y], _ => simpa [content?] using ih x y (by simp)
    | _ :: _ :: _, _ :: _ :: _, _ => simp [content?]
  | _ => simp [content?]

theorem trans (h : Like lone x y) (h' : Like lone y z) : Like lone x z := by
  induction h generalizing z with
  | refl v => exact h'
  | nan p q =>
    cases h' with
    | refl _ => exact .nan p q
    | nan _ r => exact .nan p r
    | float h => simp [Binary64.numEq] at h
    | nothing _ h _ => simp [content?] at h
  | float h =>
    cases h' with
    | refl _ => exact .float h
    | nan p q =>
      rcases Binary64.numEq_cases h with rfl | ⟨_, h⟩
      · exact .nan _ _
      · simp [Binary64.isZero] at h
    | float h' => exact .float (Binary64.numEq_trans h h')
    | nothing _ h _ => simp [content?] at h
  | nothing hlone hx hy => exact .nothing hlone hx (h'.content_iff.1 hy)
  | @list xs ys hlen h ih =>
    cases h' with
    | refl _ => exact .list hlen h
    | nothing _ h _ => simp [content?] at h
    | list hlen' h' =>
      refine .list (hlen.trans hlen') fun x z hmem => ?_
      obtain ⟨y, hy, hz⟩ := exists_zip_middle hlen.symm hlen' hmem
      exact ih x y (mem_zip_swap hy) (h' y z hz)
  | @tuple xs ys hlen h ih =>
    cases h' with
    | refl _ => exact .tuple hlen h
    | nothing _ h _ => simp [content?] at h
    | tuple hlen' h' =>
      refine .tuple (hlen.trans hlen') fun x z hmem => ?_
      obtain ⟨y, hy, hz⟩ := exists_zip_middle hlen.symm hlen' hmem
      exact ih x y (mem_zip_swap hy) (h' y z hz)
  | @variant tag xs ys hlen h ih =>
    cases h' with
    | refl _ => exact .variant hlen h
    | nothing _ h _ => simp [content?] at h
    | variant hlen' h' =>
      refine .variant (hlen.trans hlen') fun x z hmem => ?_
      obtain ⟨y, hy, hz⟩ := exists_zip_middle hlen.symm hlen' hmem
      exact ih x y (mem_zip_swap hy) (h' y z hz)
  | @array _ _ xs ys hlen h ih =>
    cases h' with
    | refl _ => exact .array hlen h
    | nothing hlone hy hz => exact .nothing hlone ((Like.array hlen h).content_iff.2 hy) hz
    | array hlen' h' =>
      refine .array (hlen.trans hlen') fun x z hmem => ?_
      obtain ⟨y, hy, hz⟩ := exists_zip_middle hlen.symm hlen' hmem
      exact ih x y (mem_zip_swap hy) (h' y z hz)
  | @record es fs hnames h ih =>
    cases h' with
    | refl _ => exact .record hnames h
    | nothing _ h _ => simp [content?] at h
    | record hnames' h' =>
      refine .record (hnames.trans hnames') fun name x z hx hz => ?_
      obtain ⟨y, hy⟩ := exists_lookup_of_mem (hnames.subset (mem_names_of_lookup hx))
      exact ih name x y hx hy (h' name y z hy hz)
  | @object _ es fs hnames h ih =>
    cases h' with
    | refl _ => exact .object hnames h
    | nothing _ h _ => simp [content?] at h
    | object hnames' h' =>
      refine .object (hnames.trans hnames') fun name x z hx hz => ?_
      obtain ⟨y, hy⟩ := exists_lookup_of_mem (hnames ▸ mem_names_of_lookup hx)
      exact ih name x y hx hy (h' name y z hy hz)

end Like

/-! ## What equals a value -/

section

variable {xs : List Value} {y : Value}

theorem alike_none (h : Value.none.Alike y) : y = .none := by
  cases h with
  | refl _ => rfl
  | nothing hlone _ _ => exact hlone.elim

theorem alike_list (h : (Value.list xs).Alike y) : ∃ ys, y = .list ys ∧ xs.length = ys.length ∧
    ∀ a b, (a, b) ∈ xs.zip ys → a.Alike b := by
  cases h with
  | refl _ => exact ⟨xs, rfl, rfl, fun a b hmem => eq_of_mem_zip_self hmem ▸ .refl a⟩
  | nothing hlone _ _ => exact hlone.elim
  | list hlen h => exact ⟨_, rfl, hlen, h⟩

theorem alike_tuple (h : (Value.tuple xs).Alike y) : ∃ ys, y = .tuple ys ∧ xs.length = ys.length ∧
    ∀ a b, (a, b) ∈ xs.zip ys → a.Alike b := by
  cases h with
  | refl _ => exact ⟨xs, rfl, rfl, fun a b hmem => eq_of_mem_zip_self hmem ▸ .refl a⟩
  | nothing hlone _ _ => exact hlone.elim
  | tuple hlen h => exact ⟨_, rfl, hlen, h⟩

theorem alike_array {e : ElementType} {shape : Shape} (h : (Value.array e shape xs).Alike y) :
    ∃ ys, y = .array e shape ys ∧ xs.length = ys.length ∧
      ∀ a b, (a, b) ∈ xs.zip ys → a.Alike b := by
  cases h with
  | refl _ => exact ⟨xs, rfl, rfl, fun a b hmem => eq_of_mem_zip_self hmem ▸ .refl a⟩
  | nothing hlone _ _ => exact hlone.elim
  | array hlen h => exact ⟨_, rfl, hlen, h⟩

theorem alike_variant {tag : Text} (h : (Value.variant tag xs).Alike y) :
    ∃ ys, y = .variant tag ys ∧ xs.length = ys.length ∧ ∀ a b, (a, b) ∈ xs.zip ys → a.Alike b := by
  cases h with
  | refl _ => exact ⟨xs, rfl, rfl, fun a b hmem => eq_of_mem_zip_self hmem ▸ .refl a⟩
  | nothing hlone _ _ => exact hlone.elim
  | variant hlen h => exact ⟨_, rfl, hlen, h⟩

theorem alike_record {es : List (Text × Value)} (h : (Value.record es).Alike y) :
    ∃ fs, y = .record fs ∧
      ∀ name x, es.lookup name = some x → ∃ z, fs.lookup name = some z ∧ x.Alike z := by
  cases h with
  | refl _ => exact ⟨es, rfl, fun name x hx => ⟨x, hx, .refl x⟩⟩
  | nothing hlone _ _ => exact hlone.elim
  | record hnames h =>
    refine ⟨_, rfl, fun name x hx => ?_⟩
    obtain ⟨z, hz⟩ := exists_lookup_of_mem (hnames.subset (mem_names_of_lookup hx))
    exact ⟨z, hz, h name x z hx hz⟩

end

/-- Equal values are nothing together. -/
theorem isNone_alike {x y : Value} (h : x.Alike y) : y.isNone = x.isNone := by
  cases h with
  | nothing hlone _ _ => exact hlone.elim
  | _ => rfl

/-- Equal values have as many values in them. -/
theorem length_alike {x y : Value} (h : x.Alike y) : y.length = x.length := by
  cases h with
  | nothing hlone _ _ => exact hlone.elim
  | list hlen _ => exact congrArg Except.ok hlen.symm
  | tuple hlen _ => exact congrArg Except.ok hlen.symm
  | record hnames _ => exact congrArg Except.ok (by simpa using hnames.length_eq.symm)
  | _ => rfl

/-! ## What values are made of -/

/-- The value of a record: an instance of its class, or the entries by name. -/
def ofFields : Option ClassInfo → List (Text × Value) → Value
  | some k, entries => .object k.name entries
  | .none, entries => .record entries

/-- The value of a constructor with its arguments. -/
def ofArguments (tag : Text) : Option ClassInfo → List Value → Value
  | some k, args => .object k.name (k.fields.zip args)
  | .none, args => .variant tag args

/-- The value of a constructor with a record: an instance is the record itself. -/
def ofInline (tag : Text) : Option ClassInfo → Value → Value
  | some _, r => r
  | .none, r => .variant tag [r]

section

variable {lone : Prop} {instanceOf : Option ClassInfo}

theorem like_ofFields {es fs : List (Text × Value)}
    (hnames : (es.map Prod.fst).Perm (fs.map Prod.fst))
    (hclass : ∀ k, instanceOf = some k → es.map Prod.fst = k.fields ∧ fs.map Prod.fst = k.fields)
    (h : ∀ name x y, es.lookup name = some x → fs.lookup name = some y → x.Like lone y) :
    Like lone (.ofFields instanceOf es) (.ofFields instanceOf fs) := by
  cases instanceOf with
  | none => exact .record hnames h
  | some k =>
    obtain ⟨hes, hfs⟩ := hclass k rfl
    exact .object (hes.trans hfs.symm) h

theorem like_ofArguments (tag : Text) {vs ws : List Value}
    (hfields : ∀ k, instanceOf = some k → k.fields.length = vs.length)
    (hlen : vs.length = ws.length) (h : ∀ v w, (v, w) ∈ vs.zip ws → v.Like lone w) :
    Like lone (.ofArguments tag instanceOf vs) (.ofArguments tag instanceOf ws) := by
  cases instanceOf with
  | none => exact .variant hlen h
  | some k =>
    have hk := hfields k rfl
    refine .object ?_ fun name x y hx hy => h x y (mem_zip_of_lookup hx hy)
    rw [List.map_fst_zip (Nat.le_of_eq hk), List.map_fst_zip (Nat.le_of_eq (hk.trans hlen))]

theorem like_ofInline (tag : Text) (instanceOf : Option ClassInfo) {v w : Value}
    (h : v.Like lone w) :
    Like lone (.ofInline tag instanceOf v) (.ofInline tag instanceOf w) := by
  cases instanceOf with
  | some k => exact h
  | none =>
    refine .variant rfl fun x y hmem => ?_
    obtain ⟨rfl, rfl⟩ : x = v ∧ y = w := by simpa using hmem
    exact h

end

end Value

end TypedSexp
