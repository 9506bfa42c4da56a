import TypedSexp.Proofs.Conversion.Dropping
import TypedSexp.Proofs.Conversion.Filled
import TypedSexp.Proofs.Conversion.Total
/-!
# Integers in arrays are never wrapped

An array of an integer type holds the integers that its items spell, and none is changed to fit
(`Storage.storeAll_ints`). `IntegersRead` says what becomes of a list of items: the array, if all
items are integers within the bounds; else an error about the first item that is no integer, or, if
there is none, about the first that is out of bounds. Every converter of such arrays reads so, and
reads back what it writes (`History.read_integers`). Items that are decimal and have few enough digits
are always told by their numbers; an integer that is spelled in another base may be too large to be
named at all (`Bounds.hexadecimal_not_located`).
-/

namespace TypedSexp

open Converter (readerName)

/-! ## Integers that are stored -/

namespace Storage

variable {signed : Bool} {width : Width}

/-- The integer is one of the type. -/
def Within (signed : Bool) (width : Width) (n : Int) : Prop :=
  ElementType.least signed width ≤ n ∧ n ≤ ElementType.greatest signed width

theorem inRange_iff {n : Int} : inRange signed width n = true ↔ Within signed width n := by
  simp [inRange, Within]

/-- The text of an error about an integer that is not one of the type. -/
def outsideMessage (signed : Bool) (width : Width) (t : Text) : Text :=
  t ++ " is outside the range of " ++ (ElementType.integer signed width).name

theorem store_within {n : Int} (h : Within signed width n) :
    store (.integer signed width) (.int n) = .ok (.int n) := by
  rw [store, storeInteger, if_pos (inRange_iff.2 h)]

theorem store_outside {n : Int} (h : ¬ Within signed width n) :
    store (.integer signed width) (.int n) = .error
      ((Spelling.writeInt? n).elim .unspellable fun t => .outsideRange t (.integer signed width)) := by
  rw [store, storeInteger, if_neg (inRange_iff.not.2 h)]
  cases Spelling.writeInt? n <;> rfl

/-- **Integers are stored as they are, up to the first that is out of bounds.** -/
theorem storeAll_ints (signed : Bool) (width : Width) (ns : List Int) :
    (∀ n ∈ ns, Within signed width n) ∧
        storeAll (.integer signed width) (ns.map .int) = .ok (ns.map .int) ∨
      ∃ i n reason, ns[i]? = some n ∧ ¬ Within signed width n ∧
        (∀ j < i, ∀ m, ns[j]? = some m → Within signed width m) ∧
        store (.integer signed width) (.int n) = .error reason ∧
        storeAll (.integer signed width) (ns.map .int) = .error (i, reason) := by
  induction ns with
  | nil => exact .inl ⟨by simp, rfl⟩
  | cons n ns ih =>
    by_cases hn : Within signed width n
    · rcases ih with ⟨hall, hstored⟩ | ⟨i, m, reason, hm, hout, hbefore, hreason, hstored⟩
      · refine .inl ⟨List.forall_mem_cons.2 ⟨hn, hall⟩, ?_⟩
        rw [List.map_cons, storeAll, store_within hn, hstored]
      · refine .inr ⟨i + 1, m, reason, by simpa using hm, hout, fun j hj k hk => ?_, hreason, ?_⟩
        · cases j with
          | zero =>
            obtain rfl : n = k := by simpa using hk
            exact hn
          | succ j => exact hbefore j (by omega) k (by simpa using hk)
        · rw [List.map_cons, storeAll, store_within hn, hstored]
    · refine .inr ⟨0, n, _, rfl, hn, by simp, store_outside hn, ?_⟩
      rw [List.map_cons, storeAll, store_outside hn]

/-- An integer of a type can be written. -/
theorem Within.writeInt? {n : Int} (h : Within signed width n) :
    Spelling.writeInt? n = some (Text.ofInt n) := by
  have hbound : (ElementType.greatest signed width).toNat < 10 ^ 20 ∧
      (-ElementType.least signed width).toNat < 10 ^ 20 := by
    cases signed <;> cases width <;> decide
  have hdigits : 10 ^ 20 ≤ 10 ^ Spelling.maxDigits := Nat.pow_le_pow_right (by omega) (by decide)
  obtain ⟨hgreatest, hleast⟩ := hbound
  obtain ⟨hlow, hhigh⟩ := h
  rw [Spelling.writeInt?_eq_ite, if_pos]
  refine Nat.lt_of_lt_of_le ?_ hdigits
  omega

end Storage

/-! ## Items that are integers -/

/-- The tree is read as the integer. -/
def Node.IsInteger (x : Node) (n : Int) : Prop := Builtin.read .int x = .ok (.int n)

/-- The tree is an atom that spells an integer behind `0x`, `0o` or `0b`. -/
def Node.AnnouncesBase (x : Node) : Prop := ∃ t l, x = .atom t l ∧ Spelling.announcesBase t

/-- The tree is no atom in another base or with more digits than can be read. -/
def Node.IsDecimal (x : Node) : Prop := ∀ t l, x = .atom t l →
  Spelling.announcesBase t = false ∧ t.countP Digit.isDigit ≤ Spelling.maxDigits

namespace Builtin

theorem isInteger_of_read {x : Node} {v : Value} (h : read .int x = .ok v) :
    ∃ n, v = .int n ∧ x.IsInteger n := by
  obtain ⟨t, ht, hread⟩ := bind_eq_ok.1 h
  cases hn : Spelling.readInt t with
  | error fault => cases fault <;> simp [hn] at hread
  | ok n =>
    obtain rfl : Value.int n = v := by simpa [hn] using hread
    exact ⟨n, rfl, h⟩

/-- An integer that has no decimal text is spelled in another base. -/
theorem announcesBase_of_unspellable {x : Node} {n : Int} (h : x.IsInteger n)
    (hn : Spelling.writeInt? n = none) : x.AnnouncesBase := by
  obtain ⟨t, ht, hread⟩ := bind_eq_ok.1 h
  cases x with
  | list items l => cases ht
  | atom u l =>
    obtain rfl : u = t := Except.ok.inj ht
    cases hr : Spelling.readInt u with
    | error fault => cases fault <;> simp [hr] at hread
    | ok m =>
      obtain rfl : m = n := by simpa [hr] using hread
      refine ⟨u, l, rfl, ?_⟩
      by_contra hdecimal
      rw [Spelling.writeInt?_of_decimal hr (by simpa using hdecimal)] at hn
      cases hn

end Builtin

/-- What becomes of the items of a list that are read as integers of a type. -/
inductive IntegersRead (label : Text) (signed : Bool) (width : Width) (items : List Node) :
    Except ReadError Value → Prop
  /-- All items are integers within the bounds, and these are the elements of the array. -/
  | stored {ns : List Int} : List.Forall₂ Node.IsInteger items ns →
      (∀ n ∈ ns, Storage.Within signed width n) →
      IntegersRead label signed width items (.ok (.vector (.integer signed width) (ns.map .int)))
  /-- The first item that is no integer. -/
  | refused {i : Nat} {x : Node} {detail : Option Text} : items[i]? = some x →
      (∀ n, ¬ x.IsInteger n) → (∀ j < i, ∀ y, items[j]? = some y → ∃ n, y.IsInteger n) →
      IntegersRead label signed width items (.error (.conversion
        ⟨.unexpectedShape "int_of_sexp" "an integer atom" detail, some x, [.index i]⟩))
  /-- The first item that is no integer, if it has too many decimal digits to be read. -/
  | tooManyDigits {i : Nat} {t : Text} {l : Option Location} : items[i]? = some (.atom t l) →
      Spelling.readInt t = .error .tooManyDigits →
      (∀ j < i, ∀ y, items[j]? = some y → ∃ n, y.IsInteger n) →
      IntegersRead label signed width items (.error .tooManyDigits)
  /-- All items are integers, and the first that is out of bounds is named. -/
  | outside {ns : List Int} {i : Nat} {x : Node} {n : Int} {t : Text} :
      List.Forall₂ Node.IsInteger items ns → items[i]? = some x → ns[i]? = some n →
      ¬ Storage.Within signed width n →
      (∀ j < i, ∀ m, ns[j]? = some m → Storage.Within signed width m) →
      Spelling.writeInt? n = some t →
      IntegersRead label signed width items (.error (.conversion
        ⟨.unexpectedShape (readerName label)
          ("elements fitting " ++ (ElementType.integer signed width).name)
          (some (Storage.outsideMessage signed width t)), some x, [.index i]⟩))
  /-- All items are integers, but the first that is out of bounds cannot be named in decimal. -/
  | unnamed {ns : List Int} {i : Nat} {x : Node} {n : Int} :
      List.Forall₂ Node.IsInteger items ns → items[i]? = some x → ns[i]? = some n →
      ¬ Storage.Within signed width n →
      (∀ j < i, ∀ m, ns[j]? = some m → Storage.Within signed width m) →
      Spelling.writeInt? n = none → x.AnnouncesBase →
      IntegersRead label signed width items (.error .unspellable)

/-- Values that are read as integers are integers. -/
theorem exists_integers {items : List Node} {vs : List Value}
    (h : List.Forall₂ (fun x v => Builtin.read .int x = .ok v) items vs) :
    ∃ ns : List Int, vs = ns.map .int ∧ List.Forall₂ Node.IsInteger items ns := by
  induction h with
  | nil => exact ⟨[], rfl, .nil⟩
  | cons hx _ ih =>
    obtain ⟨n, rfl, hn⟩ := Builtin.isInteger_of_read hx
    obtain ⟨ns, rfl, hns⟩ := ih
    exact ⟨n :: ns, rfl, .cons hn hns⟩

variable {label : Text} {signed : Bool} {width : Width}

/-- Integers that were read are stored up to the first that is out of bounds. -/
theorem integersRead_of_store {items : List Node} {ns : List Int}
    (h : List.Forall₂ Node.IsInteger items ns) : IntegersRead label signed width items
      (storeEach label (.integer signed width) items (ns.map .int)) := by
  rcases Storage.storeAll_ints signed width ns with
    ⟨hall, hstored⟩ | ⟨i, n, reason, hn, hout, hbefore, hreason, hstored⟩
  · rw [storeEach, Storage.vector, hstored]
    exact .stored h hall
  · obtain ⟨hi, rfl⟩ := List.getElem?_eq_some_iff.1 hn
    have hi' : i < items.length := by rwa [h.length_eq]
    have hx : items[i]? = some items[i] := List.getElem?_eq_getElem hi'
    rw [Storage.store_outside hout] at hreason
    obtain rfl := Except.error.inj hreason
    cases ht : Spelling.writeInt? ns[i] with
    | some t =>
      rw [ht] at hstored
      have hread : storeEach label (.integer signed width) items (ns.map .int) = .error (.conversion
          ⟨.unexpectedShape (readerName label)
            ("elements fitting " ++ (ElementType.integer signed width).name)
            (some (Storage.outsideMessage signed width t)), items[i]?, [.index i]⟩) := by
        rw [storeEach, Storage.vector, hstored]
        rfl
      rw [hread, hx]
      exact .outside h hx hn hout hbefore ht
    | none =>
      rw [ht] at hstored
      have hread : storeEach label (.integer signed width) items (ns.map .int) =
          .error .unspellable := by
        rw [storeEach, Storage.vector, hstored]
        rfl
      rw [hread]
      exact .unnamed h hx hn hout hbefore ht
        (Builtin.announcesBase_of_unspellable (List.Forall₂.get h hi' hi) ht)

/-! ## The array that is read is decided by the items -/

theorem Node.IsInteger.unique {x : Node} {n m : Int} (hn : x.IsInteger n) (hm : x.IsInteger m) :
    n = m := by
  have h := Except.ok.inj (hn.symm.trans hm)
  exact Value.int.inj h

theorem integers_unique {items : List Node} {ns ms : List Int}
    (hns : List.Forall₂ Node.IsInteger items ns) (hms : List.Forall₂ Node.IsInteger items ms) :
    ns = ms := by
  induction hns generalizing ms with
  | nil => cases hms; rfl
  | cons hn _ ih =>
    cases hms with
    | cons hm hms => rw [hn.unique hm, ih hms]

theorem exists_isInteger {items : List Node} {ns : List Int} {i : Nat} {x : Node}
    (h : List.Forall₂ Node.IsInteger items ns) (hx : items[i]? = some x) : ∃ n, x.IsInteger n := by
  obtain ⟨hi, rfl⟩ := List.getElem?_eq_some_iff.1 hx
  exact ⟨_, List.Forall₂.get h hi (by rwa [← h.length_eq])⟩

/-- If all items are integers, the array holds them or one of them is out of bounds. -/
theorem IntegersRead.of_integers {items : List Node} {ns : List Int} {r : Except ReadError Value}
    (h : IntegersRead label signed width items r) (hns : List.Forall₂ Node.IsInteger items ns) :
    (∀ n ∈ ns, Storage.Within signed width n) ∧
        r = .ok (.vector (.integer signed width) (ns.map .int)) ∨
      ∃ n ∈ ns, ¬ Storage.Within signed width n ∧
        (Spelling.writeInt? n = none → r = .error .unspellable) := by
  cases h with
  | stored hms hwithin =>
    obtain rfl := integers_unique hms hns
    exact .inl ⟨hwithin, rfl⟩
  | refused hx hnot _ =>
    obtain ⟨n, hn⟩ := exists_isInteger hns hx
    exact absurd hn (hnot n)
  | tooManyDigits hx hdigits _ =>
    obtain ⟨n, hn⟩ := exists_isInteger hns hx
    simp [Node.IsInteger, Builtin.read, Builtin.atomText, hdigits, bind, Except.bind] at hn
  | outside hms _ hm hout _ ht =>
    obtain rfl := integers_unique hms hns
    refine .inr ⟨_, List.mem_of_getElem? hm, hout, fun hnone => ?_⟩
    rw [ht] at hnone
    cases hnone
  | unnamed hms _ hm hout _ _ _ =>
    obtain rfl := integers_unique hms hns
    exact .inr ⟨_, List.mem_of_getElem? hm, hout, fun _ => rfl⟩

/-- If all items are decimal, each error tells its item. -/
theorem IntegersRead.conversion_of_decimal {items : List Node} {e : ReadError}
    (h : IntegersRead label signed width items (.error e)) (hdecimal : ∀ x ∈ items, x.IsDecimal) :
    ∃ ce, e = .conversion ce := by
  cases h with
  | refused _ _ _ => exact ⟨_, rfl⟩
  | outside _ _ _ _ _ _ => exact ⟨_, rfl⟩
  | tooManyDigits hx hdigits _ =>
    obtain ⟨-, hle⟩ := hdecimal _ (List.mem_of_getElem? hx) _ _ rfl
    exact absurd hle (Nat.not_le_of_lt (Spelling.maxDigits_lt_of_readInt hdigits))
  | unnamed _ hx _ _ _ _ hbase =>
    obtain ⟨t, l, rfl, ht⟩ := hbase
    obtain ⟨hten, -⟩ := hdecimal _ (List.mem_of_getElem? hx) t l rfl
    exact absurd ht (by simp [hten])

/-- Trees that integers are written as are read as these integers. -/
theorem isInteger_of_written {ns : List Int} (hwithin : ∀ n ∈ ns, Storage.Within signed width n) :
    ∀ {items : List Node}, items.map Node.sexp = (ns.map fun n => .atom (Text.ofInt n)) →
      List.Forall₂ Node.IsInteger items ns := by
  induction ns with
  | nil =>
    intro items h
    obtain rfl := List.map_eq_nil_iff.1 h
    exact .nil
  | cons n ns ih =>
    intro items h
    obtain ⟨hn, hwithin⟩ := List.forall_mem_cons.1 hwithin
    obtain ⟨x, items, rfl, hx, hitems⟩ := List.map_eq_cons_iff.1 h
    exact .cons (Builtin.read_int hn.writeInt? hx) (ih hwithin hitems)

namespace Setting

variable {s : Setting} {c element : Converter}

/-- How a converter of arrays of integers reads and writes. -/
structure ReadsIntegers (s : Setting) (c : Converter) (label : Text) (signed : Bool) (width : Width) :
    Prop where
  /-- A list is read as an array of what its items spell, or the first that does not fit is refused. -/
  items : ∀ items l, IntegersRead label signed width items (s.read c (.list items l))
  /-- The refusal tells its item if all of them are decimal. -/
  located : ∀ items l e, (∀ x ∈ items, Node.IsDecimal x) → s.read c (.list items l) = .error e →
    ∃ ce, e = .conversion ce
  /-- What is read is written, and reads back as the same array. -/
  rewritten : ∀ node v, s.read c node = .ok v → ∃ t, s.write c v = .ok t ∧
    ∀ again, Node.sexp again = t → s.read c again = .ok v

/-- A converter of arrays of integers reads a list so. -/
theorem integersRead (hc : c.plan = .array label (.integer signed width) element)
    (helement : element.plan = .primitive .int) (items : List Node) (l : Option Location) :
    IntegersRead label signed width items (s.read c (.list items l)) := by
  have hread (x : Node) : s.readBy element.plan x = Builtin.read .int x := by
    rw [helement, readBy, Plan.read, outcome_except]
  rw [read_eq_readBy, hc]
  show IntegersRead label signed width items
    (readEach (s.readBy element.plan) 0 items >>= storeEach label (.integer signed width) items)
  cases hitems : readEach (s.readBy element.plan) 0 items with
  | ok vs =>
    have hvs := readEach_ok hitems
    simp only [hread] at hvs
    obtain ⟨ns, rfl, hns⟩ := exists_integers hvs
    exact integersRead_of_store hns
  | error e =>
    obtain ⟨i, x, e', hx, he', rfl, hbefore⟩ := readEach_error hitems
    rw [hread] at he'
    have hfirst : ∀ j < i, ∀ y, items[j]? = some y → ∃ n, y.IsInteger n := by
      intro j hj y hy
      obtain ⟨v, hv⟩ := hbefore j hj y hy
      obtain ⟨n, -, hn⟩ := Builtin.isInteger_of_read ((hread y).symm.trans hv)
      exact ⟨n, hn⟩
    have hnot (n : Int) : ¬ x.IsInteger n := by
      intro hn
      cases hn.symm.trans he'
    rw [Nat.zero_add]
    rcases Builtin.read_int_error he' with ⟨detail, rfl⟩ | ⟨t, l, rfl, hdigits, rfl⟩
    · exact .refused hx hnot hfirst
    · exact .tooManyDigits hx hdigits hfirst

/-- Integers of a type are written in decimal. -/
theorem write_ints (hc : c.plan = .array label (.integer signed width) element)
    (helement : element.plan = .primitive .int) {ns : List Int}
    (hwithin : ∀ n ∈ ns, Storage.Within signed width n) :
    s.write c (.vector (.integer signed width) (ns.map .int)) =
      .ok (.list (ns.map fun n => .atom (Text.ofInt n))) := by
  have hall (levels : Nat) : writeEach (s.writeAt levels element.plan)
      ((ns.map Value.int).map (.ofElement (.integer signed width))) =
        .ok (ns.map fun n => .atom (Text.ofInt n)) := by
    rw [helement]
    induction ns with
    | nil => rfl
    | cons n ns ih =>
      obtain ⟨hn, hwithin⟩ := List.forall_mem_cons.1 hwithin
      have hone : s.writeAt levels (.primitive .int) (.ofElement (.integer signed width) (.int n)) =
          .ok (.atom (Text.ofInt n)) := by
        show (Builtin.ofValue (Builtin.writeInteger n) >>= fun t => .ok (Sexp.atom t)) = _
        rw [Builtin.writeInteger, hn.writeInt?]
        rfl
      rw [List.map_cons, List.map_cons, writeEach, hone, ih hwithin]
      rfl
  rw [write_of_settled fun _ => by rw [hc]; rfl]
  generalize (Value.vector _ _).depth + _ + _ - 1 = levels
  rw [hc]
  show (writeEach (s.writeAt levels element.plan)
    ((ns.map Value.int).map (.ofElement (.integer signed width))) >>= fun ts =>
      .ok (Sexp.list ts)) = _
  rw [hall]
  rfl

/-- What is read is written, and reads back as the same array. -/
theorem rewrite_integers (hc : c.plan = .array label (.integer signed width) element)
    (helement : element.plan = .primitive .int) {node : Node} {v : Value}
    (hv : s.read c node = .ok v) : ∃ t, s.write c v = .ok t ∧
      ∀ node' : Node, node'.sexp = t → s.read c node' = .ok v := by
  cases node with
  | atom t l =>
    rw [read_eq_readBy, hc, readBy, Plan.read] at hv
    cases hv
  | list items l =>
    have hread := integersRead (s := s) hc helement items l
    rw [hv] at hread
    cases hread with
    | @stored ns _ hwithin =>
      refine ⟨_, write_ints hc helement hwithin, fun node' hnode' => ?_⟩
      obtain ⟨items', l', rfl, hitems⟩ := Node.eq_list_of_sexp hnode'
      rcases (integersRead hc helement items' l').of_integers
        (isInteger_of_written hwithin hitems) with ⟨-, hread⟩ | ⟨n, hn, hout, -⟩
      · exact hread
      · exact absurd (hwithin n hn) hout

end Setting

/-- **Arrays of integers never wrap.** The converter of a description of arrays of integers, with a
stated type of elements, reads every list as `IntegersRead` says, whatever the deriver was asked for
before, and refuses decimal items by their numbers; and what it reads it writes, and reads it back as
the same array. -/
theorem History.read_integers {catalog : Catalog} {numbering : Nat → Description}
    {outside : Text → Option Custom} {failed : Bool} {d : Deriver}
    {converters : List (BoundType × Converter)} (hcatalog : catalog.AdmittedBy (.first outside))
    (h : History catalog numbering outside failed d converters) {signed : Bool} {width : Width}
    {env : List BoundType} {c : Converter}
    (hc : (.mk (.array (.primitive "int") (some (.integer signed width))) env, c) ∈ converters) :
    ∃ label, ∀ s : Setting, s.ReadsIntegers c label signed width := by
  obtain ⟨l, -, -, hholds⟩ := h.kept hcatalog
  obtain ⟨-, hreal⟩ := hholds _ _ hc
  cases hreal with
  | mk _ _ hb =>
    obtain ⟨label, element, hplan, helement⟩ := hb.of_array
    have helement := helement.of_primitive (p := .int) rfl
    have hplan : c.plan = .array label (.integer signed width) element := hplan
    refine ⟨label, fun s => ⟨s.integersRead hplan helement, fun items l e hdecimal he => ?_,
      fun node v => s.rewrite_integers hplan helement⟩⟩
    have hread := s.integersRead hplan helement items l
    rw [he] at hread
    exact hread.conversion_of_decimal hdecimal

namespace Bounds

/-- Arrays of bytes. -/
def bytes : Description := .array (.primitive "int") (some (.integer false .w8))

/-- The converter of arrays of bytes. -/
def bytesConverter : Converter :=
  ⟨.derived 0, "int array", .array "array" (.integer false .w8) (Converter.ofPrimitive .int)⟩

theorem derive_bytes :
    (Derivation.derive [] (.description 0 bytes) []).result {} = .ok bytesConverter := by
  simp only [Derivation.result, Derivation.derive, Derivation.ofTargets, Derivation.ofTarget,
    Derivation.ofDescription, bytes, Description.build]
  rfl

theorem history_bytes : ∃ deriver, History [] (fun _ => bytes) (fun _ => none) false deriver
    [(.mk bytes [], bytesConverter)] := by
  have hplain : (Ledger.first fun _ => none).Admits bytes.givens :=
    Ledger.admits_of_isPlain _ (by decide)
  exact ⟨_, .derived .nil (.description 0 [] hplain) derive_bytes .start⟩

/-- Arrays of bytes hold what their items spell. -/
theorem read_integers_bytes : ∃ deriver,
    History [] (fun _ => bytes) (fun _ => none) false deriver [(.mk bytes [], bytesConverter)] ∧
    ∃ label, ∀ s : Setting, s.ReadsIntegers bytesConverter label false .w8 := by
  obtain ⟨deriver, hhistory⟩ := history_bytes
  have hcatalog : Catalog.AdmittedBy [] (.first fun _ => none) := Catalog.admittedBy_nil _
  exact ⟨deriver, hhistory, hhistory.read_integers hcatalog List.mem_cons_self⟩

/-- Both bounds are bytes, and the first number beyond them is blamed. -/
example (deriver : Deriver) :
    let s : Setting := ⟨[], deriver, .standard⟩
    let item (t : Text) : Node := .atom t none
    s.read bytesConverter (.list [item "0", item "0xFF"] none) =
        .ok (.vector (.integer false .w8) [.int 0, .int 255]) ∧
      s.read bytesConverter (.list [item "7", item "256", item "-1"] none) =
        .error (.conversion ⟨.unexpectedShape "array_of_sexp" "elements fitting uint8"
          (some "256 is outside the range of uint8"), some (item "256"), [.index 1]⟩) :=
  ⟨rfl, rfl⟩

theorem isInteger_hexadecimal (n : Nat) :
    Node.IsInteger (.atom (Spelling.hexadecimal n) none) n := by
  simp [Node.IsInteger, Builtin.read, Builtin.atomText, Spelling.readInt_hexadecimal, bind,
    Except.bind]

/-- For a large number in another base there is no text that the refusal could state. -/
theorem read_huge_bytes {n : Nat} (hn : 10 ^ Spelling.maxDigits ≤ n) (deriver : Deriver) :
    Setting.read ⟨[], deriver, .standard⟩ bytesConverter (Totality.huge n) =
      .error .unspellable := by
  have hnone : Spelling.writeInt? n = none := Spelling.writeInt?_eq_none hn
  have hread := Setting.integersRead (s := ⟨[], deriver, .standard⟩) (c := bytesConverter) rfl rfl
    [.atom (Spelling.hexadecimal n) none] none
  rcases hread.of_integers (.cons (isInteger_hexadecimal n) .nil) with
    ⟨hwithin, -⟩ | ⟨m, hm, -, hread⟩
  · -- an integer of the type has a text
    rw [(hwithin n List.mem_cons_self).writeInt?] at hnone
    cases hnone
  · obtain rfl := List.mem_singleton.1 hm
    exact hread hnone

/-- **A large number in another base is not refused where it stands.** The item is an integer out of
bounds and not decimal, but the error is none about it. -/
theorem hexadecimal_not_located : ∃ deriver,
    History [] (fun _ => bytes) (fun _ => none) false deriver [(.mk bytes [], bytesConverter)] ∧
    let n : Nat := 16 ^ 3600 - 1
    let item : Node := .atom (Spelling.hexadecimal n) none
    item.IsInteger n ∧ ¬ Storage.Within false .w8 n ∧ ¬ item.IsDecimal ∧
    ∀ e, Setting.read ⟨[], deriver, .standard⟩ bytesConverter (.list [item] none) ≠
      .error (.conversion e) := by
  obtain ⟨deriver, hhistory⟩ := history_bytes
  have hlarge : 10 ^ Spelling.maxDigits ≤ 16 ^ 3600 - 1 := by decide +kernel
  refine ⟨deriver, hhistory, isInteger_hexadecimal _, ?_, ?_, fun e he => ?_⟩
  · rintro ⟨-, hle⟩
    exact absurd hle (by decide +kernel)
  · intro hdecimal
    obtain ⟨t, l, heq, ht⟩ := Builtin.announcesBase_of_unspellable (isInteger_hexadecimal _)
      (Spelling.writeInt?_eq_none hlarge)
    simp [(hdecimal t l heq).1] at ht
  · have hread := read_huge_bytes hlarge deriver
    cases hread.symm.trans he

end Bounds

end TypedSexp
