import TypedSexp.Proofs.Conversion.Levels
import TypedSexp.Proofs.Description.Typing
import TypedSexp.Proofs.Number.Integers
import TypedSexp.Proofs.Value.Storage
/-!
# Values of built-in types

The values of a built-in type are written and read back. Elements of arrays of numbers and
conditions are written as the values that they hold.
-/

namespace TypedSexp

namespace Setting

variable {s : Setting} {lone halts : Prop} {p : Primitive} {v : Value} {t : Sexp}

/-- A value of a built-in type is written and read back without following any link. -/
theorem RoundTrips.of_builtin (slack : Nat) {w : Value} (hwrite : Builtin.write p v = .ok t)
    (hread : ∀ node : Node, node.sexp = t → Builtin.read p node = .ok w) (hlike : v.Like lone w) :
    s.RoundTrips lone halts slack 0 (.primitive p) v := by
  intro levels _
  refine .of_eq (a := t) ?_ fun levels node hnode _ => ⟨w, ?_, hlike⟩
  · rw [writeAt, Plan.write, hwrite, outcome_except]
  · rw [readAt, Plan.read, hread node hnode, outcome_except]

end Setting

namespace Builtin

theorem atom_of_sexp {node : Node} {t : Text} (h : node.sexp = .atom t) :
    ∃ l, node = .atom t l := by
  cases node with
  | atom text l =>
    obtain rfl : text = t := by simpa [Node.sexp] using h
    exact ⟨l, rfl⟩
  | list items l => simp [Node.sexp] at h

theorem read_unit {node : Node} (h : node.sexp = .empty) : read .unit node = .ok .none := by
  cases node with
  | atom text l => simp [Node.sexp, Sexp.empty] at h
  | list items l =>
    rw [Node.sexp, Node.sexps_eq_map, Sexp.empty, Sexp.list.injEq] at h
    obtain rfl := List.map_eq_nil_iff.1 h
    rfl

theorem read_bool (b : Bool) {node : Node} (h : node.sexp = .atom (if b then "true" else "false")) :
    read .bool node = .ok (.bool b) := by
  obtain ⟨l, rfl⟩ := atom_of_sexp h
  cases b <;> rfl

theorem read_int {n : Int} {t : Text} (hn : Spelling.writeInt? n = some t) {node : Node}
    (h : node.sexp = .atom t) : read .int node = .ok (.int n) := by
  obtain ⟨l, rfl⟩ := atom_of_sexp h
  have := Spelling.readInt_of_writeInt? hn
  simp [read, atomText, this, bind, Except.bind]

theorem read_string {t : Text} {node : Node} (h : node.sexp = .atom t) :
    read .string node = .ok (.text t) := by
  obtain ⟨l, rfl⟩ := atom_of_sexp h
  rfl

theorem read_char {c : CodePoint} {node : Node} (h : node.sexp = .atom [c]) :
    read .char node = .ok (.text [c]) := by
  obtain ⟨l, rfl⟩ := atom_of_sexp h
  rfl

theorem readByte?_byteCode (b : UInt8) : readByte? (Literal.byteCode b) = some b := by
  have hlt : b.toNat < 256 := b.toNat_lt
  unfold readByte? Literal.byteCode
  simp [hlt]

theorem read_bytes {b : Utf8.Bytes} {node : Node} (h : node.sexp = .atom (b.map Literal.byteCode)) :
    read .bytes node = .ok (.bytes b) := by
  obtain ⟨l, rfl⟩ := atom_of_sexp h
  have hbytes : ∀ b : Utf8.Bytes, (b.map Literal.byteCode).mapM readByte? = some b := by
    intro b
    induction b with
    | nil => rfl
    | cons x b ih => simp [readByte?_byteCode, ih]
  simp [read, atomText, hbytes, bind, Except.bind]

theorem read_float {x y : Binary64} (hx : Spelling.readFloat? x.toText = some y) {node : Node}
    (h : node.sexp = .atom x.toText) : read .float node = .ok (.float y) := by
  obtain ⟨l, rfl⟩ := atom_of_sexp h
  simp [read, atomText, hx, bind, Except.bind]

end Builtin

theorem Value.like_forgetOrigin {lone : Prop} (x : Binary64) :
    Like lone (.float x) (.float x.forgetOrigin) := by
  cases x with
  | nan p => exact .nan p 0
  | infinite negative => exact .refl _
  | finite negative m e => exact .refl _

namespace Primitive.Holds

variable {p : Primitive} {v : Value}

/-- A value of a built-in type is written and reads back. -/
theorem writes_reads (lone : Prop) (h : p.Holds v) : ∃ t w, Builtin.write p v = .ok t ∧
    (∀ node : Node, node.sexp = t → Builtin.read p node = .ok w) ∧ v.Like lone w := by
  cases h with
  | unit => exact ⟨_, _, rfl, fun _ => Builtin.read_unit, .refl _⟩
  | bool b => exact ⟨_, _, rfl, fun _ => Builtin.read_bool b, .refl _⟩
  | @int n t hn =>
    refine ⟨.atom t, .int n, ?_, fun _ => Builtin.read_int hn, .refl _⟩
    simp [Builtin.write, Builtin.asInteger, Builtin.writeInteger, Builtin.ofValue, hn,
      Except.mapError, bind, Except.bind]
  | @float x hx => exact ⟨_, _, rfl, fun _ => Builtin.read_float hx, Value.like_forgetOrigin x⟩
  | string t => exact ⟨_, _, rfl, fun _ => Builtin.read_string, .refl _⟩
  | char c => exact ⟨_, _, rfl, fun _ => Builtin.read_char, .refl _⟩
  | bytes b => exact ⟨_, _, rfl, fun _ => Builtin.read_bytes, .refl _⟩
  | sexp t => exact ⟨_, _, rfl, fun node hnode => by rw [← hnode]; rfl, .refl _⟩

/-- An element is written as the value that it holds. -/
theorem write_element (h : p.Holds v) {e : ElementType} (hv : Storage.store e v = .ok v) :
    Builtin.write p (.ofElement e v) = Builtin.write p v := by
  rcases Storage.store_fixed hv with rfl | ⟨signed, width, n, rfl, rfl⟩ | ⟨-, x, rfl⟩ | ⟨rfl, b, rfl⟩
  · rfl
  · cases h
    rfl
  · cases h
    cases e <;> rfl
  · cases h
    rfl

end Primitive.Holds

end TypedSexp
