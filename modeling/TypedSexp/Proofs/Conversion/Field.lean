import TypedSexp.Proofs.Conversion.Sequence
import TypedSexp.Proofs.Results
/-!
# Fields

A field is written as an entry, or left out: by its rule, or because its presence leaves such values
out in any case. `FieldTrips` says that it is written and read again, and what is true of the entry
and of what it reads as. Where an entry is left out, the field reads as its absent value; so the rule
is asked first what it leaves out (`FieldTrips.of_rule`), and what follows for the value is said by
`isDroppedAt_ifEqual` and `isDroppedAt_ifWrittenEqual`.
-/

namespace TypedSexp

/-- An entry of the name. -/
def Entries.IsEntry (name : Text) (t : Sexp) : Prop := ∃ rest, t = .list (.atom name :: rest)

namespace Setting

variable {s : Setting} {lone halts : Prop} {p : FieldPlan Plan} {x : Value}
  {R : Option Sexp → Value → Prop} {need : Nat}

/-- The rule of a field leaves its value out. -/
def isDroppedAt (s : Setting) (levels : Nat) (p : FieldPlan Plan) (x : Value) :
    Except WriteError Bool :=
  Plan.isDropped (fun cell id args v => s.writeWithin levels (.link cell id args) v) s.switches p.form
    p.dropping x

/-- Writes a field that its rule does not leave out. -/
def writeFieldAt (s : Setting) (levels : Nat) (p : FieldPlan Plan) (x : Value) :
    Except WriteError (Option Sexp) :=
  Plan.writeField (fun cell id args v => s.writeWithin levels (.link cell id args) v) s.switches p.name x p.form

/-- Writes the entry of a field with its value, unless it is left out. -/
def writeEntryAt (s : Setting) (levels : Nat) (p : FieldPlan Plan) (x : Value) :
    Except WriteError (Option Sexp) := do
  if ← s.isDroppedAt levels p x then pure none else s.writeFieldAt levels p x

/-- Reads a field from its entry. -/
def readEntryAt (s : Setting) (levels : Nat) (what : Text) (p : FieldPlan Plan) (entry : Node) :
    Except ReadError Value :=
  Plan.readField (fun cell id args node => s.readWithin levels (.link cell id args) node) s.switches what
    p.name entry p.form

/-- The field reads, from its entry or from none, as a value that is as `R` says. -/
def EntryReads (s : Setting) (p : FieldPlan Plan) (R : Option Sexp → Value → Prop) :
    Option Sexp → Prop
  | none => ∃ a, p.absent = some a ∧ R none a
  | some t => Entries.IsEntry p.name t ∧ ∀ levels what node, node.sexp = t →
      t.census.depth ≤ levels + 1 →
      ∃ w, s.readEntryAt levels what p node = .ok w ∧ R (some t) w

theorem EntryReads.imp {R' : Option Sexp → Value → Prop} {entry : Option Sexp}
    (h : s.EntryReads p R entry) (himp : ∀ entry w, R entry w → R' entry w) :
    s.EntryReads p R' entry := by
  cases entry with
  | none =>
    obtain ⟨a, ha, hR⟩ := h
    exact ⟨a, ha, himp _ _ hR⟩
  | some t =>
    refine ⟨h.1, fun levels what node hnode hle => ?_⟩
    obtain ⟨w, hw, hR⟩ := h.2 levels what node hnode hle
    exact ⟨w, hw, himp _ _ hR⟩

/-- The value of a field that its rule does not leave out is written with so many levels, or more,
and the field reads again; or the writing is stopped, if it `halts`. -/
def FieldWrites (s : Setting) (halts : Prop) (R : Option Sexp → Value → Prop) (need : Nat)
    (p : FieldPlan Plan) (x : Value) : Prop :=
  ∀ levels, need ≤ levels → Yields halts (s.writeFieldAt levels p x) (s.EntryReads p R)

/-- The value of the field is written with so many levels, or more, and the field reads again; or the
writing is stopped, if it `halts`. -/
def FieldTrips (s : Setting) (halts : Prop) (R : Option Sexp → Value → Prop) (need : Nat)
    (p : FieldPlan Plan) (x : Value) : Prop :=
  ∀ levels, need ≤ levels → Yields halts (s.writeEntryAt levels p x) (s.EntryReads p R)

theorem FieldWrites.mono {need' : Nat} (h : s.FieldWrites halts R need p x) (hle : need ≤ need') :
    s.FieldWrites halts R need' p x :=
  fun levels hlevels => h levels (Nat.le_trans hle hlevels)

theorem FieldTrips.mono {need' : Nat} (h : s.FieldTrips halts R need p x) (hle : need ≤ need') :
    s.FieldTrips halts R need' p x :=
  fun levels hlevels => h levels (Nat.le_trans hle hlevels)

theorem FieldTrips.imp {R' : Option Sexp → Value → Prop} (h : s.FieldTrips halts R need p x)
    (himp : ∀ entry w, R entry w → R' entry w) : s.FieldTrips halts R' need p x :=
  fun levels hlevels => (h levels hlevels).imp fun _ hreads => hreads.imp himp

/-! ## What is written -/

theorem writeFieldAt_eq_some {levels : Nat} {t : Sexp} (h : s.writeFieldAt levels p x = .ok (some t)) :
    (p.form = .flag ∧ t = .list [.atom p.name]) ∨
      ∃ c omission u, p.form = .valued c omission ∧ isOmitted omission x = .ok false ∧
        s.writeAt levels c.plan x = .ok u ∧ t = .list [.atom p.name, u] := by
  obtain ⟨name, form, absent, dropping⟩ := p
  cases form with
  | flag =>
    rw [writeFieldAt, Plan.writeField] at h
    obtain ⟨b, -, h⟩ := bind_eq_ok.1 h
    split at h
    · exact .inl ⟨rfl, (Option.some.inj (Except.ok.inj h)).symm⟩
    · cases h
  | valued c omission =>
    rw [writeFieldAt, Plan.writeField] at h
    obtain ⟨b, hb, h⟩ := bind_eq_ok.1 h
    cases b with
    | true => cases h
    | false =>
      obtain ⟨u, hu, h⟩ := bind_eq_ok.1 h
      exact .inr ⟨c, omission, u, rfl, hb, hu, (Option.some.inj (Except.ok.inj h)).symm⟩

/-- A field that is written was not left out by its rule. -/
theorem writeEntryAt_eq_some {levels : Nat} {t : Sexp} (h : s.writeEntryAt levels p x = .ok (some t)) :
    s.writeFieldAt levels p x = .ok (some t) := by
  obtain ⟨b, -, h⟩ := bind_eq_ok.1 h
  cases b with
  | true => cases h
  | false => exact h

theorem isEntry_of_writeEntryAt {levels : Nat} {t : Sexp}
    (h : s.writeEntryAt levels p x = .ok (some t)) : Entries.IsEntry p.name t := by
  rcases writeFieldAt_eq_some (writeEntryAt_eq_some h) with ⟨-, rfl⟩ | ⟨c, omission, u, -, -, -, rfl⟩
  · exact ⟨[], rfl⟩
  · exact ⟨[u], rfl⟩

/-! ## Without a rule -/

/-- A value is written, unless it is left out in any case. -/
theorem FieldWrites.of_valued {c : Converter} {omission : Omission} {b : Bool}
    (hform : p.form = .valued c omission) (homit : isOmitted omission x = .ok b)
    (habsent : b = true → ∃ a, p.absent = some a ∧ R none a)
    (hR : ∀ t w, x.Like lone w → R (some t) w)
    (hc : b = false → s.RoundTrips lone halts 0 need c.plan x) : s.FieldWrites halts R need p x := by
  obtain ⟨name, form, absent, dropping⟩ := p
  obtain rfl : form = .valued c omission := hform
  intro levels hle
  rw [writeFieldAt, Plan.writeField, homit]
  cases b with
  | true => exact .pure (habsent rfl)
  | false =>
    refine (hc rfl levels hle).bind fun t _ hback => .pure ⟨⟨[t], rfl⟩, ?_⟩
    intro levels what node hnode hle
    obtain ⟨items, l, rfl, hitems⟩ := Node.eq_list_of_sexp hnode
    obtain ⟨head, items, rfl, _, hitems⟩ := List.map_eq_cons_iff.1 hitems
    obtain ⟨item, items, rfl, hitem, hitems⟩ := List.map_eq_cons_iff.1 hitems
    obtain rfl := List.map_eq_nil_iff.1 hitems
    obtain ⟨w, hw, hlike⟩ := hback levels item hitem (Sexp.depth_of_mem (by simp) hle)
    refine ⟨w, ?_, hR _ w hlike⟩
    unfold readAt at hw
    simp [readEntryAt, Plan.readField, Entries.value, hw, bind, Except.bind]

/-- A flag is there or not. -/
theorem FieldWrites.of_flag {b : Bool} (hform : p.form = .flag)
    (habsent : p.absent = some (.bool false)) (hnone : b = false → R none (.bool false))
    (hsome : b = true → ∀ t, R (some t) (.bool true)) : s.FieldWrites halts R 0 p (.bool b) := by
  obtain ⟨name, form, absent, dropping⟩ := p
  obtain rfl : form = .flag := hform
  intro levels _
  cases b with
  | false => exact .of_eq (a := none) rfl ⟨.bool false, habsent, hnone rfl⟩
  | true =>
    refine .of_eq (a := some (.list [.atom name])) rfl ⟨⟨[], rfl⟩, fun levels what node hnode _ => ?_⟩
    obtain ⟨items, l, rfl, hitems⟩ := Node.eq_list_of_sexp hnode
    obtain ⟨head, items, rfl, _, hitems⟩ := List.map_eq_cons_iff.1 hitems
    obtain rfl := List.map_eq_nil_iff.1 hitems
    exact ⟨.bool true, rfl, hsome rfl _⟩

/-! ## With a rule -/

/-- A field makes the trip if its rule can be asked, and the absent value will do for what the rule
leaves out. -/
theorem FieldTrips.of_rule (hwrite : s.FieldWrites halts R need p x)
    (hrule : ∀ levels, need ≤ levels → Yields halts (s.isDroppedAt levels p x)
      fun b => b = true → ∃ a, p.absent = some a ∧ R none a) : s.FieldTrips halts R need p x := by
  intro levels hle
  refine (hrule levels hle).bind fun b _ habsent => ?_
  cases b with
  | true => exact .pure (habsent rfl)
  | false => exact hwrite levels hle

theorem isDroppedAt_never (h : p.dropping = .never) (levels : Nat) :
    s.isDroppedAt levels p x = .ok false := by
  rw [isDroppedAt, h, Plan.isDropped, outcome_except]

theorem isDroppedAt_ifEqual {dflt : Value} (h : p.dropping = .ifEqual dflt) (levels : Nat) :
    s.isDroppedAt levels p x = Builtin.ofValue (x.same dflt) := by
  rw [isDroppedAt, h, Plan.isDropped, outcome_except]

theorem isDroppedAt_ifHolds {q : Predicate} (h : p.dropping = .ifHolds q) (levels : Nat) :
    s.isDroppedAt levels p x = Builtin.ofValue (q.holds x) := by
  rw [isDroppedAt, h, Plan.isDropped, outcome_except]

/-- Values that are written alike are equal, because what is written reads as both. -/
theorem isDroppedAt_ifWrittenEqual {c : Converter} {omission : Omission} {dflt : Value}
    (hform : p.form = .valued c omission) (h : p.dropping = .ifWrittenEqual dflt)
    (hx : s.RoundTrips lone halts 0 need c.plan x)
    (hdflt : s.RoundTrips lone halts 0 need c.plan dflt) {levels : Nat} (hle : need ≤ levels) :
    Yields halts (s.isDroppedAt levels p x) fun b => b = true → x.Like lone dflt := by
  rw [isDroppedAt, hform, h, Plan.isDropped]
  refine (hx levels hle).bind fun t _ hback => (hdflt levels hle).bind fun u _ hback' => .pure ?_
  intro heq
  obtain rfl : t = u := by simpa using heq
  have hnode : (Node.ofSexp t).sexp = t := Node.sexp_ofSexp t
  obtain ⟨w, hw, hlike⟩ := hback t.census.depth (Node.ofSexp t) hnode (Nat.le_refl _)
  obtain ⟨w', hw', hlike'⟩ := hback' t.census.depth (Node.ofSexp t) hnode (Nat.le_refl _)
  obtain rfl := Except.ok.inj (hw.symm.trans hw')
  exact hlike.trans hlike'.symm

end Setting

end TypedSexp
