import TypedSexp.Proofs.Conversion.Descent
import TypedSexp.Proofs.Conversion.Reading
/-!
# How readings fail

`Setting.Refuses` says how the error of a reading arises: where the tree does not have the shape, or
from the error of the first part that is not read, seen from as many steps further out as lie
between. Whenever a reading fails, its error arises so (`Setting.refuses_of_readBy`).
-/

namespace TypedSexp

/-- The tree is the other one, or stands inside it. -/
inductive Node.Contains : Node → Node → Prop
  | self (node : Node) : Contains node node
  | item {items : List Node} {l : Option Location} {item x : Node} (hi : item ∈ items)
      (h : Contains item x) : Contains (.list items l) x

/-- Fields are missing. -/
def ConversionCause.isMissing : ConversionCause → Bool
  | .missingFields .. => true
  | _ => false

/-- The converter of an item: lists and arrays have one for all, tuples one for each. -/
def Plan.itemAt (i : Nat) : Plan → Option Converter
  | .list _ c => some c
  | .array _ _ c => some c
  | .tuple _ cs => cs[i]?
  | _ => none

/-- The converter of what follows a tag. -/
def CaseForm.itemAt (i : Nat) : CaseForm Plan → Option Converter
  | .arguments cs => cs[i]?
  | .spliced c => some c
  | _ => none

namespace Setting

/-- The converter reads the tree. -/
def Reads (s : Setting) (c : Converter) (node : Node) : Prop := ∃ v, s.read c node = .ok v

theorem reads_of_readBy {s : Setting} {c : Converter} {node : Node}
    (h : ∃ v, s.readBy c.plan node = .ok v) : s.Reads c node := by
  obtain ⟨v, hv⟩ := h
  exact ⟨v, (read_eq_readBy c node).trans hv⟩

/-- The entry is read as a field: a flag by its name alone, any other field with its value. -/
inductive ReadsEntry (s : Setting) : FieldForm Plan → Node → Prop
  | flag {name : Node} {l : Option Location} : ReadsEntry s .flag (.list [name] l)
  | valued {c : Converter} {omission : Omission} {name v : Node} {l : Option Location}
      (h : s.Reads c v) : ReadsEntry s (.valued c omission) (.list [name, v] l)

/-- How the error of a reading arises. -/
inductive Refuses (s : Setting) : Plan → Node → ReadError → Prop
  | builtin {p : Primitive} {node : Node} {e : ReadError} (h : Builtin.read p node = .error e) :
      Refuses s (.primitive p) node e
  | custom {c : Custom} {node : Node} {e : ReadError} (h : c.read node = .error e) :
      Refuses s (.custom c) node e
  | here {plan : Plan} {node : Node} {cause : ConversionCause} (hcause : cause.isMissing = false)
      (hplan : ∀ r items l, plan = .record r → node ≠ .list items l) :
      Refuses s plan node (.about node cause)
  | inside {plan : Plan} {items : List Node} {l : Option Location} {x : Node}
      {cause : ConversionCause} (hcause : cause.isMissing = false) (hx : x ∈ items) :
      Refuses s plan (.list items l) (.about x cause)
  | missing {r : RecordPlan Plan} {items : List Node} {l : Option Location} (what : Text)
      (names : List Text) :
      Refuses s (.record r) (.list items l) (.about (.list items l) (.missingFields what names))
  | option {label : Text} {inner : Converter} {node item : Node} {e : ReadError}
      (hitem : Presented s.switches node item) (h : Refuses s inner.plan item e) :
      Refuses s (.option label inner) node e
  | item {plan : Plan} {i : Nat} {c : Converter} {items : List Node} {l : Option Location} {x : Node}
      {e : ReadError} (hc : plan.itemAt i = some c) (hx : items[i]? = some x)
      (hbefore : ∀ j < i, ∀ c x, plan.itemAt j = some c → items[j]? = some x → s.Reads c x)
      (h : Refuses s c.plan x e) : Refuses s plan (.list items l) (e.within (.index i))
  | stored {label : Text} {stored : ElementType} {c : Converter} {items : List Node}
      {l : Option Location} {i : Nat} {x : Node} {cause : ConversionCause}
      (hcause : cause.isMissing = false) (hall : ∀ x ∈ items, s.Reads c x)
      (hx : items[i]? = some x) :
      Refuses s (.array label stored c) (.list items l) ((ReadError.about x cause).within (.index i))
  | unspellable {label : Text} {stored : ElementType} {c : Converter} {items : List Node}
      {l : Option Location} {values : List Value} {i : Nat}
      (hvalues : List.Forall₂ (fun x v => s.readBy c.plan x = .ok v) items values)
      (h : Storage.vector stored values = .error (i, .unspellable)) :
      Refuses s (.array label stored c) (.list items l) .unspellable
  | value {r : RecordPlan Plan} {j : Nat} {p : FieldPlan Plan} {items : List Node}
      {l l' : Option Location} {name v : Node} {c : Converter} {omission : Omission} {e : ReadError}
      (hp : r.fields[j]? = some p)
      (hentry : items.filter (Entries.isNamed p.name) = [.list [name, v] l'])
      (hbefore : ∀ k < j, ∀ p entry, r.fields[k]? = some p →
        items.filter (Entries.isNamed p.name) = [entry] → s.ReadsEntry p.form entry)
      (hform : p.form = .valued c omission) (h : Refuses s c.plan v e) :
      Refuses s (.record r) (.list items l) (e.within (.name p.name))
  | entry {r : RecordPlan Plan} {j : Nat} {p : FieldPlan Plan} {items : List Node}
      {l : Option Location} {entry : Node} {cause : ConversionCause}
      (hp : r.fields[j]? = some p) (hentry : items.filter (Entries.isNamed p.name) = [entry])
      (hbefore : ∀ k < j, ∀ p entry, r.fields[k]? = some p →
        items.filter (Entries.isNamed p.name) = [entry] → s.ReadsEntry p.form entry)
      (hcause : cause.isMissing = false) :
      Refuses s (.record r) (.list items l) ((ReadError.about entry cause).within (.name p.name))
  | construct {r : RecordPlan Plan} {node : Node} {k : ClassInfo} (hk : r.instanceOf = some k) :
      Refuses s (.record r) node (.construction k.name)
  | argument {label t : Text} {folding : Bool} {cases : List (CasePlan Plan)} {p : CasePlan Plan}
      {i : Nat} {c : Converter} {rest : List Node} {l l' : Option Location} {x : Node} {e : ReadError}
      (hp : p ∈ cases) (htag : Tags.resolve? folding (CasePlan.tags cases) t = some p.tag)
      (hc : p.form.itemAt i = some c) (hx : rest[i]? = some x)
      (hbefore : ∀ j < i, ∀ c x, p.form.itemAt j = some c → rest[j]? = some x → s.Reads c x)
      (h : Refuses s c.plan x e) :
      Refuses s (.variant label folding cases) (.list (.atom t l' :: rest) l)
        ((e.within (.index i)).within (.name p.tag))
  | inline {label t : Text} {folding : Bool} {cases : List (CasePlan Plan)} {p : CasePlan Plan}
      {r : RecordPlan Plan} {rest : List Node} {l l' : Option Location} {e : ReadError}
      (hp : p ∈ cases) (htag : Tags.resolve? folding (CasePlan.tags cases) t = some p.tag)
      (hform : p.form = .record r) (h : Refuses s (.record r) (.list rest l) e) :
      Refuses s (.variant label folding cases) (.list (.atom t l' :: rest) l)
        (e.within (.name p.tag))
  | make {label : Text} {folding : Bool} {cases : List (CasePlan Plan)} {p : CasePlan Plan}
      {node : Node} {k : ClassInfo} (hp : p ∈ cases) (hk : p.instanceOf = some k) :
      Refuses s (.variant label folding cases) node (.construction k.name)
  | link {cell : Nat} {id : DefinitionId} {args : List Converter} {layers : Nat} {q : Plan} {node : Node}
      {e : ReadError} (hq : s.settle false (.link cell id args) = .ok (layers, q))
      (h : Refuses s q node e) : Refuses s (.link cell id args) node e
  | fault {cell : Nat} {id : DefinitionId} {args : List Converter} {fault : DescriptionFault} {node : Node}
      (hq : s.settle false (.link cell id args) = .error fault) :
      Refuses s (.link cell id args) node (readFault fault)

end Setting

/-! ## Built-in types -/

/-- What is no integer is refused itself, unless it has too many digits. -/
theorem Builtin.read_int_error {x : Node} {e : ReadError} (h : read .int x = .error e) :
    (∃ detail, e = .about x (.unexpectedShape "int_of_sexp" "an integer atom" detail)) ∨
      ∃ t l, x = .atom t l ∧ Spelling.readInt t = .error .tooManyDigits ∧ e = .tooManyDigits := by
  rcases bind_eq_error.1 h with h | ⟨t, ht, h⟩
  · cases x with
    | atom t l => cases h
    | list items l => exact .inl ⟨_, (Except.error.inj h).symm⟩
  · cases x with
    | list items l => cases ht
    | atom u l =>
      obtain rfl : u = t := Except.ok.inj ht
      split at h
      · cases h
      · next hdigits => exact .inr ⟨u, l, rfl, hdigits, (Except.error.inj h).symm⟩
      · exact .inl ⟨_, (Except.error.inj h).symm⟩

/-- Errors of built-in types are about the tree itself, but for integers with too many digits. -/
theorem Builtin.read_error {p : Primitive} {node : Node} {e : ReadError}
    (h : read p node = .error e) : (∃ cause, e = .about node cause) ∨
      ∃ t l, node = .atom t l ∧ Spelling.readInt t = .error .tooManyDigits ∧ e = .tooManyDigits := by
  have refused {α : Type} {expected : Text} {detail : Option Text}
      (h : (.error (refuse p expected detail node) : Except ReadError α) = .error e) :
      ∃ cause, e = .about node cause := ⟨_, (Except.error.inj h).symm⟩
  have text {expected : Text} (h : atomText p expected node = .error e) :
      ∃ cause, e = .about node cause := by
    cases node with
    | atom t l => cases h
    | list items l => exact refused h
  cases p with
  | unit =>
    rcases node with ⟨t, l⟩ | ⟨_ | ⟨item, items⟩, l⟩
    · exact .inl (refused h)
    · cases h
    · exact .inl (refused h)
  | sexp => cases h
  | string =>
    rcases bind_eq_error.1 h with h | ⟨t, -, h⟩
    · exact .inl (text h)
    · cases h
  | int => exact (read_int_error h).imp_left fun ⟨_, he⟩ => ⟨_, he⟩
  | _ =>
    rcases bind_eq_error.1 h with h | ⟨t, -, h⟩
    · exact .inl (text h)
    · split at h
      · cases h
      · exact .inl (refused h)

/-! ## Values that are not stored -/

namespace Storage

theorem store_of_storeAll {e : ElementType} {reason : Reason} : ∀ {values : List Value} {i : Nat},
    storeAll e values = .error (i, reason) → ∃ v, values[i]? = some v ∧ store e v = .error reason
  | [], i, h => absurd h (by simp [storeAll])
  | v :: vs, i, h => by
    rw [storeAll] at h
    cases hv : store e v with
    | error r =>
      obtain ⟨rfl, rfl⟩ : 0 = i ∧ r = reason := by simpa [hv] using h
      exact ⟨v, rfl, hv⟩
    | ok u =>
      cases hvs : storeAll e vs with
      | ok us => simp [hv, hvs] at h
      | error fault =>
        obtain ⟨j, r⟩ := fault
        obtain ⟨rfl, rfl⟩ : j + 1 = i ∧ r = reason := by simpa [hv, hvs] using h
        obtain ⟨w, hw, hstore⟩ := store_of_storeAll hvs
        exact ⟨w, by simpa using hw, hstore⟩

/-- The value that an array does not take. -/
theorem store_of_vector {e : ElementType} {reason : Reason} {values : List Value} {i : Nat}
    (h : vector e values = .error (i, reason)) :
    ∃ v, values[i]? = some v ∧ store e v = .error reason := by
  rw [vector] at h
  cases hall : storeAll e values with
  | ok us => simp [hall, Except.map] at h
  | error fault =>
    obtain rfl : fault = (i, reason) := by simpa [hall, Except.map] using h
    exact store_of_storeAll hall

end Storage

/-! ## The first part that is not read -/

/-- The first item that is not read. -/
theorem readEach_error {read : Node → Except ReadError Value} : ∀ {nodes : List Node} {i : Nat}
    {e : ReadError}, readEach read i nodes = .error e →
      ∃ (k : Nat) (x : Node) (e' : ReadError), nodes[k]? = some x ∧ read x = .error e' ∧
        e = e'.within (.index ((i + k : Nat) : Int)) ∧
        ∀ j < k, ∀ y, nodes[j]? = some y → ∃ v, read y = .ok v
  | [], i, e, h => by cases h
  | node :: nodes, i, e, h => by
    rw [readEach] at h
    rcases bind_eq_error.1 h with h | ⟨v, hv, h⟩
    · obtain ⟨e', he', rfl⟩ := mapError_eq_error.1 h
      exact ⟨0, node, e', rfl, he', rfl, fun j hj => absurd hj (Nat.not_lt_zero j)⟩
    · rcases bind_eq_error.1 h with h | ⟨vs, -, h⟩
      · obtain ⟨k, x, e', hx, he', rfl, hbefore⟩ := readEach_error h
        refine ⟨k + 1, x, e', hx, he', by rw [Nat.add_right_comm]; rfl, fun j hj y hy => ?_⟩
        cases j with
        | zero =>
          obtain rfl : node = y := by simpa using hy
          exact ⟨v, mapError_eq_ok.1 hv⟩
        | succ j => exact hbefore j (by omega) y (by simpa using hy)
      · cases h

/-- What the items are read as. -/
theorem readEach_ok {read : Node → Except ReadError Value} : ∀ {nodes : List Node} {i : Nat}
    {vs : List Value}, readEach read i nodes = .ok vs →
      List.Forall₂ (fun x v => read x = .ok v) nodes vs
  | [], i, vs, h => by
    obtain rfl := Except.ok.inj h
    exact .nil
  | node :: nodes, i, vs, h => by
    rw [readEach] at h
    obtain ⟨v, hv, h⟩ := bind_eq_ok.1 h
    obtain ⟨vs', hvs, h⟩ := bind_eq_ok.1 h
    obtain rfl := Except.ok.inj h
    exact .cons (mapError_eq_ok.1 hv) (readEach_ok hvs)

namespace Plan

variable {follow : Follow Except} {switches : Switches} {what : Text}

/-- The first part that is not read. -/
theorem readParts_error : ∀ {cs : List Converter} {nodes : List Node} {i : Nat} {e : ReadError},
    readParts follow switches i cs nodes = .error e → ∃ (k : Nat) (c : Converter) (x : Node)
      (e' : ReadError), cs[k]? = some c ∧ nodes[k]? = some x ∧
      c.plan.read follow switches x = .error e' ∧
      e = e'.within (.index ((i + k : Nat) : Int)) ∧
      ∀ j < k, ∀ (c : Converter) (y : Node), cs[j]? = some c → nodes[j]? = some y →
        ∃ v, c.plan.read follow switches y = .ok v
  | [], nodes, i, e, h => by
    rw [readParts] at h
    · cases h
    · simp
  | c :: cs, [], i, e, h => by
    rw [readParts] at h
    · cases h
    · simp
  | c :: cs, node :: nodes, i, e, h => by
    rw [readParts] at h
    rcases bind_eq_error.1 h with h | ⟨v, hv, h⟩
    · obtain ⟨e', he', rfl⟩ := mapError_eq_error.1 h
      exact ⟨0, c, node, e', rfl, rfl, he', rfl, fun j hj => absurd hj (Nat.not_lt_zero j)⟩
    · rcases bind_eq_error.1 h with h | ⟨vs, -, h⟩
      · obtain ⟨k, k', x, e', hk', hx, he', rfl, hbefore⟩ := readParts_error h
        refine ⟨k + 1, k', x, e', hk', hx, he', by rw [Nat.add_right_comm]; rfl,
          fun j hj c' y hc' hy => ?_⟩
        cases j with
        | zero =>
          obtain rfl : c = c' := by simpa using hc'
          obtain rfl : node = y := by simpa using hy
          exact ⟨v, mapError_eq_ok.1 hv⟩
        | succ j => exact hbefore j (by omega) c' y (by simpa using hc') (by simpa using hy)
      · cases h

/-- The first declared field that is present and not read. -/
theorem readFields_error {present : List (Text × Node)} : ∀ {ps : List (FieldPlan Plan)}
    {e : ReadError}, readFields follow switches what present ps = .error e →
      ∃ (k : Nat) (p : FieldPlan Plan) (entry : Node) (e' : ReadError), ps[k]? = some p ∧
        present.lookup p.name = some entry ∧
        readField follow switches what p.name entry p.form = .error e' ∧
        e = e'.within (.name p.name) ∧
        ∀ j < k, ∀ (p : FieldPlan Plan) (entry : Node), ps[j]? = some p →
          present.lookup p.name = some entry →
          ∃ v, readField follow switches what p.name entry p.form = .ok v
  | [], e, h => by
    rw [readFields] at h
    cases h
  | ⟨name, form, absent, dropping⟩ :: ps, e, h => by
    rw [readFields] at h
    have hread : (∃ entry e', present.lookup name = some entry ∧
          readField follow switches what name entry form = .error e' ∧ e = e'.within (.name name)) ∨
        (∀ entry, present.lookup name = some entry →
          ∃ v, readField follow switches what name entry form = .ok v) ∧
        readFields follow switches what present ps = .error e := by
      have later {v : Value} (h : (readFields follow switches what present ps >>= fun vs =>
          .ok ((name, v) :: vs)) = .error e) : readFields follow switches what present ps = .error e := by
        rcases bind_eq_error.1 h with h | ⟨vs, -, h⟩
        · exact h
        · cases h
      cases hentry : present.lookup name with
      | none =>
        rw [hentry] at h
        exact .inr ⟨fun _ hfound => absurd hfound (by simp), later h⟩
      | some entry =>
        rw [hentry] at h
        rcases bind_eq_error.1 h with h | ⟨v, hv, h⟩
        · obtain ⟨e', he', rfl⟩ := mapError_eq_error.1 h
          exact .inl ⟨entry, e', rfl, he', rfl⟩
        · refine .inr ⟨fun found hfound => ?_, later h⟩
          obtain rfl := Option.some.inj hfound
          exact ⟨v, mapError_eq_ok.1 hv⟩
    rcases hread with ⟨entry, e', hentry, he', rfl⟩ | ⟨hread, h⟩
    · exact ⟨0, _, entry, e', rfl, hentry, he', rfl, fun j hj => absurd hj (Nat.not_lt_zero j)⟩
    · obtain ⟨k, p, entry, e', hp, hentry, he', rfl, hbefore⟩ := readFields_error h
      refine ⟨k + 1, p, entry, e', hp, hentry, he', rfl, fun j hj q found hq hfound => ?_⟩
      cases j with
      | zero =>
        obtain rfl : (⟨name, form, absent, dropping⟩ : FieldPlan Plan) = q := by simpa using hq
        exact hread found hfound
      | succ j => exact hbefore j (by omega) q found (by simpa using hq) hfound

/-- The constructor with a tag. -/
theorem readCase_of_tag (tag : Text) (node : Node) (rest : Option (List Node)) :
    ∀ {ps : List (CasePlan Plan)}, tag ∈ CasePlan.tags ps → ∃ p ∈ ps, p.tag = tag ∧
      readCase follow switches what tag node rest ps =
        readForm follow switches what tag node rest p.instanceOf p.form
  | [], h => absurd h List.not_mem_nil
  | ⟨t, instanceOf, form⟩ :: ps, h => by
    rw [readCase]
    by_cases ht : t = tag
    · rw [if_pos ht]
      exact ⟨_, List.mem_cons_self, ht, rfl⟩
    · rw [if_neg ht]
      have hmem : tag ∈ CasePlan.tags ps := (List.mem_cons.1 h).resolve_left (Ne.symm ht)
      obtain ⟨p, hp, htag, heq⟩ := readCase_of_tag tag node rest hmem
      exact ⟨p, List.mem_cons_of_mem _ hp, htag, heq⟩

end Plan

theorem Entries.gather_error {what : Text} {names : List Text} {tolerant : Bool} :
    ∀ {nodes : List Node} {present : List (Text × Node)} {e : ReadError},
      gather what names tolerant present nodes = .error e →
      ∃ x ∈ nodes, ∃ cause : ConversionCause, cause.isMissing = false ∧ e = .about x cause
  | [], present, e, h => by
    rw [gather] at h
    cases h
  | node :: nodes, present, e, h => by
    have later {present : List (Text × Node)}
        (h : gather what names tolerant present nodes = .error e) : ∃ x ∈ node :: nodes,
          ∃ cause : ConversionCause, cause.isMissing = false ∧ e = .about x cause := by
      obtain ⟨x, hx, hcause⟩ := gather_error h
      exact ⟨x, List.mem_cons_of_mem _ hx, hcause⟩
    rw [gather] at h
    split at h
    · exact ⟨node, List.mem_cons_self, _, rfl, (Except.error.inj h).symm⟩
    · split at h
      · split at h
        · exact later h
        · exact ⟨node, List.mem_cons_self, _, rfl, (Except.error.inj h).symm⟩
      · split at h
        · exact ⟨node, List.mem_cons_self, _, rfl, (Except.error.inj h).symm⟩
        · exact later h

/-! ## Errors of readings -/

namespace Setting

variable {s : Setting} {k : Nat}

/-- What is less deep than `k` is refused as `Refuses` says. -/
def RefusesBelow (s : Setting) (k : Nat) : Prop :=
  ∀ (plan : Plan) (node : Node) (e : ReadError), node.depth < k → s.readBy plan node = .error e →
    s.Refuses plan node e

theorem readsEntry_of_readField {what name : Text} {entry : Node} {form : FieldForm Plan} {v : Value}
    (h : Plan.readField s.follow s.switches what name entry form = .ok v) :
    s.ReadsEntry form entry := by
  cases form with
  | flag =>
    rw [Plan.readField] at h
    obtain ⟨_, hflag, -⟩ := bind_eq_ok.1 h
    unfold Entries.checkFlag at hflag
    split at hflag
    · exact .flag
    · cases hflag
  | valued c omission =>
    rw [Plan.readField] at h
    obtain ⟨x, hx, h⟩ := bind_eq_ok.1 h
    obtain ⟨head, l, rfl⟩ := Entries.eq_of_value hx
    exact .valued (reads_of_readBy ⟨v, h⟩)

theorem refuses_of_readFields (hbelow : s.RefusesBelow k) {what : Text} {r : RecordPlan Plan}
    {names : List Text} {tolerant : Bool} {items : List Node} {l : Option Location}
    {present : List (Text × Node)} {e : ReadError} (hk : (Node.list items l).depth ≤ k)
    (hpresent : Entries.gather what names tolerant [] items = .ok present)
    (hnames : ∀ p ∈ r.fields, p.name ∈ names)
    (h : Plan.readFields s.follow s.switches what present r.fields = .error e) :
    s.Refuses (.record r) (.list items l) e := by
  obtain ⟨j, p, entry, e', hp, hentry, he', rfl, hbefore⟩ := Plan.readFields_error h
  have hone := Entries.filter_of_gather hpresent hentry
  have hbefore' (i : Nat) (hi : i < j) (q : FieldPlan Plan) (found : Node)
      (hq : r.fields[i]? = some q) (hfound : items.filter (Entries.isNamed q.name) = [found]) :
      s.ReadsEntry q.form found := by
    have hlookup := Entries.lookup_of_gather hpresent (hnames q (List.mem_of_getElem? hq)) hfound
    obtain ⟨v, hv⟩ := hbefore i hi q found hq hlookup
    exact readsEntry_of_readField hv
  cases hform : p.form with
  | flag =>
    rw [hform, Plan.readField] at he'
    rcases bind_eq_error.1 he' with h | ⟨_, -, h⟩
    · unfold Entries.checkFlag at h
      split at h
      · cases h
      · obtain rfl := Except.error.inj h
        exact .entry hp hone hbefore' rfl
    · cases h
  | valued c omission =>
    rw [hform, Plan.readField] at he'
    rcases bind_eq_error.1 he' with h | ⟨v, hv, h⟩
    · unfold Entries.value at h
      split at h
      · cases h
      · obtain rfl := Except.error.inj h
        exact .entry hp hone hbefore' rfl
      · obtain rfl := Except.error.inj h
        exact .entry hp hone hbefore' rfl
    · have hdepth := Entries.depth_lt_of_value hv
      have hmem := Node.depth_lt_of_mem (Entries.mem_of_gather hpresent hentry) l
      obtain ⟨head, l', rfl⟩ := Entries.eq_of_value hv
      exact .value hp hone hbefore' hform (hbelow c.plan v e' (by omega) h)

theorem refuses_of_readRecord (hbelow : s.RefusesBelow k) {r : RecordPlan Plan} {node : Node}
    {e : ReadError} (hk : node.depth ≤ k)
    (h : Plan.readRecord s.follow s.switches r node = .error e) : s.Refuses (.record r) node e := by
  obtain ⟨label, instanceOf, extra, fields⟩ := r
  cases node with
  | atom t l =>
    rw [Plan.readRecord] at h
    obtain rfl := Except.error.inj h
    exact .here rfl fun _ _ _ _ h => by cases h
  | list items l =>
    rw [Plan.readRecord] at h
    rcases bind_eq_error.1 h with h | ⟨present, hpresent, h⟩
    · obtain ⟨x, hx, cause, hcause, rfl⟩ := Entries.gather_error h
      exact .inside hcause hx
    · dsimp only at h
      split at h
      · rcases bind_eq_error.1 h with h | ⟨values, -, h⟩
        · exact refuses_of_readFields hbelow hk hpresent
            (fun p hp => List.mem_map_of_mem hp) h
        · cases hinstance : instanceOf with
          | none =>
            rw [hinstance] at h
            cases h
          | some c =>
            obtain rfl : e = .construction c.name := by
              rw [hinstance] at h
              replace h : c.ofNamed values = .error e := h
              unfold ClassInfo.ofNamed at h
              split at h
              · split at h
                · cases h
                · exact (Except.error.inj h).symm
              · exact (Except.error.inj h).symm
            exact .construct rfl
      · obtain rfl := Except.error.inj h
        exact .missing _ _

theorem refuses_of_readForm (hbelow : s.RefusesBelow k) {label t : Text} {folding : Bool}
    {cases : List (CasePlan Plan)} {p : CasePlan Plan} (hp : p ∈ cases) {node : Node}
    {rest : Option (List Node)} (hk : node.depth ≤ k)
    (hrest : ∀ items, rest = some items → ∃ l l', node = .list (.atom t l' :: items) l)
    (htag : Tags.resolve? folding (CasePlan.tags cases) t = some p.tag) {what : Text} {e : ReadError}
    (h : Plan.readForm s.follow s.switches what p.tag node rest p.instanceOf p.form = .error e) :
    s.Refuses (.variant label folding cases) node e := by
  have refused {cause : ConversionCause} (hcause : cause.isMissing = false) :
      s.Refuses (.variant label folding cases) node (.about node cause) :=
    .here hcause fun _ _ _ h => by cases h
  have made {args : List Value} {e : ReadError}
      (h : CasePlan.make p.tag p.instanceOf args = .error e) :
      s.Refuses (.variant label folding cases) node e := by
    unfold CasePlan.make at h
    cases hinstance : p.instanceOf with
    | none =>
      rw [hinstance] at h
      cases h
    | some c =>
      rw [hinstance] at h
      replace h : c.ofOrdered args = .error e := h
      unfold ClassInfo.ofOrdered at h
      split at h
      · cases h
      · obtain rfl := Except.error.inj h
        exact .make hp hinstance
  cases rest with
  | none =>
    cases hform : p.form with
    | constant =>
      rw [hform, Plan.readForm] at h
      exact made h
    | _ =>
      rw [hform, Plan.readForm] at h
      obtain rfl := Except.error.inj h
      exact refused rfl
  | some items =>
    obtain ⟨l, l', rfl⟩ := hrest items rfl
    have hinside (x : Node) (hx : x ∈ items) : x.depth < k :=
      Nat.lt_of_lt_of_le (Node.depth_lt_of_mem (List.mem_cons_of_mem _ hx) l) hk
    cases hform : p.form with
    | constant =>
      rw [hform, Plan.readForm] at h
      obtain rfl := Except.error.inj h
      exact refused rfl
    | arguments cs =>
      rw [hform, Plan.readForm] at h
      split at h
      · rcases bind_eq_error.1 h with h | ⟨args, -, h⟩
        · obtain ⟨e', he', rfl⟩ := mapError_eq_error.1 h
          obtain ⟨i, c, x, e'', hc, hx, he'', rfl, hbefore⟩ := Plan.readParts_error he'
          rw [Nat.zero_add]
          refine .argument hp htag (by rw [hform]; exact hc) hx (fun j hj c' y hc' hy => ?_) ?_
          · exact reads_of_readBy (hbefore j hj c' y (by rw [hform] at hc'; exact hc') hy)
          · exact hbelow c.plan x e'' (hinside x (List.mem_of_getElem? hx)) he''
        · exact made h
      · obtain rfl := Except.error.inj h
        exact refused rfl
    | spliced c =>
      rw [hform, Plan.readForm] at h
      rcases bind_eq_error.1 h with h | ⟨values, -, h⟩
      · obtain ⟨e', he', rfl⟩ := mapError_eq_error.1 h
        obtain ⟨i, x, e'', hx, he'', rfl, hbefore⟩ := readEach_error he'
        rw [Nat.zero_add]
        refine .argument hp htag (by rw [hform]; rfl) hx (fun j hj c' y hc' hy => ?_) ?_
        · obtain rfl : c = c' := by
            rw [hform] at hc'
            exact Option.some.inj hc'
          exact reads_of_readBy (hbefore j hj y hy)
        · exact hbelow c.plan x e'' (hinside x (List.mem_of_getElem? hx)) he''
      · exact made h
    | record r =>
      rw [hform, Plan.readForm] at h
      rcases bind_eq_error.1 h with h | ⟨v, -, h⟩
      · obtain ⟨e', he', rfl⟩ := mapError_eq_error.1 h
        have hdepth := Node.depth_tail_le (.atom t l') items l l
        exact .inline hp htag hform (refuses_of_readRecord hbelow (Nat.le_trans hdepth hk) he')
      · split at h <;> cases h

theorem refuses_of_readVariant (hbelow : s.RefusesBelow k) {label : Text} {folding : Bool}
    {cases : List (CasePlan Plan)} {node : Node} {e : ReadError} (hk : node.depth ≤ k)
    (h : s.readBy (.variant label folding cases) node = .error e) :
    s.Refuses (.variant label folding cases) node e := by
  have refused {cause : ConversionCause} (hcause : cause.isMissing = false) :
      s.Refuses (.variant label folding cases) node (.about node cause) :=
    .here hcause fun _ _ _ h => by cases h
  have tagged {t tag : Text} {rest : Option (List Node)}
      (hrest : ∀ items, rest = some items → ∃ l l', node = .list (.atom t l' :: items) l)
      (htag : Tags.resolve? folding (CasePlan.tags cases) t = some tag)
      (h : Plan.readCase s.follow s.switches (Converter.readerName label) tag node rest cases =
        .error e) : s.Refuses (.variant label folding cases) node e := by
    obtain ⟨p, hp, rfl, heq⟩ := Plan.readCase_of_tag tag node rest (Tags.mem_of_resolveBy? htag)
    rw [heq] at h
    exact refuses_of_readForm hbelow hp hk hrest htag h
  cases node with
  | atom t l =>
    rw [readBy, Plan.read] at h
    cases htag : Tags.resolve? folding (CasePlan.tags cases) t with
    | none =>
      simp only [htag] at h
      obtain rfl := Except.error.inj h
      exact refused rfl
    | some tag =>
      simp only [htag] at h
      exact tagged (fun items hitems => absurd hitems (by simp)) htag h
  | list items l =>
    cases items with
    | nil =>
      rw [readBy, Plan.read] at h
      obtain rfl := Except.error.inj h
      exact refused rfl
    | cons head rest =>
      cases head with
      | list items' l' =>
        rw [readBy, Plan.read] at h
        · obtain rfl := Except.error.inj h
          exact .inside rfl List.mem_cons_self
        all_goals simp
      | atom t l' =>
        rw [readBy, Plan.read] at h
        cases htag : Tags.resolve? folding (CasePlan.tags cases) t with
        | none =>
          simp only [htag] at h
          obtain rfl := Except.error.inj h
          exact .inside rfl List.mem_cons_self
        | some tag =>
          simp only [htag] at h
          refine tagged (fun items hitems => ?_) htag h
          obtain rfl := Option.some.inj hitems
          exact ⟨l, l', rfl⟩

theorem refuses_of_readOption (hbelow : s.RefusesBelow k) {label : Text} {c : Converter}
    {node : Node} {e : ReadError} (hk : node.depth ≤ k)
    (h : s.readBy (.option label c) node = .error e) : s.Refuses (.option label c) node e := by
  have refused {cause : ConversionCause} (hcause : cause.isMissing = false) :
      s.Refuses (.option label c) node (.about node cause) :=
    .here hcause fun _ _ _ h => by cases h
  have inside {items : List Node} {item : Node} {l : Option Location}
      (hk : (Node.list items l).depth ≤ k) (hitem : item ∈ items) : item.depth < k :=
    Nat.lt_of_lt_of_le (Node.depth_lt_of_mem hitem l) hk
  rcases node with ⟨t, loc⟩ | ⟨_ | ⟨head, _ | ⟨item, _ | ⟨_, _⟩⟩⟩, loc⟩
  · rw [readBy, Plan.read] at h
    split at h
    · cases h
    · obtain rfl := Except.error.inj h
      exact refused rfl
  · rw [readBy, Plan.read] at h
    split at h
    · cases h
    · obtain rfl := Except.error.inj h
      exact refused rfl
  · rw [readBy, Plan.read] at h
    split at h
    · next hold =>
      exact .option (.old hold) (hbelow c.plan head e (inside hk (by simp)) h)
    · obtain rfl := Except.error.inj h
      exact refused rfl
  · cases head with
    | list _ _ =>
      rw [readBy, Plan.read] at h
      · obtain rfl := Except.error.inj h
        exact refused rfl
      all_goals simp
    | atom t l' =>
      rw [readBy, Plan.read] at h
      split at h
      · next htag =>
        exact .option (.new (by simpa using htag)) (hbelow c.plan item e (inside hk (by simp)) h)
      · obtain rfl := Except.error.inj h
        exact refused rfl
  · rw [readBy, Plan.read] at h
    · obtain rfl := Except.error.inj h
      exact refused rfl
    all_goals simp

theorem refuses_of_storeEach {label : Text} {stored : ElementType} {c : Converter}
    {items : List Node} {l : Option Location} {values : List Value} {e : ReadError}
    (hvalues : List.Forall₂ (fun x v => s.readBy c.plan x = .ok v) items values)
    (h : storeEach label stored items values = .error e) :
    s.Refuses (.array label stored c) (.list items l) e := by
  unfold storeEach at h
  split at h
  · cases h
  · next hstored =>
    obtain rfl := Except.error.inj h
    exact .unspellable hvalues hstored
  · next i reason _ hstored =>
    obtain rfl := Except.error.inj h
    obtain ⟨v, hv, -⟩ := Storage.store_of_vector hstored
    have hi : i < items.length := by
      rw [hvalues.length_eq]
      exact (List.getElem?_eq_some_iff.1 hv).1
    rw [List.getElem?_eq_getElem hi]
    refine .stored rfl (fun x hx => ?_) (List.getElem?_eq_getElem hi)
    obtain ⟨j, hj, rfl⟩ := List.mem_iff_getElem.1 hx
    have hj' : j < values.length := by rw [← hvalues.length_eq]; exact hj
    exact reads_of_readBy ⟨values[j], List.Forall₂.get hvalues hj hj'⟩

/-- A shape refuses as `Refuses` says, if what is inside it is refused so. -/
theorem refuses_of_settled (hbelow : s.RefusesBelow k) {plan : Plan} (hplan : plan.isSettled false)
    {node : Node} {e : ReadError} (hk : node.depth ≤ k) (h : s.readBy plan node = .error e) :
    s.Refuses plan node e := by
  have inside {items : List Node} {l : Option Location} (hk : (Node.list items l).depth ≤ k)
      (x : Node) (hx : x ∈ items) : x.depth < k :=
    Nat.lt_of_lt_of_le (Node.depth_lt_of_mem hx l) hk
  cases plan with
  | primitive p =>
    rw [readBy, Plan.read] at h
    exact .builtin h
  | custom c =>
    rw [readBy, Plan.read] at h
    exact .custom h
  | sealed label =>
    rw [readBy, Plan.read] at h
    obtain rfl := Except.error.inj h
    exact .here rfl fun _ _ _ h => by cases h
  | option label c => exact refuses_of_readOption hbelow hk h
  | list label c =>
    cases node with
    | atom t l =>
      rw [readBy, Plan.read] at h
      obtain rfl := Except.error.inj h
      exact .here rfl fun _ _ _ h => by cases h
    | list items l =>
      rw [readBy, Plan.read] at h
      rcases bind_eq_error.1 h with h | ⟨vs, -, h⟩
      · obtain ⟨i, x, e', hx, he', rfl, hbefore⟩ := readEach_error h
        rw [Nat.zero_add]
        refine .item (c := c) rfl hx (fun j hj c' y hc' hy => ?_) ?_
        · obtain rfl := Option.some.inj hc'
          exact reads_of_readBy (hbefore j hj y hy)
        · exact hbelow c.plan x e' (inside hk x (List.mem_of_getElem? hx)) he'
      · cases h
  | array label stored c =>
    cases node with
    | atom t l =>
      rw [readBy, Plan.read] at h
      obtain rfl := Except.error.inj h
      exact .here rfl fun _ _ _ h => by cases h
    | list items l =>
      rw [readBy, Plan.read] at h
      rcases bind_eq_error.1 h with h | ⟨vs, hvs, h⟩
      · obtain ⟨i, x, e', hx, he', rfl, hbefore⟩ := readEach_error h
        rw [Nat.zero_add]
        refine .item (c := c) rfl hx (fun j hj c' y hc' hy => ?_) ?_
        · obtain rfl := Option.some.inj hc'
          exact reads_of_readBy (hbefore j hj y hy)
        · exact hbelow c.plan x e' (inside hk x (List.mem_of_getElem? hx)) he'
      · exact refuses_of_storeEach (readEach_ok hvs) h
  | tuple label cs =>
    cases node with
    | atom t l =>
      rw [readBy, Plan.read] at h
      obtain rfl := Except.error.inj h
      exact .here rfl fun _ _ _ h => by cases h
    | list items l =>
      rw [readBy, Plan.read] at h
      split at h
      · rcases bind_eq_error.1 h with h | ⟨vs, -, h⟩
        · obtain ⟨i, c, x, e', hc, hx, he', rfl, hbefore⟩ := Plan.readParts_error h
          rw [Nat.zero_add]
          exact .item hc hx (fun j hj c y hc hy => reads_of_readBy (hbefore j hj c y hc hy))
            (hbelow c.plan x e' (inside hk x (List.mem_of_getElem? hx)) he')
        · cases h
      · obtain rfl := Except.error.inj h
        exact .here rfl fun _ _ _ h => by cases h
  | record r =>
    rw [readBy, Plan.read] at h
    exact refuses_of_readRecord hbelow hk h
  | variant label folding cases => exact refuses_of_readVariant hbelow hk h
  | link cell id args => exact absurd hplan (by simp [Plan.isSettled])

/-- **The error of a reading arises as `Refuses` says**, by induction on the depth of the tree. -/
theorem refuses_of_readBy {plan : Plan} {node : Node} {e : ReadError}
    (h : s.readBy plan node = .error e) : s.Refuses plan node e := by
  induction hk : node.depth using Nat.strongRecOn generalizing plan node e with
  | ind k ih =>
    have hbelow : s.RefusesBelow k := fun plan node e hlt h => ih node.depth (by omega) h rfl
    cases hplan : plan.isSettled false with
    | true => exact refuses_of_settled hbelow hplan (Nat.le_of_eq hk) h
    | false =>
      cases plan with
      | link cell id args =>
        rw [readBy_eq_bind] at h
        cases hsettle : s.settle false (.link cell id args) with
        | error fault =>
          rw [hsettle] at h
          obtain rfl := Except.error.inj h
          exact .fault hsettle
        | ok found =>
          rw [hsettle] at h
          exact .link hsettle
            (refuses_of_settled hbelow (isSettled_of_settle hsettle) (Nat.le_of_eq hk) h)
      | _ => exact absurd hplan (by simp [Plan.isSettled])

end Setting

end TypedSexp
