import TypedSexp.Proofs.Conversion.Field
import TypedSexp.Proofs.Description.Typing
/-!
# Records

A record is written as the entries of its fields, some of which are left out. If every field makes
the trip, then so does the record (`record_trips`), whatever is to be said of its fields one by one;
equal fields make equal records (`roundTrips_record`). Entries are found again by name
(`gather_entries`), because names of fields are different. An instance of a class is made of the
same values in the order of the class (`construct_ofFields`).
-/

namespace TypedSexp

namespace Entries

theorem name?_of_isEntry {name : Text} {node : Node} (h : IsEntry name node.sexp) :
    name? node = some name := by
  obtain ⟨rest, h⟩ := h
  obtain ⟨items, l, rfl, hitems⟩ := Node.eq_list_of_sexp h
  obtain ⟨head, items, rfl, hhead, _⟩ := List.map_eq_cons_iff.1 hitems
  cases head with
  | list items l => simp [Node.sexp] at hhead
  | atom text l =>
    obtain rfl : text = name := by simpa [Node.sexp] using hhead
    rfl

/-- Entries with different names are all gathered. -/
theorem gather_entries (what : Text) {names : List Text} (tolerant : Bool) :
    ∀ {found : List (Text × Sexp)} {items : List Node} {present : List (Text × Node)},
    items.map Node.sexp = found.map Prod.snd → (∀ e ∈ found, IsEntry e.1 e.2 ∧ e.1 ∈ names) →
    (found.map Prod.fst).Nodup → (∀ e ∈ found, present.lookup e.1 = none) →
    ∃ got : List (Text × Node), gather what names tolerant present items = .ok (present.reverse ++ got) ∧
      got.map (fun e => (e.1, e.2.sexp)) = found
  | [], items, present, hitems, _, _, _ => by
    obtain rfl := List.map_eq_nil_iff.1 hitems
    exact ⟨[], by simp [gather], rfl⟩
  | (name, t) :: found, items, present, hitems, hentry, hnodup, hnew => by
    obtain ⟨node, items, rfl, hnode, hrest⟩ := List.map_eq_cons_iff.1 hitems
    obtain rfl : node.sexp = t := hnode
    obtain ⟨hhead, htail⟩ := List.nodup_cons.1 hnodup
    obtain ⟨hisEntry, hname⟩ := hentry _ List.mem_cons_self
    have hnew' : ∀ e ∈ found, List.lookup e.1 ((name, node) :: present) = none := by
      intro e he
      have hmem : e.1 ∈ found.map Prod.fst := List.mem_map_of_mem he
      have hne : e.1 ≠ name := fun heq => hhead (heq ▸ hmem)
      rw [List.lookup_cons, beq_false_of_ne hne]
      exact hnew e (List.mem_cons_of_mem _ he)
    obtain ⟨got, hgot, rfl⟩ := gather_entries what tolerant hrest
      (fun e he => hentry e (List.mem_cons_of_mem _ he)) htail hnew'
    refine ⟨(name, node) :: got, ?_, rfl⟩
    have hcontains : names.contains name = true := by simpa using hname
    have hlookup : present.lookup name = none := hnew _ List.mem_cons_self
    rw [gather, name?_of_isEntry hisEntry]
    simp only [hcontains, hlookup, Option.isSome_none, Bool.not_true, Bool.false_eq_true, if_false]
    rw [hgot, List.reverse_cons, List.append_assoc]
    rfl

end Entries

/-- Instances of the class are made of values with these names. -/
def ClassInfo.Takes (k : ClassInfo) (names : List Text) : Prop := ∀ name, name ∈ names ↔ name ∈ k.fields

namespace Setting

variable {s : Setting} {lone halts : Prop} {p : FieldPlan Plan} {x : Value}
  {instanceOf : Option ClassInfo} {R : FieldPlan Plan → Option Sexp → Value → Prop} {need levels : Nat}

/-! ## The values of fields -/

theorem fieldValue_ofFields (writer : Text) {name : Text} (absent : Option Value)
    {entries : List (Text × Value)} (h : entries.lookup name = some x) :
    fieldValue writer instanceOf name absent (.ofFields instanceOf entries) = .ok x := by
  cases instanceOf with
  | none =>
    simp [fieldValue, Value.ofFields, Value.contains, Value.entry, Builtin.ofValue, Except.mapError, h,
      bind, Except.bind]
  | some k =>
    simp [fieldValue, Value.ofFields, Value.fieldNamed, Value.attribute?, Value.attributes,
      Builtin.ofValue, Except.mapError, h]

/-- The fields of a class are found among named values. -/
theorem arrange?_of_names {values : List (Text × Value)} : ∀ {names : List Text},
    (∀ name ∈ names, name ∈ values.map Prod.fst) →
    ∃ fields, ClassInfo.arrange? values names = some fields ∧ fields.map Prod.fst = names ∧
      ∀ name ∈ names, fields.lookup name = values.lookup name
  | [], _ => ⟨[], rfl, rfl, by simp⟩
  | n :: names, h => by
    obtain ⟨v, hv⟩ := exists_lookup_of_mem (h n List.mem_cons_self)
    obtain ⟨fields, hfields, hnames, hlookup⟩ :=
      arrange?_of_names fun name hname => h name (List.mem_cons_of_mem _ hname)
    refine ⟨(n, v) :: fields, by simp [ClassInfo.arrange?, hv, hfields], by simp [hnames], ?_⟩
    intro name hname
    rw [List.lookup_cons]
    cases hn : name == n with
    | true => rw [eq_of_beq hn, hv]
    | false =>
      rcases List.mem_cons.1 hname with rfl | hname
      · simp at hn
      · exact hlookup name hname

/-- What is read for the fields makes a record with these values. -/
theorem construct_ofFields {π : Type} {r : RecordPlan π} {ws : List (Text × Value)}
    (hclass : ∀ k, r.instanceOf = some k → k.fields.Perm (ws.map Prod.fst)) :
    ∃ fields, r.construct ws = .ok (.ofFields r.instanceOf fields) ∧
      (fields.map Prod.fst).Perm (ws.map Prod.fst) ∧
      (∀ k, r.instanceOf = some k → fields.map Prod.fst = k.fields) ∧
      ∀ name, fields.lookup name = ws.lookup name := by
  obtain ⟨label, instanceOf, extra, plans⟩ := r
  cases instanceOf with
  | none => exact ⟨ws, rfl, .refl _, by simp, fun _ => rfl⟩
  | some k =>
    have hperm := hclass k rfl
    have hfound : ∀ name ∈ k.fields, name ∈ ws.map Prod.fst := fun name hname => hperm.subset hname
    obtain ⟨fields, hfields, hnames, hlookup⟩ := arrange?_of_names hfound
    have hall : ∀ e ∈ ws, k.fields.contains e.1 = true := fun e he => by
      simpa using hperm.symm.subset (List.mem_map_of_mem he)
    refine ⟨fields, ?_, hnames ▸ hperm, fun _ hk => Option.some.inj hk ▸ hnames, fun name => ?_⟩
    · show k.ofNamed ws = _
      rw [ClassInfo.ofNamed, if_pos (List.all_eq_true.2 hall), hfields]
      rfl
    · by_cases hname : name ∈ k.fields
      · exact hlookup name hname
      · rw [lookup_eq_none_of_not_mem (hnames ▸ hname),
          lookup_eq_none_of_not_mem fun hmem => hname (hperm.symm.subset hmem)]

theorem mem_of_arrange? {values : List (Text × Value)} : ∀ {names : List Text}
    {fields : List (Text × Value)}, ClassInfo.arrange? values names = some fields →
    ∀ name ∈ names, name ∈ values.map Prod.fst
  | [], _, _ => by simp
  | n :: names, fields, h => by
    obtain ⟨v, hv, h⟩ := Option.bind_eq_some_iff.1 h
    obtain ⟨rest, hrest, -⟩ := Option.bind_eq_some_iff.1 h
    exact List.forall_mem_cons.2 ⟨mem_names_of_lookup hv, mem_of_arrange? hrest⟩

/-- A record can be made of values with these names if its class, should it have one, takes them. -/
theorem exists_construct_iff {π : Type} {r : RecordPlan π} {ws : List (Text × Value)} :
    (∃ v, r.construct ws = .ok v) ↔ ∀ k, r.instanceOf = some k → k.Takes (ws.map Prod.fst) := by
  obtain ⟨label, instanceOf, extra, plans⟩ := r
  cases instanceOf with
  | none => exact iff_of_true ⟨_, rfl⟩ fun k hk => absurd hk (by simp)
  | some k =>
    have hmade : RecordPlan.construct ⟨label, some k, extra, plans⟩ ws = k.ofNamed ws := rfl
    simp only [hmade, Option.some.injEq, forall_eq']
    constructor
    · rintro ⟨v, hv⟩ name
      rw [ClassInfo.ofNamed] at hv
      split at hv
      · next hall =>
        split at hv
        · next hfields =>
          refine ⟨fun hname => ?_, mem_of_arrange? hfields name⟩
          obtain ⟨e, he, rfl⟩ := List.mem_map.1 hname
          simpa using List.all_eq_true.1 hall e he
        · cases hv
      · cases hv
    · intro htakes
      obtain ⟨fields, hfields, -⟩ := arrange?_of_names fun name hname => (htakes name).2 hname
      have hall : (ws.all fun e => k.fields.contains e.1) = true := List.all_eq_true.2 fun e he => by
        simpa using (htakes e.1).1 (List.mem_map_of_mem he)
      exact ⟨.object k.name fields, by rw [ClassInfo.ofNamed, if_pos hall, hfields]⟩

/-! ## Writing -/

/-- The entries that were written, by name: those of the fields, in order, and each field reads from
its entry, or from none. -/
structure Written (s : Setting) (R : FieldPlan Plan → Option Sexp → Value → Prop)
    (plans : List (FieldPlan Plan)) (found : List (Text × Sexp)) : Prop where
  names : (found.map Prod.fst).Sublist (plans.map FieldPlan.name)
  entry : ∀ e ∈ found, Entries.IsEntry e.1 e.2
  back : ∀ p ∈ plans, s.EntryReads p (R p) (found.lookup p.name)

/-- Writes the fields of a record, with so many levels for the links inside. -/
abbrev writeFieldsAt (s : Setting) (levels : Nat) (writer : Text) (instanceOf : Option ClassInfo)
    (v : Value) (plans : List (FieldPlan Plan)) : Except WriteError (List Sexp) :=
  Plan.writeFields (fun cell id args v => s.writeWithin levels (.link cell id args) v) s.switches writer
    instanceOf v plans

/-- The fields of a record are written one after the other. -/
theorem writeFieldsAt_cons {writer : Text} {v : Value} {plans : List (FieldPlan Plan)}
    (hx : fieldValue writer instanceOf p.name p.absent v = .ok x) :
    s.writeFieldsAt levels writer instanceOf v (p :: plans) = (do
      let entry ← s.writeEntryAt levels p x
      let rest ← s.writeFieldsAt levels writer instanceOf v plans
      .ok (entry.toList ++ rest)) := by
  obtain ⟨name, form, absent, dropping⟩ := p
  replace hx : fieldValue writer instanceOf name absent v = .ok x := hx
  rw [writeFieldsAt, Plan.writeFields, hx]
  show (s.isDroppedAt levels ⟨name, form, absent, dropping⟩ x >>= _) = _
  rw [writeEntryAt]
  cases s.isDroppedAt levels ⟨name, form, absent, dropping⟩ x with
  | error e => rfl
  | ok b => cases b <;> rfl

/-- The entries that are written of the fields of a value, by name and in the order of the fields. -/
structure Entered (s : Setting) (levels : Nat) (writer : Text) (instanceOf : Option ClassInfo)
    (v : Value) (plans : List (FieldPlan Plan)) (found : List (Text × Sexp)) : Prop where
  names : (found.map Prod.fst).Sublist (plans.map FieldPlan.name)
  entry : ∀ e ∈ found, Entries.IsEntry e.1 e.2
  written : ∀ p ∈ plans, ∃ x, fieldValue writer instanceOf p.name p.absent v = .ok x ∧
    s.writeEntryAt levels p x = .ok (found.lookup p.name)

/-- Fields are written if each of them is. -/
theorem writeFieldsAt_yields {writer : Text} {v : Value} : ∀ {plans : List (FieldPlan Plan)},
    (∀ p ∈ plans, ∃ x, fieldValue writer instanceOf p.name p.absent v = .ok x ∧
      Yields halts (s.writeEntryAt levels p x) fun _ => True) →
    Yields halts (s.writeFieldsAt levels writer instanceOf v plans) fun _ => True
  | [], _ => by
    rw [writeFieldsAt, Plan.writeFields]
    exact .of_eq rfl trivial
  | p :: plans, h => by
    obtain ⟨x, hx, hentry⟩ := h p List.mem_cons_self
    rw [writeFieldsAt_cons hx]
    exact hentry.bind fun _ _ _ =>
      (writeFieldsAt_yields fun q hq => h q (List.mem_cons_of_mem _ hq)).bind fun _ _ _ => .pure trivial

/-- What is written of fields are the entries of those that are not left out. -/
theorem entered_of_writeFieldsAt {writer : Text} {v : Value} :
    ∀ {plans : List (FieldPlan Plan)} {ts : List Sexp}, (plans.map FieldPlan.name).Nodup →
    s.writeFieldsAt levels writer instanceOf v plans = .ok ts →
    ∃ found, ts = found.map Prod.snd ∧ s.Entered levels writer instanceOf v plans found
  | [], ts, _, h => by
    rw [writeFieldsAt, Plan.writeFields] at h
    obtain rfl := Except.ok.inj h
    exact ⟨[], rfl, .slnil, by simp, by simp⟩
  | p :: plans, ts, hnodup, h => by
    obtain ⟨hhead, htail⟩ := List.nodup_cons.1 hnodup
    obtain ⟨x, hx⟩ : ∃ x, fieldValue writer instanceOf p.name p.absent v = .ok x := by
      rw [writeFieldsAt, Plan.writeFields] at h
      obtain ⟨x, hx, -⟩ := bind_eq_ok.1 h
      exact ⟨x, hx⟩
    rw [writeFieldsAt_cons hx] at h
    obtain ⟨entry, hentry, h⟩ := bind_eq_ok.1 h
    obtain ⟨rest, hrest, h⟩ := bind_eq_ok.1 h
    obtain rfl := Except.ok.inj h
    obtain ⟨found, rfl, hfound⟩ := entered_of_writeFieldsAt htail hrest
    have hnotin : p.name ∉ found.map Prod.fst := fun hmem => hhead (hfound.names.subset hmem)
    cases entry with
    | none =>
      refine ⟨found, rfl, hfound.names.cons _, hfound.entry, fun q hq => ?_⟩
      rcases List.mem_cons.1 hq with rfl | hq
      · exact ⟨x, hx, by rw [lookup_eq_none_of_not_mem hnotin, hentry]⟩
      · exact hfound.written q hq
    | some t =>
      refine ⟨(p.name, t) :: found, rfl, hfound.names.cons_cons _, fun e he => ?_, fun q hq => ?_⟩
      · rcases List.mem_cons.1 he with rfl | he
        · exact isEntry_of_writeEntryAt hentry
        · exact hfound.entry e he
      · rcases List.mem_cons.1 hq with rfl | hq
        · exact ⟨x, hx, by rw [List.lookup_cons_self, hentry]⟩
        · have hne : q.name ≠ p.name := fun heq => hhead (heq ▸ List.mem_map_of_mem hq)
          rw [List.lookup_cons, beq_false_of_ne hne]
          exact hfound.written q hq

theorem writeFields_written {writer : Text} {v : Value} (hle : need ≤ levels)
    {plans : List (FieldPlan Plan)} (hnodup : (plans.map FieldPlan.name).Nodup)
    (h : ∀ p ∈ plans, ∃ x, fieldValue writer instanceOf p.name p.absent v = .ok x ∧
      s.FieldTrips halts (R p) need p x) :
    Yields halts (s.writeFieldsAt levels writer instanceOf v plans) fun ts =>
      ∃ found : List (Text × Sexp), ts = found.map Prod.snd ∧ s.Written R plans found := by
  have hwritten : Yields halts (s.writeFieldsAt levels writer instanceOf v plans) fun _ => True := by
    refine writeFieldsAt_yields fun p hp => ?_
    obtain ⟨x, hx, htrips⟩ := h p hp
    exact ⟨x, hx, (htrips levels hle).imp fun _ _ => trivial⟩
  refine hwritten.imp_right fun ⟨ts, hts, _⟩ => ⟨ts, hts, ?_⟩
  obtain ⟨found, rfl, hfound⟩ := entered_of_writeFieldsAt hnodup hts
  refine ⟨found, rfl, hfound.names, hfound.entry, fun p hp => ?_⟩
  obtain ⟨x, hx, htrips⟩ := h p hp
  obtain ⟨y, hy, hentry⟩ := hfound.written p hp
  obtain rfl := Except.ok.inj (hx.symm.trans hy)
  exact (htrips levels hle).of_ok hentry

/-- The tree of a record is the list of its entries. -/
theorem writeAt_record_eq_ok {r : RecordPlan Plan} {v : Value} {t : Sexp}
    (h : s.writeAt levels (.record r) v = .ok t) :
    ∃ ts, t = .list ts ∧ Plan.writeRecord (fun cell id args v => s.writeWithin levels (.link cell id args) v)
      s.switches r v = .ok ts := by
  rw [writeAt, Plan.write] at h
  cases hts : Plan.writeRecord (fun cell id args v => s.writeWithin levels (.link cell id args) v) s.switches r
      v with
  | error e => simp [hts, bind, Except.bind] at h
  | ok ts => exact ⟨ts, by simpa [hts, bind, Except.bind] using h.symm, rfl⟩

/-! ## Reading -/

/-- What a field reads as: from its entry, or from none. -/
def readPresentAt (s : Setting) (levels : Nat) (what : Text) (present : List (Text × Node))
    (p : FieldPlan Plan) : Except ReadError Value :=
  match present.lookup p.name with
  | none => .ok (p.absent.getD .none)
  | some entry => (s.readEntryAt levels what p entry).mapError (.within (.name p.name))

theorem readFields_cons (s : Setting) (levels : Nat) (what : Text) (present : List (Text × Node))
    (p : FieldPlan Plan) (plans : List (FieldPlan Plan)) :
    Plan.readFields (fun cell id args node => s.readWithin levels (.link cell id args) node) s.switches what
        present (p :: plans) = (do
      let v ← s.readPresentAt levels what present p
      let vs ← Plan.readFields (fun cell id args node => s.readWithin levels (.link cell id args) node)
        s.switches what present plans
      .ok ((p.name, v) :: vs)) := by
  obtain ⟨name, form, absent, dropping⟩ := p
  rw [Plan.readFields]
  unfold readPresentAt
  cases present.lookup name <;> rfl

theorem readPresentAt_back {present : List (Text × Node)} (what : Text)
    (hdepth : ∀ node, present.lookup p.name = some node → node.sexp.census.depth ≤ levels + 1)
    (h : s.EntryReads p (R p) ((present.lookup p.name).map Node.sexp)) :
    ∃ w, s.readPresentAt levels what present p = .ok w ∧
      R p ((present.lookup p.name).map Node.sexp) w := by
  unfold readPresentAt
  cases hp : present.lookup p.name with
  | none =>
    rw [hp] at h
    obtain ⟨a, ha, hR⟩ := h
    exact ⟨a, by rw [ha]; rfl, hR⟩
  | some node =>
    rw [hp] at h
    obtain ⟨w, hw, hR⟩ := h.2 levels what node rfl (hdepth _ hp)
    exact ⟨w, by simp [hw, Except.mapError], hR⟩

/-- Fields that read from their entries one by one read together. -/
theorem readFields_back {present : List (Text × Node)} (what : Text)
    (hdepth : ∀ name node, present.lookup name = some node →
      node.sexp.census.depth ≤ levels + 1) : ∀ {plans : List (FieldPlan Plan)},
    (plans.map FieldPlan.name).Nodup →
    (∀ p ∈ plans, s.EntryReads p (R p) ((present.lookup p.name).map Node.sexp)) →
    ∃ ws, Plan.readFields (fun cell id args node => s.readWithin levels (.link cell id args) node) s.switches
        what present plans = .ok ws ∧ ws.map Prod.fst = plans.map FieldPlan.name ∧
      ∀ p ∈ plans, ∃ w, ws.lookup p.name = some w ∧
        R p ((present.lookup p.name).map Node.sexp) w
  | [], _, _ => ⟨[], by rw [Plan.readFields, outcome_except], rfl, by simp⟩
  | p :: plans, hnodup, h => by
    obtain ⟨hhead, htail⟩ := List.nodup_cons.1 hnodup
    obtain ⟨ws, hws, hnames, hback⟩ := readFields_back what hdepth htail
      fun q hq => h q (List.mem_cons_of_mem _ hq)
    obtain ⟨w, hw, hR⟩ := readPresentAt_back what (hdepth _) (h p List.mem_cons_self)
    refine ⟨(p.name, w) :: ws, ?_, by rw [List.map_cons, hnames, List.map_cons], fun q hq => ?_⟩
    · rw [readFields_cons, hw, hws]
      rfl
    · rcases List.mem_cons.1 hq with rfl | hq
      · exact ⟨w, List.lookup_cons_self, hR⟩
      · have hne : q.name ≠ p.name := fun heq => hhead (heq ▸ List.mem_map_of_mem hq)
        rw [List.lookup_cons, beq_false_of_ne hne]
        exact hback q hq

/-! ## From fields to records -/

/-- The entries of a record read as its fields. -/
theorem readAt_record {r : RecordPlan Plan} {found : List (Text × Sexp)}
    (hnodup : (r.fields.map FieldPlan.name).Nodup) (hwritten : s.Written R r.fields found) {node : Node}
    (hnode : node.sexp = .list (found.map Prod.snd)) (hdepth : node.sexp.census.depth ≤ levels + 1) :
    ∃ ws, s.readAt levels (.record r) node = r.construct ws ∧
      ws.map Prod.fst = r.fields.map FieldPlan.name ∧
      ∀ p ∈ r.fields, ∃ w, ws.lookup p.name = some w ∧ R p (found.lookup p.name) w := by
  obtain ⟨label, instanceOf, extra, plans⟩ := r
  rw [hnode] at hdepth
  obtain ⟨items, l, rfl, hitems⟩ := Node.eq_list_of_sexp hnode
  have hentry : ∀ e ∈ found, Entries.IsEntry e.1 e.2 ∧ e.1 ∈ plans.map FieldPlan.name :=
    fun e he => ⟨hwritten.entry e he, hwritten.names.subset (List.mem_map_of_mem he)⟩
  have hnew : ∀ e ∈ found, List.lookup e.1 ([] : List (Text × Node)) = none := fun _ _ => rfl
  obtain ⟨got, hgot, rfl⟩ := Entries.gather_entries (Converter.readerName label)
    (extra || !s.switches.checksExtra) hitems hentry (hwritten.names.nodup hnodup) hnew
  simp only [lookup_map]
  have hback : ∀ p ∈ plans, s.EntryReads p (R p) ((got.lookup p.name).map Node.sexp) := by
    intro p hp
    rw [← lookup_map]
    exact hwritten.back p hp
  have hmissing : RecordPlan.missing (⟨label, instanceOf, extra, plans⟩ : RecordPlan Plan) got = [] := by
    rw [RecordPlan.missing, List.map_eq_nil_iff, List.filter_eq_nil_iff]
    intro p hp
    have hback := hback p hp
    cases hlookup : got.lookup p.name with
    | some node => simp
    | none =>
      rw [hlookup] at hback
      obtain ⟨a, ha, _⟩ := hback
      simp [ha]
  have hpresent : ∀ name node, got.lookup name = some node → node.sexp.census.depth ≤ levels + 1 := by
    intro name node hlookup
    have hmem := List.mem_map_of_mem (f := Prod.snd)
      (List.mem_map_of_mem (f := fun e : Text × Node => (e.1, e.2.sexp)) (mem_of_lookup hlookup))
    exact Nat.le_succ_of_le (Sexp.depth_of_mem hmem hdepth)
  obtain ⟨ws, hws, hnames, hreads⟩ :=
    readFields_back (Converter.readerName label) hpresent hnodup hback
  refine ⟨ws, ?_, hnames, hreads⟩
  replace hgot : Entries.gather _ _ _ [] items = .ok got := hgot
  show (Entries.gather (Converter.readerName label) (plans.map FieldPlan.name)
    (extra || !s.switches.checksExtra) [] items >>= fun present => _) = _
  rw [hgot]
  show (if (RecordPlan.missing (⟨label, instanceOf, extra, plans⟩ : RecordPlan Plan) got).isEmpty then _
    else _) = _
  rw [hmissing, if_pos List.isEmpty_nil, hws]
  rfl

/-- The tree has the entries of a record's fields, and it reads as a record of what its fields read
as. -/
def RecordReads (s : Setting) (R : FieldPlan Plan → Option Sexp → Value → Prop) (r : RecordPlan Plan)
    (t : Sexp) : Prop :=
  ∃ found : List (Text × Sexp), t = .list (found.map Prod.snd) ∧ s.Written R r.fields found ∧
    ∀ levels node, node.sexp = t → node.sexp.census.depth ≤ levels + 1 → ∃ fields,
      s.readAt levels (.record r) node = .ok (.ofFields r.instanceOf fields) ∧
      (fields.map Prod.fst).Perm (r.fields.map FieldPlan.name) ∧
      (∀ k, r.instanceOf = some k → fields.map Prod.fst = k.fields) ∧
      ∀ p ∈ r.fields, ∃ w, fields.lookup p.name = some w ∧ R p (found.lookup p.name) w

/-- **A record whose fields make the trip is written, and reads as a record of what its fields read
as.** -/
theorem record_trips {r : RecordPlan Plan} {entries : List (Text × Value)}
    (hnodup : (r.fields.map FieldPlan.name).Nodup)
    (hclass : ∀ k, r.instanceOf = some k → k.fields.Perm (r.fields.map FieldPlan.name))
    (h : ∀ p ∈ r.fields, ∃ x, entries.lookup p.name = some x ∧ s.FieldTrips halts (R p) need p x)
    (hle : need ≤ levels) :
    Yields halts (s.writeAt levels (.record r) (.ofFields r.instanceOf entries))
      (s.RecordReads R r) := by
  obtain ⟨label, instanceOf, extra, plans⟩ := r
  have htrips : ∀ p ∈ plans, ∃ x, fieldValue (Converter.writerName label) instanceOf p.name p.absent
      (.ofFields instanceOf entries) = .ok x ∧ s.FieldTrips halts (R p) need p x := by
    intro p hp
    obtain ⟨x, hx, htrips⟩ := h p hp
    exact ⟨x, fieldValue_ofFields _ _ hx, htrips⟩
  rw [writeAt, Plan.write, Plan.writeRecord]
  refine (writeFields_written hle hnodup htrips).bind fun ts _ hts => .pure ?_
  obtain ⟨found, rfl, hwritten⟩ := hts
  refine ⟨found, rfl, hwritten, fun levels node hnode hdepth => ?_⟩
  obtain ⟨ws, hws, hnames, hreads⟩ := readAt_record hnodup hwritten hnode hdepth
  have hclass : ∀ k, instanceOf = some k → k.fields.Perm (ws.map Prod.fst) :=
    fun k hk => hnames ▸ hclass k hk
  obtain ⟨fields, hfields, hperm, horder, hlookup⟩ :=
    construct_ofFields (r := ⟨label, instanceOf, extra, plans⟩) hclass
  refine ⟨fields, hws.trans hfields, hnames ▸ hperm, horder, fun p hp => ?_⟩
  rw [hlookup]
  exact hreads p hp

/-- **A record makes the round trip if its fields do.** -/
theorem roundTrips_record {r : RecordPlan Plan} {entries : List (Text × Value)}
    (hnodup : (r.fields.map FieldPlan.name).Nodup)
    (hnames : (entries.map Prod.fst).Perm (r.fields.map FieldPlan.name))
    (hclass : ∀ k, r.instanceOf = some k → entries.map Prod.fst = k.fields)
    (h : ∀ p ∈ r.fields, ∃ x, entries.lookup p.name = some x ∧
      s.FieldTrips halts (fun _ => x.Like lone) need p x) :
    s.RoundTrips lone halts 1 need (.record r) (.ofFields r.instanceOf entries) := by
  intro levels hle
  have htrips : ∀ p ∈ r.fields, ∃ x, entries.lookup p.name = some x ∧
      s.FieldTrips halts (fun _ w => ∃ x, entries.lookup p.name = some x ∧ x.Like lone w) need p x := by
    intro p hp
    obtain ⟨x, hx, htrips⟩ := h p hp
    exact ⟨x, hx, htrips.imp fun _ _ hlike => ⟨x, hx, hlike⟩⟩
  have hperm : ∀ k, r.instanceOf = some k → k.fields.Perm (r.fields.map FieldPlan.name) :=
    fun k hk => hclass k hk ▸ hnames
  refine (record_trips (R := fun p _ w => ∃ x, entries.lookup p.name = some x ∧ x.Like lone w) hnodup
    hperm htrips hle).imp fun t ⟨found, ht, _, hback⟩ levels node hnode hdepth => ?_
  obtain ⟨fields, hfields, hperm, horder, hreads⟩ := hback levels node hnode (hnode ▸ hdepth)
  refine ⟨_, hfields, Value.like_ofFields (hnames.trans hperm.symm)
    (fun k hk => ⟨hclass k hk, horder k hk⟩) fun name x y hx hy => ?_⟩
  have hname : name ∈ r.fields.map FieldPlan.name := hperm.subset (mem_names_of_lookup hy)
  obtain ⟨p, hp, rfl⟩ := List.mem_map.1 hname
  obtain ⟨w, hw, x', hx', hlike⟩ := hreads p hp
  obtain rfl := Option.some.inj (hx.symm.trans hx')
  obtain rfl := Option.some.inj (hy.symm.trans hw)
  exact hlike

end Setting

end TypedSexp
