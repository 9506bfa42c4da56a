import TypedSexp.Proofs.Conversion.Refused
/-!
# Entries of records

Which lists of entries a record is read from. `Entries.Headed` says what the heads of the entries
must be, and gathering them succeeds exactly then (`Entries.gather_eq_ok_iff`); what is found under a
name is the one entry with that name (`Entries.toList_lookup_of_gather`). A field is then filled from
its entry or as what it reads as where it is left out (`Setting.Fills`), and a record is read exactly
if its entries are headed well and every field is filled (`Setting.readBy_record_eq_ok_iff`).
-/

namespace TypedSexp

namespace Entries

variable {what name : Text} {names : List Text} {tolerant : Bool}

/-! ## Heads -/

/-- Every entry is a list behind an atom, which is one of the names unless others are tolerated, and
none of the names has two entries. -/
structure Headed (names : List Text) (tolerant : Bool) (items : List Node) : Prop where
  named : ∀ node ∈ items, ∃ name, name? node = some name ∧ (name ∈ names ∨ tolerant = true)
  once : ∀ name ∈ names, (items.filter (isNamed name)).length ≤ 1

theorem Headed.perm {items items' : List Node} (hperm : items.Perm items')
    (h : Headed names tolerant items) : Headed names tolerant items' := by
  refine ⟨fun node hnode => h.named node (hperm.symm.subset hnode), fun name hname => ?_⟩
  rw [← (hperm.filter (isNamed name)).length_eq]
  exact h.once name hname

/-- A name has one entry. -/
theorem Headed.eq_of_isNamed {items : List Node} (h : Headed names tolerant items)
    (hname : name ∈ names) {x y : Node} (hx : x ∈ items) (hy : y ∈ items) (hxname : isNamed name x)
    (hyname : isNamed name y) : x = y := by
  have hmem : ∀ z ∈ items, isNamed name z → z ∈ items.filter (isNamed name) := fun z hz hzname =>
    List.mem_filter.2 ⟨hz, hzname⟩
  have honce := h.once name hname
  match hentries : items.filter (isNamed name) with
  | [] => exact absurd (hmem x hx hxname) (by simp [hentries])
  | [z] =>
    have hxz : x = z := by simpa [hentries] using hmem x hx hxname
    have hyz : y = z := by simpa [hentries] using hmem y hy hyname
    rw [hxz, hyz]
  | _ :: _ :: _ =>
    rw [hentries] at honce
    simp at honce

/-- Entries with other names do not matter where they are tolerated. -/
theorem headed_filter_iff {items : List Node} {keep : Node → Bool}
    (hkeep : ∀ node ∈ items, keep node = false → ∃ name, name? node = some name ∧ name ∉ names) :
    Headed names true (items.filter keep) ↔ Headed names true items := by
  have hnames : ∀ name ∈ names,
      (items.filter keep).filter (isNamed name) = items.filter (isNamed name) := by
    intro name hname
    rw [List.filter_filter]
    refine List.filter_congr fun node hnode => ?_
    cases hk : keep node with
    | true => simp
    | false =>
      obtain ⟨n, hn, hother⟩ := hkeep node hnode hk
      have hne : n ≠ name := fun heq => hother (heq ▸ hname)
      simp [isNamed, hn, hne]
  constructor
  · intro h
    refine ⟨fun node hnode => ?_, fun name hname => hnames name hname ▸ h.once name hname⟩
    cases hk : keep node with
    | true => exact h.named node (List.mem_filter.2 ⟨hnode, hk⟩)
    | false =>
      obtain ⟨n, hn, -⟩ := hkeep node hnode hk
      exact ⟨n, hn, .inr rfl⟩
  · intro h
    refine ⟨fun node hnode => h.named node (List.mem_of_mem_filter hnode), fun name hname => ?_⟩
    rw [hnames name hname]
    exact h.once name hname

/-! ## Gathering -/

theorem named_of_gather {items : List Node} {present found : List (Text × Node)}
    (h : gather what names tolerant present items = .ok found) :
    ∀ node ∈ items, ∃ name, name? node = some name ∧ (name ∈ names ∨ tolerant = true) := by
  induction items generalizing present with
  | nil => simp
  | cons node items ih =>
    rw [gather] at h
    cases hname : name? node with
    | none => simp [hname] at h
    | some n =>
      have hhead : n ∈ names ∨ tolerant = true := by
        by_contra hneither
        obtain ⟨hn, ht⟩ := not_or.1 hneither
        simp [hname, hn, ht] at h
      obtain ⟨present', hrest⟩ :
          ∃ present', gather what names tolerant present' items = .ok found := by
        simp only [hname] at h
        split at h
        · split at h
          · exact ⟨_, h⟩
          · cases h
        · split at h
          · cases h
          · exact ⟨_, h⟩
      intro x hx
      rcases List.mem_cons.1 hx with rfl | hx
      · exact ⟨n, hname, hhead⟩
      · exact ih hrest x hx

/-- What is found under a name are the entries with that name. -/
theorem toList_lookup_of_gather {items : List Node} {found : List (Text × Node)}
    (h : gather what names tolerant [] items = .ok found) (hname : name ∈ names) :
    (found.lookup name).toList = items.filter (isNamed name) := by
  cases hlookup : found.lookup name with
  | some entry => exact (filter_of_gather h hlookup).symm
  | none =>
    refine (List.filter_eq_nil_iff.2 fun node hnode hnamed => ?_).symm
    have hmem := mem_names_of_gather hname h (.inr ⟨node, hnode, hnamed⟩)
    obtain ⟨entry, hentry⟩ := exists_lookup_of_mem hmem
    exact absurd (hlookup.symm.trans hentry) (by simp)

theorem isNamed_of_gather {items : List Node} {found : List (Text × Node)} {node : Node}
    (h : gather what names tolerant [] items = .ok found)
    (hfound : found.lookup name = some node) : isNamed name node := by
  have hone := filter_of_gather h hfound
  exact List.of_mem_filter (hone ▸ List.mem_cons_self)

/-- A name under which nothing is found has no entry. -/
theorem isNamed_eq_false_of_gather {items : List Node} {found : List (Text × Node)}
    (h : gather what names tolerant [] items = .ok found) (hname : name ∈ names)
    (hnone : found.lookup name = none) : ∀ node ∈ items, isNamed name node = false := by
  have hfound := toList_lookup_of_gather h hname
  rw [hnone] at hfound
  simpa using List.filter_eq_nil_iff.1 hfound.symm

theorem headed_of_gather {items : List Node} {found : List (Text × Node)}
    (h : gather what names tolerant [] items = .ok found) : Headed names tolerant items := by
  refine ⟨named_of_gather h, fun name hname => ?_⟩
  rw [← toList_lookup_of_gather h hname]
  cases found.lookup name with
  | none => exact Nat.zero_le 1
  | some entry => exact Nat.le_refl 1

theorem Headed.tail {node : Node} {items : List Node} (h : Headed names tolerant (node :: items)) :
    Headed names tolerant items := by
  refine ⟨fun x hx => h.named x (List.mem_cons_of_mem _ hx), fun name hname => ?_⟩
  refine Nat.le_trans ?_ (h.once name hname)
  exact ((List.sublist_cons_self node items).filter (isNamed name)).length_le

/-- No later entry has the name of the first one. -/
theorem Headed.not_isNamed_of_mem {node x : Node} {items : List Node}
    (h : Headed names tolerant (node :: items)) (hname : name ∈ names) (hnode : isNamed name node)
    (hx : x ∈ items) : isNamed name x = false := by
  have honce := h.once name hname
  rw [List.filter_cons_of_pos hnode, List.length_cons] at honce
  have hnone : items.filter (isNamed name) = [] := List.length_eq_zero_iff.1 (by omega)
  simpa using List.filter_eq_nil_iff.1 hnone x hx

/-- Entries that are headed well are gathered, if what is there already has other names. -/
theorem gather_of_headed {items : List Node} {present : List (Text × Node)}
    (h : Headed names tolerant items)
    (hnew : ∀ node ∈ items, ∀ name ∈ names, isNamed name node → present.lookup name = none) :
    ∃ found, gather what names tolerant present items = .ok found := by
  induction items generalizing present with
  | nil => exact ⟨_, by rw [gather]⟩
  | cons node items ih =>
    obtain ⟨n, hn, hhead⟩ := h.named node List.mem_cons_self
    have hnode : isNamed n node := by simp [isNamed, hn]
    by_cases hmem : n ∈ names
    · have hfree : present.lookup n = none := hnew node List.mem_cons_self n hmem hnode
      have hlater : ∀ x ∈ items, ∀ name ∈ names, isNamed name x →
          List.lookup name ((n, node) :: present) = none := by
        intro x hx name hname hnamed
        have hne : name ≠ n := by
          rintro rfl
          exact absurd hnamed (by simp [h.not_isNamed_of_mem hmem hnode hx])
        rw [List.lookup_cons, beq_false_of_ne hne]
        exact hnew x (List.mem_cons_of_mem _ hx) name hname hnamed
      obtain ⟨found, hfound⟩ := ih h.tail hlater
      exact ⟨found, by simpa [gather, hn, hmem, hfree] using hfound⟩
    · have ht : tolerant = true := hhead.resolve_left hmem
      obtain ⟨found, hfound⟩ := ih h.tail fun x hx => hnew x (List.mem_cons_of_mem _ hx)
      exact ⟨found, by simpa [gather, hn, hmem, ht] using hfound⟩

/-- Gathering succeeds exactly if the entries are headed well. -/
theorem gather_eq_ok_iff {items : List Node} :
    (∃ found, gather what names tolerant [] items = .ok found) ↔ Headed names tolerant items := by
  constructor
  · rintro ⟨found, h⟩
    exact headed_of_gather h
  · intro h
    exact gather_of_headed h fun _ _ _ _ _ => rfl

/-- Entries with different names are headed well, and what has a name is the entry with that name. -/
theorem headed_of_entries {found : List (Text × Sexp)} {items : List Node} (tolerant : Bool)
    (hitems : items.map Node.sexp = found.map Prod.snd)
    (hentry : ∀ e ∈ found, IsEntry e.1 e.2 ∧ e.1 ∈ names) (hnodup : (found.map Prod.fst).Nodup) :
    Headed names tolerant items ∧ ∀ name ∈ names,
      (items.filter (isNamed name)).map Node.sexp = (found.lookup name).toList := by
  have hnew : ∀ e ∈ found, List.lookup e.1 ([] : List (Text × Node)) = none := fun _ _ => rfl
  obtain ⟨got, hgot, rfl⟩ := gather_entries "" tolerant hitems hentry hnodup hnew
  rw [List.reverse_nil, List.nil_append] at hgot
  refine ⟨headed_of_gather hgot, fun name hname => ?_⟩
  rw [lookup_map, Option.toList_map, toList_lookup_of_gather hgot hname]

end Entries

/-- Reading a record gathers its entries, asks for the fields that must be there, reads them, and makes
the record of what was read. -/
theorem Course.readBy_record {M : Type → Type → Type} [∀ ε, Monad (M ε)] [Carrier M] (k : Course M)
    (r : RecordPlan Plan) {items : List Node} {l : Option Location} :
    k.readBy (.record r) (.list items l) =
      (outcome (Entries.gather (Converter.readerName r.label) (r.fields.map FieldPlan.name)
        (r.extra || !k.switches.checksExtra) [] items) >>= fun present =>
          if (r.missing present).isEmpty then
            Plan.readFields k.follow k.switches (Converter.readerName r.label) present r.fields >>=
              fun es => outcome (r.construct es)
          else outcome (.error (.about (.list items l)
            (.missingFields (Converter.readerName r.label) (r.missing present))))) := by
  obtain ⟨label, instanceOf, extra, plans⟩ := r
  rw [readBy, Plan.read, Plan.readRecord]
  rfl

section Missing

variable {r : RecordPlan Plan} {what : Text} {tolerant : Bool} {items : List Node}
  {found : List (Text × Node)}

/-- The fields that must be there and have no entry. -/
theorem Entries.missing_of_gather
    (h : gather what (r.fields.map FieldPlan.name) tolerant [] items = .ok found) :
    r.missing found =
      (r.fields.filter fun p => p.absent.isNone && !items.any (isNamed p.name)).map
        FieldPlan.name := by
  unfold RecordPlan.missing
  refine congrArg (List.map FieldPlan.name) (List.filter_congr fun p hp => ?_)
  have hname : p.name ∈ r.fields.map FieldPlan.name := List.mem_map_of_mem hp
  have hnone : (found.lookup p.name).isNone = !items.any (isNamed p.name) := by
    cases hlookup : found.lookup p.name with
    | none => simpa using isNamed_eq_false_of_gather h hname hlookup
    | some node => simpa using ⟨node, mem_of_gather h hlookup, isNamed_of_gather h hlookup⟩
  rw [hnone]

/-- If the entries are headed well and fields that must be there are not, just these are missing. -/
theorem Course.readBy_record_missing {M : Type → Type → Type} [∀ ε, Monad (M ε)] [Carrier M]
    [LawfulCarrier M] (k : Course M) {l : Option Location}
    (h : Entries.Headed (r.fields.map FieldPlan.name) (r.extra || !k.switches.checksExtra) items)
    (hmissing : ∃ p ∈ r.fields, p.absent = none ∧
      ∀ node ∈ items, Entries.isNamed p.name node = false) :
    k.readBy (.record r) (.list items l) =
      outcome (.error (.about (.list items l) (.missingFields (Converter.readerName r.label)
        ((r.fields.filter fun p => p.absent.isNone && !items.any (Entries.isNamed p.name)).map
          FieldPlan.name)))) := by
  have := LawfulCarrier.lawful (M := M) ReadError
  obtain ⟨found, hfound⟩ := Entries.gather_eq_ok_iff.2 h
  rw [readBy_record, hfound, LawfulCarrier.outcome_ok, pure_bind, Entries.missing_of_gather hfound,
    if_neg]
  simpa using hmissing

end Missing

/-! ## Fields -/

namespace Setting

variable {s : Setting} {what : Text}

/-- The entry gives a field its value: a flag is given by its name alone, any other field by its name
and one value, which its converter reads. -/
inductive Gives (s : Setting) : FieldForm Plan → Node → Value → Prop
  | flag {head : Node} {l : Option Location} : Gives s .flag (.list [head] l) (.bool true)
  | valued {c : Converter} {omission : Omission} {head node : Node} {l : Option Location} {x : Value}
      (h : s.read c node = .ok x) : Gives s (.valued c omission) (.list [head, node] l) x

/-- The field gets the value: from an entry with its name, or, if there is none, as what it reads as
where it is left out. -/
inductive Fills (s : Setting) (items : List Node) (p : FieldPlan Plan) (x : Value) : Prop
  | given {node : Node} (hnode : node ∈ items) (hname : Entries.isNamed p.name node)
      (h : s.Gives p.form node x)
  | absent (hnone : ∀ node ∈ items, Entries.isNamed p.name node = false) (h : p.absent = some x)

/-- A field that must be there has an entry. -/
theorem Fills.exists_node {items : List Node} {p : FieldPlan Plan} {x : Value}
    (h : s.Fills items p x) (habsent : p.absent = none) :
    ∃ node ∈ items, Entries.isNamed p.name node := by
  cases h with
  | given hnode hname _ => exact ⟨_, hnode, hname⟩
  | absent _ h => exact absurd (habsent.symm.trans h) (by simp)

theorem readField_eq_ok_iff {name : Text} {node : Node} {form : FieldForm Plan} {x : Value} :
    Plan.readField s.follow s.switches what name node form = .ok x ↔ s.Gives form node x := by
  cases form with
  | flag =>
    rw [Plan.readField, bind_eq_ok]
    constructor
    · rintro ⟨_, hflag, hx⟩
      obtain rfl := Except.ok.inj hx
      unfold Entries.checkFlag at hflag
      split at hflag
      · exact .flag
      · cases hflag
    · rintro ⟨⟩
      exact ⟨(), rfl, rfl⟩
  | valued c omission =>
    rw [Plan.readField, bind_eq_ok]
    constructor
    · rintro ⟨v, hv, hx⟩
      obtain ⟨head, l, rfl⟩ := Entries.eq_of_value hv
      exact .valued ((read_eq_readBy c v).trans hx)
    · intro h
      cases h with
      | @valued _ _ head v l x h => exact ⟨v, rfl, (read_eq_readBy c v).symm.trans h⟩

/-- What a field reads as, from what was gathered under its name. -/
def FillsFrom (s : Setting) (p : FieldPlan Plan) (x : Value) : Option Node → Prop
  | some node => s.Gives p.form node x
  | none => x = p.absent.getD .none

theorem readFields_eq_ok_iff {present : List (Text × Node)} :
    ∀ {ps : List (FieldPlan Plan)} {es : List (Text × Value)},
    Plan.readFields s.follow s.switches what present ps = .ok es ↔
      ∃ xs, es = (ps.map FieldPlan.name).zip xs ∧
        List.Forall₂ (fun p x => s.FillsFrom p x (present.lookup p.name)) ps xs
  | [], es => by
    rw [Plan.readFields]
    constructor
    · intro h
      obtain rfl := Except.ok.inj h
      exact ⟨[], rfl, .nil⟩
    · rintro ⟨xs, rfl, h⟩
      cases h
      rfl
  | ⟨name, form, absent, dropping⟩ :: ps, es => by
    have hfirst : Plan.readFields s.follow s.switches what present
          (⟨name, form, absent, dropping⟩ :: ps) = .ok es ↔
        ∃ x, s.FillsFrom ⟨name, form, absent, dropping⟩ x (present.lookup name) ∧
          (Plan.readFields s.follow s.switches what present ps >>= fun vs => .ok ((name, x) :: vs)) =
            .ok es := by
      rw [Plan.readFields]
      cases present.lookup name with
      | none =>
        constructor
        · exact fun h => ⟨_, rfl, h⟩
        · rintro ⟨x, rfl, h⟩
          exact h
      | some node =>
        refine bind_eq_ok.trans (exists_congr fun x => and_congr_left fun _ => ?_)
        exact mapError_eq_ok.trans readField_eq_ok_iff
    simp only [hfirst, bind_eq_ok, readFields_eq_ok_iff]
    constructor
    · rintro ⟨x, hx, es', ⟨xs, rfl, hxs⟩, hes⟩
      obtain rfl := Except.ok.inj hes
      exact ⟨x :: xs, rfl, .cons hx hxs⟩
    · rintro ⟨_, rfl, _ | ⟨hx, hxs⟩⟩
      exact ⟨_, hx, _, ⟨_, rfl, hxs⟩, rfl⟩

/-! ## Records -/

section Records

variable {r : RecordPlan Plan} {plans : List (FieldPlan Plan)} {items : List Node}
  {found : List (Text × Node)} {l : Option Location}

/-- Unknown fields are passed over in a record. -/
def tolerates (s : Setting) (extra : Bool) : Bool := extra || !s.switches.checksExtra

/-- Reading a record gathers its entries, asks for the fields that must be there, reads them, and makes
the record of what was read. -/
theorem readBy_record (s : Setting) (r : RecordPlan Plan) :
    s.readBy (.record r) (.list items l) =
      (Entries.gather (Converter.readerName r.label) (r.fields.map FieldPlan.name)
        (s.tolerates r.extra) [] items >>= fun present =>
          if (r.missing present).isEmpty then
            Plan.readFields s.follow s.switches (Converter.readerName r.label) present r.fields >>=
              r.construct
          else .error (.about (.list items l)
            (.missingFields (Converter.readerName r.label) (r.missing present)))) :=
  s.course.readBy_record r

/-- A field is filled from what was gathered under its name, unless it must be there and is not. -/
theorem fillsFrom_iff {p : FieldPlan Plan} {x : Value} {tolerant : Bool}
    (h : Entries.gather what (plans.map FieldPlan.name) tolerant [] items = .ok found)
    (hp : p ∈ plans) (habsent : p.absent = none → ∃ node ∈ items, Entries.isNamed p.name node) :
    s.FillsFrom p x (found.lookup p.name) ↔ s.Fills items p x := by
  have hpname : p.name ∈ plans.map FieldPlan.name := List.mem_map_of_mem hp
  cases hlookup : found.lookup p.name with
  | some node =>
    have hnode := Entries.mem_of_gather h hlookup
    have hname := Entries.isNamed_of_gather h hlookup
    constructor
    · exact fun hx => .given hnode hname hx
    · rintro (⟨hy, hyname, hx⟩ | ⟨hnone, -⟩)
      · have hsame := (Entries.headed_of_gather h).eq_of_isNamed hpname hy hnode hyname hname
        exact hsame ▸ hx
      · exact absurd hname (by simp [hnone node hnode])
  | none =>
    have hnone := Entries.isNamed_eq_false_of_gather h hpname hlookup
    cases ha : p.absent with
    | none =>
      obtain ⟨node, hnode, hname⟩ := habsent ha
      exact absurd hname (by simp [hnone node hnode])
    | some a =>
      constructor
      · rintro rfl
        exact .absent hnone (by rw [ha]; rfl)
      · rintro (⟨hy, hyname, -⟩ | ⟨-, hx⟩)
        · exact absurd hyname (by simp [hnone _ hy])
        · show x = p.absent.getD .none
          rw [hx]
          rfl

/-- A record is read exactly if its entries are headed well, every field is filled, and a record can be
made of what the fields are filled with, in the order in which they are declared. -/
theorem readBy_record_eq_ok_iff {v : Value} :
    s.readBy (.record r) (.list items l) = .ok v ↔
      Entries.Headed (r.fields.map FieldPlan.name) (s.tolerates r.extra) items ∧
        ∃ xs, r.construct ((r.fields.map FieldPlan.name).zip xs) = .ok v ∧
          List.Forall₂ (s.Fills items) r.fields xs := by
  have hfill {found : List (Text × Node)} {xs : List Value}
      (h : Entries.gather (Converter.readerName r.label) (r.fields.map FieldPlan.name)
        (s.tolerates r.extra) [] items = .ok found)
      (hneeded : ∀ p ∈ r.fields, p.absent = none →
        ∃ node ∈ items, Entries.isNamed p.name node) :
      List.Forall₂ (fun p x => s.FillsFrom p x (found.lookup p.name)) r.fields xs ↔
        List.Forall₂ (s.Fills items) r.fields xs :=
    forall₂_congr_of_mem fun p hp _ => fillsFrom_iff h hp (hneeded p hp)
  rw [readBy_record, bind_eq_ok]
  constructor
  · rintro ⟨found, hfound, h⟩
    split at h
    · next hempty =>
      have hneeded : ∀ p ∈ r.fields, p.absent = none →
          ∃ node ∈ items, Entries.isNamed p.name node := by
        rw [Entries.missing_of_gather hfound] at hempty
        simpa using hempty
      obtain ⟨es, hes, hmade⟩ := bind_eq_ok.1 h
      obtain ⟨xs, rfl, hxs⟩ := readFields_eq_ok_iff.1 hes
      exact ⟨Entries.headed_of_gather hfound, xs, hmade, (hfill hfound hneeded).1 hxs⟩
    · cases h
  · rintro ⟨hheaded, xs, hmade, hxs⟩
    obtain ⟨found, hfound⟩ := Entries.gather_eq_ok_iff.2 hheaded
    have hneeded : ∀ p ∈ r.fields, p.absent = none →
        ∃ node ∈ items, Entries.isNamed p.name node := by
      intro p hp habsent
      obtain ⟨x, hx⟩ := forall_exists_of_forall₂ hxs p hp
      exact hx.exists_node habsent
    refine ⟨found, hfound, ?_⟩
    rw [if_pos]
    · exact bind_eq_ok.2 ⟨_, readFields_eq_ok_iff.2 ⟨xs, rfl, (hfill hfound hneeded).2 hxs⟩, hmade⟩
    · rw [Entries.missing_of_gather hfound]
      simpa using hneeded

theorem exists_readBy_record_iff : (∃ v, s.readBy (.record r) (.list items l) = .ok v) ↔
    Entries.Headed (r.fields.map FieldPlan.name) (s.tolerates r.extra) items ∧
      (∀ p ∈ r.fields, ∃ x, s.Fills items p x) ∧
      ∀ k, r.instanceOf = some k → k.Takes (r.fields.map FieldPlan.name) := by
  have hnames {xs : List Value} (hxs : List.Forall₂ (s.Fills items) r.fields xs) :
      ((r.fields.map FieldPlan.name).zip xs).map Prod.fst = r.fields.map FieldPlan.name := by
    exact List.map_fst_zip (by simp [hxs.length_eq])
  simp only [readBy_record_eq_ok_iff, ← exists_forall₂_iff]
  constructor
  · rintro ⟨v, hheaded, xs, hmade, hxs⟩
    refine ⟨hheaded, ⟨xs, hxs⟩, ?_⟩
    rw [← hnames hxs]
    exact exists_construct_iff.1 ⟨v, hmade⟩
  · rintro ⟨hheaded, ⟨xs, hxs⟩, htakes⟩
    rw [← hnames hxs] at htakes
    obtain ⟨v, hmade⟩ := exists_construct_iff.2 htakes
    exact ⟨v, hheaded, xs, hmade, hxs⟩

/-- If the entries are headed well and fields that must be there are not, just these are missing. -/
theorem readBy_record_missing
    (h : Entries.Headed (r.fields.map FieldPlan.name) (s.tolerates r.extra) items)
    (hmissing : ∃ p ∈ r.fields, p.absent = none ∧
      ∀ node ∈ items, Entries.isNamed p.name node = false) :
    s.readBy (.record r) (.list items l) =
      .error (.about (.list items l) (.missingFields (Converter.readerName r.label)
        ((r.fields.filter fun p => p.absent.isNone && !items.any (Entries.isNamed p.name)).map
          FieldPlan.name))) :=
  s.course.readBy_record_missing h hmissing

end Records

end Setting
end TypedSexp
