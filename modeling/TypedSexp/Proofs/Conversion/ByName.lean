import TypedSexp.Proofs.Conversion.Filled
import TypedSexp.Proofs.Conversion.Live
import TypedSexp.Proofs.Conversion.Reordering
/-!
# Records are read by the names of their entries

Reading a record without a class goes through the declared fields one after another, each with what
the ones before it left remembered (`Setting.FillsInTurn`), wherever their entries stand. Neither
the order of the entries nor unknown entries that are tolerated matter, and what an entry gives in
turn it gives alone (`Setting.ReadsByName`), unless a link stops it. This holds of the converter of
every description of such a record, whatever the deriver was asked for before
(`History.read_record`).

Whether a link stops a field may depend on the fields in front of it: what these leave remembered
decides which definitions have an end.
-/

namespace TypedSexp

open Derivation

namespace Setting

/-! ## One field after another -/

/-- The entry gives a field its value, read with the first memory, and leaves the second one: a flag
is given by its name alone, any other field by its name and one value, which its converter reads. -/
inductive GivesAt (s : Setting) : FieldForm Plan → Node → Deriver → Value → Deriver → Prop
  | flag {head : Node} {l : Option Location} {d : Deriver} :
      GivesAt s .flag (.list [head] l) d (.bool true) d
  | valued {c : Converter} {omission : Omission} {head node : Node} {l : Option Location} {x : Value}
      {d d' : Deriver} (h : s.live.read c node d = (.ok x, d')) :
      GivesAt s (.valued c omission) (.list [head, node] l) d x d'

/-- A link stops the reading of the entry. -/
inductive StopsAt (s : Setting) : FieldForm Plan → Node → Deriver → Prop
  | valued {c : Converter} {omission : Omission} {head node : Node} {l : Option Location} {e : ReadError}
      {d d' : Deriver} (h : s.live.read c node d = (.error e, d')) (he : e.stops) :
      StopsAt s (.valued c omission) (.list [head, node] l) d

/-- The field gets the value: from an entry with its name, or, if there is none, as what it reads as
where it is left out. -/
inductive FillsAt (s : Setting) (items : List Node) (p : FieldPlan Plan) :
    Deriver → Value → Deriver → Prop
  | given {node : Node} {d d' : Deriver} {x : Value} (hnode : node ∈ items)
      (hname : Entries.isNamed p.name node) (h : s.GivesAt p.form node d x d') : FillsAt s items p d x d'
  | absent {d : Deriver} {x : Value} (hnone : ∀ node ∈ items, Entries.isNamed p.name node = false)
      (h : p.absent = some x) : FillsAt s items p d x d

/-- The fields get the values, each one with what those before it left remembered. -/
inductive FillsInTurn (s : Setting) (items : List Node) :
    List (FieldPlan Plan) → Deriver → List Value → Deriver → Prop
  | nil (d : Deriver) : FillsInTurn s items [] d [] d
  | cons {p : FieldPlan Plan} {ps : List (FieldPlan Plan)} {x : Value} {xs : List Value}
      {d d' d'' : Deriver} (h : s.FillsAt items p d x d') (hs : FillsInTurn s items ps d' xs d'') :
      FillsInTurn s items (p :: ps) d (x :: xs) d''

variable {s : Setting} {what : Text} {items items' : List Node} {p : FieldPlan Plan}
  {ps plans : List (FieldPlan Plan)} {found : List (Text × Node)} {tolerant : Bool} {x : Value}
  {xs : List Value} {d d' : Deriver}

/-- A field that must be there has an entry. -/
theorem FillsAt.exists_node (h : s.FillsAt items p d x d') (habsent : p.absent = none) :
    ∃ node ∈ items, Entries.isNamed p.name node := by
  cases h with
  | given hnode hname _ => exact ⟨_, hnode, hname⟩
  | absent _ h => exact absurd (habsent.symm.trans h) (by simp)

theorem FillsInTurn.exists_node (h : s.FillsInTurn items ps d xs d') :
    ∀ p ∈ ps, p.absent = none → ∃ node ∈ items, Entries.isNamed p.name node := by
  induction h with
  | nil => exact nofun
  | cons h _ ih => exact List.forall_mem_cons.2 ⟨h.exists_node, ih⟩

/-- The same entries in another order, or with others that have other names, fill fields alike. -/
theorem FillsInTurn.congr (h : s.FillsInTurn items ps d xs d') :
    (∀ p ∈ ps, ∀ node, Entries.isNamed p.name node → (node ∈ items ↔ node ∈ items')) →
      s.FillsInTurn items' ps d xs d' := by
  induction h with
  | nil => exact fun _ => .nil _
  | cons h _ ih =>
    intro hmem
    rw [List.forall_mem_cons] at hmem
    refine .cons ?_ (ih hmem.2)
    cases h with
    | given hnode hname hgives => exact .given ((hmem.1 _ hname).1 hnode) hname hgives
    | absent hnone habsent =>
      refine .absent (fun node hnode => ?_) habsent
      by_contra hname
      rw [Bool.not_eq_false] at hname
      exact absurd hname (by simp [hnone node ((hmem.1 node hname).2 hnode)])

/-! ## Reading the fields -/

theorem readField_run_iff {name : Text} {node : Node} {form : FieldForm Plan} :
    Plan.readField s.live.follow s.switches what name node form d = (.ok x, d') ↔
      s.GivesAt form node d x d' := by
  cases form with
  | flag =>
    rw [Plan.readField, bind_run_iff]
    constructor
    · rintro ⟨_, _, hcheck, hx⟩
      obtain ⟨hflag, rfl⟩ := outcome_run_iff.1 hcheck
      obtain ⟨htrue, rfl⟩ := outcome_run_iff.1 hx
      obtain rfl := Except.ok.inj htrue
      unfold Entries.checkFlag at hflag
      split at hflag
      · exact .flag
      · cases hflag
    · rintro ⟨⟩
      exact ⟨(), d, rfl, rfl⟩
  | valued c omission =>
    have hread (v : Node) : c.plan.read s.live.follow s.switches v = s.live.read c v :=
      (Course.read_eq_readBy c v).symm
    rw [Plan.readField, bind_run_iff]
    constructor
    · rintro ⟨v, _, hvalue, hx⟩
      obtain ⟨hv, rfl⟩ := outcome_run_iff.1 hvalue
      obtain ⟨head, l, rfl⟩ := Entries.eq_of_value hv
      rw [hread] at hx
      exact .valued hx
    · intro h
      cases h with
      | @valued _ _ head v l _ _ _ h => exact ⟨v, d, rfl, (congrFun (hread v) d).trans h⟩

theorem readField_run_error {name : Text} {head node : Node} {l : Option Location} {c : Converter}
    {omission : Omission} {e : ReadError} (h : s.live.read c node d = (.error e, d')) :
    Plan.readField s.live.follow s.switches what name (.list [head, node] l) (.valued c omission) d =
      (.error e, d') := by
  have hvalue : (outcome (Entries.value what name (.list [head, node] l)) :
      Remembering ReadError Node) d = (.ok node, d) := rfl
  rw [Plan.readField, bind_run hvalue]
  exact (congrFun (Course.read_eq_readBy c node).symm d).trans h

/-- Reads a field from what was gathered under its name. -/
def readGathered (s : Setting) (what : Text) (found : List (Text × Node)) (p : FieldPlan Plan) :
    Remembering ReadError Value :=
  match found.lookup p.name with
  | none => outcome (.ok (p.absent.getD .none))
  | some entry =>
    Carrier.mapError (.within (.name p.name))
      (Plan.readField s.live.follow s.switches what p.name entry p.form)

theorem live_readFields_cons : Plan.readFields s.live.follow s.switches what found (p :: ps) =
    s.readGathered what found p >>= fun x =>
      Plan.readFields s.live.follow s.switches what found ps >>= fun es =>
        outcome (.ok ((p.name, x) :: es)) := by
  obtain ⟨name, form, absent, dropping⟩ := p
  rw [Plan.readFields]
  unfold readGathered
  cases found.lookup name <;> rfl

section Gathered

variable (hfound : Entries.gather what (plans.map FieldPlan.name) tolerant [] items = .ok found)
include hfound

/-- A field is filled from what was gathered under its name, unless it must be there and is not. -/
theorem readGathered_run_iff (what' : Text) (hp : p ∈ plans)
    (habsent : p.absent = none → ∃ node ∈ items, Entries.isNamed p.name node) :
    s.readGathered what' found p d = (.ok x, d') ↔ s.FillsAt items p d x d' := by
  have hpname : p.name ∈ plans.map FieldPlan.name := List.mem_map_of_mem hp
  unfold readGathered
  cases hlookup : found.lookup p.name with
  | some node =>
    have hnode := Entries.mem_of_gather hfound hlookup
    have hname := Entries.isNamed_of_gather hfound hlookup
    refine mapError_run_iff.trans (readField_run_iff.trans ⟨fun hx => .given hnode hname hx, ?_⟩)
    intro h
    cases h with
    | given hy hyname hx =>
      have hsame := (Entries.headed_of_gather hfound).eq_of_isNamed hpname hy hnode hyname hname
      exact hsame ▸ hx
    | absent hnone _ => exact absurd hname (by simp [hnone node hnode])
  | none =>
    have hnone := Entries.isNamed_eq_false_of_gather hfound hpname hlookup
    cases ha : p.absent with
    | none =>
      obtain ⟨node, hnode, hname⟩ := habsent ha
      exact absurd hname (by simp [hnone node hnode])
    | some a =>
      refine outcome_run_iff.trans ⟨?_, fun h => ?_⟩
      · rintro ⟨hx, rfl⟩
        obtain rfl := Except.ok.inj hx
        exact .absent hnone ha
      · cases h with
        | given hy hyname _ => exact absurd hyname (by simp [hnone _ hy])
        | absent _ hx =>
          obtain rfl := Option.some.inj (ha.symm.trans hx)
          exact ⟨rfl, rfl⟩

theorem readFields_run_iff {what' : Text} : ∀ {ps : List (FieldPlan Plan)} {es : List (Text × Value)}
    {d d' : Deriver}, (∀ p ∈ ps, p ∈ plans) →
    (∀ p ∈ ps, p.absent = none → ∃ node ∈ items, Entries.isNamed p.name node) →
    (Plan.readFields s.live.follow s.switches what' found ps d = (.ok es, d') ↔
      ∃ xs, es = (ps.map FieldPlan.name).zip xs ∧ s.FillsInTurn items ps d xs d')
  | [], es, d, d', _, _ => by
    rw [Plan.readFields, outcome_run_iff]
    constructor
    · rintro ⟨hnil, rfl⟩
      obtain rfl := Except.ok.inj hnil
      exact ⟨[], rfl, .nil _⟩
    · rintro ⟨xs, rfl, h⟩
      cases h
      exact ⟨rfl, rfl⟩
  | p :: ps, es, d, d', hps, hneeded => by
    rw [List.forall_mem_cons] at hps hneeded
    rw [live_readFields_cons, bind_run_iff]
    simp only [bind_run_iff, outcome_run_iff, readGathered_run_iff hfound what' hps.1 hneeded.1,
      readFields_run_iff hps.2 hneeded.2]
    constructor
    · rintro ⟨x, d₁, hx, es', d₂, ⟨xs, rfl, hxs⟩, hes, rfl⟩
      obtain rfl := Except.ok.inj hes
      exact ⟨x :: xs, rfl, .cons hx hxs⟩
    · rintro ⟨_, rfl, hx⟩
      cases hx with
      | cons hx hxs => exact ⟨_, _, hx, _, _, ⟨_, rfl, hxs⟩, rfl, rfl⟩

end Gathered

/-- **A record is read exactly if its entries are headed well, and its fields get values in turn**
of which the record is made. -/
theorem live_readBy_record_iff {r : RecordPlan Plan} {l : Option Location} {v : Value} :
    s.live.readBy (.record r) (.list items l) d = (.ok v, d') ↔
      Entries.Headed (r.fields.map FieldPlan.name) (s.tolerates r.extra) items ∧
        ∃ xs, r.construct ((r.fields.map FieldPlan.name).zip xs) = .ok v ∧
          s.FillsInTurn items r.fields d xs d' := by
  rw [Course.readBy_record, bind_run_iff]
  constructor
  · rintro ⟨found, _, hgather, h⟩
    obtain ⟨hfound, rfl⟩ := outcome_run_iff.1 hgather
    split at h
    · next hempty =>
      have hneeded : ∀ p ∈ r.fields, p.absent = none →
          ∃ node ∈ items, Entries.isNamed p.name node := by
        rw [Entries.missing_of_gather hfound] at hempty
        simpa using hempty
      obtain ⟨es, d₁, hes, hconstruct⟩ := bind_run_iff.1 h
      obtain ⟨hmade, rfl⟩ := outcome_run_iff.1 hconstruct
      obtain ⟨xs, rfl, hxs⟩ := (readFields_run_iff hfound (fun _ hp => hp) hneeded).1 hes
      exact ⟨Entries.headed_of_gather hfound, xs, hmade, hxs⟩
    · exact nomatch (outcome_run_iff.1 h).1
  · rintro ⟨hheaded, xs, hmade, hxs⟩
    obtain ⟨found, hfound⟩ := Entries.gather_eq_ok_iff.2 hheaded
    refine ⟨found, d, outcome_run_iff.2 ⟨hfound, rfl⟩, ?_⟩
    rw [if_pos]
    · refine bind_run_iff.2 ⟨_, d', ?_, outcome_run_iff.2 ⟨hmade, rfl⟩⟩
      exact (readFields_run_iff hfound (fun _ hp => hp) hxs.exists_node).2 ⟨xs, rfl, hxs⟩
    · rw [Entries.missing_of_gather hfound]
      simpa using hxs.exists_node

/-- A record is not read if its fields are not. -/
theorem live_readBy_record_error {r : RecordPlan Plan} {l : Option Location} {e : ReadError}
    (hfound : Entries.gather (Converter.readerName r.label) (r.fields.map FieldPlan.name)
      (s.tolerates r.extra) [] items = .ok found) (hneeded : (r.missing found).isEmpty)
    (he : Plan.readFields s.live.follow s.switches (Converter.readerName r.label) found r.fields d =
      (.error e, d')) :
    s.live.readBy (.record r) (.list items l) d = (.error e, d') := by
  have hgather : (outcome (Entries.gather (Converter.readerName r.label)
      (r.fields.map FieldPlan.name) (r.extra || !s.live.switches.checksExtra) [] items) :
        Remembering ReadError (List (Text × Node))) d = (.ok found, d) :=
    outcome_run_iff.2 ⟨hfound, rfl⟩
  rw [Course.readBy_record, bind_run hgather, if_pos hneeded]
  exact bind_run_error he

/-! ## Alone and in turn -/

section Elsewhere

variable {numbering : Nat → Description} {l : Ledger} {r : RecordPlan Plan} {t : BoundType}
  {d₁ d₂ : Deriver}

/-- The links of a field are links of the record. -/
theorem holds_of_field {c : Converter} {omission : Omission} (hp : p ∈ r.fields)
    (hform : p.form = .valued c omission) (cell : Nat) (id : DefinitionId) (args : List Converter)
    (h : c.plan.Holds cell id args) : (Plan.record r).Holds cell id args :=
  .part (.field hp hform) h

/-- Where a field gets its value, links of the record are followed. -/
theorem FillsAt.pursues (hp : p ∈ r.fields) (h : s.FillsAt items p d x d') :
    (Plan.record r).Pursues s.catalog d false d' := by
  cases h with
  | absent _ _ => exact .refl _ _
  | given _ _ h =>
    generalize hform : p.form = form at h
    cases h with
    | flag => exact .refl _ _
    | @valued c _ _ node _ _ _ _ h =>
      exact ((tracks_readWithin _ c.plan node).pursues h).mono (holds_of_field hp hform)

variable (hs : s.Sound numbering l) (hr : Realises s.catalog l.Trusts t (.record r))
  (hfields : ∀ p ∈ r.fields, ∀ c omission, p.form = .valued c omission →
    ∃ u, Realises s.catalog l.Trusts u c.plan)
include hs hr hfields

/-- What an entry gives after other fields of the record it gives after others as well, unless a
link stops it. -/
theorem GivesAt.elsewhere {node : Node} (hp : p ∈ r.fields)
    (h₁ : (Plan.record r).Pursues s.catalog s.deriver false d₁)
    (h₂ : (Plan.record r).Pursues s.catalog s.deriver false d₂) (h : s.GivesAt p.form node d₁ x d') :
    (∃ d'', s.GivesAt p.form node d₂ x d'') ∨ s.StopsAt p.form node d₂ := by
  generalize hform : p.form = form at h
  cases h with
  | flag => exact .inl ⟨d₂, .flag⟩
  | @valued c omission head node loc _ _ _ h =>
    obtain ⟨u, hu⟩ := hfields p hp c omission hform
    have hagree := live_read_agree hs hr hu (holds_of_field hp hform) h₁ h₂ node
    rw [h] at hagree
    cases hrun : s.live.read c node d₂ with
    | mk result d'' =>
      rw [hrun] at hagree
      rcases hagree.ok_or_stops rfl with rfl | ⟨e, rfl, he⟩
      · exact .inl ⟨d'', .valued hrun⟩
      · exact .inr (.valued hrun he)

/-- What a field gets after other fields of the record it gets after others as well. -/
theorem FillsAt.elsewhere (hp : p ∈ r.fields)
    (h₁ : (Plan.record r).Pursues s.catalog s.deriver false d₁)
    (h₂ : (Plan.record r).Pursues s.catalog s.deriver false d₂) (h : s.FillsAt items p d₁ x d') :
    (∃ d'', s.FillsAt items p d₂ x d'') ∨
      ∃ node ∈ items, Entries.isNamed p.name node ∧ s.StopsAt p.form node d₂ := by
  cases h with
  | absent hnone habsent => exact .inl ⟨d₂, .absent hnone habsent⟩
  | @given node _ _ _ hnode hname h =>
    rcases h.elsewhere hs hr hfields hp h₁ h₂ with ⟨d'', hgives⟩ | hstops
    · exact .inl ⟨d'', .given hnode hname hgives⟩
    · exact .inr ⟨node, hnode, hname, hstops⟩

/-- What fields get in turn each of them gets alone, unless a link stops it. -/
theorem FillsInTurn.alone (h : s.FillsInTurn items ps d xs d') :
    (∀ p ∈ ps, p ∈ r.fields) → (Plan.record r).Pursues s.catalog s.deriver false d →
    List.Forall₂ (fun p x => (∃ d'', s.FillsAt items p s.deriver x d'') ∨
      ∃ node ∈ items, Entries.isNamed p.name node ∧ s.StopsAt p.form node s.deriver) ps xs := by
  induction h with
  | nil => exact fun _ _ => .nil
  | cons h _ ih =>
    intro hps hd
    rw [List.forall_mem_cons] at hps
    exact .cons (h.elsewhere hs hr hfields hps.1 hd (.refl _ _))
      (ih hps.2 (hd.trans (h.pursues hps.1)))

omit hs hr hfields in
/-- A field whose entry is stopped stops. -/
theorem readGathered_stops {node : Node}
    (hfound : Entries.gather what (plans.map FieldPlan.name) tolerant [] items = .ok found)
    (what' : Text) (hp : p ∈ plans) (hnode : node ∈ items) (hname : Entries.isNamed p.name node)
    (h : s.StopsAt p.form node d) :
    ∃ e d', s.readGathered what' found p d = (.error e, d') ∧ e.stops := by
  have hone : items.filter (Entries.isNamed p.name) = [node] := by
    have hpname : p.name ∈ plans.map FieldPlan.name := List.mem_map_of_mem hp
    have honce := (Entries.headed_of_gather hfound).once p.name hpname
    have hmem : node ∈ items.filter (Entries.isNamed p.name) := List.mem_filter.2 ⟨hnode, hname⟩
    match hfilter : items.filter (Entries.isNamed p.name), hmem, honce with
    | [y], hmem, _ => rw [List.mem_singleton.1 hmem]
    | _ :: _ :: _, _, honce =>
      simp only [List.length_cons] at honce
      omega
  have hlookup := Entries.lookup_of_gather hfound (List.mem_map_of_mem hp) hone
  unfold readGathered
  rw [hlookup]
  generalize p.form = form at h
  cases h with
  | valued h he =>
    exact ⟨_, _, mapError_run_error (readField_run_error h), ReadError.stops_within _ _ he⟩

/-- What each field gets alone they get in turn, unless a link stops one of them. -/
theorem readFields_of_alone
    (hfound : Entries.gather what (r.fields.map FieldPlan.name) tolerant [] items = .ok found)
    (what' : Text)
    (h : List.Forall₂ (fun p x => ∃ d'', s.FillsAt items p s.deriver x d'') ps xs) :
    ∀ {d : Deriver}, (∀ p ∈ ps, p ∈ r.fields) →
    (Plan.record r).Pursues s.catalog s.deriver false d →
    (∃ d', s.FillsInTurn items ps d xs d') ∨
      ∃ e d', Plan.readFields s.live.follow s.switches what' found ps d = (.error e, d') ∧ e.stops := by
  induction h with
  | nil => exact fun _ _ => .inl ⟨_, .nil _⟩
  | @cons p x ps xs hx _ ih =>
    intro d hps hd
    rw [List.forall_mem_cons] at hps
    obtain ⟨d'', hx⟩ := hx
    rcases hx.elsewhere hs hr hfields hps.1 (.refl _ _) hd with
      ⟨d₁, hx⟩ | ⟨node, hnode, hname, hstops⟩
    · rcases ih hps.2 (hd.trans (hx.pursues hps.1)) with ⟨d', hxs⟩ | ⟨e, d', he, hstops⟩
      · exact .inl ⟨d', .cons hx hxs⟩
      · refine .inr ⟨e, d', ?_, hstops⟩
        have hfirst := (readGathered_run_iff hfound what' hps.1 hx.exists_node).2 hx
        rw [live_readFields_cons, bind_run hfirst]
        exact bind_run_error he
    · obtain ⟨e, d', he, hstops⟩ := readGathered_stops hfound what' hps.1 hnode hname hstops
      refine .inr ⟨e, d', ?_, hstops⟩
      rw [live_readFields_cons]
      exact bind_run_error he

/-- A record whose fields get values alone is read as the record of these, unless a link stops it.
-/
theorem live_readBy_of_alone {loc : Option Location} {v : Value}
    (hheaded : Entries.Headed (r.fields.map FieldPlan.name) (s.tolerates r.extra) items)
    (h : List.Forall₂ (fun p x => ∃ d'', s.FillsAt items p s.deriver x d'') r.fields xs)
    (hmade : r.construct ((r.fields.map FieldPlan.name).zip xs) = .ok v) :
    (∃ d', s.live.readBy (.record r) (.list items loc) s.deriver = (.ok v, d')) ∨
      ∃ e d', s.live.readBy (.record r) (.list items loc) s.deriver = (.error e, d') ∧ e.stops := by
  obtain ⟨found, hfound⟩ := Entries.gather_eq_ok_iff.2 hheaded
  rcases readFields_of_alone hs hr hfields hfound _ h (fun _ hp => hp) (.refl _ _) with
    ⟨d', hxs⟩ | ⟨e, d', he, hstops⟩
  · exact .inl ⟨d', live_readBy_record_iff.2 ⟨hheaded, xs, hmade, hxs⟩⟩
  · refine .inr ⟨e, d', ?_, hstops⟩
    have hneeded : (r.missing found).isEmpty := by
      rw [Entries.missing_of_gather hfound]
      have hnode (p : FieldPlan Plan) (hp : p ∈ r.fields) (habsent : p.absent = none) :
          ∃ node ∈ items, Entries.isNamed p.name node := by
        obtain ⟨x, d'', hx⟩ := forall_exists_of_forall₂ h p hp
        exact hx.exists_node habsent
      simpa using hnode
    exact live_readBy_record_error hfound hneeded he

end Elsewhere

/-! ## Records -/

/-- How a record without a class is read from its entries. -/
structure ReadsByName (s : Setting) (c : Converter) (label : Text) (extra : Bool)
    (fields : List (Field Description)) (plans : List (FieldPlan Plan)) : Prop where
  /-- The record is read exactly if its entries are headed well and its fields get values in turn:
  the value has the declared fields, in the order in which they are declared, with these values. -/
  reads : ∀ items l v d', s.live.read c (.list items l) s.deriver = (.ok v, d') ↔
    Entries.Headed (fields.map Field.name) (s.tolerates extra) items ∧
    ∃ xs, v = .record ((fields.map Field.name).zip xs) ∧ s.FillsInTurn items plans s.deriver xs d'
  /-- If the entries are headed well, the fields that must be there are there, and each entry of a
  field gives it a value, the record is read, unless a link stops it. -/
  accepts : ∀ items l, Entries.Headed (fields.map Field.name) (s.tolerates extra) items →
    (∀ f ∈ fields, f.isNeeded → ∃ node ∈ items, Entries.isNamed f.name node) →
    (∀ p ∈ plans, ∀ node ∈ items, Entries.isNamed p.name node →
      ∃ x d', s.GivesAt p.form node s.deriver x d') →
    (∃ v d', s.live.read c (.list items l) s.deriver = (.ok v, d')) ∨
      ∃ e d', s.live.read c (.list items l) s.deriver = (.error e, d') ∧ e.stops
  /-- If the record is read, its entries are headed well, the fields that must be there are there,
  and each field gets its value from its entry alone, unless a link stops the entry alone. -/
  accepted : ∀ items l v d', s.live.read c (.list items l) s.deriver = (.ok v, d') →
    Entries.Headed (fields.map Field.name) (s.tolerates extra) items ∧
    (∀ f ∈ fields, f.isNeeded → ∃ node ∈ items, Entries.isNamed f.name node) ∧
    ∃ xs, v = .record ((fields.map Field.name).zip xs) ∧
      List.Forall₂ (fun p x => (∃ d'', s.FillsAt items p s.deriver x d'') ∨
        ∃ node ∈ items, Entries.isNamed p.name node ∧ s.StopsAt p.form node s.deriver) plans xs
  /-- Nothing else matters but which value each field is given, unless a link stops the record. -/
  determined : ∀ items l xs, Entries.Headed (fields.map Field.name) (s.tolerates extra) items →
    List.Forall₂ (fun p x => ∃ d'', s.FillsAt items p s.deriver x d'') plans xs →
    (∃ d', s.live.read c (.list items l) s.deriver =
        (.ok (.record ((fields.map Field.name).zip xs)), d')) ∨
      ∃ e d', s.live.read c (.list items l) s.deriver = (.error e, d') ∧ e.stops
  /-- The order of the entries does not matter, also to what is remembered. -/
  permuted : ∀ items items' l l', items.Perm items' → ∀ v d',
    s.live.read c (.list items l) s.deriver = (.ok v, d') ↔
      s.live.read c (.list items' l') s.deriver = (.ok v, d')
  /-- Unknown entries do not matter if they are tolerated. -/
  trimmed : ∀ items l l' (keep : Node → Bool), s.tolerates extra = true →
    (∀ node ∈ items, keep node = false →
      ∃ name, Entries.name? node = some name ∧ name ∉ fields.map Field.name) → ∀ v d',
    s.live.read c (.list (items.filter keep) l') s.deriver = (.ok v, d') ↔
      s.live.read c (.list items l) s.deriver = (.ok v, d')
  /-- If the entries are headed well, the fields that must be there and are not are reported, all of
  them, in the order in which they are declared. -/
  missing : ∀ items l, Entries.Headed (fields.map Field.name) (s.tolerates extra) items →
    ∀ names, names = (fields.filter fun f =>
      f.isNeeded && !items.any (Entries.isNamed f.name)).map Field.name → names ≠ [] →
    s.live.read c (.list items l) s.deriver =
      (.error (.about (.list items l) (.missingFields (Converter.readerName label) names)), s.deriver)

/-- A field gets a value if it has an entry where it must, and if each entry that it has gives it a
value. -/
theorem exists_fillsAt (hneeded : p.absent = none → ∃ node ∈ items, Entries.isNamed p.name node)
    (hgives : ∀ node ∈ items, Entries.isNamed p.name node → ∃ x d', s.GivesAt p.form node d x d') :
    ∃ x d', s.FillsAt items p d x d' := by
  by_cases hentry : ∃ node ∈ items, Entries.isNamed p.name node
  · obtain ⟨node, hnode, hname⟩ := hentry
    obtain ⟨x, d', hx⟩ := hgives node hnode hname
    exact ⟨x, d', .given hnode hname hx⟩
  · obtain ⟨a, ha⟩ : ∃ a, p.absent = some a := by
      rw [← Option.isSome_iff_exists, ← Option.ne_none_iff_isSome]
      exact fun hnone => hentry (hneeded hnone)
    have hnone : ∀ node ∈ items, Entries.isNamed p.name node = false := fun node hnode => by
      simpa using fun hname => hentry ⟨node, hnode, hname⟩
    exact ⟨a, d, .absent hnone ha⟩

section Reading

variable {c : Converter} {label : Text} {extra : Bool} {fields : List (Field Description)}
  (hplan : c.plan = .record ⟨label, none, extra, plans⟩)
  (hfits : List.Forall₂ (fun f p => FieldPlan.Fits f p) fields plans)
include hplan hfits

/-- A record is read exactly if its entries are headed well and its fields get values in turn. -/
theorem live_read_iff {l : Option Location} {v : Value} :
    s.live.read c (.list items l) d = (.ok v, d') ↔
      Entries.Headed (fields.map Field.name) (s.tolerates extra) items ∧
        ∃ xs, v = .record ((fields.map Field.name).zip xs) ∧ s.FillsInTurn items plans d xs d' := by
  have hmade (es : List (Text × Value)) :
      RecordPlan.construct ⟨label, none, extra, plans⟩ es = .ok v ↔ v = .record es := by
    rw [RecordPlan.construct, Except.ok.injEq, eq_comm]
  rw [Course.read_eq_readBy, hplan, live_readBy_record_iff]
  simp only [hmade, names_of_fits hfits]

theorem live_read_congr {l l' : Option Location}
    (hheaded : Entries.Headed (fields.map Field.name) (s.tolerates extra) items ↔
      Entries.Headed (fields.map Field.name) (s.tolerates extra) items')
    (hmem : ∀ p ∈ plans, ∀ node, Entries.isNamed p.name node → (node ∈ items ↔ node ∈ items'))
    (v : Value) :
    s.live.read c (.list items l) d = (.ok v, d') ↔
      s.live.read c (.list items' l') d = (.ok v, d') := by
  rw [live_read_iff hplan hfits, live_read_iff hplan hfits, hheaded]
  refine and_congr_right fun _ => exists_congr fun xs => and_congr_right fun _ => ?_
  exact ⟨fun h => h.congr hmem, fun h => h.congr fun p hp node hname => (hmem p hp node hname).symm⟩

/-- The needed fields that have no entry are reported. -/
theorem live_read_missing {l : Option Location}
    (hheaded : Entries.Headed (fields.map Field.name) (s.tolerates extra) items)
    (hnames : (fields.filter fun f =>
      f.isNeeded && !items.any (Entries.isNamed f.name)).map Field.name ≠ []) :
    s.live.read c (.list items l) d =
      (.error (.about (.list items l) (.missingFields (Converter.readerName label)
        ((fields.filter fun f => f.isNeeded && !items.any (Entries.isNamed f.name)).map
          Field.name))), d) := by
  rw [← names_of_fits hfits] at hheaded
  rw [← missing_of_fits items hfits] at hnames ⊢
  rw [Course.read_eq_readBy, hplan]
  have hmissing := s.live.readBy_record_missing (r := ⟨label, none, extra, plans⟩) (l := l) hheaded
    (by simpa [List.filter_eq_nil_iff] using hnames)
  exact congrFun hmissing d

/-- A record whose plan is one of its type is read by the names of its entries. -/
theorem readsByName {numbering : Nat → Description} {l : Ledger} {t : BoundType}
    (hs : s.Sound numbering l) (hr : Realises s.catalog l.Trusts t c.plan)
    (hfields : ∀ p ∈ plans, ∀ k omission, p.form = .valued k omission →
      ∃ u, Realises s.catalog l.Trusts u k.plan) : s.ReadsByName c label extra fields plans := by
  rw [hplan] at hr
  have hdetermined (items : List Node) (l' : Option Location) (xs : List Value)
      (hheaded : Entries.Headed (fields.map Field.name) (s.tolerates extra) items)
      (hxs : List.Forall₂ (fun p x => ∃ d'', s.FillsAt items p s.deriver x d'') plans xs) :
      (∃ d', s.live.read c (.list items l') s.deriver =
          (.ok (.record ((fields.map Field.name).zip xs)), d')) ∨
        ∃ e d', s.live.read c (.list items l') s.deriver = (.error e, d') ∧ e.stops := by
    rw [← names_of_fits hfits] at hheaded ⊢
    rw [Course.read_eq_readBy, hplan]
    exact live_readBy_of_alone hs hr hfields hheaded hxs rfl
  refine ⟨fun _ _ _ _ => live_read_iff hplan hfits, ?_, ?_, hdetermined, ?_, ?_, ?_⟩
  · intro items l' hheaded hneeded hgives
    rw [← forall_needed_iff hfits] at hneeded
    obtain ⟨xs, hxs⟩ := exists_forall₂_iff.2 fun p hp => exists_fillsAt (hneeded p hp) (hgives p hp)
    exact (hdetermined items l' xs hheaded hxs).imp_left fun ⟨d', hread⟩ => ⟨_, d', hread⟩
  · intro items l' v d' hread
    obtain ⟨hheaded, xs, rfl, hxs⟩ := (live_read_iff hplan hfits).1 hread
    refine ⟨hheaded, (forall_needed_iff hfits).1 hxs.exists_node, xs, rfl, ?_⟩
    exact hxs.alone hs hr hfields (fun _ hp => hp) (.refl _ _)
  · intro items items' l l' hperm v d'
    exact live_read_congr hplan hfits ⟨.perm hperm, .perm hperm.symm⟩
      (fun _ _ _ _ => hperm.mem_iff) v
  · intro items l l' keep ht hkeep v d'
    refine live_read_congr hplan hfits ?_ (fun p hp node hname => ?_) v
    · rw [ht]
      exact Entries.headed_filter_iff hkeep
    · refine List.mem_filter.trans (and_iff_left_of_imp fun hnode => ?_)
      by_contra hdropped
      obtain ⟨name, hname', hother⟩ := hkeep node hnode (by simpa using hdropped)
      have heq : name = p.name := by simpa [Entries.isNamed, hname'] using hname
      exact hother (heq ▸ names_of_fits hfits ▸ List.mem_map_of_mem hp)
  · rintro items l hheaded names rfl hnames
    exact live_read_missing hplan hfits hheaded hnames

end Reading

end Setting

/-- **A record is read by the names of its entries.** The converter of a description of records
without a class reads as `Setting.ReadsByName` says, whatever the deriver was asked for and whatever
was converted before, and whichever switches are set. The plans of its fields fit the fields, and
their converters are built from the types of the fields. -/
theorem History.read_record {catalog : Catalog} {numbering : Nat → Description}
    {outside : Text → Option Custom} {failed : Bool} {d : Deriver}
    {converters : List (BoundType × Converter)} (hcatalog : catalog.AdmittedBy (.first outside))
    (h : History catalog numbering outside failed d converters) {fields : List (Field Description)}
    {extra : Bool} {env : List BoundType} {c : Converter}
    (hc : (.mk (.record fields none extra) env, c) ∈ converters) :
    ∃ (l : Ledger) (label : Text) (plans : List (FieldPlan Plan)),
      c.plan = .record ⟨label, none, extra, plans⟩ ∧
      List.Forall₂ (fun f p => p.Fits f ∧
        ∀ d q, FieldPlan.Part f p d q → Realises catalog l.Trusts (.mk d env) q) fields plans ∧
      ∀ switches : Switches,
        Setting.ReadsByName ⟨catalog, d, switches⟩ c label extra fields plans := by
  obtain ⟨l, hl, hkept, hholds⟩ := h.kept hcatalog
  obtain ⟨-, hreal⟩ := hholds _ _ hc
  obtain ⟨hlen, henv, hb⟩ := id hreal
  obtain ⟨label, plans, hplan, -, hlength, hbuilt⟩ := hb.of_record
  have hfields : List.Forall₂ (fun f p => p.Fits f ∧
      ∀ d q, FieldPlan.Part f p d q → Realises catalog l.Trusts (.mk d env) q) fields plans := by
    refine List.forall₂_iff_zip.2 ⟨hlength, fun hmem => ?_⟩
    obtain ⟨hfits, hpart⟩ := hbuilt _ _ hmem
    exact ⟨hfits, fun d q hq => .mk hlen henv (hpart d q hq)⟩
  refine ⟨l, label, plans, hplan, hfields, fun switches => ?_⟩
  refine Setting.readsByName hplan (hfields.imp fun _ _ h => h.1) ⟨hcatalog.later hl, hkept⟩ hreal
    fun p hp k omission hform => ?_
  obtain ⟨f, hf⟩ := exists_zip_left hlength hp
  obtain ⟨hfits, hpart⟩ := (List.forall₂_iff_zip.1 hfields).2 hf
  obtain ⟨-, -, x, hx⟩ := hfits.of_valued hform
  exact ⟨_, hpart x k.plan (.value hx hform)⟩

namespace ByName

/-- A point that may be marked: a needed integer, and a flag. -/
def pointFields : List (Field Description) :=
  [.needed "x" (.primitive "int"), ⟨"marked", none, .sexpBool, none, .never, none⟩]

/-- The description of points. -/
def point : Description := .record pointFields none false

/-- The converter of points. -/
def pointConverter : Converter :=
  ⟨.derived 0, "record", .record ⟨"record", none, false,
    [.needed "x" (.ofPrimitive .int), ⟨"marked", .flag, some (.bool false), .never⟩]⟩⟩

theorem derive_point :
    (Derivation.derive [] (.description 0 point) []).result {} = .ok pointConverter := by
  simp only [Derivation.result, Derivation.derive, Derivation.ofTargets, Derivation.ofTarget,
    Derivation.ofDescription, point, pointFields, Field.needed, Description.build,
    Description.buildRecord, Description.buildFields, Description.buildField]
  rfl

theorem history_point : ∃ deriver, History [] (fun _ => point) (fun _ => none) false deriver
    [(.mk point [], pointConverter)] := by
  have hplain : (Ledger.first fun _ => none).Admits point.givens :=
    Ledger.admits_of_isPlain _ (by decide)
  exact ⟨_, .derived .nil (.description 0 [] hplain) derive_point .start⟩

/-- Points are read by the names of their entries. -/
theorem read_record_point : ∃ deriver,
    History [] (fun _ => point) (fun _ => none) false deriver [(.mk point [], pointConverter)] ∧
    ∃ (l : Ledger) (label : Text) (plans : List (FieldPlan Plan)),
      pointConverter.plan = .record ⟨label, none, false, plans⟩ ∧
      List.Forall₂ (fun f p => p.Fits f ∧
        ∀ d q, FieldPlan.Part f p d q → Realises [] l.Trusts (.mk d []) q) pointFields plans ∧
      ∀ switches : Switches,
        Setting.ReadsByName ⟨[], deriver, switches⟩ pointConverter label false pointFields plans := by
  obtain ⟨deriver, hhistory⟩ := history_point
  have hcatalog : Catalog.AdmittedBy [] (.first fun _ => none) := fun id body hb => by
    exact absurd hb (by simp [Catalog.body?])
  exact ⟨deriver, hhistory, hhistory.read_record hcatalog List.mem_cons_self⟩

/-- The flag stands in front of the integer, and behind it. -/
example (deriver : Deriver) :
    let s : Setting := ⟨[], deriver, .standard⟩
    let x : Node := .list [.atom "x" none, .atom "1" none] none
    let marked : Node := .list [.atom "marked" none] none
    s.live.read pointConverter (.list [marked, x] none) deriver =
        (.ok (.record [("x", .int 1), ("marked", .bool true)]), deriver) ∧
      s.live.read pointConverter (.list [x, marked] none) deriver =
        (.ok (.record [("x", .int 1), ("marked", .bool true)]), deriver) :=
  ⟨rfl, rfl⟩

/-! ### Alone, but not in turn -/

open Description Coil Reordering

section Tagged

variable {s : Setting} {label : Text} {q x : Converter} {v : Value} {d d' : Deriver}

/-- What stands behind the tag of a constructor is read by its converter. -/
theorem live_readBy_tagged :
    s.live.readBy (.variant label true [⟨"Q", none, .arguments [q]⟩, ⟨"B", none, .arguments [x]⟩])
        tagged =
      Carrier.mapError (.within (.name "B"))
        (Carrier.mapError (.within (.index 0)) (s.live.readBy x.plan entries) >>= fun v =>
          (outcome (.ok []) : Remembering ReadError (List Value)) >>= fun vs =>
            outcome (.ok (v :: vs))) >>=
      fun args => outcome (.ok (.variant "B" args)) := rfl

theorem tagged_run (h : s.live.readBy x.plan entries d = (.ok v, d')) :
    s.live.readBy (.variant label true [⟨"Q", none, .arguments [q]⟩, ⟨"B", none, .arguments [x]⟩])
      tagged d = (.ok (.variant "B" [v]), d') := by
  rw [live_readBy_tagged]
  refine bind_run_iff.2 ⟨[v], d', mapError_run_iff.2 ?_, rfl⟩
  exact bind_run_iff.2 ⟨v, d', mapError_run_iff.2 h, rfl⟩

theorem tagged_run_endless (h : s.live.readBy x.plan entries d = (.error .endless, d')) :
    s.live.readBy (.variant label true [⟨"Q", none, .arguments [q]⟩, ⟨"B", none, .arguments [x]⟩])
      tagged d = (.error .endless, d') := by
  rw [live_readBy_tagged]
  exact bind_run_error (mapError_run_error (bind_run_error (mapError_run_error h)))

end Tagged

/-- Conversion with the entwined definitions, after the record was derived. -/
def entwinedSetting : Setting := ⟨entwined, afterPair, .standard⟩

/-- An entry for the first field. -/
def chooserEntry : Node := .list [.atom "f1" none, .atom "W" none] none

/-- An entry for the second field. -/
def taggerEntry : Node := .list [.atom "f2" none, tagged] none

/-- The first field is read; the first definition is derived behind it. -/
theorem read_chooser : entwinedSetting.live.read chooserLink (.atom "W" none) afterPair =
    (.ok (.variant "W" []), afterChooserFirst) := by
  have hlink := Setting.live_readBy_link (s := entwinedSetting) (head_entwined 0 [] (by decide))
    ofLink_chooserFirst rfl (.atom "W" none)
  exact (congrFun (Course.read_eq_readBy chooserLink _) _).trans (hlink.trans rfl)

/-- The second field is read if its link is followed first. -/
theorem read_tagger_first : ∃ d', entwinedSetting.live.read taggerLink tagged afterPair =
    (.ok (.variant "B" [.record [("h", .list [])]]), d') := by
  obtain ⟨d', hwithin⟩ := ofLink_back_first
  have hback := Setting.live_readBy_link (s := entwinedSetting)
    (head_entwined 17 [outerWithin 3] (by decide)) hwithin rfl entries
  have hlink := Setting.live_readBy_link (s := entwinedSetting) (head_entwined 1 [] (by decide))
    ofLink_taggerFirst rfl tagged
  refine ⟨d', (congrFun (Course.read_eq_readBy taggerLink _) _).trans (hlink.trans ?_)⟩
  exact tagged_run (hback.trans rfl)

/-- It is not read after the first field. -/
theorem read_tagger_second :
    ∃ d', entwinedSetting.live.read taggerLink tagged afterChooserFirst = (.error .endless, d') := by
  obtain ⟨d₁, haround⟩ := ofLink_back_second
  obtain ⟨d', hback⟩ := Setting.live_readBy_link_endless (s := entwinedSetting) haround entries
  have hlink := Setting.live_readBy_link (s := entwinedSetting) (head_entwined 1 [] (by decide))
    ofLink_taggerSecond rfl tagged
  refine ⟨d', (congrFun (Course.read_eq_readBy taggerLink _) _).trans (hlink.trans ?_)⟩
  exact tagged_run_endless hback

theorem entwined_admitted : entwined.AdmittedBy (.first fun _ => none) := by
  refine Catalog.isPlain.admittedBy (fun id body hb => ?_) _
  match id with
  | 0 | 1 | 2 | 3 | 4 | 5 | 6 =>
    obtain rfl := Option.some.inj hb
    rfl
  | id + 7 => exact absurd hb (by simp [Catalog.body?, entwined, coil])

/-- **What the entries give alone they may not give in turn.** Each of the two is read alone; the
record of both is not read: reading the first field leaves remembered what makes the link behind the
second one endless. -/
theorem alone_not_in_turn :
    entwined.AdmittedBy (.first fun _ => none) ∧
    History entwined (fun _ => pair) (fun _ => none) false afterPair [(.mk pair [], pairConverter)] ∧
    Entries.Headed (pairFields.map Field.name) (entwinedSetting.tolerates false)
      [chooserEntry, taggerEntry] ∧
    List.Forall₂
      (fun p x => ∃ d', entwinedSetting.FillsAt [chooserEntry, taggerEntry] p afterPair x d')
      pairPlans [.variant "W" [], .variant "B" [.record [("h", .list [])]]] ∧
    ∃ d', entwinedSetting.live.read pairConverter (.list [chooserEntry, taggerEntry] none) afterPair =
      (.error .endless, d') := by
  have hplain : pair.isPlain := by decide
  have hgather : Entries.gather (Converter.readerName "record") (pairFields.map Field.name)
      (entwinedSetting.tolerates false) [] [chooserEntry, taggerEntry] =
      .ok [("f1", chooserEntry), ("f2", taggerEntry)] := rfl
  obtain ⟨d₁, hfirst⟩ := read_tagger_first
  obtain ⟨d₂, hsecond⟩ := read_tagger_second
  refine ⟨entwined_admitted, History.start.describe hplain derive_pair,
    Entries.gather_eq_ok_iff.1 ⟨_, hgather⟩, .cons ?_ (.cons ?_ .nil), d₂, ?_⟩
  · exact ⟨_, .given List.mem_cons_self (by decide) (.valued read_chooser)⟩
  · exact ⟨d₁, .given (List.mem_cons_of_mem _ List.mem_cons_self) (by decide) (.valued hfirst)⟩
  · have hchooser : entwinedSetting.readGathered (Converter.readerName "record")
        [("f1", chooserEntry), ("f2", taggerEntry)] (.needed "f1" chooserLink) afterPair =
        (.ok (.variant "W" []), afterChooserFirst) :=
      mapError_run_iff.2 (Setting.readField_run_iff.2 (.valued read_chooser))
    have htagger : entwinedSetting.readGathered (Converter.readerName "record")
        [("f1", chooserEntry), ("f2", taggerEntry)] (.needed "f2" taggerLink) afterChooserFirst =
        (.error .endless, d₂) := mapError_run_error (Setting.readField_run_error hsecond)
    rw [Course.read_eq_readBy]
    refine Setting.live_readBy_record_error hgather rfl ?_
    refine (congrFun Setting.live_readFields_cons afterPair).trans ((bind_run hchooser).trans ?_)
    refine bind_run_error ((congrFun Setting.live_readFields_cons afterChooserFirst).trans ?_)
    exact bind_run_error htagger

end ByName

end TypedSexp
