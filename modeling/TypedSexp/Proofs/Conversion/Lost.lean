import TypedSexp.Proofs.Conversion.Descent
import TypedSexp.Proofs.Conversion.Dropping
import TypedSexp.Proofs.Conversion.Filled
/-!
# Fields that are lost

A record that was written is read again unless a field is lost. A field that must be there has no
default, so no rule that compares with one leaves it out; but a rule with a predicate needs no default,
and what its predicate leaves out is missing where the record is read (`Field.isLost`).
`History.read_written_record` says of every record what happens to what its converter wrote: it is read
if no field is lost and the class has the same fields, and otherwise the lost fields are reported.
-/

namespace TypedSexp

/-- The field must be there, and its predicate leaves the value out. -/
def Field.isLost (f : Field Description) (x : Value) : Bool :=
  f.isNeeded && f.rule == .ifPredicate &&
    f.predicate.any fun q => (q.holds x).toOption.getD false

/-- The value has a field that is lost: this one. -/
def Field.isLostFrom (f : Field Description) (instanceOf : Option ClassInfo) (v : Value) : Bool :=
  (fieldValue f.name instanceOf f.name none v).toOption.any f.isLost

theorem Field.isLostFrom_of_not_isNeeded {f : Field Description} (h : f.isNeeded = false)
    (instanceOf : Option ClassInfo) (v : Value) : f.isLostFrom instanceOf v = false := by
  unfold isLostFrom isLost
  rw [h]
  simp

/-- What a field without an absent value holds is found without the writer. -/
theorem Field.isLostFrom_eq {f : Field Description} {instanceOf : Option ClassInfo} {v x : Value}
    {writer : Text} (h : fieldValue writer instanceOf f.name none v = .ok x) :
    f.isLostFrom instanceOf v = f.isLost x := by
  have hx : fieldValue f.name instanceOf f.name none v = .ok x := by
    unfold fieldValue at h ⊢
    cases instanceOf with
    | some k => exact h
    | none =>
      obtain ⟨b, hb, h⟩ := bind_eq_ok.1 h
      cases b with
      | false => cases h
      | true => exact bind_eq_ok.2 ⟨true, hb, h⟩
  rw [isLostFrom, hx]
  rfl

namespace Setting

variable {s : Setting} {f : Field Description} {p : FieldPlan Plan} {x : Value} {levels : Nat}

/-! ## Fields -/

/-- Whatever the converter writes of the value, with however many levels, it reads. -/
def TakesBack (s : Setting) (c : Converter) (x : Value) : Prop :=
  ∀ levels t, s.writeAt levels c.plan x = .ok t → ∀ node, Node.sexp node = t → s.Reads c node

/-- The converters of the fields take back what the value has in them, except for what is left out in
any case. -/
def TakesFieldsBack (s : Setting) (label : Text) (instanceOf : Option ClassInfo)
    (plans : List (FieldPlan Plan)) (v : Value) : Prop :=
  ∀ p ∈ plans, ∀ c omission x, p.form = .valued c omission →
    fieldValue (Converter.writerName label) instanceOf p.name p.absent v = .ok x →
    isOmitted omission x = .ok false → s.TakesBack c x

/-- The entry of a field gives it a value. -/
theorem exists_gives {t : Sexp} {node : Node} (h : s.writeEntryAt levels p x = .ok (some t))
    (htakes : ∀ c omission, p.form = .valued c omission → isOmitted omission x = .ok false →
      s.TakesBack c x) (hnode : node.sexp = t) : ∃ w, s.Gives p.form node w := by
  rcases writeFieldAt_eq_some (writeEntryAt_eq_some h) with
    ⟨hform, rfl⟩ | ⟨c, omission, u, hform, homitted, hu, rfl⟩
  · obtain ⟨items, l, rfl, hitems⟩ := Node.eq_list_of_sexp hnode
    obtain ⟨head, items, rfl, -, hitems⟩ := List.map_eq_cons_iff.1 hitems
    obtain rfl := List.map_eq_nil_iff.1 hitems
    exact ⟨.bool true, hform ▸ .flag⟩
  · obtain ⟨items, l, rfl, hitems⟩ := Node.eq_list_of_sexp hnode
    obtain ⟨head, items, rfl, -, hitems⟩ := List.map_eq_cons_iff.1 hitems
    obtain ⟨item, items, rfl, hitem, hitems⟩ := List.map_eq_cons_iff.1 hitems
    obtain rfl := List.map_eq_nil_iff.1 hitems
    obtain ⟨w, hw⟩ := htakes c omission hform homitted levels u hu item hitem
    exact ⟨w, hform ▸ .valued hw⟩

/-- A value that is never omitted is written. -/
theorem writeFieldAt_ne_none {c : Converter} (hform : p.form = .valued c .never) :
    s.writeFieldAt levels p x ≠ .ok none := by
  intro h
  rw [writeFieldAt, hform, Plan.writeField] at h
  obtain ⟨b, hb, h⟩ := bind_eq_ok.1 h
  obtain rfl := Except.ok.inj hb
  obtain ⟨t, -, h⟩ := bind_eq_ok.1 h
  cases h

/-- **A field that must be there is left out if and only if it is lost.** -/
theorem entry_eq_none_iff (hp : p.Fits f) (hneeded : f.isNeeded) {entry : Option Sexp}
    (h : s.writeEntryAt levels p x = .ok entry) : entry = none ↔ f.isLost x := by
  obtain ⟨hpresence, hdefault⟩ : f.presence = .required ∧ f.default = none := by
    simpa [Field.isNeeded] using hneeded
  obtain ⟨d, c, -, hform⟩ := hp.valued (by simp [hpresence])
  rw [hpresence] at hform
  obtain ⟨b, hb, h⟩ := bind_eq_ok.1 h
  -- only the rule leaves the field out
  have hleft : entry = none ↔ b = true := by
    cases b with
    | true => exact iff_of_true (Except.ok.inj h).symm rfl
    | false => exact iff_of_false (fun hnone => writeFieldAt_ne_none hform (hnone ▸ h)) (by simp)
  rw [hleft]
  cases hr : f.rule with
  | never =>
    rw [isDroppedAt_never (hp.dropping_never hr)] at hb
    obtain rfl := Except.ok.inj hb
    simp [Field.isLost, hr]
  | ifDefault =>
    obtain ⟨dflt, hd, -⟩ := hp.dropping_ifDefault hr
    exact absurd (hdefault.symm.trans hd) (by simp)
  | ifDefaultSexp =>
    obtain ⟨dflt, hd, -⟩ := hp.dropping_ifDefaultSexp hr
    exact absurd (hdefault.symm.trans hd) (by simp)
  | ifPredicate =>
    obtain ⟨q, hq, hdropping⟩ := hp.dropping_ifPredicate hr
    rw [isDroppedAt_ifHolds hdropping] at hb
    simp [Field.isLost, hneeded, hr, hq, mapError_eq_ok.1 hb, Except.toOption]

/-! ## Records -/

section Records

variable {fields : List (Field Description)} {plans : List (FieldPlan Plan)} {writer label : Text}
  {instanceOf : Option ClassInfo} {extra tolerant : Bool} {v : Value} {found : List (Text × Sexp)}
  {items : List Node} {c : Converter}

/-- The entries of a tree are those that were written of the fields of a value: they are headed well,
only the fields that are lost are missing, and each entry is what its field was written as. -/
structure Returned (s : Setting) (levels : Nat) (writer : Text) (instanceOf : Option ClassInfo)
    (v : Value) (fields : List (Field Description)) (plans : List (FieldPlan Plan)) (tolerant : Bool)
    (items : List Node) : Prop where
  headed : Entries.Headed (fields.map Field.name) tolerant items
  missing : ∀ f ∈ fields,
    (f.isNeeded && !items.any (Entries.isNamed f.name)) = f.isLostFrom instanceOf v
  written : ∀ p ∈ plans, ∀ node ∈ items, Entries.isNamed p.name node →
    ∃ x, fieldValue writer instanceOf p.name p.absent v = .ok x ∧
      s.writeEntryAt levels p x = .ok (some node.sexp)

theorem returned_of_entered (hfits : List.Forall₂ (fun f p => FieldPlan.Fits f p) fields plans)
    (hnodup : (plans.map FieldPlan.name).Nodup)
    (h : s.Entered levels writer instanceOf v plans found)
    (hitems : items.map Node.sexp = found.map Prod.snd) :
    s.Returned levels writer instanceOf v fields plans tolerant items := by
  have hentry : ∀ e ∈ found, Entries.IsEntry e.1 e.2 ∧ e.1 ∈ plans.map FieldPlan.name :=
    fun e he => ⟨h.entry e he, h.names.subset (List.mem_map_of_mem he)⟩
  obtain ⟨hheaded, hentries⟩ :=
    Entries.headed_of_entries tolerant hitems hentry (h.names.nodup hnodup)
  obtain ⟨hlen, hzip⟩ := List.forall₂_iff_zip.1 hfits
  have hfound : ∀ p ∈ plans, found.lookup p.name = none ↔ items.any (Entries.isNamed p.name) = false := by
    intro p hp
    rw [← Option.toList_eq_nil_iff, ← hentries p.name (List.mem_map_of_mem hp), List.map_eq_nil_iff,
      List.filter_eq_nil_iff]
    simp
  refine ⟨names_of_fits hfits ▸ hheaded, fun f hf => ?_, fun p hp node hnode hname => ?_⟩
  · cases hneeded : f.isNeeded with
    | false => rw [Field.isLostFrom_of_not_isNeeded hneeded, Bool.false_and]
    | true =>
      obtain ⟨p, hmem⟩ := exists_zip_right hlen hf
      have hp : p.Fits f := hzip hmem
      obtain ⟨x, hx, hentry⟩ := h.written p (List.of_mem_zip hmem).2
      rw [hp.absent_eq_none_iff.2 hneeded, hp.name] at hx
      rw [Field.isLostFrom_eq hx, Bool.true_and, Bool.eq_iff_iff, Bool.not_eq_true',
        ← entry_eq_none_iff hp hneeded hentry, hfound p (List.of_mem_zip hmem).2, hp.name]
  · obtain ⟨x, hx, hentry⟩ := h.written p hp
    have hmem : node.sexp ∈ (items.filter (Entries.isNamed p.name)).map Node.sexp :=
      List.mem_map_of_mem (List.mem_filter.2 ⟨hnode, hname⟩)
    rw [hentries p.name (List.mem_map_of_mem hp), Option.mem_toList] at hmem
    exact ⟨x, hx, hentry.trans (congrArg Except.ok hmem)⟩

/-- What happens to the trees that the converter of a record wrote, when it reads them. -/
structure ReadsWritten (s : Setting) (c : Converter) (label : Text) (instanceOf : Option ClassInfo)
    (fields : List (Field Description)) (plans : List (FieldPlan Plan)) : Prop where
  /-- If the converters of the fields take back what they write, the record is read if and only if
  no field is lost and its class takes the fields. -/
  accepts : ∀ v t, s.write c v = .ok t → s.TakesFieldsBack label instanceOf plans v →
    ∀ node, Node.sexp node = t →
      (s.Reads c node ↔ (∀ f ∈ fields, f.isLostFrom instanceOf v = false) ∧
        ∀ k, instanceOf = some k → k.Takes (fields.map Field.name))
  /-- The fields that are lost are reported, all of them, in the order in which they are declared. -/
  missing : ∀ v t, s.write c v = .ok t → ∀ node, Node.sexp node = t →
    ∀ names, names = (fields.filter fun f => f.isLostFrom instanceOf v).map Field.name → names ≠ [] →
      s.read c node = .error (.about node (.missingFields (Converter.readerName label) names))

/-- The entries of a record that was written. -/
theorem exists_returned (hplan : c.plan = .record ⟨label, instanceOf, extra, plans⟩)
    (hnodup : (fields.map Field.name).Nodup)
    (hfits : List.Forall₂ (fun f p => FieldPlan.Fits f p) fields plans) {t : Sexp}
    (h : s.write c v = .ok t) {node : Node} (hnode : node.sexp = t) : ∃ items l levels,
      node = .list items l ∧ s.Returned levels (Converter.writerName label) instanceOf v fields plans
        (s.tolerates extra) items := by
  rw [write_of_settled fun _ => by rw [hplan]; rfl, hplan] at h
  obtain ⟨ts, rfl, hts⟩ := writeAt_record_eq_ok h
  rw [Plan.writeRecord] at hts
  rw [← names_of_fits hfits] at hnodup
  obtain ⟨found, rfl, hfound⟩ := entered_of_writeFieldsAt hnodup hts
  obtain ⟨items, l, rfl, hitems⟩ := Node.eq_list_of_sexp hnode
  exact ⟨items, l, _, rfl, returned_of_entered hfits hnodup hfound hitems⟩

theorem readsWritten (hplan : c.plan = .record ⟨label, instanceOf, extra, plans⟩)
    (hnodup : (fields.map Field.name).Nodup)
    (hfits : List.Forall₂ (fun f p => FieldPlan.Fits f p) fields plans) :
    s.ReadsWritten c label instanceOf fields plans := by
  refine ⟨fun v t ht htakes node hnode => ?_, fun v t ht node hnode names hnames hne => ?_⟩
  · obtain ⟨items, l, levels, rfl, hback⟩ := exists_returned hplan hnodup hfits ht hnode
    have hgives : ∀ p ∈ plans, ∀ node ∈ items, Entries.isNamed p.name node →
        ∃ w, s.Gives p.form node w := by
      intro p hp node hnode hname
      obtain ⟨x, hx, hentry⟩ := hback.written p hp node hnode hname
      exact exists_gives hentry (fun c omission hform => htakes p hp c omission x hform hx) rfl
    have hneeded : (∀ f ∈ fields, f.isNeeded → ∃ node ∈ items, Entries.isNamed f.name node) ↔
        ∀ f ∈ fields, f.isLostFrom instanceOf v = false := by
      refine forall₂_congr fun f hf => ?_
      rw [← hback.missing f hf]
      simp
    unfold Reads
    rw [read_eq_readBy, hplan, exists_readBy_iff_needed hfits, hneeded]
    constructor
    · rintro ⟨-, hkept, -, hclass⟩
      exact ⟨hkept, hclass⟩
    · rintro ⟨hkept, hclass⟩
      exact ⟨hback.headed, hkept, hgives, hclass⟩
  · obtain ⟨items, l, levels, rfl, hback⟩ := exists_returned hplan hnodup hfits ht hnode
    have hlost : (fields.filter fun f => f.isNeeded && !items.any (Entries.isNamed f.name)) =
        fields.filter fun f => f.isLostFrom instanceOf v := List.filter_congr hback.missing
    rw [hnames, ← hlost] at hne ⊢
    rw [read_eq_readBy, hplan]
    exact readBy_missing_needed hfits hback.headed hne

end Records

/-! ## Values of the types of the fields -/

/-- A value that makes the round trip is taken back. -/
theorem RoundTrips.takesBack {lone halts : Prop} {need : Nat} {c : Converter}
    (h : s.RoundTrips lone halts 0 need c.plan x) : s.TakesBack c x := by
  intro levels t ht node hnode
  have hmore : s.writeAt levels c.plan x = s.writeAt (max need levels) c.plan x :=
    (writeAt_unended (Nat.le_max_right need levels) c.plan x).resolve_left (by simp [ht])
  have hback := (h (max need levels) (Nat.le_max_left need levels)).of_ok (hmore.symm.trans ht)
  obtain ⟨w, hw, -⟩ := hback node.depth node hnode (hnode ▸ Nat.le_refl _)
  exact ⟨w, by rw [read_eq_readBy, ← readAt_eq_readBy (Nat.le_refl _), hw]⟩

section Typed

variable {numbering : Nat → Description} {l : Ledger} {Through : DefinitionId → Nat → Prop}
  {room : Nat} {env : List BoundType} {params : List Converter} {fields : List (Field Description)}
  {plans : List (FieldPlan Plan)} {instanceOf : Option ClassInfo} {entries : List (Text × Value)}

/-- The values of a record that are of the types of its fields are taken back. -/
theorem takesFieldsBack_of_hasEntries (hopt : s.ReadsOptions) (hsound : s.Sound numbering l)
    (henv : Supplies s l env params) (h : RecordParts s l params fields plans)
    (hv : HasEntries s.catalog (Field.IsFaithful True) Through room env fields instanceOf entries)
    (label : Text) : s.TakesFieldsBack label instanceOf plans (.ofFields instanceOf entries) := by
  intro p hp c omission x hform hx homitted
  obtain ⟨f, hmem⟩ := exists_zip_left h.length hp
  obtain ⟨hfit, hparts⟩ := h.built f p hmem
  have hf := (List.of_mem_zip hmem).1
  have hb : f.presence ≠ .sexpBool := fun hb => by
    exact absurd (hform.symm.trans (hfit.flag hb)) (by simp)
  obtain ⟨d, c', hd, hform'⟩ := hfit.valued hb
  obtain ⟨rfl, rfl⟩ : c = c' ∧ omission = f.presence.omission := by simpa [hform] using hform'
  obtain ⟨y, hy⟩ := exists_lookup_of_mem ((hv.names _).2 (List.mem_map_of_mem (f := Field.name) hf))
  obtain rfl : y = x :=
    Except.ok.inj ((fieldValue_ofFields _ p.absent (hfit.name ▸ hy)).symm.trans hx)
  have hne : f.presence = .sexpOption → y ≠ .none := by
    rintro hpresence rfl
    rw [hpresence] at homitted
    exact absurd homitted (by simp [Presence.omission, isOmitted])
  have htype := (hv.each f hf y hy).holds.value d hb hd hne
  -- what is written has not been stopped, so the writing may be one that halts
  have htrips : s.Trips True True l room c.plan y :=
    htype.trips hsound hopt (fun h => absurd trivial h) henv (hparts d _ (.value hd hform))
  exact (htrips.roundTrips hopt).takesBack

/-- The class of a record takes its fields. -/
theorem takes_of_hasEntries {catalog : Catalog} {Admits : Field Description → Prop}
    (hv : HasEntries catalog Admits Through room env fields instanceOf entries) {k : ClassInfo}
    (hk : instanceOf = some k) : k.Takes (fields.map Field.name) := by
  intro name
  rw [← hv.ordered k hk, hv.names]

end Typed

end Setting

/-! ## Histories and sessions -/

/-- **A record that was written is read unless a field is lost.** Whatever the deriver was asked for
before, what the converter of a record writes is read again, provided that the converters of the fields
take back what they write, if and only if no field is lost and its class takes the fields. If fields
are lost, just these are reported as missing. -/
theorem History.read_written_record {catalog : Catalog} {numbering : Nat → Description}
    {outside : Text → Option Custom} {failed : Bool} {d : Deriver}
    {converters : List (BoundType × Converter)} (hcatalog : catalog.AdmittedBy (.first outside))
    (h : History catalog numbering outside failed d converters) {fields : List (Field Description)}
    {instanceOf : Option ClassInfo} {extra : Bool} {env : List BoundType} {c : Converter}
    (hc : (.mk (.record fields instanceOf extra) env, c) ∈ converters) :
    ∃ (l : Ledger) (label : Text) (plans : List (FieldPlan Plan)),
      c.plan = .record ⟨label, instanceOf, extra, plans⟩ ∧
      List.Forall₂ (fun f p => p.Fits f ∧
        ∀ d q, FieldPlan.Part f p d q → Realises catalog l.Trusts (.mk d env) q) fields plans ∧
      ∀ s : Setting, s.ReadsWritten c label instanceOf fields plans := by
  obtain ⟨l, -, -, hholds⟩ := h.kept hcatalog
  obtain ⟨-, hreal⟩ := hholds _ _ hc
  cases hreal with
  | @mk _ _ params _ hlen henv hb =>
    obtain ⟨label, plans, hplan, hnodup, hlength, hbuilt⟩ := hb.of_record
    have hfields : List.Forall₂ (fun f p => BuiltField catalog l.Trusts params f p) fields plans :=
      List.forall₂_iff_zip.2 ⟨hlength, fun hmem => hbuilt _ _ hmem⟩
    refine ⟨l, label, plans, hplan, ?_, fun s => ?_⟩
    · exact hfields.imp fun f p hp => ⟨hp.1, fun d q hpart => .mk hlen henv (hp.2 d q hpart)⟩
    · exact Setting.readsWritten hplan hnodup (hfields.imp fun f p hp => hp.1)

/-- In a session, a record whose values are of the types of its fields is read again if and only if no
field is lost. -/
theorem Session.reads_written {numbering : Nat → Description} {catalog : Catalog}
    {deriver : Deriver} {converters : List (BoundType × Converter)}
    (h : Session numbering catalog deriver converters) {fields : List (Field Description)}
    {instanceOf : Option ClassInfo} {extra : Bool} {env : List BoundType} {c : Converter}
    (hc : (.mk (.record fields instanceOf extra) env, c) ∈ converters)
    {Through : DefinitionId → Nat → Prop} {room : Nat} {entries : List (Text × Value)}
    (hv : HasEntries catalog (Field.IsFaithful True) Through room env fields instanceOf entries)
    {switches : Switches}
    (hopt : ¬ (switches.writesOldOption = true ∧ switches.readsOldOption = false)) {t : Sexp}
    (ht : Setting.write ⟨catalog, deriver, switches⟩ c (.ofFields instanceOf entries) = .ok t)
    {node : Node} (hnode : node.sexp = t) : Setting.Reads ⟨catalog, deriver, switches⟩ c node ↔
      ∀ f ∈ fields, f.isLostFrom instanceOf (.ofFields instanceOf entries) = false := by
  obtain ⟨l, params, hsound, hsupplies, hbuilt⟩ := h.built hc switches
  obtain ⟨label, plans, hplan, hnodup, hlen, hparts⟩ := hbuilt.of_record
  have hfits : List.Forall₂ (fun f p => FieldPlan.Fits f p) fields plans :=
    List.forall₂_iff_zip.2 ⟨hlen, fun hmem => (hparts _ _ hmem).1⟩
  have htakes := Setting.takesFieldsBack_of_hasEntries (s := ⟨catalog, deriver, switches⟩) hopt hsound
    hsupplies ⟨hnodup, hlen, hparts⟩ hv
  rw [(Setting.readsWritten hplan hnodup hfits).accepts _ t ht (htakes label) node hnode]
  exact and_iff_left fun k hk => Setting.takes_of_hasEntries hv hk

/-! ### An integer that is left out below zero -/

namespace Lost

/-- An integer that must be there, and is left out if it is negative. -/
def reading : Field Description where
  name := "n"
  type := some (.primitive "int")
  presence := .required
  default := none
  statedRule := .never
  predicate := some ⟨"negative", Value.isNegative⟩

/-- The record of that field. -/
def readings : Description := .record [reading] none false

/-- The converter of that record. -/
def readingsConverter : Converter :=
  ⟨.derived 0, "record", .record ⟨"record", none, false,
    [⟨"n", .valued (Converter.ofPrimitive .int) .never, none, .ifHolds ⟨"negative", Value.isNegative⟩⟩]⟩⟩

theorem derive_readings :
    (Derivation.derive [] (.description 0 readings) []).result {} = .ok readingsConverter := by
  simp only [Derivation.result, Derivation.derive, Derivation.ofTargets, Derivation.ofTarget,
    Derivation.ofDescription, readings, reading, Description.build, Description.buildRecord,
    Description.buildFields, Description.buildField]
  rfl

theorem history_readings : ∃ deriver, History [] (fun _ => readings) (fun _ => none) false deriver
    [(.mk readings [], readingsConverter)] := by
  have hplain : (Ledger.first fun _ => none).Admits readings.givens :=
    Ledger.admits_of_isPlain _ (by decide)
  exact ⟨_, .derived .nil (.description 0 [] hplain) derive_readings .start⟩

/-- What is written of the record is read unless the integer is lost. -/
theorem read_written_record_readings : ∃ deriver,
    History [] (fun _ => readings) (fun _ => none) false deriver
      [(.mk readings [], readingsConverter)] ∧
    ∃ (l : Ledger) (label : Text) (plans : List (FieldPlan Plan)),
      readingsConverter.plan = .record ⟨label, none, false, plans⟩ ∧
      List.Forall₂ (fun f p => p.Fits f ∧
        ∀ d q, FieldPlan.Part f p d q → Realises [] l.Trusts (.mk d []) q) [reading] plans ∧
      ∀ s : Setting, s.ReadsWritten readingsConverter label none [reading] plans := by
  obtain ⟨deriver, hhistory⟩ := history_readings
  exact ⟨deriver, hhistory, hhistory.read_written_record (Catalog.admittedBy_nil _) List.mem_cons_self⟩

theorem hasEntries_reading {n : Int} {t : Text} (hn : Spelling.writeInt? n = some t) :
    HasEntries [] (Field.IsFaithful True) (fun _ _ => False) 0 [] [reading] none [("n", .int n)] := by
  refine ⟨List.nodup_singleton _, fun _ => Iff.rfl, by simp, ?_, fun f hf v hv => ?_⟩
  · intro f hf _
    obtain rfl := List.mem_singleton.1 hf
    exact Option.some_ne_none _
  · obtain rfl := List.mem_singleton.1 hf
    obtain rfl : .int n = v := Option.some.inj hv
    have hholds : reading.Holds (HasType [] (Field.IsFaithful True) (fun _ _ => False) 0 []) (.int n) :=
      ⟨fun hb => absurd hb (by decide), fun d _ hd _ => Option.some.inj hd ▸ .primitive rfl (.int hn)⟩
    have hdefault (dflt : Default) : reading.default ≠ some dflt := nofun
    exact ⟨hholds, 0, fun dflt _ hdflt => absurd hdflt (hdefault dflt),
      fun _ dflt _ _ _ hdflt => absurd hdflt (hdefault dflt)⟩

/-- **A negative integer is lost**: nothing is written of it, and what is written is not read, since
the integer is missing. -/
theorem negative_not_read : ∃ deriver,
    History [] (fun _ => readings) (fun _ => none) false deriver
      [(.mk readings [], readingsConverter)] ∧
    HasEntries [] (Field.IsFaithful True) (fun _ _ => False) 0 [] [reading] none [("n", .int (-3))] ∧
    let s : Setting := ⟨[], deriver, .standard⟩
    s.write readingsConverter (.record [("n", .int (-3))]) = .ok (.list []) ∧
    s.read readingsConverter (.list [] none) =
      .error (.about (.list [] none) (.missingFields "record_of_sexp" ["n"])) := by
  obtain ⟨deriver, hhistory⟩ := history_readings
  exact ⟨deriver, hhistory, hasEntries_reading (t := "-3") (by decide), rfl, rfl⟩

end Lost

end TypedSexp
