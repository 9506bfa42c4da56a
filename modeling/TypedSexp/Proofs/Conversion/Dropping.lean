import TypedSexp.Proofs.Conversion.RoundTrip
/-!
# Fields that are dropped

`Session.write_read_dropping`: a record whose fields have rules is written if their values can be
compared with the defaults. What is read back has equal values in the fields that are written or left
out in any case. A value that is left out because it equals the default comes back if and only if the
field reads as its default where it is left out (`Field.Restores`).
-/

namespace TypedSexp

/-- The tree of a record has an entry of the name. -/
def Sexp.Mentions (name : Text) : Sexp → Prop
  | .list entries => ∃ rest, .list (.atom name :: rest) ∈ entries
  | .atom _ => False

section

variable {s : Setting} {halts : Prop} {l : Ledger} {room levels : Nat} {env : List BoundType}
  {Admits : Field Description → Prop} {Through : DefinitionId → Nat → Prop} {f : Field Description}
  {p : FieldPlan Plan} {x a : Value} {dflt : Default}

/-! ## Absent values -/

/-- A value that is left out in any case is what the field reads as. -/
theorem FieldPlan.Fits.absent_of_omits (hp : p.Fits f)
    (hx : f.Holds (HasType s.catalog Admits Through room env) x) (homits : f.presence.Omits x)
    (htyped : f.presence ≠ .sexpBool → f.type ≠ none) : p.absent = some x := by
  have habsent := hp.absent
  obtain ⟨name, type, presence, default, statedRule, predicate⟩ := f
  cases presence with
  | required => exact homits.elim
  | option => exact homits.elim
  | sexpOption =>
    obtain rfl : x = .none := homits
    exact habsent
  | sexpList =>
    obtain rfl : x = .list [] := homits
    exact habsent
  | sexpBool =>
    obtain rfl : x = .bool false := homits
    exact habsent
  | sexpArray =>
    obtain ⟨e, rfl⟩ : ∃ e, x = .vector e [] := homits
    obtain ⟨t, rfl⟩ := Option.ne_none_iff_exists'.1 (htyped (by simp))
    obtain ⟨vs, hvs, _⟩ := (hx.value (.array t none) (by simp) rfl (by simp)).of_array
    obtain rfl := (Value.array.inj hvs).1
    exact habsent

/-- The default equals the absent value only if it is the absent value. -/
theorem FieldPlan.Fits.equal_absent_iff (hp : p.Fits f)
    (hd : f.Holds (HasType s.catalog Admits Through room env) dflt.value) (hdflt : f.default = some dflt)
    (ha : p.absent = some a) (htyped : f.presence ≠ .sexpBool → f.type ≠ none) :
    dflt.value.Equal a ↔ f.Restores := by
  have hrestores : f.Restores ↔ a = dflt.value := by
    rw [Field.Restores, ← hp.absent, ha, hdflt]
    exact Option.some_inj
  rw [hrestores]
  refine ⟨fun h => ?_, fun h => h ▸ .refl _⟩
  have hnothing (hf : f.presence = .sexpOption) (ht : f.type ≠ none)
      (hd : f.default = some dflt) : dflt.value = .none := hp.default_of_sexpOption hf ht hd
  rw [hp.absent] at ha
  obtain ⟨name, type, presence, default, statedRule, predicate⟩ := f
  obtain rfl : default = some dflt := hdflt
  cases presence with
  | required => exact (Option.some.inj ha).symm
  | option => exact (Option.some.inj ha).symm
  | sexpOption =>
    rw [hnothing rfl (htyped (by simp)) rfl]
    exact (Option.some.inj ha).symm
  | sexpList =>
    obtain ⟨t, rfl⟩ := Option.ne_none_iff_exists'.1 (htyped (by simp))
    obtain ⟨vs, hvs, _⟩ := (hd.value (.list t) (by simp) rfl (by simp)).of_list
    obtain rfl := Option.some.inj ha
    rw [hvs] at h ⊢
    cases h with
    | refl _ => rfl
    | nothing _ hx _ => simp [Value.content?] at hx
    | list hlen _ => rw [List.length_eq_zero_iff.1 hlen]
  | sexpArray =>
    obtain ⟨t, rfl⟩ := Option.ne_none_iff_exists'.1 (htyped (by simp))
    obtain ⟨vs, hvs, _⟩ := (hd.value (.array t none) (by simp) rfl (by simp)).of_array
    obtain rfl := Option.some.inj ha
    rw [hvs] at h ⊢
    cases vs with
    | nil => rfl
    | cons v vs =>
      cases h with
      | nothing _ _ hy => simp [Value.vector, Value.content?] at hy
  | sexpBool =>
    obtain ⟨b, hb⟩ := hd.flag rfl
    obtain rfl := Option.some.inj ha
    rw [hb] at h ⊢
    cases h with
    | refl _ => rfl
    | nothing _ hx _ => simp [Value.content?] at hx

/-! ## Fields -/

/-- What a field reads as, if its value is mentioned in the tree or not: an equal value if it is, or
is left out in any case; otherwise an equal value if and only if the field restores its default. -/
def Field.Returns (f : Field Description) (mentioned : Prop) (x y : Value) : Prop :=
  (mentioned ∨ f.presence.Omits x → x.Equal y) ∧
    (¬ mentioned → ¬ f.presence.Omits x → (x.Equal y ↔ f.Restores))

theorem fieldTrips_returns {params : List Converter} (hopt : s.ReadsOptions)
    (henv : Supplies s l env params) (hp : BuiltField s.catalog l.Foresees params f p)
    (hx : f.Each (s.TypedTrips True halts l Admits Through env) room x) (hrule : f.rule ≠ .ifPredicate)
    (htyped : f.presence ≠ .sexpBool → f.type ≠ none)
    (hcomparable : ∀ dflt, f.rule = .ifDefault → f.default = some dflt →
      ∃ b, x.same dflt.value = .ok b) :
    s.FieldTrips halts (fun entry => f.Returns (entry ≠ none) x) (x.depth + room) p x := by
  obtain ⟨below, hdefault, -⟩ := hx.default
  have hxt := hx.holds.mono fun _ _ h => h.1
  refine Setting.fieldTrips hopt henv hp hx hrule htyped (.inr trivial) hcomparable ?_ ?_ ?_
  · exact fun t w hlike => ⟨fun _ => hlike, fun h => absurd h (by simp)⟩
  · exact fun homits => ⟨fun _ => .refl x, fun _ h => absurd homits h⟩
  · intro dflt a hc hdflt hlike ha
    have hdt := (hdefault dflt hc hdflt).mono fun _ _ h => h.1
    have hiff := hp.1.equal_absent_iff hdt hdflt ha htyped
    refine ⟨fun h => ?_, fun _ _ => ⟨fun h => hiff.1 (hlike.symm.trans h), fun h => ?_⟩⟩
    · have habsent := hp.1.absent_of_omits hxt (h.resolve_left (by simp)) htyped
      obtain rfl := Option.some.inj (habsent.symm.trans ha)
      exact .refl x
    · exact hlike.trans (hiff.2 h)

/-! ## Records -/

/-- The entries that were written tell which fields the tree mentions. -/
theorem Setting.Written.mentions_iff {R : FieldPlan Plan → Option Sexp → Value → Prop}
    {plans : List (FieldPlan Plan)} {found : List (Text × Sexp)} (h : s.Written R plans found)
    (name : Text) :
    (Sexp.list (found.map Prod.snd)).Mentions name ↔ found.lookup name ≠ none := by
  constructor
  · rintro ⟨rest, hrest⟩
    obtain ⟨⟨n, t⟩, hmem, rfl⟩ := List.mem_map.1 hrest
    obtain ⟨rest', heq⟩ := h.entry _ hmem
    obtain ⟨rfl, -⟩ : name = n ∧ rest = rest' := by simpa using heq
    obtain ⟨t, ht⟩ := exists_lookup_of_mem (List.mem_map_of_mem (f := Prod.fst) hmem)
    rw [ht]
    exact Option.some_ne_none t
  · intro hne
    obtain ⟨t, ht⟩ := Option.ne_none_iff_exists'.1 hne
    obtain ⟨rest, hrest⟩ := h.entry _ (mem_of_lookup ht)
    obtain rfl : t = .list (.atom name :: rest) := hrest
    exact ⟨rest, List.mem_map_of_mem (f := Prod.snd) (mem_of_lookup ht)⟩

/-- The parts of the plan of a record whose entries are typed. -/
structure RecordParts (s : Setting) (l : Ledger) (params : List Converter)
    (fields : List (Field Description)) (plans : List (FieldPlan Plan)) : Prop where
  nodup : (fields.map Field.name).Nodup
  length : fields.length = plans.length
  built : ∀ f p, (f, p) ∈ fields.zip plans → BuiltField s.catalog l.Foresees params f p

section Records

variable {numbering : Nat → Description} {params : List Converter}
  {fields : List (Field Description)} {plans : List (FieldPlan Plan)}
  {instanceOf : Option ClassInfo} {entries : List (Text × Value)}

theorem RecordParts.names (h : RecordParts s l params fields plans) :
    plans.map FieldPlan.name = fields.map Field.name :=
  map_eq_map_of_zip h.length fun f p hmem => (h.built f p hmem).1.name

/-- A record is written only if its values can be compared with the defaults. -/
theorem comparable_of_writeFieldsAt (h : RecordParts s l params fields plans) {writer : Text}
    {ts : List Sexp}
    (hwrite : s.writeFieldsAt levels writer instanceOf (.ofFields instanceOf entries) plans = .ok ts) :
    ∀ f ∈ fields, f.Comparable entries := by
  have hnodup : (plans.map FieldPlan.name).Nodup := h.names ▸ h.nodup
  obtain ⟨found, -, hfound⟩ := Setting.entered_of_writeFieldsAt hnodup hwrite
  intro f hf x dflt hr hx hdflt
  obtain ⟨p, hmem⟩ := exists_zip_right h.length hf
  have hp := (h.built f p hmem).1
  rw [← hp.name] at hx
  obtain ⟨y, hy, hentry⟩ := hfound.written p (List.of_mem_zip hmem).2
  obtain rfl := Except.ok.inj ((Setting.fieldValue_ofFields writer p.absent hx).symm.trans hy)
  obtain ⟨b, hb, -⟩ := bind_eq_ok.1 hentry
  obtain ⟨dflt', hdflt', hdropping⟩ := hp.dropping_ifDefault hr
  obtain rfl := Option.some.inj (hdflt.symm.trans hdflt')
  rw [Setting.isDroppedAt_ifEqual hdropping] at hb
  cases hsame : x.same dflt.value with
  | error e => simp [hsame, Builtin.ofValue, Except.mapError] at hb
  | ok b => exact ⟨b, rfl⟩

/-- What is to be said of a field of a record that was written, and of what it reads as. -/
def ReturnsIn (fields : List (Field Description)) (plans : List (FieldPlan Plan))
    (entries : List (Text × Value)) (p : FieldPlan Plan) (entry : Option Sexp) (y : Value) : Prop :=
  ∃ f x, (f, p) ∈ fields.zip plans ∧ entries.lookup f.name = some x ∧ f.Returns (entry ≠ none) x y

theorem RecordParts.fieldTrips (h : RecordParts s l params fields plans) (hopt : s.ReadsOptions)
    (hsound : s.Sound numbering l) (henv : Supplies s l env params)
    (haccepts : ¬ halts → ∀ id count, Through id count → s.catalog.Accepts id count)
    (hv : HasEntries s.catalog (Field.IsFaithful True) Through room env fields instanceOf entries)
    (hrules : ∀ f ∈ fields, f.rule ≠ .ifPredicate)
    (hcomparable : ∀ f ∈ fields, f.Comparable entries) :
    ∀ p ∈ plans, ∃ x, entries.lookup p.name = some x ∧
      s.FieldTrips halts (ReturnsIn fields plans entries p) (Value.entryDepths entries + room) p x := by
  intro p hp
  obtain ⟨f, hmem⟩ := exists_zip_left h.length hp
  have hf := (List.of_mem_zip hmem).1
  obtain ⟨x, hx⟩ := exists_lookup_of_mem ((hv.names _).2 (List.mem_map_of_mem (f := Field.name) hf))
  have htyped : f.Each (s.TypedTrips True halts l (Field.IsFaithful True) Through env) room x :=
    (hv.each f hf x hx).mono fun _ _ _ ht => ⟨ht, ht.trips hsound hopt haccepts⟩
  have htrips := fieldTrips_returns hopt henv (h.built f p hmem) htyped (hrules f hf) (hv.typed f hf)
    fun dflt hr hdflt => hcomparable f hf x dflt hr hx hdflt
  have hdepth := Value.depth_le_entryDepths hx
  refine ⟨x, (h.built f p hmem).1.name ▸ hx, ?_⟩
  exact (htrips.mono (by omega)).imp fun _ _ hreturns => ⟨f, x, hmem, hx, hreturns⟩

/-- **A record is written if and only if its values can be compared with the defaults, and reads as a
record whose fields return.** -/
theorem record_returns (hopt : s.ReadsOptions) (hsound : s.Sound numbering l)
    (haccepts : ∀ id count, Through id count → s.catalog.Accepts id count)
    (henv : Supplies s l env params) (h : RecordParts s l params fields plans)
    (hv : HasEntries s.catalog (Field.IsFaithful True) Through room env fields instanceOf entries)
    (hrules : ∀ f ∈ fields, f.rule ≠ .ifPredicate) (label : Text) (extra : Bool)
    (hle : Value.entryDepths entries + room ≤ levels) :
    ((∃ t, s.writeAt levels (.record ⟨label, instanceOf, extra, plans⟩)
        (.ofFields instanceOf entries) = .ok t) ↔ ∀ f ∈ fields, f.Comparable entries) ∧
      ∀ t, s.writeAt levels (.record ⟨label, instanceOf, extra, plans⟩)
        (.ofFields instanceOf entries) = .ok t → ∀ below node, node.sexp = t →
        node.sexp.census.depth ≤ below + 1 → ∃ ws,
          s.readAt below (.record ⟨label, instanceOf, extra, plans⟩) node =
            .ok (.ofFields instanceOf ws) ∧
          ∀ f ∈ fields, ∃ x y, entries.lookup f.name = some x ∧ ws.lookup f.name = some y ∧
            f.Returns (t.Mentions f.name) x y := by
  have hcomparable : ∀ t, s.writeAt levels (.record ⟨label, instanceOf, extra, plans⟩)
      (.ofFields instanceOf entries) = .ok t → ∀ f ∈ fields, f.Comparable entries := by
    intro t ht
    rw [Setting.writeAt, Plan.write, Plan.writeRecord] at ht
    cases hts : s.writeFieldsAt levels (Converter.writerName label) instanceOf
        (.ofFields instanceOf entries) plans with
    | error e => simp [hts, bind, Except.bind] at ht
    | ok ts => exact comparable_of_writeFieldsAt h hts
  have hnodup : (plans.map FieldPlan.name).Nodup := h.names ▸ h.nodup
  have hperm : ∀ k, instanceOf = some k → k.fields.Perm (plans.map FieldPlan.name) := by
    intro k hk
    rw [← hv.ordered k hk, h.names]
    exact (List.perm_ext_iff_of_nodup hv.nodup h.nodup).2 hv.names
  have hwritten (hc : ∀ f ∈ fields, f.Comparable entries) :=
    (Setting.record_trips (r := ⟨label, instanceOf, extra, plans⟩) hnodup hperm
      (h.fieldTrips hopt hsound henv (fun _ => haccepts) hv hrules hc) hle).exists_ok not_false
  have hall : (∃ t, s.writeAt levels (.record ⟨label, instanceOf, extra, plans⟩)
      (.ofFields instanceOf entries) = .ok t) → ∀ f ∈ fields, f.Comparable entries := by
    rintro ⟨t, ht⟩
    exact hcomparable t ht
  refine ⟨⟨hall, fun hc => ?_⟩, fun t ht below node hnode hdepth => ?_⟩
  · obtain ⟨t, ht, -⟩ := hwritten hc
    exact ⟨t, ht⟩
  · obtain ⟨t', ht', found, hfound, hentries, hback⟩ := hwritten (hcomparable t ht)
    obtain rfl := Except.ok.inj (ht'.symm.trans ht)
    subst hfound
    obtain ⟨ws, hws, -, -, hreads⟩ := hback below node hnode hdepth
    refine ⟨ws, hws, fun f hf => ?_⟩
    obtain ⟨p, hmem⟩ := exists_zip_right h.length hf
    obtain ⟨y, hy, f', x, hmem', hx, hreturns⟩ := hreads p (List.of_mem_zip hmem).2
    have hname : f'.name = f.name :=
      (h.built f' p hmem').1.name.symm.trans (h.built f p hmem).1.name
    obtain rfl : f' = f := List.inj_on_of_nodup_map h.nodup (List.of_mem_zip hmem').1 hf hname
    refine ⟨x, y, hx, (h.built f' p hmem).1.name ▸ hy, ?_⟩
    rw [hentries.mentions_iff, ← (h.built f' p hmem).1.name]
    exact hreturns

end Records

end

/-! ## Sessions -/

/-- **Writing a record leaves out what its rules say.** A record whose fields have rules that compare
with defaults is written if and only if the comparisons have answers, if derivation accepts the
definitions that its values go through. What is read back has an equal value in every field that is
mentioned or left out in any case; a value that only the rule leaves out comes back if and only if the
field reads as its default where it is left out. So it is for any number of levels that the value and
the defaults that are compared by their trees, one inside the other, need. -/
theorem Session.write_read_dropping {numbering : Nat → Description} {catalog : Catalog}
    {deriver : Deriver} {converters : List (BoundType × Converter)}
    (h : Session numbering catalog deriver converters) {fields : List (Field Description)}
    {instanceOf : Option ClassInfo} {extra : Bool} {env : List BoundType} {c : Converter}
    (hc : (.mk (.record fields instanceOf extra) env, c) ∈ converters)
    {Through : DefinitionId → Nat → Prop}
    (haccepts : ∀ id count, Through id count → catalog.Accepts id count) {room levels : Nat}
    {entries : List (Text × Value)}
    (hv : HasEntries catalog (Field.IsFaithful True) Through room env fields instanceOf entries)
    (hrules : ∀ f ∈ fields, f.rule ≠ .ifPredicate)
    (hlevels : (Value.ofFields instanceOf entries).depth + room ≤ levels) {switches : Switches}
    (hopt : ¬ (switches.writesOldOption = true ∧ switches.readsOldOption = false)) :
    ((∃ t, Setting.writeWithin ⟨catalog, deriver, switches⟩ levels c.plan
          (.ofFields instanceOf entries) = .ok t) ↔ ∀ f ∈ fields, f.Comparable entries) ∧
      ∀ t, Setting.writeWithin ⟨catalog, deriver, switches⟩ levels c.plan
          (.ofFields instanceOf entries) = .ok t → ∀ node, node.sexp = t → ∃ ws,
          Setting.read ⟨catalog, deriver, switches⟩ c node = .ok (.ofFields instanceOf ws) ∧
          ∀ f ∈ fields, ∃ x y, entries.lookup f.name = some x ∧ ws.lookup f.name = some y ∧
            f.Returns (t.Mentions f.name) x y := by
  obtain ⟨l, params, hsound, hsupplies, hbuilt⟩ := h.built hc switches
  obtain ⟨identity, name, plan⟩ := c
  obtain ⟨label, plans, rfl, hnodup, hlen, hparts⟩ := hbuilt.of_record
  rw [Value.depth_ofFields] at hlevels
  obtain ⟨levels, rfl⟩ : ∃ n, levels = n + 1 := ⟨levels - 1, by omega⟩
  obtain ⟨hwrites, hreads⟩ := record_returns (s := ⟨catalog, deriver, switches⟩) hopt hsound haccepts
    hsupplies ⟨hnodup, hlen, hparts⟩ hv hrules label extra
    (show Value.entryDepths entries + room ≤ levels by omega)
  rw [Setting.writeWithin_of_settled fun _ => rfl]
  refine ⟨hwrites, fun t ht node hnode => ?_⟩
  have hpos := Setting.census_depth_pos node.sexp
  rw [Setting.read_of_settled fun _ => rfl]
  exact hreads t ht _ node hnode (by omega)

/-! ### A list with a default -/

namespace Dropping

/-- A list of integers that is left out if it equals its default, which is not empty. -/
def listed : Field Description where
  name := "l"
  type := some (.primitive "int")
  presence := .sexpList
  default := some ⟨.list [.int 1, .int 2], 0⟩
  statedRule := .ifDefault
  predicate := none

/-- The record of that field. -/
def listing : Description := .record [listed] none false

/-- The plan of that field. -/
def listedPlan : FieldPlan Plan where
  name := "l"
  form := .valued ⟨.derived 0, "int list", .list "list" (Converter.ofPrimitive .int)⟩ .empty
  absent := some (.list [])
  dropping := .ifEqual (.list [.int 1, .int 2])

/-- The converter of that record. -/
def listingConverter : Converter :=
  ⟨.derived 1, "record", .record ⟨"record", none, false, [listedPlan]⟩⟩

/-- The value of that record in which the list is the default. -/
def oneTwo : Value := .record [("l", .list [.int 1, .int 2])]

theorem derive_listing :
    (Derivation.derive [] (.description 0 listing) [] {}).1 = .ok listingConverter := by
  simp only [Derivation.derive, Derivation.ofTargets, Derivation.ofTarget, Derivation.ofDescription,
    listing, listed, Description.build, Description.buildRecord, Description.buildFields,
    Description.buildField]
  rfl

theorem session_listing : ∃ deriver,
    Session (fun _ => listing) [] deriver [(.mk listing [], listingConverter)] := by
  have hmeans : (Target.description 0 listing).Means (fun _ => listing) [] [] (.mk listing []) :=
    .description 0 [] rfl
  have h := Session.derive .nil hmeans .start
  rw [derive_listing] at h
  exact ⟨_, h⟩

theorem same_oneTwo : Value.same (.list [.int 1, .int 2]) (.list [.int 1, .int 2]) = .ok true := by
  simp [Value.same, Value.eq, Value.eqWith, Value.eqAll, Value.isElementwise, Value.eqNumber,
    Value.isSameNan, Value.numeral?, Numeral.eq]
  rfl

theorem write_oneTwo (deriver : Deriver) :
    Setting.write ⟨[], deriver, .standard⟩ listingConverter oneTwo = .ok (.list []) := by
  have hvalue : fieldValue (Converter.writerName "record") none listedPlan.name listedPlan.absent
      oneTwo = .ok (.list [.int 1, .int 2]) := rfl
  rw [Setting.write_of_settled fun _ => rfl, listingConverter, Setting.writeAt, Plan.write,
    Plan.writeRecord]
  have hfields (levels : Nat) := @Setting.writeFieldsAt_cons ⟨[], deriver, .standard⟩ _ _ _ levels
    _ _ [] hvalue
  simp only [Setting.writeFieldsAt] at hfields
  rw [hfields, Setting.writeEntryAt, Setting.isDroppedAt_ifEqual rfl, same_oneTwo, Plan.writeFields]
  rfl

theorem int_hasType {n : Int} {t : Text} (hn : Spelling.writeInt? n = some t) :
    HasType [] (Field.IsFaithful True) (fun _ _ => False) 0 [] (.primitive "int") (.int n) :=
  .primitive rfl (.int hn)

theorem oneTwo_hasType :
    HasType [] (Field.IsFaithful True) (fun _ _ => False) 0 [] (.list (.primitive "int"))
      (.list [.int 1, .int 2]) := by
  refine .list fun v hv => ?_
  rcases List.mem_pair.1 hv with rfl | rfl
  · exact int_hasType (t := "1") (by decide)
  · exact int_hasType (t := "2") (by decide)

theorem oneTwo_hasEntries : HasEntries [] (Field.IsFaithful True) (fun _ _ => False) 0 [] [listed] none
    [("l", .list [.int 1, .int 2])] := by
  refine ⟨by decide, fun _ => Iff.rfl, by simp, ?_, fun f hf v hv => ?_⟩
  · intro f hf _
    obtain rfl := List.mem_singleton.1 hf
    exact Option.some_ne_none _
  · obtain rfl := List.mem_singleton.1 hf
    obtain rfl : .list [.int 1, .int 2] = v := Option.some.inj hv
    have hholds : listed.Holds (HasType [] (Field.IsFaithful True) (fun _ _ => False) 0 [])
        (.list [.int 1, .int 2]) :=
      ⟨fun hb => absurd hb (by decide), fun d _ hd _ => Option.some.inj hd ▸ oneTwo_hasType⟩
    refine ⟨hholds, 0, fun dflt _ hdflt => Option.some.inj hdflt ▸ hholds, fun d dflt hr => ?_⟩
    exact absurd hr (by decide)

/-- The list that equals its default is written if and only if they can be compared, and what is read
is as the rules say. -/
theorem write_read_dropping_listing : ∃ deriver,
    ((∃ t, Setting.write ⟨[], deriver, .standard⟩ listingConverter oneTwo = .ok t) ↔
        ∀ f ∈ [listed], f.Comparable [("l", .list [.int 1, .int 2])]) ∧
      ∀ t, Setting.write ⟨[], deriver, .standard⟩ listingConverter oneTwo = .ok t →
        ∀ node, node.sexp = t → ∃ ws,
          Setting.read ⟨[], deriver, .standard⟩ listingConverter node = .ok (.ofFields none ws) ∧
          ∀ f ∈ [listed], ∃ x y,
            List.lookup f.name [(("l" : Text), Value.list [.int 1, .int 2])] = some x ∧
            ws.lookup f.name = some y ∧ f.Returns (t.Mentions f.name) x y := by
  obtain ⟨deriver, hsession⟩ := session_listing
  have hrules : ∀ f ∈ [listed], f.rule ≠ .ifPredicate := by
    intro f hf
    obtain rfl := List.mem_singleton.1 hf
    decide
  have hlevels : oneTwo.depth + 0 ≤ oneTwo.depth + Catalog.size [] + listingConverter.plan.size := by
    omega
  exact ⟨deriver, hsession.write_read_dropping List.mem_cons_self (fun _ _ hthrough => hthrough.elim)
    oneTwo_hasEntries hrules hlevels (by decide)⟩

/-- The list that equals its default is left out, and the field reads as the empty list. -/
theorem dropped_default_not_restored : ∃ deriver,
    Session (fun _ => listing) [] deriver [(.mk listing [], listingConverter)] ∧
    HasEntries [] (Field.IsFaithful True) (fun _ _ => False) 0 [] [listed] none
      [("l", .list [.int 1, .int 2])] ∧
    Setting.write ⟨[], deriver, .standard⟩ listingConverter oneTwo = .ok (.list []) ∧
    Setting.read ⟨[], deriver, .standard⟩ listingConverter (.list [] none) =
      .ok (.record [("l", .list [])]) ∧
    ¬ (Value.list [.int 1, .int 2]).Equal (.list []) := by
  obtain ⟨deriver, hsession⟩ := session_listing
  refine ⟨deriver, hsession, oneTwo_hasEntries, write_oneTwo deriver, rfl, fun h => ?_⟩
  cases h with
  | nothing _ hx _ => simp [Value.content?] at hx
  | list hlen _ => simp at hlen

end Dropping

end TypedSexp
