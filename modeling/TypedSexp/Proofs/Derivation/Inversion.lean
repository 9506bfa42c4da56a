import TypedSexp.Proofs.Derivation.Sound
/-!
# What a plan of a description is

A description that is no reference has plans of one shape only, and the parts of such a plan are
built from the parts of the description.
-/

namespace TypedSexp

variable {catalog : Catalog} {Trusted : List Converter → Prop} {params : List Converter}
  {d : Description} {plan : Plan}

theorem Built.of_primitive {name : Text} {p : Primitive} (hp : Primitive.ofName? name = some p)
    (h : Built catalog Trusted params (.primitive name) plan) : plan = .primitive p := by
  cases h with
  | primitive hp' =>
    obtain rfl := Option.some.inj (hp.symm.trans hp')
    rfl
  | variant hd _ _ _ _ => cases hd

theorem Built.of_list (h : Built catalog Trusted params (.list d) plan) :
    ∃ label c, plan = .list label c ∧ Built catalog Trusted params d c.plan := by
  cases h with
  | list h => exact ⟨_, _, rfl, h⟩
  | variant hd _ _ _ _ => cases hd

theorem Built.of_array {stated : Option ElementType}
    (h : Built catalog Trusted params (.array d stated) plan) :
    ∃ label c, plan = .array label (Description.storedAs d stated) c ∧
      Built catalog Trusted params d c.plan := by
  cases h with
  | array h => exact ⟨_, _, rfl, h⟩
  | variant hd _ _ _ _ => cases hd

theorem Built.of_option (h : Built catalog Trusted params (.option d) plan) :
    ∃ label c, plan = .option label c ∧ Built catalog Trusted params d c.plan := by
  cases h with
  | option _ h => exact ⟨_, _, rfl, h⟩
  | variant hd _ _ _ _ => cases hd

theorem Built.of_sealed (h : Built catalog Trusted params .sealed plan) :
    ∃ label, plan = .sealed label := by
  cases h with
  | sealed => exact ⟨_, rfl⟩
  | variant hd _ _ _ _ => cases hd

theorem Built.of_custom {name : Text} {k : Custom}
    (h : Built catalog Trusted params (.given (.ofCustom name k)) plan) : plan = .custom k := by
  generalize hc : Converter.ofCustom name k = c at h
  cases h with
  | @custom _ name' k' _ =>
    have hplan : Plan.custom k = .custom k' := congrArg Keyed.plan hc
    exact hplan.symm
  | variant hd _ _ _ _ => cases hd

theorem Built.of_product {parts : List Description}
    (h : Built catalog Trusted params (.product parts) plan) :
    ∃ label cs, plan = .tuple label cs ∧ parts.length = cs.length ∧
      ∀ d (c : Converter), (d, c) ∈ parts.zip cs → Built catalog Trusted params d c.plan := by
  cases h with
  | product hlen h => exact ⟨_, _, rfl, hlen, h⟩
  | variant hd _ _ _ _ => cases hd

theorem Built.of_record {fields : List (Field Description)} {instanceOf : Option ClassInfo}
    {extra : Bool} (h : Built catalog Trusted params (.record fields instanceOf extra) plan) :
    ∃ label plans, plan = .record ⟨label, instanceOf, extra, plans⟩ ∧
      (fields.map Field.name).Nodup ∧ fields.length = plans.length ∧
      ∀ f p, (f, p) ∈ fields.zip plans → BuiltField catalog Trusted params f p := by
  cases h with
  | record hnames hlen hfits hparts =>
    exact ⟨_, _, rfl, hnames, hlen, fun f p hmem => ⟨hfits f p hmem, fun d q => hparts f p d q hmem⟩⟩
  | variant hd _ _ _ _ => cases hd

/-- A description is a variant in one way only. -/
theorem Description.IsVariant.eq {folding folding' : Bool} {cs cs' : List (Constructor Description)}
    (h : d.IsVariant folding cs) (h' : d.IsVariant folding' cs') : folding = folding' ∧ cs = cs' := by
  have hinj : Function.Injective (Case.constructor : Constructor Description → Case Description) :=
    fun _ _ h => Case.constructor.inj h
  generalize hd : d = d' at h'
  cases h with
  | sum =>
    cases h' with
    | sum => exact ⟨rfl, List.map_injective_iff.2 hinj (Description.sum.inj hd)⟩
    | polyVariant _ => exact absurd hd (by simp)
  | polyVariant h =>
    cases h' with
    | sum => exact absurd hd (by simp)
    | polyVariant h' =>
      obtain rfl := Description.polyVariant.inj hd
      exact ⟨rfl, List.map_injective_iff.2 hinj (h.symm.trans h')⟩

theorem Built.of_variant {folding : Bool} {cs : List (Constructor Description)}
    (hd : d.IsVariant folding cs) (h : Built catalog Trusted params d plan) :
    ∃ label plans, plan = .variant label folding plans ∧ (cs.map Constructor.tag).Nodup ∧
      cs.length = plans.length ∧
      ∀ c p, (c, p) ∈ cs.zip plans → BuiltCase catalog Trusted params c p := by
  cases h with
  | variant hd' htags hlen hfits hparts =>
    obtain ⟨rfl, rfl⟩ := hd.eq hd'
    exact ⟨_, _, rfl, htags, hlen, fun c p hmem => ⟨hfits c p hmem, fun x q => hparts c p x q hmem⟩⟩
  | _ => cases hd

/-- Fields behind a tag are those of the constructor. -/
theorem CasePlan.Fits.inlineRecord {c : Constructor Description} {p : CasePlan Plan}
    {r : RecordPlan Plan} (h : p.Fits c) (hp : p.form = .record r) : ∃ x, c.inlineRecord = some x := by
  have hrecord : c.record ≠ none := by
    intro hnone
    cases hs : c.spliced with
    | true =>
      obtain ⟨_, _, -, hform⟩ := h.splice hnone hs
      exact absurd (hform.symm.trans hp) (by simp)
    | false =>
      by_cases hargs : c.args = []
      · exact absurd ((h.constant hnone hs hargs).symm.trans hp) (by simp)
      · obtain ⟨_, hform, -⟩ := h.arguments hnone hs hargs
        exact absurd (hform.symm.trans hp) (by simp)
  obtain ⟨-, -, x, -, hx, -⟩ := h.inline hrecord
  exact ⟨x, hx⟩

/-- They are a record of the class of the constructor, if it has one. -/
theorem Constructor.record_of_inlineRecord {c : Constructor Description}
    (h : c.inlineRecord = some d) :
    ∃ fields inner extra, d = .record fields (c.instanceOf <|> inner) extra := by
  unfold Constructor.inlineRecord at h
  split at h
  · exact ⟨_, _, _, (Option.some.inj h).symm⟩
  · exact nomatch h

end TypedSexp
