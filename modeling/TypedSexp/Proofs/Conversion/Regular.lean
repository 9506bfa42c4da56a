import TypedSexp.Proofs.Conversion.Absence
import TypedSexp.Proofs.Conversion.Taken
import TypedSexp.Proofs.Conversion.Typed
import TypedSexp.Proofs.Derivation.Parts
import TypedSexp.Proofs.Description.Regular
/-!
# Plans of regular descriptions

A plan that is built from a regular description takes the values of the description
(`HasType.takes`), and it is regular itself: `Setting.Regular` says what reading with it needs, without
mentioning descriptions (`regular_of_realises`). What stands behind its links is regular as well
(`Regular.resolve`).
-/

namespace TypedSexp

/-! ## Fields -/

namespace FieldPlan.Fits

variable {f : Field Description} {p : FieldPlan Plan} {x : Value}

theorem flag_iff (h : p.Fits f) : p.form = .flag ↔ f.presence = .sexpBool := by
  refine ⟨fun hform => ?_, h.flag⟩
  by_contra hb
  obtain ⟨d, c, -, hvalued⟩ := h.valued hb
  exact absurd (hform.symm.trans hvalued) (by simp)

/-- A field without a rule keeps every value of the kind that its presence asks for. -/
theorem keeps (h : p.Fits f) (hr : f.rule = .never)
    (hflag : f.presence = .sexpBool → ∃ b, x = .bool b)
    (hlist : f.presence = .sexpList → ∃ vs, x = .list vs)
    (harray : f.presence = .sexpArray → ∃ vs, x = .vector f.stored vs) : p.Keeps x := by
  refine ⟨h.dropping_never hr, fun hform => ?_, fun c omission hform => ?_⟩
  · have hb := h.flag_iff.1 hform
    refine ⟨?_, hflag hb⟩
    rw [h.absent, Description.absentValue, hb]
  · obtain ⟨hb, rfl, -⟩ := h.of_valued hform
    rw [h.absent, Description.absentValue]
    cases hp : f.presence with
    | required => exact ⟨false, rfl, by simp⟩
    | option => exact ⟨false, rfl, by simp⟩
    | sexpBool => exact absurd hp hb
    | sexpOption =>
      refine ⟨x.isNone, ?_, fun hx => ?_⟩
      · cases x <;> rfl
      · cases x <;> first | rfl | exact absurd hx (by simp [Value.isNone])
    | sexpList =>
      obtain ⟨vs, rfl⟩ := hlist hp
      refine ⟨vs.length == 0, rfl, fun hvs => ?_⟩
      obtain rfl : vs = [] := by simpa using hvs
      rfl
    | sexpArray =>
      obtain ⟨vs, rfl⟩ := harray hp
      refine ⟨vs.length == 0, rfl, fun hvs => ?_⟩
      obtain rfl : vs = [] := by simpa using hvs
      rfl

end FieldPlan.Fits

/-! ## Values of a regular description -/

section

variable {numbering : Nat → Description} {s : Setting} {l : Ledger} {room : Nat}
  {halts : Prop} {env : List BoundType} {Reaches : DefinitionId → List BoundType → Prop}
  {Through : DefinitionId → Nat → Prop} {d : Description} {v : Value}

theorem instanceOf_none_of_zip {cs : List (Constructor Description)} {plans : List (CasePlan Plan)}
    (hlen : cs.length = plans.length) (hfits : ∀ c p, (c, p) ∈ cs.zip plans → p.Fits c)
    (hclass : ∀ c ∈ cs, c.instanceOf = none) : ∀ p ∈ plans, p.instanceOf = none := by
  intro p hp
  obtain ⟨c, hmem⟩ := exists_zip_left hlen hp
  rw [(hfits c p hmem).instanceOf]
  exact hclass c (List.of_mem_zip hmem).1

/-- The types inside a regular variant, given its constructors. -/
theorem Description.Regular.of_variant {catalog : Catalog} {folding : Bool}
    {cs : List (Constructor Description)} (hd : d.IsVariant folding cs)
    (h : d.Regular catalog Reaches Through env) : (∀ c ∈ cs, c.instanceOf = none) ∧
      (∀ c ∈ cs, ∀ x ∈ c.args, x.Regular catalog Reaches Through env) ∧
      ∀ c ∈ cs, ∀ r, c.inlineRecord = some r → r.Regular catalog Reaches Through env := by
  cases h with
  | variant hd' hclass hargs hrecord =>
    obtain ⟨-, rfl⟩ := hd.eq hd'
    exact ⟨hclass, hargs, hrecord⟩
  | _ => cases hd

/-- If the description is regular, each plan that is built from it takes the value. -/
def TakesAs (s : Setting) (halts : Prop) (l : Ledger) (Reaches : DefinitionId → List BoundType → Prop)
    (Through : DefinitionId → Nat → Prop) (env : List BoundType) (d : Description) (v : Value) : Prop :=
  ∀ {params : List Converter} {plan : Plan}, Supplies s l env params →
    Built s.catalog l.Foresees params d plan → d.Regular s.catalog Reaches Through env →
      s.Takes halts l plan v

/-- A typed value of a field is of the kind that the presence of the field asks for. -/
theorem FieldPlan.Fits.keeps_of_typed {Admits : Field Description → Prop} {catalog : Catalog}
    {f : Field Description} {p : FieldPlan Plan} {x : Value} (hp : p.Fits f) (hr : f.rule = .never)
    (htyped : f.presence ≠ .sexpBool → f.type ≠ none)
    (hflag : f.presence = .sexpBool → ∃ b, x = .bool b)
    (hvalue : ∀ d, f.presence ≠ .sexpBool → f.valueType = some d →
      (f.presence = .sexpOption → x ≠ .none) → HasType catalog Admits Through room env d x) :
    p.Keeps x := by
  refine hp.keeps hr hflag (fun hlist => ?_) fun harray => ?_
  · obtain ⟨t, ht⟩ := Option.ne_none_iff_exists'.1 (htyped (by simp [hlist]))
    have hd : f.valueType = some (.list t) := by simp [Field.valueType, ht, hlist, Presence.valueType]
    obtain ⟨vs, rfl, -⟩ := (hvalue _ (by simp [hlist]) hd (by simp [hlist])).of_list
    exact ⟨vs, rfl⟩
  · obtain ⟨t, ht⟩ := Option.ne_none_iff_exists'.1 (htyped (by simp [harray]))
    have hd : f.valueType = some (.array t none) := by
      simp [Field.valueType, ht, harray, Presence.valueType]
    obtain ⟨vs, rfl, -⟩ := (hvalue _ (by simp [harray]) hd (by simp [harray])).of_array
    exact ⟨vs, by simp [Field.stored, ht]⟩

theorem takes_record {fields : List (Field Description)} {instanceOf : Option ClassInfo}
    {extra : Bool} {entries : List (Text × Value)} (hnodup : (entries.map Prod.fst).Nodup)
    (hnames : ∀ name, name ∈ entries.map Prod.fst ↔ name ∈ fields.map Field.name)
    (hkeeps : ∀ f ∈ fields, ∀ (p : FieldPlan Plan) x, p.Fits f → f.rule = .never →
      entries.lookup f.name = some x → p.Keeps x)
    (h : ∀ f ∈ fields, ∀ d x, f.presence ≠ .sexpBool → f.valueType = some d →
      entries.lookup f.name = some x → (f.presence = .sexpOption → x ≠ .none) →
      TakesAs s halts l Reaches Through env d x) :
    TakesAs s halts l Reaches Through env (.record fields instanceOf extra)
      (.ofFields instanceOf entries) := by
  intro params plan henv hb hreg
  obtain ⟨rfl, hrules, -, htypes⟩ := hreg.of_record
  obtain ⟨label, plans, rfl, hfields, hlen, hbuilt⟩ := hb.of_record
  have hplans : plans.map FieldPlan.name = fields.map Field.name :=
    map_eq_map_of_zip hlen fun f p hmem => (hbuilt f p hmem).1.name
  have hperm : (entries.map Prod.fst).Perm (plans.map FieldPlan.name) := by
    rw [hplans, List.perm_ext_iff_of_nodup hnodup hfields]
    exact hnames
  refine .record rfl (hplans ▸ hfields) hperm (fun p hp x hx => ?_)
    fun p hp x c omission hx hform homit => ?_
  all_goals
    obtain ⟨f, hmem⟩ := exists_zip_left hlen hp
    have hf := (List.of_mem_zip hmem).1
    obtain ⟨hfits, hparts⟩ := hbuilt f p hmem
    rw [hfits.name] at hx
  · exact hkeeps f hf p x hfits (hrules f hf) hx
  · obtain ⟨hb, rfl, d, hd⟩ := hfits.of_valued hform
    have hne : f.presence = .sexpOption → x ≠ .none := by
      rintro hoption rfl
      rw [hoption] at homit
      exact absurd homit (by simp [Presence.omission, isOmitted])
    exact h f hf d x hb hd hx hne henv (hparts d _ (.value hd hform))
      (Description.Regular.valueType (htypes f hf) hb hd)

theorem takes_variant {folding : Bool} {cs : List (Constructor Description)}
    {c : Constructor Description} {vs : List Value} (hd : d.IsVariant folding cs) (hc : c ∈ cs)
    (hclass : c.OwnsClass cs) (hr : c.record = none) (hs : c.spliced = false)
    (hlen : c.args.length = vs.length)
    (h : ∀ x v, (x, v) ∈ c.args.zip vs → TakesAs s halts l Reaches Through env x v) :
    TakesAs s halts l Reaches Through env d (.ofArguments c.tag c.instanceOf vs) := by
  intro params plan henv hb hreg
  obtain ⟨label, plans, rfl, htags, hcount, hbuilt⟩ := hb.of_variant hd
  obtain ⟨hnone, hargs, -⟩ := hreg.of_variant hd
  obtain ⟨hnodup, p, hp, htag, hinstance, -, hfits, hparts⟩ :=
    exists_casePlan htags hcount hbuilt hc hclass
  rw [hnone c hc] at hinstance ⊢
  rw [← htag]
  by_cases hempty : c.args = []
  · obtain rfl : vs = [] := List.length_eq_zero_iff.1 (by rw [← hlen, hempty]; rfl)
    exact .constant hnodup hp hinstance (hfits.constant hr hs hempty)
  · obtain ⟨ks, hform, hks⟩ := hfits.arguments hr hs hempty
    refine .arguments hnodup hp hinstance hform (hks.symm.trans hlen) fun k v hmem => ?_
    obtain ⟨x, hk, hv⟩ := exists_zip_middle hks hlen hmem
    exact h x v hv henv (hparts x _ (.argument hform hk)) (hargs c hc x (List.of_mem_zip hk).1)

theorem takes_spliced {x : Description} {folding : Bool} {cs : List (Constructor Description)}
    {c : Constructor Description} {vs : List Value} (hd : d.IsVariant folding cs) (hc : c ∈ cs)
    (hclass : c.OwnsClass cs) (hr : c.record = none) (hs : c.spliced = true) (ha : c.args = [x])
    (h : ∀ v ∈ vs, TakesAs s halts l Reaches Through env x v) :
    TakesAs s halts l Reaches Through env d (.ofArguments c.tag c.instanceOf [.list vs]) := by
  intro params plan henv hb hreg
  obtain ⟨label, plans, rfl, htags, hcount, hbuilt⟩ := hb.of_variant hd
  obtain ⟨hnone, hargs, -⟩ := hreg.of_variant hd
  obtain ⟨hnodup, p, hp, htag, hinstance, -, hfits, hparts⟩ :=
    exists_casePlan htags hcount hbuilt hc hclass
  rw [hnone c hc] at hinstance ⊢
  rw [← htag]
  obtain ⟨_, k, _, hform⟩ := hfits.splice hr hs
  exact .spliced hnodup hp hinstance hform fun v hv =>
    h v hv henv (hparts x _ (.element hform ha)) (hargs c hc x (by simp [ha]))

theorem takes_inline {r : Description} {folding : Bool} {cs : List (Constructor Description)}
    {c : Constructor Description} (hd : d.IsVariant folding cs) (hc : c ∈ cs)
    (hclass : c.OwnsClass cs) (hr : c.inlineRecord = some r)
    (h : TakesAs s halts l Reaches Through env r v) :
    TakesAs s halts l Reaches Through env d (.ofInline c.tag c.instanceOf v) := by
  intro params plan henv hb hreg
  obtain ⟨label, plans, rfl, htags, hcount, hbuilt⟩ := hb.of_variant hd
  obtain ⟨hnone, -, hrecord⟩ := hreg.of_variant hd
  obtain ⟨hnodup, p, hp, htag, hinstance, -, hfits, hparts⟩ :=
    exists_casePlan htags hcount hbuilt hc hclass
  rw [hnone c hc] at hinstance ⊢
  rw [← htag]
  have hne : c.record ≠ none := by
    intro hnone
    simp [Constructor.inlineRecord, hnone] at hr
  obtain ⟨_, _, _, plan, _, hform⟩ := hfits.inline hne
  exact .inline hnodup hp hinstance hform
    (h henv (hparts r _ (.fields hform hr)) (hrecord c hc r hr))

theorem takes_parameter {env' : List BoundType} {index : Int} {name : Option Text}
    (ht : env[index.toNat]? = some (.mk d env')) (h : TakesAs s halts l Reaches Through env' d v) :
    TakesAs s halts l Reaches Through env (.parameter index name) v := by
  intro params plan henv hb hreg
  obtain ⟨params', henv', hbuilt⟩ := built_parameter ht henv hb
  exact h henv' hbuilt (hreg.of_parameter ht)

theorem takes_definition (hsound : s.Sound numbering l)
    (hcatalog : s.catalog.IsRegular Reaches Through) {id : DefinitionId} {body : Description}
    (hb : s.catalog.body? id = some body) (haccepts : ¬ halts → s.catalog.Accepts id env.length)
    (h : TakesAs s halts l Reaches Through env body v) :
    TakesAs s halts l Reaches Through env (.recursive id none) v := by
  intro params plan henv hbuilt hreg
  have hbody := hcatalog id env body hreg.of_definition hb
  rcases built_definition hsound hb haccepts henv hbuilt with
    hbuilt | ⟨cell, rfl, ⟨hhalts, e, he⟩ | ⟨c, hc, hdefines, hbuilt⟩⟩
  · exact h henv hbuilt hbody
  · exact .refused hhalts he
  · exact .link hc hdefines (h henv hbuilt hbody)

/-- **A plan takes the values of the regular description that it is built from.** -/
theorem HasType.takes (hsound : s.Sound numbering l) (hcatalog : s.catalog.IsRegular Reaches Through)
    (haccepts : ¬ halts → ∀ id count, Through id count → s.catalog.Accepts id count)
    (h : HasType s.catalog (fun f => f.rule = .never) Through room env d v) :
    TakesAs s halts l Reaches Through env d v := by
  induction h with
  | primitive hp hv =>
    intro params plan _ hb hreg
    obtain rfl := hb.of_primitive hp
    refine .primitive ?_ hv
    rintro rfl
    exact hreg.of_primitive hp
  | product hlen _ ih =>
    intro params plan henv hb hreg
    obtain ⟨label, cs, rfl, hcs, hparts⟩ := hb.of_product
    refine .tuple (hcs.symm.trans hlen) fun c v hmem => ?_
    obtain ⟨d, hc, hv⟩ := exists_zip_middle hcs hlen hmem
    exact ih d v hv henv (hparts d c hc) (hreg.of_product d (List.of_mem_zip hc).1)
  | list _ ih =>
    intro params plan henv hb hreg
    obtain ⟨label, c, rfl, hc⟩ := hb.of_list
    exact .list fun v hv => ih v hv henv hc hreg.of_list
  | array hstored _ ih =>
    intro params plan henv hb hreg
    obtain ⟨rfl, helement⟩ := hreg.of_array
    obtain ⟨label, c, rfl, hc⟩ := hb.of_array
    exact .array helement.isFloat_storedAs hstored fun v hv => ih v hv henv hc helement
  | nothing =>
    intro params plan _ hb _
    obtain ⟨label, c, rfl, _⟩ := hb.of_option
    exact .nothing
  | something hne _ ih =>
    intro params plan henv hb hreg
    obtain ⟨label, c, rfl, hc⟩ := hb.of_option
    exact .something hne (ih henv hc hreg.of_option)
  | record _ _ hnodup hnames _ htyped hflag hvalue _ _ _ ih _ =>
    refine takes_record hnodup hnames (fun f hf p x hfits hr hx => ?_) ih
    exact hfits.keeps_of_typed hr (htyped f hf) (hflag f hf x · hx) (hvalue f hf · x · · hx)
  | variant hd _ hc hclass _ hr hs hlen _ ih => exact takes_variant hd hc hclass hr hs hlen ih
  | spliced hd _ hc hclass _ hr hs ha _ ih => exact takes_spliced hd hc hclass hr hs ha ih
  | inline hd _ hc hclass hr _ ih => exact takes_inline hd hc hclass hr ih
  | parameter _ ht _ ih => exact takes_parameter ht ih
  | definition hb ht _ ih =>
    exact takes_definition hsound hcatalog hb (fun hnever => haccepts hnever _ _ ht) ih
  | recursive _ ih =>
    intro params plan henv hb hreg
    cases hb with
    | variant hd _ _ _ _ => cases hd
    | recursive hlen hargs hbuilt =>
      exact ih (henv.args hlen hargs) hbuilt (.definition hreg.of_recursive)
  | applied _ ih =>
    intro params plan henv hb hreg
    cases hb with
    | variant hd _ _ _ _ => cases hd
    | applied hlen hargs hbuilt =>
      exact ih (henv.args hlen hargs) hbuilt (.definition hreg.of_applied)

end

/-! ## Regular plans -/

namespace Setting

/-- What a field may read as: a flag that is there as true, the entry of any other field as a value
of its plan, and a field that is left out as its absent value. -/
inductive FieldGives (s : Setting) (halts : Prop) (l : Ledger) (p : FieldPlan Plan) : Value → Prop
  | flag (hform : p.form = .flag) : FieldGives s halts l p (.bool true)
  | valued {c : Converter} {omission : Omission} {x : Value} (hform : p.form = .valued c omission)
      (hx : s.Takes halts l c.plan x) : FieldGives s halts l p x
  | absent {x : Value} (hx : p.absent = some x) : FieldGives s halts l p x

/-- What the plan reads is a value of it, as far as the links; their definitions are among those that
are reached. -/
inductive Regular (s : Setting) (halts : Prop) (l : Ledger)
    (Reaches : DefinitionId → List BoundType → Prop) : Plan → Prop
  | primitive {p : Primitive} (hp : p ≠ .float) : Regular s halts l Reaches (.primitive p)
  | tuple {label : Text} {cs : List Converter} (h : ∀ c ∈ cs, Regular s halts l Reaches c.plan) :
      Regular s halts l Reaches (.tuple label cs)
  | list {label : Text} {c : Converter} (h : Regular s halts l Reaches c.plan) :
      Regular s halts l Reaches (.list label c)
  | array {label : Text} {e : ElementType} {c : Converter}
      (he : e = .any ∨ ∃ p, c.plan = .primitive p ∧ p ≠ .float ∧ e = p.element)
      (h : Regular s halts l Reaches c.plan) : Regular s halts l Reaches (.array label e c)
  | option {label : Text} {c : Converter} (h : Regular s halts l Reaches c.plan) :
      Regular s halts l Reaches (.option label c)
  | record {r : RecordPlan Plan} (hclass : r.instanceOf = none)
      (hnodup : (r.fields.map FieldPlan.name).Nodup)
      (hkeeps : ∀ p ∈ r.fields, ∀ x, s.FieldGives halts l p x → p.Keeps x)
      (habsent : ∀ p ∈ r.fields, ∀ c omission x, p.form = .valued c omission → p.absent = some x →
        isOmitted omission x = .ok false → s.Takes halts l c.plan x)
      (h : ∀ p ∈ r.fields, ∀ c omission, p.form = .valued c omission →
        Regular s halts l Reaches c.plan) :
      Regular s halts l Reaches (.record r)
  | variant {label : Text} {folding : Bool} {plans : List (CasePlan Plan)}
      (hnodup : (plans.map CasePlan.tag).Nodup) (hclass : ∀ p ∈ plans, p.instanceOf = none)
      (h : ∀ p ∈ plans, ∀ q, p.form.Inside q → Regular s halts l Reaches q) :
      Regular s halts l Reaches (.variant label folding plans)
  | link {cell : Nat} {id : DefinitionId} {args : List Converter} {env : List BoundType}
      (henv : Supplies s l env args) (hargs : l.Foresees args) (h : Reaches id env) :
      Regular s halts l Reaches (.link cell id args)

end Setting

/-- The description is regular where its parameters stand for these types. -/
def BoundType.Regular (catalog : Catalog) (Reaches : DefinitionId → List BoundType → Prop)
    (Through : DefinitionId → Nat → Prop) : BoundType → Prop
  | .mk d env => d.Regular catalog Reaches Through env

section

variable {numbering : Nat → Description} {s : Setting} {halts : Prop} {l : Ledger}
  {Reaches : DefinitionId → List BoundType → Prop} {Through : DefinitionId → Nat → Prop}
  {env : List BoundType} {params : List Converter}

/-- The elements of an array are those of a built-in type, or any values. -/
theorem storedAs_of_built {d : Description} {plan : Plan}
    (hb : Built s.catalog l.Foresees params d plan) (hreg : d.Regular s.catalog Reaches Through env) :
    Description.storedAs d none = .any ∨
      ∃ p, plan = .primitive p ∧ p ≠ .float ∧ Description.storedAs d none = p.element := by
  cases d with
  | primitive name =>
    cases hb with
    | variant hd _ _ _ _ => cases hd
    | @primitive _ _ p hp =>
      refine .inr ⟨p, rfl, ?_, by simp [Description.storedAs, hp]⟩
      rintro rfl
      exact hreg.of_primitive hp
  | _ => exact .inl rfl

/-- What a field of a regular record may read as is kept. -/
theorem FieldPlan.Fits.keeps_of_gives {f : Field Description} {p : FieldPlan Plan} {x : Value}
    (hp : BuiltField s.catalog l.Foresees params f p) (hr : f.rule = .never)
    (hx : s.FieldGives halts l p x) : p.Keeps x := by
  obtain ⟨hfits, hparts⟩ := hp
  have habsent := hfits.absent
  rw [Description.absentValue] at habsent
  cases hx with
  | flag hform =>
    have hb := hfits.flag_iff.1 hform
    exact hfits.keeps hr (fun _ => ⟨true, rfl⟩) (by simp [hb]) (by simp [hb])
  | @valued c omission x hform hx =>
    obtain ⟨hb, -, d, hd⟩ := hfits.of_valued hform
    have hbuilt := hparts d _ (.value hd hform)
    obtain ⟨t, ht, rfl⟩ := Option.map_eq_some_iff.1 hd
    refine hfits.keeps hr (fun h => absurd h hb) (fun hlist => ?_) fun harray => ?_
    · rw [hlist] at hbuilt
      obtain ⟨label, k, hplan, -⟩ := hbuilt.of_list
      rw [hplan] at hx
      cases hx with
      | list _ => exact ⟨_, rfl⟩
    · rw [harray] at hbuilt
      obtain ⟨label, k, hplan, -⟩ := hbuilt.of_array
      rw [hplan] at hx
      cases hx with
      | @array _ _ _ vs _ _ _ => exact ⟨vs, by simp [Field.stored, ht]⟩
  | absent hx =>
    rw [hx] at habsent
    refine hfits.keeps hr (fun hb => ?_) (fun hlist => ?_) fun harray => ?_
    · rw [hb] at habsent
      exact ⟨false, Option.some.inj habsent⟩
    · rw [hlist] at habsent
      exact ⟨[], Option.some.inj habsent⟩
    · rw [harray] at habsent
      exact ⟨[], Option.some.inj habsent⟩

/-- The absent value of a field that is written is a value of the field's plan. -/
theorem takes_absent (hsound : s.Sound numbering l) (hcatalog : s.catalog.IsRegular Reaches Through)
    (haccepts : ¬ halts → ∀ id count, Through id count → s.catalog.Accepts id count)
    (henv : Supplies s l env params) {f : Field Description} {p : FieldPlan Plan}
    (hp : BuiltField s.catalog l.Foresees params f p)
    (hdefault : ∀ d dflt, f.presence = .required ∨ f.presence = .option → f.type = some d →
      f.default = some dflt → HasType s.catalog (fun f => f.rule = .never) Through 0 env d dflt.value)
    (htype : ∀ d, f.presence ≠ .sexpBool → f.type = some d → d.Regular s.catalog Reaches Through env)
    {c : Converter} {omission : Omission} {x : Value} (hform : p.form = .valued c omission)
    (habsent : p.absent = some x) (homit : isOmitted omission x = .ok false) :
    s.Takes halts l c.plan x := by
  obtain ⟨hfits, hparts⟩ := hp
  obtain ⟨hb, rfl, d, hd⟩ := hfits.of_valued hform
  have hbuilt := hparts d _ (.value hd hform)
  obtain ⟨t, ht, rfl⟩ := Option.map_eq_some_iff.1 hd
  have htyped : ∀ dflt, f.presence = .required ∨ f.presence = .option →
      f.default = some dflt → s.Takes halts l c.plan dflt.value := by
    intro dflt hpresence hdflt
    refine HasType.takes hsound hcatalog haccepts (hdefault t dflt hpresence ht hdflt) henv ?_
      (htype t hb ht)
    rcases hpresence with hpresence | hpresence <;> rwa [hpresence] at hbuilt
  rw [hfits.absent, Description.absentValue] at habsent
  cases hpresence : f.presence with
  | required =>
    rw [hpresence] at habsent
    obtain ⟨dflt, hdflt, rfl⟩ := Option.map_eq_some_iff.1 habsent
    exact htyped dflt (.inl hpresence) hdflt
  | option =>
    rw [hpresence] at habsent hbuilt
    cases hdflt : f.default with
    | some dflt =>
      rw [hdflt] at habsent
      obtain rfl := Option.some.inj habsent
      exact htyped dflt (.inr hpresence) hdflt
    | none =>
      rw [hdflt] at habsent
      obtain rfl := Option.some.inj habsent
      have hcheck := hfits.absence t hb ht
      rw [Description.checkAbsence, hpresence, hdflt] at hcheck
      cases t with
      | option inner =>
        obtain ⟨label, k, hplan, -⟩ := Built.of_option hbuilt
        rw [hplan]
        exact .nothing
      | _ => exact absurd hcheck (by simp [Description.isOption])
  | sexpBool => exact absurd hpresence hb
  | _ =>
    rw [hpresence] at habsent homit
    obtain rfl := Option.some.inj habsent
    exact absurd homit (by simp [Presence.omission, isOmitted, Value.length, Value.vector,
      Builtin.ofValue, Except.mapError, bind, Except.bind])

/-- Arguments of a reference are regular where their descriptions are. -/
theorem regular_args {args : List Description} {cs : List Converter}
    (h : ∀ d (c : Converter), (d, c) ∈ args.zip cs → d.Regular s.catalog Reaches Through env →
      s.Regular halts l Reaches c.plan) :
    ∀ t (c : Converter), (t, c) ∈ (args.map (BoundType.mk · env)).zip cs →
      t.Regular s.catalog Reaches Through → s.Regular halts l Reaches c.plan := by
  intro t c hmem hreg
  rw [List.zip_map_left] at hmem
  obtain ⟨⟨d, c'⟩, hzip, heq⟩ := List.mem_map.1 hmem
  obtain ⟨rfl, rfl⟩ := Prod.mk.inj heq
  exact h d c' hzip hreg

theorem regular_of_built (hsound : s.Sound numbering l)
    (hcatalog : s.catalog.IsRegular Reaches Through)
    (haccepts : ¬ halts → ∀ id count, Through id count → s.catalog.Accepts id count)
    {d : Description} {plan : Plan} (h : Built s.catalog l.Foresees params d plan) :
    ∀ {env : List BoundType}, Supplies s l env params →
      (∀ t (c : Converter), (t, c) ∈ env.zip params → t.Regular s.catalog Reaches Through →
        s.Regular halts l Reaches c.plan) →
      d.Regular s.catalog Reaches Through env → s.Regular halts l Reaches plan := by
  induction h with
  | primitive hp =>
    intro env _ _ hreg
    refine .primitive ?_
    rintro rfl
    exact hreg.of_primitive hp
  | product hlen _ ih =>
    intro env henv hparams hreg
    refine .tuple fun c hc => ?_
    obtain ⟨d, hmem⟩ := exists_zip_left hlen hc
    exact ih d c hmem henv hparams (hreg.of_product d (List.of_mem_zip hmem).1)
  | @record _ fields plans _ _ _ hnames hlen hfits hbuilt ih =>
    intro env henv hparams hreg
    obtain ⟨rfl, hrules, hdefault, htypes⟩ := hreg.of_record
    have hplans : plans.map FieldPlan.name = fields.map Field.name :=
      map_eq_map_of_zip hlen fun f p hmem => (hfits f p hmem).name
    refine .record rfl (hplans ▸ hnames) (fun p hp x hx => ?_)
      (fun p hp c omission x hform habsent homit => ?_) fun p hp c omission hform => ?_
    all_goals
      obtain ⟨f, hmem⟩ := exists_zip_left hlen hp
      have hf := (List.of_mem_zip hmem).1
      have hfield : BuiltField s.catalog l.Foresees _ f p :=
        ⟨hfits f p hmem, fun d q => hbuilt f p d q hmem⟩
    · exact FieldPlan.Fits.keeps_of_gives hfield (hrules f hf) hx
    · exact takes_absent hsound hcatalog haccepts henv hfield (hdefault f hf) (htypes f hf) hform
        habsent homit
    · obtain ⟨hb, -, d, hd⟩ := hfield.1.of_valued hform
      exact ih f p d _ hmem (.value hd hform) henv hparams
        (Description.Regular.valueType (htypes f hf) hb hd)
  | @variant _ _ cs plans _ _ hd htags hlen hfits hbuilt ih =>
    intro env henv hparams hreg
    obtain ⟨hnone, hargs, hrecord⟩ := hreg.of_variant hd
    have hplans : plans.map CasePlan.tag = cs.map Constructor.tag :=
      map_eq_map_of_zip hlen fun c p hmem => (hfits c p hmem).tag
    refine .variant (hplans ▸ htags) (instanceOf_none_of_zip hlen hfits hnone) fun p hp q hq => ?_
    obtain ⟨c, hmem⟩ := exists_zip_left hlen hp
    have hc := (List.of_mem_zip hmem).1
    obtain ⟨x, hpart, hx⟩ := (hfits c p hmem).part_of_inside hq
    exact ih c p x q hmem hpart henv hparams (hx.elim (hargs c hc x) (hrecord c hc x))
  | list _ ih =>
    intro env henv hparams hreg
    exact .list (ih henv hparams hreg.of_list)
  | array hbuilt ih =>
    intro env henv hparams hreg
    obtain ⟨rfl, helement⟩ := hreg.of_array
    exact .array (storedAs_of_built hbuilt helement) (ih henv hparams helement)
  | option _ _ ih =>
    intro env henv hparams hreg
    exact .option (ih henv hparams hreg.of_option)
  | sealed =>
    intro env _ _ hreg
    cases hreg with
    | variant hd _ _ _ => cases hd
  | custom _ =>
    intro env _ _ hreg
    cases hreg with
    | variant hd _ _ _ => cases hd
  | @parameter _ index _ _ _ hc =>
    intro env henv hparams hreg
    obtain ⟨hlt, rfl⟩ := List.getElem?_eq_some_iff.1 hc
    have hlt' : index.toNat < env.length := henv.1 ▸ hlt
    refine hparams _ _ (mem_zip_getElem hlt' hlt) ?_
    cases ht : env[index.toNat] with
    | mk d env' => exact hreg.of_parameter (List.getElem?_eq_some_iff.2 ⟨hlt', ht⟩)
  | link ht =>
    intro env henv hparams hreg
    exact .link henv ht hreg.of_definition
  | body hb _ ih =>
    intro env henv hparams hreg
    exact ih henv hparams (hcatalog _ env _ hreg.of_definition hb)
  | recursive hlen hargs _ ihargs ih =>
    intro env henv hparams hreg
    exact ih (henv.args hlen hargs) (regular_args fun d c hmem => ihargs d c hmem henv hparams)
      (.definition hreg.of_recursive)
  | applied hlen hargs _ ihargs ih =>
    intro env henv hparams hreg
    exact ih (henv.args hlen hargs) (regular_args fun d c hmem => ihargs d c hmem henv hparams)
      (.definition hreg.of_applied)

/-- **A plan of a regular type is regular.** -/
theorem regular_of_realises (hsound : s.Sound numbering l)
    (hcatalog : s.catalog.IsRegular Reaches Through)
    (haccepts : ¬ halts → ∀ id count, Through id count → s.catalog.Accepts id count)
    {t : BoundType} {plan : Plan} (h : Realises s.catalog l.Foresees t plan) :
    t.Regular s.catalog Reaches Through → s.Regular halts l Reaches plan := by
  induction h with
  | mk hlen henv hb ih => exact regular_of_built hsound hcatalog haccepts hb ⟨hlen, henv⟩ ih

/-- **What stands behind a regular link is regular.** -/
theorem Setting.Regular.resolve (hsound : s.Sound numbering l)
    (hcatalog : s.catalog.IsRegular Reaches Through)
    (haccepts : ¬ halts → ∀ id count, Through id count → s.catalog.Accepts id count)
    {cell : Nat} {id : DefinitionId} {args : List Converter} (h : s.Regular halts l Reaches (.link cell id args))
    {c : Converter} (hc : s.resolve cell id args = .ok c) :
    Defines s.catalog l.Foresees id args c.plan ∧ s.Regular halts l Reaches c.plan := by
  cases h with
  | link henv hargs hreaches =>
    have hdefines := Setting.resolve_defines hsound hargs hc
    refine ⟨hdefines, ?_⟩
    obtain ⟨body, hb, hbuilt⟩ := hdefines
    exact regular_of_built hsound hcatalog haccepts hbuilt henv
      (fun t c hmem => regular_of_realises hsound hcatalog haccepts (henv.2 t c hmem))
      (hcatalog id _ body hreaches hb)

end

end TypedSexp
