import TypedSexp.Proofs.Conversion.Absence
import TypedSexp.Proofs.Derivation.Steps
/-!
# Typed values make the round trip

`HasType.trips`: a value of a type makes the round trip through every plan that is built from the
type, if the fields of its records read as their defaults where a rule may leave them out, and unless
it goes through a definition that derivation does not accept. The proof follows the typing of the
value: records, variants and references here, the other shapes in
`TypedSexp.Proofs.Conversion.Trips`.
-/

namespace TypedSexp

/-- The field has no rule, or reads as the default that its rule compares with; without `lone` there
is no rule. -/
def Field.IsFaithful (lone : Prop) (f : Field Description) : Prop :=
  f.rule = .never ∨ (lone ∧ f.rule ≠ .ifPredicate ∧ f.Restores)

section

variable {numbering : Nat → Description} {s : Setting} {lone halts : Prop} {l : Ledger} {room : Nat}
  {env : List BoundType} {Admits : Field Description → Prop} {Through : DefinitionId → Nat → Prop}
  {d : Description} {v : Value}

/-! ## Records -/

/-- A faithful field makes the round trip. -/
theorem fieldTrips_of_faithful (hopt : s.ReadsOptions) {params : List Converter}
    (henv : Supplies s l env params) {f : Field Description} {p : FieldPlan Plan} {x : Value}
    (hp : BuiltField s.catalog l.Foresees params f p) (hf : f.IsFaithful lone)
    (hx : f.Each (s.TypedTrips lone halts l (Field.IsFaithful lone) Through env) room x)
    (htyped : f.presence ≠ .sexpBool → f.type ≠ none)
    (hcomparable : ∀ dflt, f.rule = .ifDefault → f.default = some dflt →
      ∃ b, x.same dflt.value = .ok b) :
    s.FieldTrips halts (fun _ => x.Like lone) (x.depth + room) p x := by
  have hrule : f.rule ≠ .ifPredicate := by
    rcases hf with hf | ⟨_, hf, _⟩
    · simp [hf]
    · exact hf
  refine Setting.fieldTrips hopt henv hp hx hrule htyped (hf.imp_right And.left) hcomparable
    (fun _ _ hlike => hlike) (fun _ => .refl x) fun dflt a hc hdflt hlike ha => ?_
  rcases hf with hf | ⟨_, _, hrestores⟩
  · rcases hc with hc | hc <;> exact absurd (hf.symm.trans hc) (by simp)
  · rw [hp.1.absent, hrestores, hdflt] at ha
    exact Option.some.inj ha ▸ hlike

/-- A record whose fields make the round trip. -/
theorem trips_record {fields : List (Field Description)} {instanceOf : Option ClassInfo}
    {extra : Bool} {entries : List (Text × Value)} (hnodup : (entries.map Prod.fst).Nodup)
    (hnames : ∀ name, name ∈ entries.map Prod.fst ↔ name ∈ fields.map Field.name)
    (hclass : ∀ k, instanceOf = some k → entries.map Prod.fst = k.fields)
    (h : ∀ {params}, Supplies s l env params → ∀ f ∈ fields, ∀ p x,
      BuiltField s.catalog l.Foresees params f p → entries.lookup f.name = some x →
      s.FieldTrips halts (fun _ => x.Like lone) (x.depth + room) p x) :
    TripsAs s lone halts l env room (.record fields instanceOf extra) (.ofFields instanceOf entries) := by
  intro params plan henv hb
  obtain ⟨label, plans, rfl, hfields, hlen, hbuilt⟩ := hb.of_record
  have hplans : plans.map FieldPlan.name = fields.map Field.name :=
    map_eq_map_of_zip hlen fun f p hmem => (hbuilt f p hmem).1.name
  have hperm : (entries.map Prod.fst).Perm (plans.map FieldPlan.name) := by
    rw [hplans, List.perm_ext_iff_of_nodup hnodup hfields]
    exact hnames
  refine Setting.Trips.record (r := ⟨label, instanceOf, extra, plans⟩) (hplans ▸ hfields) hperm hclass
    fun p hp => ?_
  obtain ⟨f, hmem⟩ := exists_zip_left hlen hp
  have hf := (List.of_mem_zip hmem).1
  have hname := (hbuilt f p hmem).1.name
  have hentry : f.name ∈ entries.map Prod.fst := (hnames _).2 (List.mem_map_of_mem hf)
  obtain ⟨x, hx⟩ := exists_lookup_of_mem hentry
  exact ⟨x, hname ▸ hx, h henv f hf p x (hbuilt f p hmem) hx⟩

/-! ## Variants -/

/-- The plans of constructors have the classes of the constructors. -/
theorem ofClass?_of_zip {cs : List (Constructor Description)} {plans : List (CasePlan Plan)}
    (hlen : cs.length = plans.length) (hfits : ∀ c p, (c, p) ∈ cs.zip plans → p.Fits c)
    (className : Text) : CasePlan.ofClass? className plans =
      ((cs.filter fun c => c.instanceOf.any fun k => k.name == className).getLast?).map
        Constructor.tag := by
  have hmap : plans.map (fun p => (p.tag, p.instanceOf)) = cs.map fun c => (c.tag, c.instanceOf) :=
    map_eq_map_of_zip hlen fun c p hmem =>
      Prod.ext (hfits c p hmem).tag (hfits c p hmem).instanceOf
  have hfilter := congrArg (List.filter fun e => e.2.any fun k => k.name == className) hmap
  rw [List.filter_map, List.filter_map] at hfilter
  have hlast := congrArg (fun es : List (Text × Option ClassInfo) => es.getLast?.map Prod.fst) hfilter
  simp only [List.getLast?_map, Option.map_map] at hlast
  exact hlast

/-- The plan of a constructor among those of a variant. -/
theorem exists_casePlan {params : List Converter} {cs : List (Constructor Description)}
    {plans : List (CasePlan Plan)} (htags : (cs.map Constructor.tag).Nodup)
    (hlen : cs.length = plans.length)
    (hbuilt : ∀ c p, (c, p) ∈ cs.zip plans → BuiltCase s.catalog l.Foresees params c p)
    {c : Constructor Description} (hc : c ∈ cs) (hclass : c.OwnsClass cs) :
    (plans.map CasePlan.tag).Nodup ∧ ∃ p ∈ plans, p.tag = c.tag ∧ p.instanceOf = c.instanceOf ∧
      p.OwnsClass plans ∧ BuiltCase s.catalog l.Foresees params c p := by
  obtain ⟨p, hmem⟩ := exists_zip_right hlen hc
  have hp := hbuilt c p hmem
  refine ⟨?_, p, (List.of_mem_zip hmem).2, hp.1.tag, hp.1.instanceOf, fun k hk => ?_, hp⟩
  · rw [map_eq_map_of_zip hlen fun c p hmem => (hbuilt c p hmem).1.tag]
    exact htags
  · rw [ofClass?_of_zip hlen (fun c p hmem => (hbuilt c p hmem).1),
      hclass k (hp.1.instanceOf.symm.trans hk), hp.1.tag]
    rfl

theorem trips_variant (hopt : s.ReadsOptions) {folding : Bool}
    {cs : List (Constructor Description)} {c : Constructor Description} {vs : List Value}
    (hd : d.IsVariant folding cs) (hc : c ∈ cs) (hclass : c.OwnsClass cs)
    (hfields : ∀ k, c.instanceOf = some k → k.fields.length = vs.length)
    (hr : c.record = none) (hs : c.spliced = false) (hlen : c.args.length = vs.length)
    (h : ∀ x v, (x, v) ∈ c.args.zip vs → TripsAs s lone halts l env room x v) :
    TripsAs s lone halts l env room d (.ofArguments c.tag c.instanceOf vs) := by
  intro params plan henv hb
  obtain ⟨label, plans, rfl, htags, hcount, hbuilt⟩ := hb.of_variant hd
  obtain ⟨hnodup, p, hp, htag, hclass, howns, hbuiltCase⟩ :=
    exists_casePlan htags hcount hbuilt hc hclass
  rw [← htag, ← hclass]
  rw [← hclass] at hfields
  by_cases hargs : c.args = []
  · obtain rfl : vs = [] := List.length_eq_zero_iff.1 (by rw [← hlen, hargs]; rfl)
    exact .constant hnodup hp howns hfields (hbuiltCase.1.constant hr hs hargs)
  · obtain ⟨ks, hform, hks⟩ := hbuiltCase.1.arguments hr hs hargs
    refine .arguments hopt hnodup hp howns hfields hform (hks.symm.trans hlen) fun k v hmem => ?_
    obtain ⟨x, hk, hv⟩ := exists_zip_middle hks hlen hmem
    exact h x v hv henv (hbuiltCase.2 x _ (.argument hform hk))

theorem trips_spliced (hopt : s.ReadsOptions) {x : Description} {folding : Bool}
    {cs : List (Constructor Description)} {c : Constructor Description} {vs : List Value}
    (hd : d.IsVariant folding cs) (hc : c ∈ cs) (hclass : c.OwnsClass cs)
    (hfields : ∀ k, c.instanceOf = some k → k.fields.length = 1)
    (hr : c.record = none) (hs : c.spliced = true) (ha : c.args = [x])
    (h : ∀ v ∈ vs, TripsAs s lone halts l env room x v) :
    TripsAs s lone halts l env room d (.ofArguments c.tag c.instanceOf [.list vs]) := by
  intro params plan henv hb
  obtain ⟨label, plans, rfl, htags, hcount, hbuilt⟩ := hb.of_variant hd
  obtain ⟨hnodup, p, hp, htag, hclass, howns, hbuiltCase⟩ :=
    exists_casePlan htags hcount hbuilt hc hclass
  rw [← htag, ← hclass]
  rw [← hclass] at hfields
  obtain ⟨_, k, _, hform⟩ := hbuiltCase.1.splice hr hs
  exact .spliced hopt hnodup hp howns hfields hform
    fun v hv => h v hv henv (hbuiltCase.2 x _ (.element hform ha))

theorem trips_inline {r : Description} {folding : Bool} {cs : List (Constructor Description)}
    {c : Constructor Description} (hd : d.IsVariant folding cs) (hc : c ∈ cs)
    (hclass : c.OwnsClass cs) (hr : c.inlineRecord = some r)
    (hv : HasType s.catalog Admits Through room env r v) (h : TripsAs s lone halts l env room r v) :
    TripsAs s lone halts l env room d (.ofInline c.tag c.instanceOf v) := by
  intro params plan henv hb
  obtain ⟨label, plans, rfl, htags, hcount, hbuilt⟩ := hb.of_variant hd
  obtain ⟨hnodup, p, hp, htag, hclass, howns, hbuiltCase⟩ :=
    exists_casePlan htags hcount hbuilt hc hclass
  have hinstance : ∀ k, p.instanceOf = some k → ∃ fields, v = .object k.name fields :=
    fun k hk => hv.instance_of_inline hr (hclass ▸ hk)
  rw [← htag, ← hclass]
  have hrecord : c.record ≠ none := by
    intro hnone
    simp [Constructor.inlineRecord, hnone] at hr
  obtain ⟨_, _, _, plan, _, hform⟩ := hbuiltCase.1.inline hrecord
  exact .inline hnodup hp howns hform hinstance (h henv (hbuiltCase.2 r _ (.fields hform hr)))

/-! ## References -/

/-- A link to a definition that is accepted comes to a converter. -/
theorem exists_resolve {id : DefinitionId} {count : Nat} (h : s.catalog.Accepts id count) (cell : Nat)
    {args : List Converter} (hargs : args.length = count) :
    ∃ c, s.resolve cell id args = .ok c := by
  cases hc : s.resolve cell id args with
  | ok c => exact ⟨c, rfl⟩
  | error e =>
    obtain ⟨c, hc'⟩ := h args { s.deriver with next := Derivation.numberAbove s.deriver.next args } hargs
    exact nomatch (Derivation.ofLink_error hc).symm.trans hc'

/-- A plan of a definition is one of its body, or a link to what derivation makes of it, if that
accepts the definition. -/
theorem built_definition (hsound : s.Sound numbering l) {id : DefinitionId} {body : Description}
    (hb : s.catalog.body? id = some body)
    (haccepts : ¬ halts → s.catalog.Accepts id env.length) {params : List Converter} {plan : Plan}
    (henv : Supplies s l env params)
    (hbuilt : Built s.catalog l.Foresees params (.recursive id none) plan) :
    Built s.catalog l.Foresees params body plan ∨ ∃ cell, plan = .link cell id params ∧
      ((halts ∧ ∃ e, s.resolve cell id params = .error e) ∨ ∃ c, s.resolve cell id params = .ok c ∧
        Defines s.catalog l.Foresees id params c.plan ∧
        Built s.catalog l.Foresees params body c.plan) := by
  cases hbuilt with
  | variant hd _ _ _ _ => cases hd
  | body hb' hbuilt =>
    obtain rfl := Option.some.inj (hb.symm.trans hb')
    exact .inl hbuilt
  | @link _ cell _ ht =>
    refine .inr ⟨cell, rfl, ?_⟩
    cases hc : s.resolve cell id params with
    | error e =>
      refine .inl ⟨?_, e, rfl⟩
      by_contra hnever
      obtain ⟨c, hc'⟩ := exists_resolve (haccepts hnever) cell henv.1.symm
      exact nomatch hc.symm.trans hc'
    | ok c =>
      have hdefines := Setting.resolve_defines hsound ht hc
      obtain ⟨body', hb', hbuilt⟩ := Setting.resolve_defines hsound ht hc
      obtain rfl := Option.some.inj (hb.symm.trans hb')
      exact .inr ⟨c, rfl, hdefines, hbuilt⟩

theorem trips_definition (hsound : s.Sound numbering l) {id : DefinitionId} {body : Description}
    (hb : s.catalog.body? id = some body) (haccepts : ¬ halts → s.catalog.Accepts id env.length)
    (h : TripsAs s lone halts l env room body v) :
    TripsAs s lone halts l env room (.recursive id none) v := by
  intro params plan henv hbuilt
  rcases built_definition hsound hb haccepts henv hbuilt with
    hbuilt | ⟨cell, rfl, ⟨hhalts, e, he⟩ | ⟨c, hc, hdefines, hbuilt⟩⟩
  · exact h henv hbuilt
  · exact .inl ⟨hhalts, .here he⟩
  · exact .link hc hdefines (h henv hbuilt)

/-- A plan of a parameter is one of what the parameter stands for. -/
theorem built_parameter {env' : List BoundType} {index : Int} {name : Option Text}
    (ht : env[index.toNat]? = some (.mk d env')) {params : List Converter} {plan : Plan}
    (henv : Supplies s l env params)
    (hb : Built s.catalog l.Foresees params (.parameter index name) plan) :
    ∃ params', Supplies s l env' params' ∧ Built s.catalog l.Foresees params' d plan := by
  cases hb with
  | variant hd _ _ _ _ => cases hd
  | parameter _ hc =>
    obtain ⟨hlt, heq⟩ := List.getElem?_eq_some_iff.1 ht
    obtain ⟨hlt', rfl⟩ := List.getElem?_eq_some_iff.1 hc
    have hreal := henv.2 _ _ (mem_zip_getElem hlt hlt')
    rw [heq] at hreal
    cases hreal with
    | mk hlen henv' hbuilt => exact ⟨_, ⟨hlen, henv'⟩, hbuilt⟩

theorem trips_parameter {env' : List BoundType} {index : Int} {name : Option Text}
    (ht : env[index.toNat]? = some (.mk d env')) (h : TripsAs s lone halts l env' room d v) :
    TripsAs s lone halts l env room (.parameter index name) v := by
  intro params plan henv hb
  obtain ⟨params', henv', hbuilt⟩ := built_parameter ht henv hb
  exact h henv' hbuilt

/-! ## All values -/

/-- **A typed value makes the round trip through every plan of its type**, unless it goes through a
definition that derivation does not accept. -/
theorem HasType.trips (hsound : s.Sound numbering l) (hopt : s.ReadsOptions)
    (haccepts : ¬ halts → ∀ id count, Through id count → s.catalog.Accepts id count)
    (h : HasType s.catalog (Field.IsFaithful lone) Through room env d v) :
    TripsAs s lone halts l env room d v := by
  induction h with
  | primitive hp hv => exact trips_primitive hp hv
  | product hlen _ ih => exact trips_product hopt hlen ih
  | list _ ih => exact trips_list hopt ih
  | array hstored _ ih => exact trips_array hopt hstored ih
  | nothing => exact trips_nothing hopt
  | something hne _ ih => exact trips_something hne ih
  | @record room _ env _ _ _ _ hfaithful hcomparable hnodup hnames hclass htyped hflag hvalue
      hflagDefault hdefault hroom ihvalue ihdefault =>
    refine trips_record hnodup hnames hclass fun henv f hf p x hp hx => ?_
    have heach : f.Each (s.TypedTrips lone halts l (Field.IsFaithful lone) Through env) room x := by
      refine .of_rules (hflag f hf x · hx) (fun d hb hd hne => ?_) (hflagDefault f hf)
        (fun d dflt hb hc hd hdflt hne => ?_) (hroom f hf)
      · exact ⟨hvalue f hf d x hb hd hx hne, ihvalue f hf d x hb hd hx hne⟩
      · exact ⟨hdefault f hf d dflt hb hc hd hdflt hne, ihdefault f hf d dflt hb hc hd hdflt hne⟩
    exact fieldTrips_of_faithful hopt henv hp (hfaithful f hf) heach (htyped f hf)
      fun dflt hr hdflt => hcomparable f hf x dflt hr hx hdflt
  | variant hd _ hc hclass hfields hr hs hlen _ ih =>
    exact trips_variant hopt hd hc hclass hfields hr hs hlen ih
  | spliced hd _ hc hclass hfields hr hs ha _ ih =>
    exact trips_spliced hopt hd hc hclass hfields hr hs ha ih
  | inline hd _ hc hclass hr hx ih => exact trips_inline hd hc hclass hr hx ih
  | parameter _ ht _ ih => exact trips_parameter ht ih
  | definition hb ht _ ih =>
    exact trips_definition hsound hb (fun hnever => haccepts hnever _ _ ht) ih
  | recursive _ ih =>
    intro params plan henv hb
    cases hb with
    | variant hd _ _ _ _ => cases hd
    | recursive hlen hargs hbuilt => exact ih (henv.args hlen hargs) hbuilt
  | applied _ ih =>
    intro params plan henv hb
    cases hb with
    | variant hd _ _ _ _ => cases hd
    | applied hlen hargs hbuilt => exact ih (henv.args hlen hargs) hbuilt

end

end TypedSexp
