import Mathlib.Data.List.Forall2
import TypedSexp.Proofs.Derivation.Givens
/-!
# Derivation builds what the description says

`build_keeps` follows the recursion of `Description.build`: what it gives is `Built` from the
description, and every derivation on the way keeps the ledger.
-/

namespace TypedSexp

/-! ## Repeated names -/

theorem Description.nodup_of_firstRepeated? : ∀ {ts seen : List Text},
    firstRepeated? seen ts = none → ts.Nodup ∧ ∀ t ∈ ts, t ∉ seen
  | [], _, _ => by simp
  | t :: ts, seen, h => by
    unfold firstRepeated? at h
    by_cases ht : seen.contains t
    · rw [if_pos ht] at h
      exact absurd h (by simp)
    · rw [if_neg ht] at h
      obtain ⟨hnodup, hseen⟩ := nodup_of_firstRepeated? h
      refine ⟨List.nodup_cons.2 ⟨fun hmem => hseen t hmem List.mem_cons_self, hnodup⟩, ?_⟩
      intro u hu
      rcases List.mem_cons.1 hu with rfl | hu
      · simpa using ht
      · exact fun hmem => hseen u hu (List.mem_cons_of_mem _ hmem)

/-! ## Lists of parts -/

section Parts

variable (catalog : Catalog) (Trusted : List Converter → Prop) (params : List Converter)

/-- The converter of a description. -/
abbrev BuiltConverter (d : Description) (c : Converter) : Prop :=
  Built catalog Trusted params d c.plan

/-- The plan of a field. -/
abbrev BuiltField (f : Field Description) (p : FieldPlan Plan) : Prop :=
  p.Fits f ∧ ∀ d q, FieldPlan.Part f p d q → Built catalog Trusted params d q

/-- The plan of a constructor. -/
abbrev BuiltCase (c : Constructor Description) (p : CasePlan Plan) : Prop :=
  p.Fits c ∧ ∀ d q, CasePlan.Part c p d q → Built catalog Trusted params d q

end Parts

variable {catalog : Catalog} {numbering : Nat → Description} {Trusted : List Converter → Prop}
  {params : List Converter} {l l' : Ledger}

theorem Built.later (h : l'.Extends l) {d : Description} {plan : Plan}
    (hb : Built catalog l.Trusts params d plan) : Built catalog l'.Trusts params d plan :=
  hb.mono (fun _ _ h => h) fun _ hcs => hcs.mono h

theorem Built.ofFields {fields : List (Field Description)} {plans : List (FieldPlan Plan)}
    {instanceOf : Option ClassInfo} {extra : Bool} {label : Text}
    (hnames : (fields.map Field.name).Nodup)
    (h : List.Forall₂ (BuiltField catalog Trusted params) fields plans) :
    Built catalog Trusted params (.record fields instanceOf extra)
      (.record ⟨label, instanceOf, extra, plans⟩) := by
  obtain ⟨hlen, hzip⟩ := List.forall₂_iff_zip.1 h
  exact .record hnames hlen (fun f p hmem => (hzip hmem).1) fun f p d q hmem => (hzip hmem).2 d q

theorem Built.ofCases {d : Description} {folding : Bool} {cs : List (Constructor Description)}
    {plans : List (CasePlan Plan)} {label : Text} (hd : d.IsVariant folding cs)
    (htags : (cs.map Constructor.tag).Nodup)
    (h : List.Forall₂ (BuiltCase catalog Trusted params) cs plans) :
    Built catalog Trusted params d (.variant label folding plans) := by
  obtain ⟨hlen, hzip⟩ := List.forall₂_iff_zip.1 h
  exact .variant hd htags hlen (fun c p hmem => (hzip hmem).1) fun c p x q hmem => (hzip hmem).2 x q

/-! ## Derivations of parts -/

namespace Derivation

theorem Keeps.listOf (site : Site) {d : Description} {c : Converter}
    (hc : Built catalog l.Trusts params d c.plan) :
    Keeps catalog numbering l (Description.listOf site c) fun l' k =>
      l'.Knows k ∧ Built catalog l'.Trusts params (.list d) k.plan := by
  refine (Keeps.fresh _ _).weaken fun l' k hext hk => ⟨hk.1, ?_⟩
  rw [hk.2]
  exact .list (hc.later hext)

theorem Keeps.arrayOf (site : Site) {d : Description} (stated : Option ElementType) {c : Converter}
    (hc : Built catalog l.Trusts params d c.plan) :
    Keeps catalog numbering l (Description.arrayOf site (Description.storedAs d stated) c)
      fun l' k => l'.Knows k ∧ Built catalog l'.Trusts params (.array d stated) k.plan := by
  refine (Keeps.fresh _ _).weaken fun l' k hext hk => ⟨hk.1, ?_⟩
  rw [hk.2]
  exact .array (hc.later hext)

/-- A field whose values are read and written by a converter. -/
theorem builtField_valued {f : Field Description} {type d : Description} {c : Converter}
    {rule : Dropping} (hp : f.presence ≠ .sexpBool) (ht : f.type = some type)
    (hd : f.valueType = some d) (hrule : Description.dropping f = .ok rule)
    (hcheck : Description.checkAbsence f type = .ok ())
    (hc : Built catalog Trusted params d c.plan) :
    BuiltField catalog Trusted params f
      ⟨f.name, .valued c f.presence.omission,
        Description.absentValue f (Description.storedAs type none), rule⟩ := by
  refine ⟨⟨rfl, fun h => absurd h hp, fun _ => ⟨d, c, hd, rfl⟩, ?_, hrule, fun t _ h => ?_⟩, ?_⟩
  · simp [Field.stored, ht]
  · obtain rfl : type = t := Option.some.inj (ht.symm.trans h)
    exact hcheck
  · rintro _ _ ⟨hd', hq⟩
    obtain rfl := Option.some.inj (hd.symm.trans hd')
    obtain ⟨rfl, -⟩ := FieldForm.valued.inj hq
    exact hc

theorem Keeps.planField (site : Site) {f : Field Description} {type : Description}
    {rule : Dropping} {c : Converter} (hp : f.presence ≠ .sexpBool) (ht : f.type = some type)
    (hrule : Description.dropping f = .ok rule)
    (hcheck : Description.checkAbsence f type = .ok ())
    (hc : Built catalog l.Trusts params type c.plan) :
    Keeps catalog numbering l (Description.planField site f type rule c) fun l' p =>
      BuiltField catalog l'.Trusts params f p := by
  have hd : f.valueType = some (f.presence.valueType type) := by rw [Field.valueType, ht]; rfl
  have valued {l' : Ledger} {k : Converter}
      (hk : Built catalog l'.Trusts params (f.presence.valueType type) k.plan) :=
    builtField_valued hp ht hd hrule hcheck hk
  unfold Description.planField
  cases hpres : f.presence with
  | sexpBool => exact absurd hpres hp
  | sexpList =>
    rw [hpres] at valued
    refine Keeps.bind (Keeps.listOf site hc) fun l' k _ hk => ?_
    exact .pure (valued hk.2)
  | sexpArray =>
    rw [hpres] at valued
    refine Keeps.bind (Keeps.arrayOf site none hc) fun l' k _ hk => ?_
    exact .pure (valued hk.2)
  | sexpOption =>
    rw [hpres] at valued
    exact .pure (valued hc)
  | required =>
    rw [hpres] at valued
    exact .pure (valued hc)
  | option =>
    rw [hpres] at valued
    exact .pure (valued hc)

end Derivation

/-! ## Derivations of descriptions -/

namespace Description

open Derivation

/-- What derivation of definitions has to ensure from a ledger on. -/
def DefinesWell (catalog : Catalog) (numbering : Nat → Description) (start : Ledger)
    (define : DefinitionId → List Converter → Derivation Converter) : Prop :=
  ∀ (l : Ledger) (id : DefinitionId) (args : List Converter), l.Extends start → l.Trusts args →
    Keeps catalog numbering l (define id args) fun l' c =>
      l'.Knows c ∧ Built catalog l'.Trusts args (.recursive id none) c.plan

variable {define : DefinitionId → List Converter → Derivation Converter} {site : Site} {start : Ledger}

/-- A variant from the plans of its constructors. -/
theorem planVariant_keeps (shape : Text) {folding : Bool} {d : Description}
    {cs : List (Constructor Description)} {plans : List (CasePlan Plan)}
    (hd : d.IsVariant folding cs)
    (h : List.Forall₂ (BuiltCase catalog l.Trusts params) cs plans) :
    Keeps catalog numbering l (planVariant site shape folding plans) fun l' c =>
      l'.Knows c ∧ Built catalog l'.Trusts params d c.plan := by
  have htags : plans.map CasePlan.tag = cs.map Constructor.tag := by
    have heq : List.Forall₂ (· = ·) (cs.map Constructor.tag) (plans.map CasePlan.tag) := by
      rw [List.forall₂_map_left_iff, List.forall₂_map_right_iff]
      exact h.imp fun c p hc => hc.1.tag.symm
    exact (List.forall₂_eq_eq_eq ▸ heq : cs.map Constructor.tag = plans.map CasePlan.tag).symm
  unfold planVariant
  cases hrep : firstRepeated? [] (plans.map CasePlan.tag) with
  | some tag => exact .throw
  | none =>
    rw [htags] at hrep
    refine (Keeps.fresh _ _).weaken fun l' c hext hc => ⟨hc.1, ?_⟩
    rw [hc.2]
    exact (Built.ofCases hd (nodup_of_firstRepeated? hrep).1 h).later hext

/-- A derivation of a record from that of its fields. -/
theorem buildRecord_keeps (instanceOf : Option ClassInfo) (extra : Bool)
    {fields : List (Field Description)}
    (h : Keeps catalog numbering l (buildFields catalog define site fields) fun l' plans =>
      List.Forall₂ (BuiltField catalog l'.Trusts site.params) fields plans) :
    Keeps catalog numbering l (buildRecord catalog define site instanceOf extra fields)
      fun l' plan => Built catalog l'.Trusts site.params (.record fields instanceOf extra)
        (.record plan) := by
  rw [buildRecord]
  cases hrep : firstRepeated? [] (fields.map Field.name) with
  | some name => exact Keeps.bind .throw fun _ _ _ h => h
  | none =>
    refine h.bind fun l' plans _ h => ?_
    exact .pure (.ofFields (nodup_of_firstRepeated? hrep).1 h)

/-- A derivation of a field from that of its description. -/
theorem buildField_keeps (f : Field Description)
    (h : ∀ d, f.type = some d →
      Keeps catalog numbering l (build catalog define site d) fun l' c =>
        l'.Knows c ∧ Built catalog l'.Trusts site.params d c.plan) :
    Keeps catalog numbering l (buildField catalog define site f) fun l' p =>
      BuiltField catalog l'.Trusts site.params f p := by
  obtain ⟨name, type, presence, default, statedRule, predicate⟩ := f
  rw [buildField]
  refine .check fun rule hrule => ?_
  by_cases hp : presence = .sexpBool
  · rw [if_pos hp]
    subst hp
    refine .pure ⟨⟨rfl, fun _ => rfl, fun h => absurd rfl h, rfl, hrule,
      fun _ h => absurd rfl h⟩, ?_⟩
    rintro _ _ ⟨_, hform⟩
    exact absurd hform (by simp)
  · rw [if_neg hp]
    cases type with
    | none => exact .throw
    | some d =>
      refine .check fun _ hcheck => ?_
      refine (h d rfl).bind fun l' c _ hc => ?_
      exact Keeps.planField site hp rfl hrule hcheck hc.2

/-- A derivation of a constructor with arguments from that of the arguments. -/
theorem buildArguments_keeps (tag : Text) (args : List Description)
    (instanceOf : Option ClassInfo) (spliced : Bool)
    (h : Keeps catalog numbering l (buildAll catalog define site args) fun l' cs =>
      l'.Trusts cs ∧ List.Forall₂ (BuiltConverter catalog l'.Trusts site.params) args cs) :
    Keeps catalog numbering l (buildConstructor catalog define site ⟨tag, args, instanceOf, none, spliced⟩)
      fun l' p => BuiltCase catalog l'.Trusts site.params ⟨tag, args, instanceOf, none, spliced⟩ p := by
  rw [buildConstructor]
  by_cases hs : (spliced && decide (args.length ≠ 1)) = true
  · rw [if_pos hs]
    exact .throw
  rw [if_neg hs]
  refine h.bind fun l' cs _ hcs => .pure ?_
  obtain ⟨hlen, hzip⟩ := List.forall₂_iff_zip.1 hcs.2
  cases spliced with
  | true =>
    -- a spliced constructor has one description, so there is one converter
    have hone : args.length = 1 := by simpa using hs
    obtain ⟨d, rfl⟩ := List.length_eq_one_iff.1 hone
    obtain ⟨c, rfl⟩ := List.length_eq_one_iff.1 (hlen.symm.trans hone)
    refine ⟨⟨rfl, rfl, by simp, by simp, fun _ _ => ⟨d, c, rfl, rfl⟩, fun h => absurd rfl h⟩, ?_⟩
    intro x q hpart
    cases hpart with
    | argument hp _ => exact absurd hp (by simp)
    | element hp hd =>
      obtain rfl := CaseForm.spliced.inj hp
      obtain rfl : d = x := by simpa using hd
      exact hzip (by simp)
    | fields hp _ => exact absurd hp (by simp)
  | false =>
    cases cs with
    | nil =>
      have hargs : args = [] := List.length_eq_zero_iff.1 hlen
      refine ⟨⟨rfl, rfl, fun _ _ _ => rfl, fun _ _ h => absurd hargs h, by simp,
        fun h => absurd rfl h⟩, ?_⟩
      intro x q hpart
      cases hpart with
      | argument hp _ => exact absurd hp (by simp)
      | element hp _ => exact absurd hp (by simp)
      | fields hp _ => exact absurd hp (by simp)
    | cons c cs =>
      refine ⟨⟨rfl, rfl, fun _ _ h => ?_, fun _ _ _ => ⟨c :: cs, rfl, hlen⟩, by simp,
        fun h => absurd rfl h⟩, ?_⟩
      · exact absurd hlen (by rw [show args = [] from h]; simp)
      intro x q hpart
      cases hpart with
      | argument hp hd =>
        obtain rfl := CaseForm.arguments.inj hp
        exact hzip hd
      | element hp _ => exact absurd hp (by simp)
      | fields hp _ => exact absurd hp (by simp)

/-- A derivation of a constructor with a record from that of the fields. -/
theorem buildInline_keeps (tag : Text) (args : List Description) (instanceOf inner : Option ClassInfo)
    (fields : List (Field Description)) (extra spliced : Bool)
    (h : Keeps catalog numbering l (buildFields catalog define site fields) fun l' plans =>
      List.Forall₂ (BuiltField catalog l'.Trusts site.params) fields plans) :
    Keeps catalog numbering l (buildConstructor catalog define site
        ⟨tag, args, instanceOf, some (.record fields inner extra), spliced⟩)
      fun l' p => BuiltCase catalog l'.Trusts site.params
        ⟨tag, args, instanceOf, some (.record fields inner extra), spliced⟩ p := by
  rw [buildConstructor]
  by_cases hs : (spliced || !args.isEmpty) = true
  · rw [if_pos hs]
    exact .throw
  rw [if_neg hs]
  refine (buildRecord_keeps (instanceOf <|> inner) extra h).bind fun l' plan _ hplan => .pure ?_
  obtain ⟨rfl, rfl⟩ : spliced = false ∧ args = [] := by simpa using hs
  refine ⟨⟨rfl, rfl, by simp, by simp, by simp, fun _ => ⟨rfl, rfl, _, plan, rfl, rfl⟩⟩, ?_⟩
  intro d q hpart
  cases hpart with
  | argument hp _ => exact absurd hp (by simp)
  | element hp _ => exact absurd hp (by simp)
  | fields hp hd =>
    obtain rfl := CaseForm.record.inj hp
    obtain rfl := Option.some.inj hd
    exact hplan

/-- One more constructor in front. -/
theorem consCase {flat : Bool} {c : Constructor Description} {cases : List (Case Description)}
    {p : CasePlan Plan} {ps : List (CasePlan Plan)} (h : l'.Extends l)
    (hp : BuiltCase catalog l.Trusts params c p)
    (hps : ∃ cs : List (Constructor Description),
      (if flat then flatCases cases else cases) = cs.map .constructor ∧
        List.Forall₂ (BuiltCase catalog l'.Trusts params) cs ps) :
    ∃ cs : List (Constructor Description),
      (if flat then flatCases (.constructor c :: cases) else .constructor c :: cases) =
        cs.map .constructor ∧ List.Forall₂ (BuiltCase catalog l'.Trusts params) cs (p :: ps) := by
  obtain ⟨cs, hcs, hbuilt⟩ := hps
  refine ⟨c :: cs, ?_, .cons ⟨hp.1, fun d q hpart => (hp.2 d q hpart).later h⟩ hbuilt⟩
  cases flat with
  | false => exact congrArg (.constructor c :: ·) hcs
  | true =>
    rw [if_pos rfl] at hcs ⊢
    simp [flatCases, flatCase, hcs]

mutual

theorem build_keeps (hdefine : DefinesWell catalog numbering start define) :
    ∀ (d : Description) (l : Ledger), l.Extends start → l.Trusts site.params → l.Admits d.givens →
      Keeps catalog numbering l (build catalog define site d) fun l' c =>
        l'.Knows c ∧ Built catalog l'.Trusts site.params d c.plan
  | .primitive name, l, _, _, _ => by
    rw [build]
    cases hp : Primitive.ofName? name with
    | none => exact .throw
    | some p => exact .pure ⟨l.knows_ofPrimitive p, .primitive hp⟩
  | .product parts, l, hstart, ht, hgivens => by
    rw [build]
    refine (buildAll_keeps hdefine parts l hstart ht (by simpa [givens] using hgivens)).bind
      fun l' cs _ hcs => ?_
    refine (Keeps.fresh _ _).weaken fun l'' c hext hc => ⟨hc.1, ?_⟩
    rw [hc.2]
    obtain ⟨hlen, hzip⟩ := List.forall₂_iff_zip.1 hcs.2
    exact .product hlen fun d c hmem => (hzip hmem).later hext
  | .record fields instanceOf extra, l, hstart, ht, hgivens => by
    rw [build]
    refine (buildRecord_keeps instanceOf extra
      (buildFields_keeps hdefine fields l hstart ht (by simpa [givens] using hgivens))).bind
      fun l' plan _ hplan => ?_
    refine (Keeps.fresh _ _).weaken fun l'' c hext hc => ⟨hc.1, ?_⟩
    rw [hc.2]
    exact hplan.later hext
  | .sum cases, l, hstart, ht, hgivens => by
    rw [build]
    refine (buildCases_keeps hdefine false cases l hstart ht (by simpa [givens] using hgivens)).bind
      fun l' plans _ hplans => ?_
    obtain ⟨cs, hcs, h⟩ := hplans
    obtain rfl : cases = cs.map .constructor := hcs
    exact planVariant_keeps "sum" .sum h
  | .polyVariant cases, l, hstart, ht, hgivens => by
    rw [build]
    refine (buildCases_keeps hdefine true cases l hstart ht (by simpa [givens] using hgivens)).bind
      fun l' plans _ hplans => ?_
    obtain ⟨cs, hcs, h⟩ := hplans
    exact planVariant_keeps "variant" (.polyVariant hcs) h
  | .list element, l, hstart, ht, hgivens => by
    rw [build]
    exact (build_keeps hdefine element l hstart ht (by simpa [givens] using hgivens)).bind
      fun l' c _ hc => Keeps.listOf site hc.2
  | .array element stated, l, hstart, ht, hgivens => by
    rw [build]
    exact (build_keeps hdefine element l hstart ht (by simpa [givens] using hgivens)).bind
      fun l' c _ hc => Keeps.arrayOf site stated hc.2
  | .option inner, l, hstart, ht, hgivens => by
    rw [build]
    by_cases hi : inner.isOption
    · rw [if_pos hi]
      exact .throw
    · rw [if_neg hi]
      refine (build_keeps hdefine inner l hstart ht (by simpa [givens] using hgivens)).bind
        fun l' c _ hc => ?_
      refine (Keeps.fresh _ _).weaken fun l'' k hext hk => ⟨hk.1, ?_⟩
      rw [hk.2]
      exact .option (by simpa using hi) (hc.2.later hext)
  | .sealed, l, _, _, _ => by
    rw [build]
    refine (Keeps.fresh _ _).weaken fun l' c _ hc => ⟨hc.1, ?_⟩
    rw [hc.2]
    exact .sealed
  | .parameter index name, l, _, ht, _ => by
    rw [build]
    refine .lift fun c hc => ?_
    unfold Site.parameter at hc
    by_cases hi : index < 0
    · simp [hi] at hc
    · cases hfound : site.params[index.toNat]? with
      | none => simp [hi, hfound] at hc
      | some k =>
        obtain rfl : k = c := by simpa [hi, hfound] using hc
        exact ⟨ht k (List.mem_of_getElem? hfound), .parameter (by omega) hfound⟩
  | .recursive id none, l, _, ht, _ => by
    rw [build]
    refine .check fun d _ => ?_
    refine (Keeps.link _ _ _).weaken fun l' c hext hc => ⟨hc.1, ?_⟩
    obtain ⟨cell, hplan⟩ := hc.2
    rw [hplan]
    exact .link (ht.mono hext)
  | .recursive id (some args), l, hstart, ht, hgivens => by
    rw [build]
    refine (buildAll_keeps hdefine args l hstart ht (by simpa [givens] using hgivens)).bind
      fun l' cs _ hcs => ?_
    refine .check fun d _ => ?_
    refine (Keeps.link _ _ _).weaken fun l'' c hext hc => ⟨hc.1, ?_⟩
    obtain ⟨cell, hplan⟩ := hc.2
    rw [hplan]
    obtain ⟨hlen, hzip⟩ := List.forall₂_iff_zip.1 hcs.2
    exact .recursive hlen (fun d c hmem => (hzip hmem).later hext) (.link (hcs.1.mono hext))
  | .applied id args, l, hstart, ht, hgivens => by
    rw [build]
    refine (buildAll_keeps hdefine args l hstart ht (by simpa [givens] using hgivens)).bind
      fun l' cs hext hcs => ?_
    refine .check fun d _ => ?_
    refine (hdefine l' id cs (hext.trans hstart) hcs.1).weaken fun l'' c hext hc => ⟨hc.1, ?_⟩
    obtain ⟨hlen, hzip⟩ := List.forall₂_iff_zip.1 hcs.2
    exact .applied hlen (fun d c hmem => (hzip hmem).later hext) hc.2
  | .given c, l, _, _, hgivens => by
    rw [build]
    obtain ⟨name, k, hk, rfl⟩ := hgivens c (by simp [givens])
    have hknown := Ledger.knows_ofCustom hk
    exact .pure ⟨hknown, .custom fun c hc => List.mem_singleton.1 hc ▸ hknown⟩
  | .notConverter _, _, _, _, _ => by rw [build]; exact .throw
  | .foreign _, _, _, _, _ => by rw [build]; exact .throw

theorem buildAll_keeps (hdefine : DefinesWell catalog numbering start define) :
    ∀ (ds : List Description) (l : Ledger), l.Extends start → l.Trusts site.params →
      l.Admits (givensOf ds) →
      Keeps catalog numbering l (buildAll catalog define site ds) fun l' cs =>
        l'.Trusts cs ∧ List.Forall₂ (BuiltConverter catalog l'.Trusts site.params) ds cs
  | [], l, _, _, _ => by
    rw [buildAll]
    exact .pure ⟨by simp [Ledger.Trusts], .nil⟩
  | d :: ds, l, hstart, ht, hgivens => by
    rw [buildAll]
    rw [givensOf, Ledger.admits_append] at hgivens
    refine (build_keeps hdefine d l hstart ht hgivens.1).bind fun l' c hext hc => ?_
    refine (buildAll_keeps hdefine ds l' (hext.trans hstart) (ht.mono hext)
      (hgivens.2.later hext)).bind fun l'' cs hext' hcs => ?_
    refine .pure ⟨?_, .cons (hc.2.later hext') hcs.2⟩
    intro k hk
    rcases List.mem_cons.1 hk with rfl | hk
    · exact hc.1.mono hext'
    · exact hcs.1 k hk

theorem buildFields_keeps (hdefine : DefinesWell catalog numbering start define) :
    ∀ (fields : List (Field Description)) (l : Ledger), l.Extends start → l.Trusts site.params →
      l.Admits (fieldGivens fields) →
      Keeps catalog numbering l (buildFields catalog define site fields)
        fun l' plans => List.Forall₂ (BuiltField catalog l'.Trusts site.params) fields plans
  | [], l, _, _, _ => by
    rw [buildFields]
    exact .pure .nil
  | ⟨name, none, presence, default, statedRule, predicate⟩ :: fs, l, hstart, ht, hgivens => by
    rw [buildFields]
    refine (buildField_keeps _ fun d hd => absurd hd (by simp)).bind fun l' p hext hp => ?_
    refine (buildFields_keeps hdefine fs l' (hext.trans hstart) (ht.mono hext)
      (by simpa [fieldGivens] using hgivens.later hext)).bind fun l'' ps hext' hps => ?_
    exact .pure (.cons ⟨hp.1, fun d q hpart => (hp.2 d q hpart).later hext'⟩ hps)
  | ⟨name, some d, presence, default, statedRule, predicate⟩ :: fs, l, hstart, ht, hgivens => by
    rw [buildFields]
    rw [fieldGivens, Ledger.admits_append] at hgivens
    have hbuild := build_keeps hdefine d l hstart ht hgivens.1
    refine (buildField_keeps _ fun d' hd => ?_).bind fun l' p hext hp => ?_
    · obtain rfl : d = d' := Option.some.inj hd
      exact hbuild
    · refine (buildFields_keeps hdefine fs l' (hext.trans hstart) (ht.mono hext)
        (hgivens.2.later hext)).bind fun l'' ps hext' hps => ?_
      exact .pure (.cons ⟨hp.1, fun d q hpart => (hp.2 d q hpart).later hext'⟩ hps)

theorem buildCases_keeps (hdefine : DefinesWell catalog numbering start define) (flat : Bool) :
    ∀ (cases : List (Case Description)) (l : Ledger), l.Extends start → l.Trusts site.params →
      l.Admits (caseGivens cases) →
      Keeps catalog numbering l (buildCases catalog define site flat cases) fun l' plans =>
        ∃ cs : List (Constructor Description),
          (if flat then flatCases cases else cases) = cs.map .constructor ∧
            List.Forall₂ (BuiltCase catalog l'.Trusts site.params) cs plans
  | [], l, _, _, _ => by
    rw [buildCases]
    exact .pure ⟨[], by simp [flatCases], .nil⟩
  | .constructor ⟨tag, args, instanceOf, none, spliced⟩ :: cases, l, hstart, ht, hgivens => by
    rw [buildCases]
    rw [caseGivens, Ledger.admits_append] at hgivens
    refine (buildArguments_keeps tag args instanceOf spliced
      (buildAll_keeps hdefine args l hstart ht hgivens.1)).bind fun l' p hext hp => ?_
    refine (buildCases_keeps hdefine flat cases l' (hext.trans hstart) (ht.mono hext)
      (hgivens.2.later hext)).bind fun l'' ps hext' hps => .pure ?_
    exact consCase hext' hp hps
  | .constructor ⟨tag, args, instanceOf, some r, spliced⟩ :: cases, l, hstart, ht, hgivens => by
    rw [buildCases]
    rw [caseGivens, Ledger.admits_append, Ledger.admits_append] at hgivens
    have hconstructor : Keeps catalog numbering l
        (buildConstructor catalog define site ⟨tag, args, instanceOf, some r, spliced⟩)
        fun l' p => BuiltCase catalog l'.Trusts site.params
          ⟨tag, args, instanceOf, some r, spliced⟩ p := by
      cases r with
      | record fields inner extra =>
        exact buildInline_keeps tag args instanceOf inner fields extra spliced
          (buildFields_keeps hdefine fields l hstart ht (by simpa [givens] using hgivens.2.1))
      | _ => rw [buildConstructor] <;> first | exact .throw | simp
    refine hconstructor.bind fun l' p hext hp => ?_
    refine (buildCases_keeps hdefine flat cases l' (hext.trans hstart) (ht.mono hext)
      (hgivens.2.2.later hext)).bind fun l'' ps hext' hps => .pure ?_
    exact consCase hext' hp hps
  | .nested d :: cases, l, hstart, ht, hgivens => by
    rw [caseGivens, Ledger.admits_append] at hgivens
    cases d with
    | polyVariant inner =>
      rw [buildCases]
      cases flat with
      | false => exact .throw
      | true =>
        rw [if_pos rfl]
        have hinner := buildCases_keeps hdefine true inner l hstart ht (by simpa [givens] using hgivens.1)
        refine hinner.bind fun l' ps hext hps => ?_
        refine (buildCases_keeps hdefine true cases l' (hext.trans hstart) (ht.mono hext)
          (hgivens.2.later hext)).bind fun l'' qs hext' hqs => ?_
        obtain ⟨cs, hcs, h⟩ := hps
        obtain ⟨ds, hds, h'⟩ := hqs
        rw [if_pos rfl] at hcs hds
        refine .pure ⟨cs ++ ds, ?_, List.rel_append
          (h.imp fun c p hc => ⟨hc.1, fun d q hpart => (hc.2 d q hpart).later hext'⟩) h'⟩
        rw [if_pos rfl]
        simp [flatCases, flatCase, nestedCases, hcs, hds]
    | _ => rw [buildCases] <;> first | exact .throw | simp

end

end Description

end TypedSexp
