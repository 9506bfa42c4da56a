import TypedSexp.Derivation.Derive
import TypedSexp.Proofs.Derivation.Accepts
import TypedSexp.Proofs.Derivation.Desk
import TypedSexp.Proofs.Description.Occurrences
/-!
# Building a description, with what is underway noted

`Work.build_follows` follows the recursion of `Description.build`: where the definitions that are
applied leave what is underway as it was and do what those of `Derivation.define` do, so does the
description. References have leaves for arguments here (`Description.RefersToLeaves`), so whatever a
definition is applied to was an argument before, is built in or stands in a definition. A refusal is
about a description, unless it has to show something that has no literal (`Catalog.Refuses`).
-/

namespace TypedSexp

/-! ## Refusals -/

/-- The case is a constructor, whose fields are those of a record if it has any; with `flat`, it may
be a polymorphic variant. -/
def Case.IsTyped (flat : Bool) : Case Description → Prop
  | .constructor c =>
    ∀ r, c.record = some r → ∃ fields instanceOf extra, r = .record fields instanceOf extra
  | .nested d => flat ∧ ∃ cases, d = .polyVariant cases

/-- A default that the field may not have has a literal. -/
def Field.IsShowable (f : Field Description) : Prop :=
  f.presence = .sexpOption → ∀ d, f.default = some d → ∃ t, d.value.literal = .ok t

namespace Description

/-- Cases stand where they may stand. -/
def IsTyped : Description → Prop
  | .sum cases => ∀ c ∈ cases, c.IsTyped false
  | .polyVariant cases => ∀ c ∈ cases, c.IsTyped true
  | _ => True

/-- What a refusal of the description would show has a literal. -/
def IsShowable : Description → Prop
  | .record fields _ _ => ∀ f ∈ fields, f.IsShowable
  | .notConverter v => ∃ t, v.literal = .ok t
  | .foreign v => ∃ t, v.literal = .ok t
  | _ => True

end Description

namespace Catalog

variable {catalog : Catalog} {e : DescriptionFault}

/-- All that stands in the definitions stands where it may, and can be shown. -/
def IsShowable (catalog : Catalog) : Prop := catalog.Everywhere fun x => x.IsTyped ∧ x.IsShowable

/-- The refusal is about a description, unless the definitions hold something that cannot be shown;
in any case there is an end. -/
def Refuses (catalog : Catalog) (e : DescriptionFault) : Prop :=
  e ≠ .endless ∧ (catalog.IsShowable → e.className = "DescriptorError")

theorem Refuses.of_className (h : e.className = "DescriptorError") : catalog.Refuses e := by
  refine ⟨?_, fun _ => h⟩
  rintro rfl
  exact absurd h (by decide)

theorem Refuses.ofLiteral {fault : Text → DescriptionFault} {v : Value}
    (hfault : ∀ t, (fault t).className = "DescriptorError")
    (hv : catalog.IsShowable → ∃ t, v.literal = .ok t) :
    catalog.Refuses (.ofLiteral fault v) := by
  unfold DescriptionFault.ofLiteral
  cases hliteral : v.literal with
  | ok t => exact .of_className (hfault t)
  | error fault =>
    refine ⟨fun h => (nomatch h), fun hshow => ?_⟩
    obtain ⟨t, ht⟩ := hv hshow
    exact nomatch ht.symm.trans hliteral

theorem Refuses.notCase (h : ¬ catalog.IsShowable) : catalog.Refuses .notCase :=
  ⟨fun h => (nomatch h), fun hshow => absurd hshow h⟩

end Catalog

namespace Description

open Derivation

variable {catalog : Catalog} {e : DescriptionFault}

theorem className_of_lookup {id : DefinitionId} {count : Nat}
    (h : lookup catalog id count = .error e) : e.className = "DescriptorError" := by
  unfold lookup checkArity at h
  cases hid : catalog[id]? with
  | none =>
    rw [hid] at h
    obtain rfl := Except.error.inj h
    rfl
  | some d =>
    rw [hid] at h
    by_cases hcount : count = d.arity
    · simp [hcount, Except.map] at h
    · obtain rfl : DescriptionFault.arity d.name d.arity count = e := by
        simpa [hcount, Except.map] using h
      rfl

theorem className_of_bodyOf {d : Definition} (h : bodyOf d = .error e) :
    e.className = "DescriptorError" := by
  unfold bodyOf at h
  cases hbody : d.body with
  | none =>
    rw [hbody] at h
    obtain rfl := Except.error.inj h
    rfl
  | some body =>
    rw [hbody] at h
    exact nomatch h

theorem className_of_parameter {site : Site} {index : Int} {name : Option Text}
    (h : site.parameter index name = .error e) : e.className = "DescriptorError" := by
  unfold Site.parameter at h
  simp only at h
  split at h
  · cases h
  · obtain rfl := Except.error.inj h
    rfl

theorem mem_of_parameter {site : Site} {index : Int} {name : Option Text} {c : Converter}
    (h : site.parameter index name = .ok c) : c ∈ site.params := by
  unfold Site.parameter at h
  simp only at h
  split at h
  · rename_i c' hc
    obtain rfl := Except.ok.inj h
    split at hc
    · cases hc
    · exact List.mem_of_getElem? hc
  · cases h

theorem className_of_dropping {f : Field Description} (h : dropping f = .error e) :
    e.className = "DescriptorError" := by
  unfold dropping at h
  repeat' split at h
  all_goals cases h <;> rfl

theorem refuses_of_checkAbsence {f : Field Description} {type : Description}
    (hf : catalog.IsShowable → f.IsShowable) (h : checkAbsence f type = .error e) : catalog.Refuses e := by
  unfold checkAbsence at h
  split at h
  · split at h
    · exact nomatch h
    · obtain rfl := Except.error.inj h
      exact .of_className rfl
  · exact nomatch h
  · rename_i d _ hpresence hdefault
    obtain rfl := Except.error.inj h
    exact .ofLiteral (fun _ => rfl) fun hshow => hf hshow hpresence d hdefault
  · exact nomatch h

theorem planField_succeeds (site : Site) (f : Field Description) (type : Description)
    (rule : Dropping) (c : Converter) : (planField site f type rule c).Succeeds := by
  unfold planField
  cases f.presence with
  | sexpList => exact (Succeeds.fresh _ _).bind fun _ => .pure _
  | sexpArray => exact (Succeeds.fresh _ _).bind fun _ => .pure _
  | _ => exact .pure _

end Description

/-! ## Descriptions -/

/-- What stands in a definition refers to leaves and can be shown, and a converter that stands there
has one of these identities. -/
structure Catalog.Admits (catalog : Catalog) (pool : Finset Identity) (x : Description) : Prop where
  refers : x.RefersToLeaves
  given : ∀ c, x = .given c → c.identity ∈ pool
  showable : catalog.IsShowable → x.IsTyped ∧ x.IsShowable

namespace Work

open Description Derivation

variable {catalog : Catalog} {pool : Finset Identity} {underway : Finset Request} {site : Site}
  {work : DefinitionId → List Converter → Work Converter}
  {define : DefinitionId → List Converter → Derivation Converter}

/-- A new converter is never refused. -/
theorem Follows.succeeds {α : Type} {x : Derivation α} (h : x.Succeeds) :
    Follows underway catalog.Refuses (Work.lift x) x fun _ => True := by
  refine .lift fun d e he => ?_
  obtain ⟨a, ha⟩ := h d
  exact nomatch ha.symm.trans he

/-- What concerns leaves alone is not asked of others. -/
theorem Follows.vacuous {α : Type} {w : Work α} {x : Derivation α} {p : Prop} {Post : α → Prop}
    (hw : Follows underway catalog.Refuses w x fun _ => True) (hp : ¬ p) :
    Follows underway catalog.Refuses w x fun a => p → Post a :=
  hw.weaken fun _ _ h => absurd h hp

theorem planVariant_follows (shape : Text) (folding : Bool) (plans : List (CasePlan Plan)) :
    Follows underway catalog.Refuses (lift (planVariant site shape folding plans))
      (planVariant site shape folding plans) fun _ => True := by
  unfold planVariant
  cases firstRepeated? [] (plans.map CasePlan.tag) with
  | none => exact .succeeds (.fresh _ _)
  | some tag => exact .throw (.of_className rfl)

theorem buildRecord_follows (instanceOf : Option ClassInfo) (extra : Bool)
    {fields : List (Field Description)}
    (h : Follows underway catalog.Refuses (Description.buildFields catalog work site fields)
      (Description.buildFields catalog define site fields) fun _ => True) :
    Follows underway catalog.Refuses (Description.buildRecord catalog work site instanceOf extra fields)
      (Description.buildRecord catalog define site instanceOf extra fields) fun _ => True := by
  rw [Description.buildRecord, Description.buildRecord]
  cases firstRepeated? [] (fields.map Field.name) with
  | some name => exact .throw (.of_className rfl)
  | none => exact h.bind fun plans _ => .pure trivial

/-- Definitions that are applied to converters with these identities are derived alike, and the
built-in converters and those at the site are among them. -/
structure Agrees (catalog : Catalog) (pool : Finset Identity) (underway : Finset Request)
    (work : DefinitionId → List Converter → Work Converter)
    (define : DefinitionId → List Converter → Derivation Converter) (site : Site) : Prop where
  builtin : ∀ p, .builtin p ∈ pool
  params : ∀ c ∈ site.params, c.identity ∈ pool
  define : ∀ id args, (∀ c ∈ args, c.identity ∈ pool) →
    Follows underway catalog.Refuses (work id args) (define id args) fun _ => True

mutual

/-- **A description is built alike**, whether what is underway is noted or told, if that is so for
the definitions that it applies. -/
theorem build_follows (hw : Agrees catalog pool underway work define site) :
    ∀ d : Description, d.Everywhere (catalog.Admits pool) →
    Follows underway catalog.Refuses (Description.build catalog work site d)
      (Description.build catalog define site d) fun c => d.IsLeaf → c.identity ∈ pool
  | .primitive name, _ => by
    rw [Description.build, Description.build]
    cases Primitive.ofName? name with
    | none => exact .throw (.of_className rfl)
    | some p => exact .pure fun _ => hw.builtin p
  | .product parts, h => by
    rw [Description.build, Description.build]
    exact (buildAll_follows hw parts fun d hd => h.part hd).bind
      fun cs _ => .vacuous (.succeeds (.fresh _ _)) fun h => h
  | .record fields instanceOf extra, h => by
    rw [Description.build, Description.build]
    exact (buildRecord_follows instanceOf extra (buildFields_follows hw fields
      (fun f hf hshow => (h.here.showable hshow).2 f hf) fun d hd => h.part hd)).bind
      fun plan _ => .vacuous (.succeeds (.fresh _ _)) fun h => h
  | .sum cases, h => by
    rw [Description.build, Description.build]
    exact (buildCases_follows hw false cases (fun c hc hshow => (h.here.showable hshow).1 c hc)
      fun p hp => h.part hp).bind
      fun plans _ => .vacuous (planVariant_follows _ _ _) fun h => h
  | .polyVariant cases, h => by
    rw [Description.build, Description.build]
    exact (buildCases_follows hw true cases (fun c hc hshow => (h.here.showable hshow).1 c hc)
      fun p hp => h.part hp).bind
      fun plans _ => .vacuous (planVariant_follows _ _ _) fun h => h
  | .list element, h => by
    rw [Description.build, Description.build]
    exact (build_follows hw element (h.part List.mem_cons_self)).bind
      fun c _ => .vacuous (.succeeds (.fresh _ _)) fun h => h
  | .array element stored, h => by
    rw [Description.build, Description.build]
    exact (build_follows hw element (h.part List.mem_cons_self)).bind
      fun c _ => .vacuous (.succeeds (.fresh _ _)) fun h => h
  | .option inner, h => by
    rw [Description.build, Description.build]
    by_cases hi : inner.isOption
    · rw [if_pos hi, if_pos hi]
      exact .throw (.of_className rfl)
    · rw [if_neg hi, if_neg hi]
      exact (build_follows hw inner (h.part List.mem_cons_self)).bind
        fun c _ => .vacuous (.succeeds (.fresh _ _)) fun h => h
  | .sealed, _ => by
    rw [Description.build, Description.build]
    exact .vacuous (.succeeds (.fresh _ _)) fun h => h
  | .parameter index name, _ => by
    rw [Description.build, Description.build]
    cases hc : site.parameter index name with
    | error e => exact .throw (.of_className (className_of_parameter hc))
    | ok c => exact .pure fun _ => hw.params c (mem_of_parameter hc)
  | .recursive id none, _ => by
    rw [Description.build, Description.build]
    exact .check (fun e he => .of_className (className_of_lookup he))
      fun d _ => .vacuous (.succeeds (.link _ _ _)) fun h => h
  | .recursive id (some args), h => by
    rw [Description.build, Description.build]
    refine (buildAll_follows hw args fun d hd => h.part hd).bind fun cs _ => ?_
    exact .check (fun e he => .of_className (className_of_lookup he))
      fun d _ => .vacuous (.succeeds (.link _ _ _)) fun h => h
  | .applied id args, h => by
    rw [Description.build, Description.build]
    refine (buildAll_follows hw args fun d hd => h.part hd).bind fun cs hcs => ?_
    exact .check (fun e he => .of_className (className_of_lookup he))
      fun d _ => .vacuous (hw.define id cs (hcs h.here.refers)) fun h => h
  | .given c, h => by
    rw [Description.build, Description.build]
    exact .pure fun _ => h.here.given c rfl
  | .notConverter v, h => by
    rw [Description.build, Description.build]
    exact .throw (.ofLiteral (fun _ => rfl) fun hshow => (h.here.showable hshow).2)
  | .foreign v, h => by
    rw [Description.build, Description.build]
    exact .throw (.ofLiteral (fun _ => rfl) fun hshow => (h.here.showable hshow).2)

theorem buildAll_follows (hw : Agrees catalog pool underway work define site) :
    ∀ ds : List Description, (∀ d ∈ ds, d.Everywhere (catalog.Admits pool)) →
    Follows underway catalog.Refuses (Description.buildAll catalog work site ds)
      (Description.buildAll catalog define site ds)
      fun cs => (∀ d ∈ ds, d.IsLeaf) → ∀ c ∈ cs, c.identity ∈ pool
  | [], _ => by
    rw [Description.buildAll, Description.buildAll]
    exact .pure fun _ c hc => absurd hc List.not_mem_nil
  | d :: ds, h => by
    rw [Description.buildAll, Description.buildAll]
    refine (build_follows hw d (h d List.mem_cons_self)).bind fun c hc => ?_
    refine (buildAll_follows hw ds fun d hd => h d (List.mem_cons_of_mem _ hd)).bind
      fun cs hcs => .pure fun hleaves x hx => ?_
    rcases List.mem_cons.1 hx with rfl | hx
    · exact hc (hleaves d List.mem_cons_self)
    · exact hcs (fun d hd => hleaves d (List.mem_cons_of_mem _ hd)) x hx

theorem buildFields_follows (hw : Agrees catalog pool underway work define site) :
    ∀ fields : List (Field Description),
    (∀ f ∈ fields, catalog.IsShowable → f.IsShowable) →
    (∀ d ∈ fields.filterMap Field.type, d.Everywhere (catalog.Admits pool)) →
    Follows underway catalog.Refuses (Description.buildFields catalog work site fields)
      (Description.buildFields catalog define site fields) fun _ => True
  | [], _, _ => by
    rw [Description.buildFields, Description.buildFields]
    exact .pure trivial
  | f :: fs, hshow, h => by
    rw [Description.buildFields, Description.buildFields]
    refine (buildField_follows hw f (hshow f List.mem_cons_self) fun d hd =>
      h d (List.mem_filterMap.2 ⟨f, List.mem_cons_self, hd⟩)).bind fun p _ => ?_
    refine (buildFields_follows hw fs (fun f hf => hshow f (List.mem_cons_of_mem _ hf))
      fun d hd => h d ?_).bind fun ps _ => .pure trivial
    obtain ⟨g, hg, hd⟩ := List.mem_filterMap.1 hd
    exact List.mem_filterMap.2 ⟨g, List.mem_cons_of_mem _ hg, hd⟩

theorem buildField_follows (hw : Agrees catalog pool underway work define site) :
    ∀ f : Field Description, (catalog.IsShowable → f.IsShowable) →
    (∀ d, f.type = some d → d.Everywhere (catalog.Admits pool)) →
    Follows underway catalog.Refuses (Description.buildField catalog work site f)
      (Description.buildField catalog define site f) fun _ => True
  | ⟨name, type, presence, default, statedRule, predicate⟩, hshow, h => by
    rw [Description.buildField, Description.buildField]
    refine .check (fun e he => .of_className (className_of_dropping he)) fun rule _ => ?_
    by_cases hp : presence = .sexpBool
    · rw [if_pos hp, if_pos hp]
      exact .pure trivial
    · rw [if_neg hp, if_neg hp]
      cases type with
      | none => exact .throw (.of_className rfl)
      | some d =>
        refine .check (fun e he => refuses_of_checkAbsence hshow he) fun _ _ => ?_
        exact (build_follows hw d (h d rfl)).bind
          fun c _ => .succeeds (planField_succeeds site _ d rule c)

theorem buildCases_follows (hw : Agrees catalog pool underway work define site) (flat : Bool) :
    ∀ cases : List (Case Description),
    (∀ c ∈ cases, catalog.IsShowable → c.IsTyped flat) →
    (∀ d ∈ cases.flatMap Case.parts, d.Everywhere (catalog.Admits pool)) →
    Follows underway catalog.Refuses (Description.buildCases catalog work site flat cases)
      (Description.buildCases catalog define site flat cases) fun _ => True
  | [], _, _ => by
    rw [Description.buildCases, Description.buildCases]
    exact .pure trivial
  | .constructor c :: cases, htyped, h => by
    rw [List.flatMap_cons, List.forall_mem_append] at h
    rw [Description.buildCases, Description.buildCases]
    refine (buildConstructor_follows hw c (htyped _ List.mem_cons_self) h.1).bind fun p _ => ?_
    refine (buildCases_follows hw flat cases (fun c hc => htyped c (List.mem_cons_of_mem _ hc))
      h.2).bind fun ps _ => .pure trivial
  | .nested d :: cases, htyped, h => by
    have hd := htyped _ List.mem_cons_self
    rw [List.flatMap_cons, List.forall_mem_append] at h
    cases d with
    | polyVariant inner =>
      rw [Description.buildCases, Description.buildCases]
      cases flat with
      | false => exact .throw (.notCase fun hshow => nomatch (hd hshow).1)
      | true =>
        rw [if_pos rfl, if_pos rfl]
        have hinner := h.1 _ List.mem_cons_self
        refine (buildCases_follows hw true inner
          (fun c hc hshow => (hinner.here.showable hshow).1 c hc) fun p hp => hinner.part hp).bind
          fun ps _ => ?_
        refine (buildCases_follows hw true cases (fun c hc => htyped c (List.mem_cons_of_mem _ hc))
          h.2).bind fun qs _ => .pure trivial
    | _ =>
      rw [Description.buildCases, Description.buildCases]
      · exact .throw (.notCase fun hshow => by
          obtain ⟨_, _, h⟩ := hd hshow
          exact nomatch h)
      all_goals simp

theorem buildConstructor_follows (hw : Agrees catalog pool underway work define site)
    {flat : Bool} : ∀ c : Constructor Description, (catalog.IsShowable → (Case.constructor c).IsTyped flat) →
    (∀ d ∈ (Case.constructor c).parts, d.Everywhere (catalog.Admits pool)) →
    Follows underway catalog.Refuses (Description.buildConstructor catalog work site c)
      (Description.buildConstructor catalog define site c) fun _ => True
  | ⟨tag, args, instanceOf, none, spliced⟩, _, h => by
    rw [Description.buildConstructor, Description.buildConstructor]
    by_cases hs : (spliced && decide (args.length ≠ 1)) = true
    · rw [if_pos hs, if_pos hs]
      exact .throw (.of_className rfl)
    · rw [if_neg hs, if_neg hs]
      exact (buildAll_follows hw args (List.forall_mem_append.1 h).1).bind fun cs _ => .pure trivial
  | ⟨tag, args, instanceOf, some d, spliced⟩, htyped, h => by
    cases d with
    | record fields inner extra =>
      rw [Description.buildConstructor, Description.buildConstructor]
      by_cases hs : (spliced || !args.isEmpty) = true
      · rw [if_pos hs, if_pos hs]
        exact .throw (.of_className rfl)
      · rw [if_neg hs, if_neg hs]
        have hd := (List.forall_mem_append.1 h).2 _ List.mem_cons_self
        exact (buildRecord_follows _ extra (buildFields_follows hw fields
          (fun f hf hshow => (hd.here.showable hshow).2 f hf) fun d hd' => hd.part hd')).bind
          fun plan _ => .pure trivial
    | _ =>
      rw [Description.buildConstructor, Description.buildConstructor]
      · by_cases hs : (spliced || !args.isEmpty) = true
        · rw [if_pos hs]
          exact .throw (.of_className rfl)
        · rw [if_neg hs]
          exact .throw (.notCase fun hshow => by
            obtain ⟨_, _, _, h⟩ := htyped hshow _ rfl
            exact nomatch h)
      all_goals simp

end

end Work

end TypedSexp
