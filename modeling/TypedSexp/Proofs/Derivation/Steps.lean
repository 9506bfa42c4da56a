import TypedSexp.Conversion.Carrier
import TypedSexp.Proofs.Derivation.Refusal
import TypedSexp.Proofs.Results
/-!
# Derivations step by step

What a derivation gives and what it leaves remembered, from what its parts give and leave: for
definitions, and for records of required fields, lists and sums of constructors with arguments.
-/

namespace TypedSexp

namespace Derivation

variable {ε α β : Type} {s s' : Deriver}

theorem error_ne_ok {e : ε} {a : α} (h : (Except.error e : Except ε α) = .ok a) : False := by
  simp at h

theorem bind_run {x : Remembering ε α} {f : α → Remembering ε β} {a : α} (hx : x s = (.ok a, s')) :
    (x >>= f) s = f a s' := by
  rw [run_bind, hx]

theorem bind_run_error {x : Remembering ε α} {f : α → Remembering ε β} {e : ε}
    (hx : x s = (.error e, s')) : (x >>= f) s = (.error e, s') := by
  rw [run_bind, hx]

/-- A sequence gives something if its steps do, one after another. -/
theorem bind_run_iff {x : Remembering ε α} {f : α → Remembering ε β} {b : β} {s'' : Deriver} :
    (x >>= f) s = (.ok b, s'') ↔ ∃ a s', x s = (.ok a, s') ∧ f a s' = (.ok b, s'') := by
  rw [run_bind]
  constructor
  · intro h
    cases hx : x s with
    | mk r s' =>
      rw [hx] at h
      cases r with
      | error e => exact nomatch congrArg Prod.fst h
      | ok a => exact ⟨a, s', rfl, h⟩
  · rintro ⟨a, s', hx, hf⟩
    rw [hx]
    exact hf

theorem outcome_run_iff {x : Except ε α} {a : α} :
    (outcome x : Remembering ε α) s = (.ok a, s') ↔ x = .ok a ∧ s' = s := by
  show (x, s) = (.ok a, s') ↔ _
  rw [Prod.mk.injEq, @eq_comm _ s s']

theorem mapError_run_iff {ε' : Type} {x : Remembering ε α} {f : ε → ε'} {a : α} :
    (Carrier.mapError f x : Remembering ε' α) s = (.ok a, s') ↔ x s = (.ok a, s') := by
  show ((x s).1.mapError f, (x s).2) = (.ok a, s') ↔ _
  rw [Prod.ext_iff, Prod.ext_iff]
  exact and_congr_left fun _ => mapError_eq_ok

theorem mapError_run_error {ε' : Type} {x : Remembering ε α} {f : ε → ε'} {e : ε}
    (hx : x s = (.error e, s')) : (Carrier.mapError f x : Remembering ε' α) s = (.error (f e), s') := by
  show ((x s).1.mapError f, (x s).2) = _
  rw [hx]
  rfl

variable {e : DescriptionFault}

theorem check_run {x : Except DescriptionFault α} {f : α → Derivation β} {a : α} (hx : x = .ok a) :
    (liftExcept x >>= f) s = f a s := by
  rw [hx]
  rfl

variable {catalog : Catalog} {depth : Nat} {inProgress : List Request} {id : DefinitionId}
  {args : List Converter} {d : Definition} {body : Description}

/-- The request for a definition. -/
abbrev requestOf (id : DefinitionId) (args : List Converter) : Request :=
  ⟨.definition id, args.map Keyed.identity⟩

/-- Without any depth left there is no end. -/
theorem define_zero : define catalog 0 inProgress id args s = (.error .endless, s) := rfl

section Define

variable (hd : Description.lookup catalog id args.length = .ok d) (hbody : bodyOf d = .ok body)

include hd hbody

/-- A definition that is remembered is not derived again. -/
theorem define_cached {c : Converter} (hcache : s.cache.lookup (requestOf id args) = some c) :
    define catalog (depth + 1) inProgress id args s = (.ok c, s) := by
  have hfound : cached? (requestOf id args) s = (.ok (some c), s) := by
    rw [← hcache]
    rfl
  rw [define, check_run hd, check_run hbody, bind_run hfound]
  rfl

variable (hcache : s.cache.lookup (requestOf id args) = none)

include hcache

theorem define_uncached : define catalog (depth + 1) inProgress id args s =
    (if inProgress.contains (requestOf id args) then link d.name id args
      else do
        let built ← Description.build catalog (define catalog depth (requestOf id args :: inProgress))
          ⟨args, some d.name⟩ body
        let c ← fresh (definitionName d args) built.plan
        remember (requestOf id args) c
        pure c : Derivation Converter) s := by
  have hfound : cached? (requestOf id args) s = (.ok none, s) := by
    rw [← hcache]
    rfl
  rw [define, check_run hd, check_run hbody, bind_run hfound]

/-- A definition that is being derived becomes a link. -/
theorem define_underway (hprogress : requestOf id args ∈ inProgress) :
    define catalog (depth + 1) inProgress id args s =
      (.ok ⟨.derived s.next, d.name, .link s.next id args⟩, ⟨s.next + 1, s.cache⟩) := by
  rw [define_uncached hd hbody hcache, if_pos (by simpa using hprogress)]
  rfl

variable (hprogress : requestOf id args ∉ inProgress)

include hprogress

theorem define_run {built : Converter}
    (hbuild : Description.build catalog (define catalog depth (requestOf id args :: inProgress))
      ⟨args, some d.name⟩ body s = (.ok built, s')) :
    define catalog (depth + 1) inProgress id args s =
      (.ok ⟨.derived s'.next, definitionName d args, built.plan⟩,
        ⟨s'.next + 1, (requestOf id args, ⟨.derived s'.next, definitionName d args, built.plan⟩)
          :: s'.cache⟩) := by
  rw [define_uncached hd hbody hcache, if_neg (by simpa using hprogress), bind_run hbuild]
  rfl

theorem define_run_error
    (hbuild : Description.build catalog (define catalog depth (requestOf id args :: inProgress))
      ⟨args, some d.name⟩ body s = (.error e, s')) :
    define catalog (depth + 1) inProgress id args s = (.error e, s') := by
  rw [define_uncached hd hbody hcache, if_neg (by simpa using hprogress), bind_run_error hbuild]

end Define

section Link

variable {cell : Nat} {c : Converter}

/-- The request for what a link comes to. -/
abbrev linkRequestOf (cell : Nat) (id : DefinitionId) (args : List Converter) : Request :=
  ⟨.cell cell id, args.map Keyed.identity⟩

theorem above_run : (modify fun d => { d with next := numberAbove d.next args } : Derivation Unit) s =
    (.ok (), { s with next := numberAbove s.next args }) := rfl

/-- A link that has been followed comes to what it came to before. -/
theorem ofLink_filled (hcell : s.cache.lookup (linkRequestOf cell id args) = some c) :
    ofLink catalog cell id args s = (.ok c, { s with next := numberAbove s.next args }) := by
  have hfound : cached? (linkRequestOf cell id args) { s with next := numberAbove s.next args } =
      (.ok (some c), { s with next := numberAbove s.next args }) := by
    rw [← hcell]
    rfl
  rw [ofLink, bind_run above_run, bind_run hfound]
  rfl

variable (hcell : s.cache.lookup (linkRequestOf cell id args) = none)

include hcell

theorem ofLink_empty : ofLink catalog cell id args s =
    (do
      let c ← ofDefinition catalog id args
      remember (linkRequestOf cell id args) c
      pure c : Derivation Converter) { s with next := numberAbove s.next args } := by
  have hfound : cached? (linkRequestOf cell id args) { s with next := numberAbove s.next args } =
      (.ok none, { s with next := numberAbove s.next args }) := by
    rw [← hcell]
    rfl
  rw [ofLink, bind_run above_run, bind_run hfound]

/-- A link that is followed for the first time comes to what its definition gives, and keeps it. -/
theorem ofLink_run (hc : ofDefinition catalog id args { s with next := numberAbove s.next args } =
    (.ok c, s')) :
    ofLink catalog cell id args s =
      (.ok c, { s' with cache := (linkRequestOf cell id args, c) :: s'.cache }) := by
  rw [ofLink_empty hcell, bind_run hc]
  rfl

/-- The definition is derived as deep as definitions nest. -/
theorem ofLink_run_define (hdepth : depthBound catalog 0 args.length = depth)
    (hc : define catalog depth [] id args { s with next := numberAbove s.next args } = (.ok c, s')) :
    ofLink catalog cell id args s =
      (.ok c, { s' with cache := (linkRequestOf cell id args, c) :: s'.cache }) := by
  subst hdepth
  exact ofLink_run hcell hc

theorem ofLink_run_error
    (he : ofDefinition catalog id args { s with next := numberAbove s.next args } = (.error e, s')) :
    ofLink catalog cell id args s = (.error e, s') := by
  rw [ofLink_empty hcell, bind_run_error he]

omit hcell

/-- A link is stopped only where its definition is not derived. -/
theorem ofLink_error (he : (ofLink catalog cell id args).result s = .error e) :
    (ofDefinition catalog id args).result { s with next := numberAbove s.next args } = .error e := by
  cases hcell : s.cache.lookup (linkRequestOf cell id args) with
  | some c =>
    rw [result, ofLink_filled hcell] at he
    exact (error_ne_ok he.symm).elim
  | none =>
    rw [result, ofLink_empty hcell] at he
    cases hc : (ofDefinition catalog id args).result { s with next := numberAbove s.next args } with
    | error e' =>
      exact (bind_eq_of_error hc).symm.trans he
    | ok c =>
      have hkeeps := bind_eq_of_ok (f := fun c => do
        remember (linkRequestOf cell id args) c
        pure c) hc
      exact (error_ne_ok (he.symm.trans (congrArg Prod.fst hkeeps))).elim

end Link

/-- A description that is not remembered is refused if it is refused where it is built. -/
theorem ofDescription_run_error {number : Nat} {x : Description}
    (hcache : s.cache.lookup ⟨.description number, args.map Keyed.identity⟩ = none)
    (hbuild : Description.build catalog (define catalog (depthBound catalog x.size args.length)
      [⟨.description number, args.map Keyed.identity⟩]) ⟨args, none⟩ x s = (.error e, s')) :
    ofDescription catalog number x args s = (.error e, s') := by
  have hfound : cached? ⟨.description number, args.map Keyed.identity⟩ s = (.ok none, s) := by
    rw [← hcache]
    rfl
  rw [ofDescription, bind_run hfound]
  exact bind_run_error hbuild

/-- A description that is not remembered is built, and remembered then. -/
theorem ofDescription_run {number : Nat} {x : Description} {c : Converter} {next : Nat}
    {cache : List (Request × Converter)}
    (hcache : s.cache.lookup ⟨.description number, args.map Keyed.identity⟩ = none)
    (hbuild : Description.build catalog (define catalog (depthBound catalog x.size args.length)
      [⟨.description number, args.map Keyed.identity⟩]) ⟨args, none⟩ x s = (.ok c, ⟨next, cache⟩)) :
    ofDescription catalog number x args s =
      (.ok c, ⟨next, (⟨.description number, args.map Keyed.identity⟩, c) :: cache⟩) := by
  have hfound : cached? ⟨.description number, args.map Keyed.identity⟩ s = (.ok none, s) := by
    rw [← hcache]
    rfl
  rw [ofDescription, bind_run hfound]
  show (Description.build (m := Derivation) _ _ _ _ >>= _) s = _
  rw [bind_run hbuild]
  rfl

end Derivation

/-- A required field without a default. -/
def Field.needed (name : Text) (d : Description) : Field Description :=
  ⟨name, some d, .required, none, .never, none⟩

/-- The plan of such a field. -/
def FieldPlan.needed (name : Text) (c : Converter) : FieldPlan Plan :=
  ⟨name, .valued c .never, none, .never⟩

namespace Description

open Derivation

variable {catalog : Catalog} {define : DefinitionId → List Converter → Derivation Converter}
  {site : Site} {s s' s'' : Deriver} {e : DescriptionFault} {name : Text} {d : Description}
  {fields : List (Field Description)} {plans : List (FieldPlan Plan)} {c : Converter}

theorem primitive_run {p : Primitive} (hp : Primitive.ofName? name = some p) :
    build catalog define site (.primitive name) s = (.ok (.ofPrimitive p), s) := by
  rw [build, hp]
  rfl

theorem primitive_run_error (hp : Primitive.ofName? name = none) :
    build catalog define site (.primitive name) s = (.error (.unknownPrimitive name), s) := by
  rw [build, hp]
  rfl

/-- A parameter stands for an argument. -/
theorem parameter_run_of {index : Int} (hc : site.parameter index none = .ok c) :
    build catalog define site (.parameter index none) s = (.ok c, s) := by
  rw [build, hc]
  rfl

/-- The first parameter stands for the first argument. -/
theorem parameter_run {params : List Converter} {owner : Option Text} :
    build catalog define ⟨c :: params, owner⟩ (.parameter 0 none) s = (.ok c, s) :=
  parameter_run_of rfl

theorem list_run (hd : build catalog define site d s = (.ok c, s')) :
    build catalog define site (.list d) s =
      (.ok ⟨.derived s'.next, c.name ++ " list", .list (site.label "list") c⟩,
        ⟨s'.next + 1, s'.cache⟩) := by
  rw [build, bind_run hd]
  rfl

theorem list_run_error (hd : build catalog define site d s = (.error e, s')) :
    build catalog define site (.list d) s = (.error e, s') := by
  rw [build, bind_run_error hd]

theorem option_run (hinner : d.isOption = false) (hd : build catalog define site d s = (.ok c, s')) :
    build catalog define site (.option d) s =
      (.ok ⟨.derived s'.next, c.name ++ " option", .option (site.label "option") c⟩,
        ⟨s'.next + 1, s'.cache⟩) := by
  rw [build, if_neg (by simp [hinner]), bind_run hd]
  rfl

/-- An option directly inside an option is refused. -/
theorem option_run_error (hinner : d.isOption) :
    build catalog define site (.option d) s = (.error .nestedOption, s) := by
  rw [build, if_pos hinner]
  rfl

/-- A required field without a rule. -/
theorem buildField_required (dflt : Option Default) :
    buildField catalog define site ⟨name, some d, .required, dflt, .never, none⟩ =
      build catalog define site d >>= fun c =>
        pure ⟨name, .valued c .never, dflt.map Default.value, .never⟩ := by
  rw [buildField]
  rfl

theorem buildField_needed : buildField catalog define site (.needed name d) =
    build catalog define site d >>= fun c => pure (.needed name c) := buildField_required none

theorem buildField_run (hd : build catalog define site d s = (.ok c, s')) :
    buildField catalog define site (.needed name d) s = (.ok (.needed name c), s') := by
  rw [buildField_needed, bind_run hd]
  rfl

theorem buildFields_run (hd : build catalog define site d s = (.ok c, s'))
    (hfields : buildFields catalog define site fields s' = (.ok plans, s'')) :
    buildFields catalog define site (.needed name d :: fields) s =
      (.ok (.needed name c :: plans), s'') := by
  rw [buildFields, bind_run (buildField_run hd), bind_run hfields]
  rfl

theorem buildFields_run_error (hd : build catalog define site d s = (.error e, s')) :
    buildFields catalog define site (.needed name d :: fields) s = (.error e, s') := by
  have hfield : buildField catalog define site (.needed name d) s = (.error e, s') := by
    rw [buildField_needed, bind_run_error hd]
  rw [buildFields, bind_run_error hfield]

theorem buildFields_run_later (hd : build catalog define site d s = (.ok c, s'))
    (hfields : buildFields catalog define site fields s' = (.error e, s'')) :
    buildFields catalog define site (.needed name d :: fields) s = (.error e, s'') := by
  rw [buildFields, bind_run (buildField_run hd), bind_run_error hfields]

theorem buildFields_nil : buildFields catalog define site [] s = (.ok [], s) := by
  rw [buildFields]
  rfl

variable {instanceOf : Option ClassInfo} {extra : Bool}

section Record

variable (hnames : firstRepeated? [] (fields.map Field.name) = none)

include hnames

theorem buildRecord_run (hfields : buildFields catalog define site fields s = (.ok plans, s')) :
    buildRecord catalog define site instanceOf extra fields s =
      (.ok ⟨site.label "record", instanceOf, extra, plans⟩, s') := by
  rw [buildRecord, hnames]
  show (buildFields catalog define site fields >>= _) s = _
  rw [bind_run hfields]
  rfl

theorem record_run (hfields : buildFields catalog define site fields s = (.ok plans, s')) :
    build catalog define site (.record fields instanceOf extra) s =
      (.ok ⟨.derived s'.next, (instanceOf.map ClassInfo.name).getD "record",
          .record ⟨site.label "record", instanceOf, extra, plans⟩⟩, ⟨s'.next + 1, s'.cache⟩) := by
  rw [build, bind_run (buildRecord_run hnames hfields)]
  rfl

theorem record_run_error (hfields : buildFields catalog define site fields s = (.error e, s')) :
    build catalog define site (.record fields instanceOf extra) s = (.error e, s') := by
  have hrecord : buildRecord catalog define site instanceOf extra fields s = (.error e, s') := by
    rw [buildRecord, hnames]
    show (buildFields catalog define site fields >>= _) s = _
    rw [bind_run_error hfields]
  rw [build, bind_run_error hrecord]

end Record

section Applied

variable {id : DefinitionId} {args : List Description} {cs : List Converter}

theorem buildAll_nil : buildAll catalog define site [] s = (.ok [], s) := by
  rw [buildAll]
  rfl

theorem buildAll_run {ds : List Description} (hd : build catalog define site d s = (.ok c, s'))
    (hds : buildAll catalog define site ds s' = (.ok cs, s'')) :
    buildAll catalog define site (d :: ds) s = (.ok (c :: cs), s'') := by
  rw [buildAll, bind_run hd, bind_run hds]
  rfl

theorem buildAll_run_error {ds : List Description}
    (hd : build catalog define site d s = (.error e, s')) :
    buildAll catalog define site (d :: ds) s = (.error e, s') := by
  rw [buildAll, bind_run_error hd]

/-- An applied definition is derived with the converters of its arguments. -/
theorem applied_run {x : Definition} (hargs : buildAll catalog define site args s = (.ok cs, s'))
    (hx : lookup catalog id cs.length = .ok x) :
    build catalog define site (.applied id args) s = define id cs s' := by
  rw [build, bind_run hargs, check_run hx]

theorem applied_run_error (hargs : buildAll catalog define site args s = (.error e, s')) :
    build catalog define site (.applied id args) s = (.error e, s') := by
  rw [build, bind_run_error hargs]

/-- A definition that refers to another one is linked to it. -/
theorem recursive_run {x : Definition} (hargs : buildAll catalog define site args s = (.ok cs, s'))
    (hx : lookup catalog id cs.length = .ok x) :
    build catalog define site (.recursive id (some args)) s =
      (.ok ⟨.derived s'.next, x.name, .link s'.next id cs⟩, ⟨s'.next + 1, s'.cache⟩) := by
  rw [build, bind_run hargs, check_run hx]
  rfl

end Applied

section Variant

variable {tag : Text} {args : List Description} {k : Constructor Description} {p : CasePlan Plan}
  {cs : List Converter} {cases inner : List (Case Description)} {ps qs : List (CasePlan Plan)}
  {flat : Bool}

theorem constant_run : buildConstructor catalog define site ⟨tag, [], instanceOf, none, false⟩ s =
    (.ok ⟨tag, instanceOf, .constant⟩, s) := by
  rw [buildConstructor, if_neg (by simp), bind_run buildAll_nil]
  rfl

/-- A constructor with arguments one by one. -/
theorem arguments_run (hargs : buildAll catalog define site args s = (.ok (c :: cs), s')) :
    buildConstructor catalog define site ⟨tag, args, instanceOf, none, false⟩ s =
      (.ok ⟨tag, instanceOf, .arguments (c :: cs)⟩, s') := by
  rw [buildConstructor, if_neg (by simp), bind_run hargs]
  rfl

theorem spliced_run (hd : build catalog define site d s = (.ok c, s')) :
    buildConstructor catalog define site ⟨tag, [d], instanceOf, none, true⟩ s =
      (.ok ⟨tag, instanceOf, .spliced c⟩, s') := by
  rw [buildConstructor, if_neg (by simp), bind_run (buildAll_run hd buildAll_nil)]
  rfl

/-- A constructor with the fields of a record. -/
theorem inline_run {inner : Option ClassInfo} {r : RecordPlan Plan}
    (hrecord : buildRecord catalog define site (instanceOf <|> inner) extra fields s = (.ok r, s')) :
    buildConstructor catalog define site ⟨tag, [], instanceOf, some (.record fields inner extra), false⟩
      s = (.ok ⟨tag, instanceOf, .record r⟩, s') := by
  rw [buildConstructor, if_neg (by simp), bind_run hrecord]
  rfl

theorem buildCases_run (hk : buildConstructor catalog define site k s = (.ok p, s'))
    (hcases : buildCases catalog define site flat cases s' = (.ok ps, s'')) :
    buildCases catalog define site flat (.constructor k :: cases) s = (.ok (p :: ps), s'') := by
  rw [buildCases, bind_run hk, bind_run hcases]
  rfl

/-- The cases of a polymorphic variant take its place. -/
theorem buildCases_run_nested (hinner : buildCases catalog define site true inner s = (.ok ps, s'))
    (hcases : buildCases catalog define site true cases s' = (.ok qs, s'')) :
    buildCases catalog define site true (.nested (.polyVariant inner) :: cases) s =
      (.ok (ps ++ qs), s'') := by
  rw [buildCases, if_pos rfl, bind_run hinner, bind_run hcases]
  rfl

theorem buildCases_nil : buildCases catalog define site flat [] s = (.ok [], s) := by
  rw [buildCases]
  rfl

theorem sum_run (hcases : buildCases catalog define site false cases s = (.ok ps, s'))
    (htags : firstRepeated? [] (ps.map CasePlan.tag) = none) :
    build catalog define site (.sum cases) s =
      (.ok ⟨.derived s'.next, "sum", .variant (site.label "sum") true ps⟩,
        ⟨s'.next + 1, s'.cache⟩) := by
  rw [build, bind_run hcases, planVariant, htags]
  rfl

theorem polyVariant_run (hcases : buildCases catalog define site true cases s = (.ok ps, s'))
    (htags : firstRepeated? [] (ps.map CasePlan.tag) = none) :
    build catalog define site (.polyVariant cases) s =
      (.ok ⟨.derived s'.next, "variant", .variant (site.label "variant") false ps⟩,
        ⟨s'.next + 1, s'.cache⟩) := by
  rw [build, bind_run hcases, planVariant, htags]
  rfl

end Variant

end Description

end TypedSexp
