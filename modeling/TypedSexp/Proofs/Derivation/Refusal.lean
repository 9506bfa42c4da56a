import TypedSexp.Proofs.Derivation.Sound
import TypedSexp.Proofs.Description.Replacement
/-!
# Refusals do not depend on what is remembered

Whether a description is refused is decided by checks of descriptions alone, so a derivation that
has succeeded once is refused nowhere. `Derivation.Carries` states that for two runs which may start
from different memories: where the first succeeds, so does the second, unless it is endless. It holds
of building a description if it holds of the definitions that are applied in it, also where arguments
stand in the place of the parameters (`Description.build_carries`).
-/

namespace TypedSexp

namespace Derivation

variable {α β γ δ : Type} {Inv : List (Request × Converter) → Prop}

/-! ## Runs that succeed -/

/-- Where the derivation succeeds, what it gives and what it leaves remembered are related. -/
def Runs (Pre : List (Request × Converter) → Prop) (x : Derivation α)
    (Post : α → List (Request × Converter) → Prop) : Prop :=
  ∀ d a, Pre d.cache → x.result d = .ok a → Post a (x d).2.cache

/-- A step of a computation that remembers something and may be refused. -/
theorem run_bind {ε σ : Type} (x : ExceptT ε (StateM σ) α) (f : α → ExceptT ε (StateM σ) β) (s : σ) :
    (x >>= f) s =
      match x s with
      | (.ok a, s') => f a s'
      | (.error e, s') => (.error e, s') := by
  show ExceptT.bind x f s = _
  unfold ExceptT.bind ExceptT.mk
  show (match x s with | (r, s') => ExceptT.bindCont f r s') = _
  cases x s with
  | mk r s' => cases r <;> rfl

theorem bind_eq_of_ok {x : Derivation α} {f : α → Derivation β} {d : Deriver} {a : α}
    (h : x.result d = .ok a) : (x >>= f) d = f a (x d).2 := by
  have hrun : x d = (.ok a, (x d).2) := Prod.ext h rfl
  rw [run_bind, hrun]

theorem bind_eq_of_error {x : Derivation α} {f : α → Derivation β} {d : Deriver}
    {e : DescriptionFault} (h : x.result d = .error e) : (x >>= f).result d = .error e := by
  have hrun : x d = (.error e, (x d).2) := Prod.ext h rfl
  rw [result, run_bind, hrun]

variable {Pre : List (Request × Converter) → Prop} {Post : α → List (Request × Converter) → Prop}

theorem Runs.pure {a : α} (h : ∀ cache, Pre cache → Post a cache) : Runs Pre (pure a) Post := by
  intro d a' hd ha
  obtain rfl : a = a' := Except.ok.inj ha
  exact h _ hd

theorem Runs.throw {e : DescriptionFault} : Runs Pre (throw e) Post := fun _ _ _ ha => nomatch ha

theorem Runs.bind {x : Derivation α} {f : α → Derivation β}
    {Mid : α → List (Request × Converter) → Prop} {Post : β → List (Request × Converter) → Prop}
    (hx : Runs Pre x Mid) (hf : ∀ a, Runs (Mid a) (f a) Post) : Runs Pre (x >>= f) Post := by
  intro d b hd hb
  cases hr : x.result d with
  | error e =>
    rw [bind_eq_of_error hr] at hb
    exact nomatch hb
  | ok a =>
    rw [result, bind_eq_of_ok hr] at hb
    rw [bind_eq_of_ok hr]
    exact hf a _ b (hx d a hd hr) hb

/-- A check in front of a derivation. -/
theorem Runs.check {e : Except DescriptionFault α} {f : α → Derivation β}
    {Post : β → List (Request × Converter) → Prop} (h : ∀ a, e = .ok a → Runs Pre (f a) Post) :
    Runs Pre (liftExcept e >>= f) Post := by
  cases e with
  | error e => exact fun d b _ hb => nomatch hb
  | ok a => exact h a rfl

theorem Runs.fresh (name : Text) (plan : Plan) :
    Runs Pre (fresh name plan) fun _ cache => Pre cache := fun _ _ hd _ => hd

theorem Runs.link (name : Text) (id : DefinitionId) (args : List Converter) :
    Runs Pre (link name id args) fun _ cache => Pre cache := fun _ _ hd _ => hd

theorem Runs.cached? (r : Request) :
    Runs Pre (cached? r) fun found cache => Pre cache ∧ found = cache.lookup r := by
  intro d found hd hfound
  exact ⟨hd, (Except.ok.inj hfound).symm⟩

theorem Runs.remember (r : Request) (c : Converter)
    {Post : List (Request × Converter) → Prop} (h : ∀ cache, Pre cache → Post ((r, c) :: cache)) :
    Runs Pre (remember r c) fun _ cache => Post cache := fun _ _ hd _ => h _ hd

theorem Runs.weaken {x : Derivation α} {Pre' : List (Request × Converter) → Prop}
    {Post' : α → List (Request × Converter) → Prop} (hx : Runs Pre x Post)
    (hpre : ∀ cache, Pre' cache → Pre cache) (hpost : ∀ a cache, Post a cache → Post' a cache) :
    Runs Pre' x Post' := fun d a hd ha => hpost _ _ (hx d a (hpre _ hd) ha)

/-- What is known beforehand, memory aside. -/
theorem Runs.given {x : Derivation α} {p : Prop} (h : p → Runs Pre x Post) :
    Runs (fun cache => Pre cache ∧ p) x Post := fun d a hd ha => h hd.2 d a hd.1 ha

/-! ## Two runs -/

/-- Whatever is remembered, the derivation gives something that looks like this, unless it is
endless. -/
def Gives (see : α → γ) (look : γ) (y : Derivation α) : Prop :=
  ∀ d, y.result d = .error .endless ∨ ∃ b, y.result d = .ok b ∧ see b = look

/-- Where the first derivation succeeds it keeps the invariant of what is remembered, and the second
one gives something that looks the same. -/
def Carries (Inv : List (Request × Converter) → Prop) (see : α → γ) (x y : Derivation α) : Prop :=
  Runs Inv x fun a cache => Inv cache ∧ y.Gives see (see a)

theorem Gives.pure {see : α → γ} {look : γ} {b : α} (h : see b = look) :
    (pure b : Derivation α).Gives see look := fun _ => .inr ⟨b, rfl, h⟩

theorem Gives.bind {see : α → γ} {see' : β → δ} {look : γ} {look' : δ} {y : Derivation α}
    {g : α → Derivation β} (hy : y.Gives see look)
    (hg : ∀ b, see b = look → (g b).Gives see' look') : (y >>= g).Gives see' look' := by
  intro d
  rcases hy d with h | ⟨b, h, hb⟩
  · exact .inl (bind_eq_of_error h)
  · rw [result, bind_eq_of_ok h]
    exact hg b hb _

theorem Gives.fresh (name : Text) (plan : Plan) :
    (fresh name plan).Gives (fun _ => ()) () := fun _ => .inr ⟨_, rfl, rfl⟩

theorem Gives.link (name : Text) (id : DefinitionId) (args : List Converter) :
    (link name id args).Gives (fun _ => ()) () := fun _ => .inr ⟨_, rfl, rfl⟩

theorem Gives.cached? (r : Request) : (cached? r).Gives (fun _ => ()) () :=
  fun _ => .inr ⟨_, rfl, rfl⟩

theorem Gives.remember (r : Request) (c : Converter) :
    (remember r c).Gives (fun _ => ()) () := fun _ => .inr ⟨_, rfl, rfl⟩

/-- A check that passes in front of a derivation. -/
theorem Gives.check {see : β → γ} {look : γ} {e : Except DescriptionFault α} {a : α}
    {f : α → Derivation β} (he : e = .ok a) (h : (f a).Gives see look) :
    (liftExcept e >>= f).Gives see look := by
  rw [he]
  exact h

theorem Carries.pure {see : α → γ} {a b : α} (h : see a = see b) :
    Carries Inv see (pure a) (pure b) := Runs.pure fun _ hd => ⟨hd, .pure h.symm⟩

theorem Carries.throw {see : α → γ} {e : DescriptionFault} {y : Derivation α} :
    Carries Inv see (throw e) y := Runs.throw

theorem Carries.fresh (name name' : Text) (plan plan' : Plan) :
    Carries Inv (fun _ => ()) (fresh name plan) (fresh name' plan') :=
  (Runs.fresh name plan).weaken (fun _ h => h) fun _ _ hd => ⟨hd, .fresh name' plan'⟩

theorem Carries.link (name name' : Text) (id id' : DefinitionId) (args args' : List Converter) :
    Carries Inv (fun _ => ()) (link name id args) (link name' id' args') :=
  (Runs.link name id args).weaken (fun _ h => h) fun _ _ hd => ⟨hd, .link name' id' args'⟩

theorem Carries.bind {see : α → γ} {see' : β → δ} {x y : Derivation α} {f g : α → Derivation β}
    (hx : Carries Inv see x y)
    (hf : ∀ a b, see a = see b → Carries Inv see' (f a) (g b)) :
    Carries Inv see' (x >>= f) (y >>= g) := by
  refine Runs.bind hx fun a d r hd hr => ?_
  exact ⟨(hf a a rfl d r hd.1 hr).1, hd.2.bind fun b hb => (hf a b hb.symm d r hd.1 hr).2⟩

/-- The same check in front of both. -/
theorem Carries.check {see : β → δ} {e : Except DescriptionFault α} {f g : α → Derivation β}
    (h : ∀ a, e = .ok a → Carries Inv see (f a) (g a)) :
    Carries Inv see (liftExcept e >>= f) (liftExcept e >>= g) := by
  refine Runs.check fun a ha => ?_
  rw [ha]
  exact h a ha

end Derivation

/-! ## Descriptions -/

namespace Description

open Derivation

variable {catalog : Catalog} {Inv : List (Request × Converter) → Prop}
  {define define' : DefinitionId → List Converter → Derivation Converter} {site site' : Site}
  {r : Replacement}

/-- Definitions that are derived with some arguments are derived with others. -/
def DefinesAlike (Inv : List (Request × Converter) → Prop)
    (define define' : DefinitionId → List Converter → Derivation Converter) : Prop :=
  ∀ id args args', args.length = args'.length →
    Carries Inv (fun _ => ()) (define id args) (define' id args')

/-- So many parameters have converters at the site, or are replaced with arguments that are derived
there. -/
def Fills (catalog : Catalog) (define : DefinitionId → List Converter → Derivation Converter)
    (site : Site) : Replacement → Nat → Prop
  | none, count => count = site.params.length
  | some ds, count =>
    count = ds.length ∧ ∀ d ∈ ds, (build catalog define site d).Gives (fun _ => ()) ()

theorem planField_carries {f f' : Field Description} (hf : f.presence = f'.presence)
    (type type' : Description) (rule : Dropping) (c c' : Converter) :
    Carries Inv (fun _ => ()) (planField site f type rule c) (planField site' f' type' rule c') := by
  unfold planField
  rw [hf]
  cases f'.presence with
  | sexpList => exact (Carries.bind (.fresh _ _ _ _) fun _ _ _ => .pure rfl)
  | sexpArray => exact (Carries.bind (.fresh _ _ _ _) fun _ _ _ => .pure rfl)
  | _ => exact .pure rfl

theorem planVariant_carries (shape : Text) (folding : Bool) {plans plans' : List (CasePlan Plan)}
    (h : plans.map CasePlan.tag = plans'.map CasePlan.tag) :
    Carries Inv (fun _ => ()) (planVariant site shape folding plans)
      (planVariant site' shape folding plans') := by
  unfold planVariant
  rw [h]
  cases firstRepeated? [] (plans'.map CasePlan.tag) with
  | some tag => exact .throw
  | none => exact .fresh _ _ _ _

theorem buildRecord_carries (instanceOf instanceOf' : Option ClassInfo) (extra : Bool)
    {fields fields' : List (Field Description)}
    (hnames : fields.map Field.name = fields'.map Field.name)
    (h : Carries Inv (fun _ => ()) (buildFields catalog define site fields)
      (buildFields catalog define' site' fields')) :
    Carries Inv (fun _ => ()) (buildRecord catalog define site instanceOf extra fields)
      (buildRecord catalog define' site' instanceOf' extra fields') := by
  rw [buildRecord, buildRecord, hnames]
  cases firstRepeated? [] (fields'.map Field.name) with
  | some name => exact .throw
  | none => exact h.bind fun _ _ _ => .pure rfl

theorem buildAll_gives : ∀ {ds : List Description},
    (∀ d ∈ ds, (build catalog define site d).Gives (fun _ => ()) ()) →
    (buildAll catalog define site ds).Gives List.length ds.length
  | [], _ => by
    rw [buildAll]
    exact .pure rfl
  | d :: ds, h => by
    rw [buildAll]
    refine (h d List.mem_cons_self).bind fun c _ => ?_
    refine (buildAll_gives fun d hd => h d (List.mem_cons_of_mem _ hd)).bind fun cs hcs => .pure ?_
    exact congrArg (· + 1) hcs

theorem parameter_carries (hfills : Fills catalog define' site' r site.params.length) (index : Int)
    (name : Option Text) :
    Carries Inv (fun _ => ()) (build catalog define site (.parameter index name))
      (build catalog define' site' (.argument r index name)) := by
  rw [build]
  unfold Site.parameter
  by_cases hi : index < 0
  · simp only [hi, if_true]
    exact .throw
  by_cases hk : index.toNat < site.params.length
  · simp only [hi, if_false, List.getElem?_eq_getElem hk]
    refine Runs.pure fun _ hd => ⟨hd, ?_⟩
    cases r with
    | none =>
      have hk' : index.toNat < site'.params.length := hfills ▸ hk
      show (build catalog define' site' (.parameter index name)).Gives _ _
      rw [build]
      unfold Site.parameter
      simp only [hi, if_false, List.getElem?_eq_getElem hk']
      exact .pure rfl
    | some ds =>
      have hk' : index.toNat < ds.length := hfills.1 ▸ hk
      have harg : argument (some ds) index name = ds[index.toNat] := by
        simp [argument, hi, List.getElem?_eq_getElem hk']
      rw [harg]
      exact hfills.2 _ (List.getElem_mem hk')
  · simp only [hi, if_false, List.getElem?_eq_none (Nat.le_of_not_lt hk)]
    exact .throw

theorem recursive_carries (hfills : Fills catalog define' site' r site.params.length)
    (id : DefinitionId) :
    Carries Inv (fun _ => ()) (build catalog define site (.recursive id none))
      (build catalog define' site' (.recursive id r)) := by
  rw [build]
  cases r with
  | none =>
    rw [build, show site.params.length = site'.params.length from hfills]
    exact .check fun _ _ => .link _ _ _ _ _ _
  | some ds =>
    rw [build]
    refine Runs.check fun d hd => (Runs.link _ _ _).weaken (fun _ h => h) fun _ _ h => ⟨h, ?_⟩
    refine (buildAll_gives hfills.2).bind fun cs hcs => ?_
    rw [show cs.length = site.params.length from hcs.trans hfills.1.symm]
    exact .check hd (.link _ _ _)

mutual

/-- **A description that is derived once is derived always**, if that is so for the definitions that
it applies; also with arguments in the place of its parameters. -/
theorem build_carries (hfills : Fills catalog define' site' r site.params.length)
    (hdefine : DefinesAlike Inv define define') : ∀ d : Description, d.Allows r →
    Carries Inv (fun _ => ()) (build catalog define site d)
      (build catalog define' site' (d.replace r))
  | .primitive name, _ => by
    rw [replace, build, build]
    cases Primitive.ofName? name with
    | none => exact .throw
    | some p => exact .pure rfl
  | .product parts, h => by
    rw [replace, build, build]
    exact (buildAll_carries hfills hdefine parts fun _ hd => h.product hd).bind
      fun _ _ _ => .fresh _ _ _ _
  | .record fields instanceOf extra, h => by
    rw [replace, build, build]
    exact (buildRecord_carries instanceOf instanceOf extra (names_replaceFields r fields).symm
      (buildFields_carries hfills hdefine fields fun _ hf => h.record hf)).bind
      fun _ _ _ => .fresh _ _ _ _
  | .sum cases, h => by
    rw [replace, build, build]
    exact (buildCases_carries hfills hdefine false cases h.sum).bind
      fun _ _ h => planVariant_carries _ _ h
  | .polyVariant cases, h => by
    rw [replace, build, build]
    exact (buildCases_carries hfills hdefine true cases h.polyVariant).bind
      fun _ _ h => planVariant_carries _ _ h
  | .list element, h => by
    rw [replace, build, build]
    exact (build_carries hfills hdefine element h.list).bind fun _ _ _ => .fresh _ _ _ _
  | .array element stored, h => by
    rw [replace, build, build]
    exact (build_carries hfills hdefine element h.array.2).bind fun _ _ _ => .fresh _ _ _ _
  | .option inner, h => by
    rw [replace, build, build, h.option.1.isOption]
    by_cases hi : inner.isOption
    · rw [if_pos hi]
      exact .throw
    · rw [if_neg hi, if_neg hi]
      exact (build_carries hfills hdefine inner h.option.2).bind fun _ _ _ => .fresh _ _ _ _
  | .sealed, _ => by
    rw [replace, build, build]
    exact .fresh _ _ _ _
  | .parameter index name, _ => by
    rw [replace]
    exact parameter_carries hfills index name
  | .recursive id none, _ => by
    rw [replace]
    exact recursive_carries hfills id
  | .recursive id (some args), h => by
    rw [replace, build, build]
    refine (buildAll_carries hfills hdefine args fun _ hd => h.recursive hd).bind
      fun cs cs' hlen => ?_
    rw [show cs.length = cs'.length from hlen]
    exact .check fun _ _ => .link _ _ _ _ _ _
  | .applied id args, h => by
    rw [replace, build, build]
    refine (buildAll_carries hfills hdefine args fun _ hd => h.applied hd).bind
      fun cs cs' hlen => ?_
    rw [show cs.length = cs'.length from hlen]
    exact .check fun _ _ => hdefine id cs cs' hlen
  | .given c, _ => by
    rw [replace, build, build]
    exact .pure rfl
  | .notConverter v, _ => by
    rw [build]
    exact .throw
  | .foreign v, _ => by
    rw [build]
    exact .throw

theorem buildAll_carries (hfills : Fills catalog define' site' r site.params.length)
    (hdefine : DefinesAlike Inv define define') : ∀ ds : List Description, (∀ d ∈ ds, d.Allows r) →
    Carries Inv List.length (buildAll catalog define site ds)
      (buildAll catalog define' site' (replaceAll r ds))
  | [], _ => by
    rw [replaceAll, buildAll, buildAll]
    exact .pure rfl
  | d :: ds, h => by
    rw [replaceAll, buildAll, buildAll]
    refine (build_carries hfills hdefine d (h d List.mem_cons_self)).bind fun c c' _ => ?_
    refine (buildAll_carries hfills hdefine ds fun d hd => h d (List.mem_cons_of_mem _ hd)).bind
      fun cs cs' hlen => .pure ?_
    exact congrArg (· + 1) hlen

theorem buildFields_carries (hfills : Fills catalog define' site' r site.params.length)
    (hdefine : DefinesAlike Inv define define') : ∀ fields : List (Field Description),
    (∀ f ∈ fields, f.Allows r) →
    Carries Inv (fun _ => ()) (buildFields catalog define site fields)
      (buildFields catalog define' site' (replaceFields r fields))
  | [], _ => by
    rw [replaceFields, buildFields, buildFields]
    exact .pure rfl
  | f :: fields, h => by
    rw [replaceFields_cons, buildFields, buildFields]
    refine (buildField_carries hfills hdefine f (h f List.mem_cons_self)).bind fun _ _ _ => ?_
    exact (buildFields_carries hfills hdefine fields fun f hf => h f (List.mem_cons_of_mem _ hf)).bind
      fun _ _ _ => .pure rfl

theorem buildField_carries (hfills : Fills catalog define' site' r site.params.length)
    (hdefine : DefinesAlike Inv define define') : ∀ f : Field Description, f.Allows r →
    Carries Inv (fun _ => ()) (buildField catalog define site f)
      (buildField catalog define' site' (f.map (replace r)))
  | ⟨name, none, presence, default, statedRule, predicate⟩, _ => by
    rw [Field.map, Option.map_none, buildField, buildField]
    refine .check fun rule _ => ?_
    by_cases hp : presence = .sexpBool
    · rw [if_pos hp]
      exact .pure rfl
    · rw [if_neg hp]
      exact .throw
  | ⟨name, some d, presence, default, statedRule, predicate⟩, h => by
    have hmap : Field.map (replace r) ⟨name, some d, presence, default, statedRule, predicate⟩ =
        ⟨name, some (replace r d), presence, default, statedRule, predicate⟩ := rfl
    have habsence := h.checkAbsence rfl
    rw [hmap] at habsence ⊢
    rw [buildField, buildField]
    refine .check fun rule _ => ?_
    by_cases hp : presence = .sexpBool
    · rw [if_pos hp, if_pos hp]
      exact .pure rfl
    · rw [if_neg hp, if_neg hp]
      simp only [habsence]
      refine .check fun _ _ => ?_
      exact (build_carries hfills hdefine d (h d rfl).1).bind
        fun c c' _ => planField_carries rfl d _ rule c c'

theorem buildCases_carries (hfills : Fills catalog define' site' r site.params.length)
    (hdefine : DefinesAlike Inv define define') (flat : Bool) : ∀ cases : List (Case Description),
    CasesAllow r cases →
    Carries Inv (List.map CasePlan.tag) (buildCases catalog define site flat cases)
      (buildCases catalog define' site' flat (replaceCases r cases))
  | [], _ => by
    rw [replaceCases, buildCases, buildCases]
    exact .pure rfl
  | .constructor c :: cases, h => by
    rw [replaceCases_constructor, buildCases, buildCases]
    refine (buildConstructor_carries hfills hdefine c h.constructor.1).bind fun p p' hp => ?_
    refine (buildCases_carries hfills hdefine flat cases h.constructor.2).bind
      fun ps ps' hps => .pure ?_
    rw [List.map_cons, List.map_cons, hp, hps]
  | .nested d :: cases, h => by
    cases d with
    | polyVariant inner =>
      rw [replaceCases, replace, buildCases, buildCases]
      cases flat with
      | false => exact .throw
      | true =>
        rw [if_pos rfl, if_pos rfl]
        refine (buildCases_carries hfills hdefine true inner h.nested.1.polyVariant).bind
          fun ps ps' hps => ?_
        refine (buildCases_carries hfills hdefine true cases h.nested.2).bind
          fun qs qs' hqs => .pure ?_
        rw [List.map_append, List.map_append, hps, hqs]
    | _ => rw [buildCases] <;> first | exact .throw | simp

theorem buildConstructor_carries (hfills : Fills catalog define' site' r site.params.length)
    (hdefine : DefinesAlike Inv define define') : ∀ c : Constructor Description, c.Allows r →
    Carries Inv CasePlan.tag (buildConstructor catalog define site c)
      (buildConstructor catalog define' site' (c.map (replace r)))
  | ⟨tag, args, instanceOf, none, spliced⟩, h => by
    rw [Constructor.map, Option.map_none, ← replaceAll_eq, buildConstructor, buildConstructor,
      length_replaceAll]
    by_cases hs : (spliced && decide (args.length ≠ 1)) = true
    · rw [if_pos hs]
      exact .throw
    · rw [if_neg hs, if_neg hs]
      exact (buildAll_carries hfills hdefine args h.1).bind fun _ _ _ => .pure rfl
  | ⟨tag, args, instanceOf, some d, spliced⟩, h => by
    cases d with
    | record fields inner extra =>
      rw [Constructor.map, Option.map_some, replace, buildConstructor, buildConstructor,
        List.isEmpty_map]
      by_cases hs : (spliced || !args.isEmpty) = true
      · rw [if_pos hs]
        exact .throw
      · rw [if_neg hs, if_neg hs]
        have hfields (f : Field Description) (hf : f ∈ fields) : f.Allows r := (h.2 _ rfl).record hf
        exact (buildRecord_carries _ _ extra (names_replaceFields r fields).symm
          (buildFields_carries hfills hdefine fields hfields)).bind fun _ _ _ => .pure rfl
    | _ => rw [buildConstructor] <;> first | exact .throw | simp

end

end Description

end TypedSexp
