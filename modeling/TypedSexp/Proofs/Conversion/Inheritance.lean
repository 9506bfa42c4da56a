import TypedSexp.Proofs.Conversion.Arguments
import TypedSexp.Proofs.Conversion.Reordering
/-!
# Polymorphic variants inside others

The cases of a polymorphic variant may include other polymorphic variants. What an included one reads
and writes the including one reads and writes alike (`History.inherits`), unless a link stops it, and
it knows the tags of the constructors that can be reached through its cases, and no others.

As with the order of constructors, what is derived in front of the included cases can stop their
links: it decides what is remembered when the arguments of their constructors are derived
(`Inheritance.inherited_endless`).
-/

namespace TypedSexp

open Derivation

namespace Description

/-! ## Included cases -/

/-- The second description is among the cases of the first one, or of one that is among them. -/
inductive Inherits : Description → Description → Prop
  | case {cases : List (Case Description)} {p : Description} (h : .nested p ∈ cases) :
      Inherits (.polyVariant cases) p
  | through {cases : List (Case Description)} {q p : Description} (h : .nested q ∈ cases)
      (hq : Inherits q p) : Inherits (.polyVariant cases) p

/-- The constructor is among the cases, or among those of an included variant. -/
inductive Offers : Description → Constructor Description → Prop
  | own {cases : List (Case Description)} {k : Constructor Description}
      (h : .constructor k ∈ cases) : Offers (.polyVariant cases) k
  | included {cases : List (Case Description)} {q : Description} {k : Constructor Description}
      (h : .nested q ∈ cases) (hq : Offers q k) : Offers (.polyVariant cases) k

variable {cases : List (Case Description)} {c : Case Description} {p q : Description}
  {k : Constructor Description} {cs : List (Constructor Description)}

theorem Inherits.offers (h : q.Inherits p) (hk : p.Offers k) : q.Offers k := by
  induction h with
  | case h => exact .included h hk
  | through h _ ih => exact .included h (ih hk)

theorem mem_flatCases : c ∈ flatCases cases ↔ ∃ b ∈ cases, c ∈ flatCase b := by
  induction cases with
  | nil => simp [flatCases]
  | cons b cases ih => rw [flatCases, List.mem_append, ih, List.exists_mem_cons_iff]

theorem Offers.mem (h : (polyVariant cases).Offers k) : .constructor k ∈ flatCases cases := by
  generalize hp : polyVariant cases = p at h
  induction h generalizing cases with
  | own h =>
    obtain rfl := polyVariant.inj hp
    exact mem_flatCases.2 ⟨_, h, List.mem_cons_self⟩
  | included h hq ih =>
    obtain rfl := polyVariant.inj hp
    refine mem_flatCases.2 ⟨_, h, ?_⟩
    cases hq with
    | own => exact ih rfl
    | included => exact ih rfl

theorem Offers.cons (h : (polyVariant cases).Offers k) : (polyVariant (c :: cases)).Offers k := by
  cases h with
  | own h => exact .own (List.mem_cons_of_mem c h)
  | included h hq => exact .included (List.mem_cons_of_mem c h) hq

theorem offers_of_mem : ∀ {cases : List (Case Description)}, .constructor k ∈ flatCases cases →
    (polyVariant cases).Offers k
  | [], h => absurd h List.not_mem_nil
  | .constructor j :: cases, h => by
    rw [flatCases, flatCase, List.singleton_append] at h
    rcases List.mem_cons.1 h with heq | h
    · obtain rfl := Case.constructor.inj heq
      exact .own List.mem_cons_self
    · exact (offers_of_mem h).cons
  | .nested d :: cases, h => by
    rw [flatCases, flatCase, List.mem_append] at h
    rcases h with h | h
    · cases d with
      | polyVariant inner => exact .included List.mem_cons_self (offers_of_mem h)
      | _ => simp [nestedCases] at h
    · exact (offers_of_mem h).cons

/-- The constructors that can be reached are those of the variant. -/
theorem IsVariant.offers_iff (h : IsVariant (.polyVariant cases) false cs) :
    Offers (.polyVariant cases) k ↔ k ∈ cs := by
  cases h with
  | polyVariant h =>
    have hmem : Case.constructor k ∈ flatCases cases ↔ k ∈ cs := by simp [h]
    exact ⟨fun hk => hmem.1 hk.mem, fun hk => offers_of_mem (hmem.2 hk)⟩

end Description

/-! ## Tags that are known -/

/-- A tree is refused for its own tag. -/
def ReadError.refusesTag : ReadError → Bool
  | .conversion ⟨.unknownTag .., _, []⟩ => true
  | _ => false

theorem ReadError.refusesTag_within (seg : Segment) (e : ReadError) :
    (e.within seg).refusesTag = false := by
  cases e with
  | conversion e =>
    obtain ⟨cause, node, path⟩ := e
    cases cause <;> rfl
  | _ => rfl

theorem ReadError.refusesTag_of_mapError {α : Type} {x : Except ReadError α} {seg : Segment}
    {e : ReadError} (h : x.mapError (.within seg) = .error e) : e.refusesTag = false := by
  obtain ⟨e', -, rfl⟩ := mapError_eq_error.1 h
  exact e'.refusesTag_within seg

theorem CasePlan.refusesTag_of_make {tag : Text} {instanceOf : Option ClassInfo} {args : List Value}
    {e : ReadError} (h : make tag instanceOf args = .error e) : e.refusesTag = false := by
  cases instanceOf with
  | none => cases h
  | some c =>
    replace h : c.ofOrdered args = .error e := h
    unfold ClassInfo.ofOrdered at h
    split at h
    · cases h
    · obtain rfl := Except.error.inj h
      rfl

/-- What follows a tag that is known is refused for something else. -/
theorem Plan.refusesTag_of_readForm {follow : Follow Except} {switches : Switches} {what tag : Text}
    {node : Node} {rest : Option (List Node)} {instanceOf : Option ClassInfo} {form : CaseForm Plan}
    {e : ReadError} (h : readForm follow switches what tag node rest instanceOf form = .error e) :
    e.refusesTag = false := by
  cases rest with
  | none =>
    cases form with
    | constant =>
      rw [readForm] at h
      exact CasePlan.refusesTag_of_make h
    | _ =>
      rw [readForm] at h
      obtain rfl := Except.error.inj h
      rfl
  | some items =>
    cases form with
    | constant =>
      rw [readForm] at h
      obtain rfl := Except.error.inj h
      rfl
    | arguments cs =>
      rw [readForm] at h
      split at h
      · rcases bind_eq_error.1 h with h | ⟨args, -, h⟩
        · exact ReadError.refusesTag_of_mapError h
        · exact CasePlan.refusesTag_of_make h
      · obtain rfl := Except.error.inj h
        rfl
    | spliced c =>
      rw [readForm] at h
      rcases bind_eq_error.1 h with h | ⟨values, -, h⟩
      · exact ReadError.refusesTag_of_mapError h
      · exact CasePlan.refusesTag_of_make h
    | record r =>
      rw [readForm] at h
      rcases bind_eq_error.1 h with h | ⟨v, -, h⟩
      · exact ReadError.refusesTag_of_mapError h
      · split at h <;> cases h

namespace Setting

variable {s s' : Setting} {c c' : Converter} {levels : Nat} {label : Text} {folding folding' : Bool}
  {plans plans' : List (CasePlan Plan)} {p : CasePlan Plan} {node : Node} {t : Text}
  {l : Option Location} {rest : Option (List Node)} {cs : List (Constructor Description)}

/-- A tag is read by its constructor. -/
theorem readAt_tagged (hnodup : (plans.map CasePlan.tag).Nodup) (hp : p ∈ plans)
    (hnode : node.Tagged p.tag l rest) : s.readAt levels (.variant label folding plans) node =
      s.readFormAt levels (Converter.readerName label) p.tag node rest p.instanceOf p.form := by
  cases hnode with
  | alone => exact readAt_variant_atom hnodup hp l
  | headed => exact readAt_variant_list hnodup hp _ l _

/-- Without folding only the constructor with this very tag is named. -/
theorem isNamed_iff_tag {fold : Text → Text} {k : Constructor Description} :
    k.IsNamed fold false cs t ↔ k ∈ cs ∧ k.tag = t := by
  constructor
  · intro h
    cases h with
    | same hk h => exact ⟨hk, h⟩
    | only _ hfolding => cases hfolding
  · rintro ⟨hk, h⟩
    exact .same hk h

/-- A tag is unknown to a variant whose tags are compared as they are if no constructor has it. -/
theorem refusesTag_iff (h : s.ReadsByTag c label false cs plans) (hlen : cs.length = plans.length)
    (hnode : node.Tagged t l rest) :
    (∃ e, s.read c node = .error e ∧ e.refusesTag) ↔ ∀ k ∈ cs, k.tag ≠ t := by
  constructor
  · rintro ⟨e, he, hrefuses⟩ k hk htag
    obtain ⟨p, hp⟩ := exists_zip_right hlen hk
    rw [h.named node t l rest hnode k p hp (isNamed_iff_tag.2 ⟨hk, htag⟩)] at he
    rw [Plan.refusesTag_of_readForm he] at hrefuses
    cases hrefuses
  · intro hnone
    exact ⟨_, h.unnamed node t l rest hnode fun k hk =>
      hnone k (isNamed_iff_tag.1 hk).1 (isNamed_iff_tag.1 hk).2, rfl⟩

/-- A value is written only if a constructor has its tag. -/
theorem exists_of_write (hplan : c.plan = .variant label folding plans)
    (hfits : List.Forall₂ (fun k p => CasePlan.Fits k p) cs plans) {args : List Value} {x : Sexp}
    (h : s.write c (.variant t args) = .ok x) : ∃ k ∈ cs, k.tag = t := by
  rw [write_of_settled (Plan.isSettled_variant hplan), hplan, writeAt, Plan.write] at h
  rcases bind_eq_ok.1 h with ⟨found, hfound, -⟩
  have hcontains : (CasePlan.tags plans).contains t := by
    by_contra hnot
    replace hfound : (if (CasePlan.tags plans).contains t then _ else _) = _ := hfound
    rw [if_neg hnot] at hfound
    obtain ⟨_, -, herror⟩ := bind_eq_ok.1 hfound
    cases herror
  rw [tags_of_fits hfits] at hcontains
  exact List.mem_map.1 (List.contains_iff_mem.1 hcontains)

end Setting

/-! ## Included constructors -/

section

variable {catalog : Catalog} {numbering : Nat → Description} {outside : Text → Option Custom}
  {failed failed' : Bool} {d d' : Deriver} {converters converters' : List (BoundType × Converter)}
  {x x' : Description} {folding folding' : Bool} {cs cs' : List (Constructor Description)}
  {env : List BoundType} {c c' : Converter} {cases cases' : List (Case Description)}

/-- Among the plans of a variant are those of a variant with some of its constructors. -/
theorem Built.included {Trusted : List Converter → Prop} {params : List Converter} (label : Text)
    {plans' : List (CasePlan Plan)} (hx : x.IsVariant folding cs)
    (htags : (cs.map Constructor.tag).Nodup) (hsub : cs ⊆ cs')
    (h : List.Forall₂ (BuiltCase catalog Trusted params) cs' plans') :
    ∃ plans, plans ⊆ plans' ∧ List.Forall₂ (fun k p => CasePlan.Fits k p) cs plans ∧
      Built catalog Trusted params x (.variant label folding plans) := by
  obtain ⟨hlen, hzip⟩ := List.forall₂_iff_zip.1 h
  obtain ⟨plans, hplans⟩ := exists_forall₂_iff.2 fun k hk => exists_zip_right hlen (hsub hk)
  have hcases : List.Forall₂ (BuiltCase catalog Trusted params) cs plans :=
    hplans.imp fun k p hmem => hzip hmem
  refine ⟨plans, fun p hp => ?_, hcases.imp fun _ _ hcase => hcase.1, .of_cases label hx htags hcases⟩
  obtain ⟨k, hk⟩ := forall_exists_of_forall₂ hplans.flip p hp
  exact (List.of_mem_zip hk).2

/-- Among the plans of the second converter are plans of the constructors of the first one, which
together convert like that. -/
theorem History.exists_shared (hcatalog : catalog.AdmittedBy (.first outside))
    (h : History catalog numbering outside failed d converters)
    (h' : History catalog numbering outside failed' d' converters') (hx : x.IsVariant folding cs)
    (hx' : x'.IsVariant folding' cs') (hsub : cs ⊆ cs') (hc : (.mk x env, c) ∈ converters)
    (hc' : (.mk x' env, c') ∈ converters') (switches : Switches) :
    ∃ (label : Text) (plans shared : List (CasePlan Plan)), c'.plan = .variant label folding' plans ∧
      (plans.map CasePlan.tag).Nodup ∧ shared ⊆ plans ∧
      List.Forall₂ (fun k p => CasePlan.Fits k p) cs shared ∧
      ∀ n m, Setting.Alike ⟨catalog, d, switches⟩ ⟨catalog, d', switches⟩ n m c.plan
        (.variant label folding shared) := by
  obtain ⟨l, hs, hreal⟩ := h.realises hcatalog hc switches
  obtain ⟨l', hs', hlen', henv', hb'⟩ := h'.realises hcatalog hc' switches
  obtain ⟨-, -, -, -, htags, -⟩ := h.plans_of_variant hcatalog hx hc
  obtain ⟨label, plans, hplan, htags', hlength, hcases⟩ := hb'.of_variant hx'
  have hcases' := List.forall₂_iff_zip.2 ⟨hlength, fun hmem => hcases _ _ hmem⟩
  have hfits' : List.Forall₂ (fun k p => CasePlan.Fits k p) cs' plans :=
    hcases'.imp fun _ _ hcase => hcase.1
  obtain ⟨shared, hshared, hfits, hb⟩ := Built.included label hx htags hsub hcases'
  have hreal' : Realises catalog l'.Foresees (.mk x env) (.variant label folding shared) :=
    ⟨hlen', henv', hb⟩
  refine ⟨label, plans, shared, hplan, Setting.nodup_of_fits htags' hfits', hshared, hfits,
    fun n m => ?_⟩
  exact (Setting.agreesAt hs hs' n _ _ hreal).alike hs' (BoundType.Twin.refl (.mk x env)) hreal' m

/-- **A constructor is read and written alike with others beside it.** -/
theorem History.agree_beside (hcatalog : catalog.AdmittedBy (.first outside))
    (h : History catalog numbering outside failed d converters)
    (h' : History catalog numbering outside failed' d' converters') (hx : x.IsVariant folding cs)
    (hx' : x'.IsVariant folding' cs') (hsub : cs ⊆ cs') (hc : (.mk x env, c) ∈ converters)
    (hc' : (.mk x' env, c') ∈ converters') (switches : Switches) {k : Constructor Description}
    (hk : k ∈ cs) :
    (∀ node l rest, node.Tagged k.tag l rest → Agree ReadError.stops ReadError.gist
      (Setting.read ⟨catalog, d, switches⟩ c node) (Setting.read ⟨catalog, d', switches⟩ c' node)) ∧
    ∀ args, Agree WriteError.stops WriteError.gist
      (Setting.write ⟨catalog, d, switches⟩ c (.variant k.tag args))
      (Setting.write ⟨catalog, d', switches⟩ c' (.variant k.tag args)) := by
  obtain ⟨_, _, _, hplan, htags, -⟩ := h.plans_of_variant hcatalog hx hc
  obtain ⟨label, plans, shared, hplan', hnodup', hshared, hfits, halike⟩ :=
    h.exists_shared hcatalog h' hx hx' hsub hc hc' switches
  have hnodup := Setting.nodup_of_fits htags hfits
  obtain ⟨p, hmem⟩ := exists_zip_right hfits.length_eq hk
  have hp := (List.of_mem_zip hmem).2
  have hfit : p.Fits k := (List.forall₂_iff_zip.1 hfits).2 hmem
  have hsettled := Plan.isSettled_variant hplan
  have hsettled' := Plan.isSettled_variant hplan'
  -- all plans of a variant, and those that are shared, leave a constructor to its own plan
  constructor
  · intro node l rest hnode
    rw [← hfit.tag] at hnode
    rw [Setting.read_of_settled hsettled, Setting.read_of_settled hsettled', hplan',
      Setting.readAt_tagged hnodup' (hshared hp) hnode, ← Setting.readAt_tagged hnodup hp hnode]
    exact (halike _ _).1 node
  · intro args
    have hwrite (levels : Nat) := Setting.writeAt_tag (s := ⟨catalog, d', switches⟩) hplan' hnodup'
      (hshared hp) hfit levels args
    have hwrite₂ (levels : Nat) := Setting.writeAt_tag (s := ⟨catalog, d', switches⟩)
      (c := ⟨c'.identity, c'.name, .variant label folding shared⟩) rfl hnodup hp hfit levels args
    rw [Setting.write_of_settled hsettled, Setting.write_of_settled hsettled', hwrite, ← hwrite₂]
    exact (halike _ _).2 (.variant k.tag args)

/-! ## Included variants -/

/-- What a converter makes of what another one reads and writes, if its description includes that of
the other one. -/
structure Setting.Conserves (s s' : Setting) (c c' : Converter) (x' : Description) : Prop where
  /-- What the other one reads is read as the same value, unless a link stops it. -/
  read : ∀ node v, s.read c node = .ok v →
    s'.read c' node = .ok v ∨ ∃ e, s'.read c' node = .error e ∧ e.stops
  /-- What the other one writes of a constructor is written as the same tree, unless a link stops
  it. -/
  write : ∀ tag args t, s.write c (.variant tag args) = .ok t →
    s'.write c' (.variant tag args) = .ok t ∨ ∃ e, s'.write c' (.variant tag args) = .error e ∧ e.stops
  /-- A tag is unknown if and only if it is that of no constructor that can be reached. -/
  unknown : ∀ node t l rest, node.Tagged t l rest →
    ((∃ e, s'.read c' node = .error e ∧ e.refusesTag) ↔ ∀ k, x'.Offers k → k.tag ≠ t)
  /-- Only what is known is written. -/
  written : ∀ tag args t, s'.write c' (.variant tag args) = .ok t → ∃ k, x'.Offers k ∧ k.tag = tag

/-- What is derived from a polymorphic variant consists of its constructors. -/
theorem History.isVariant (hcatalog : catalog.AdmittedBy (.first outside))
    (h : History catalog numbering outside failed d converters)
    (hc : (.mk (.polyVariant cases) env, c) ∈ converters) :
    ∃ cs, Description.IsVariant (.polyVariant cases) false cs := by
  obtain ⟨_, _, _, _, hb⟩ := h.realises hcatalog hc .standard
  generalize c.plan = plan at hb
  cases hb with
  | variant hd =>
    cases hd with
    | polyVariant h => exact ⟨_, .polyVariant h⟩

/-- **Including polymorphic variants is conservative**, at any depth. What the included one reads and
writes is read and written alike, unless a link is refused or has no end, and a tag is unknown if and
only if no constructor that can be reached through the cases has it. -/
theorem History.inherits (hcatalog : catalog.AdmittedBy (.first outside))
    (h : History catalog numbering outside failed d converters)
    (h' : History catalog numbering outside failed' d' converters')
    (hinherits : Description.Inherits (.polyVariant cases') (.polyVariant cases))
    (hc : (.mk (.polyVariant cases) env, c) ∈ converters)
    (hc' : (.mk (.polyVariant cases') env, c') ∈ converters') (switches : Switches) :
    Setting.Conserves ⟨catalog, d, switches⟩ ⟨catalog, d', switches⟩ c c' (.polyVariant cases') := by
  obtain ⟨cs, hx⟩ := h.isVariant hcatalog hc
  obtain ⟨cs', hx'⟩ := h'.isVariant hcatalog hc'
  have hsub : cs ⊆ cs' := fun k hk => hx'.offers_iff.1 (hinherits.offers (hx.offers_iff.2 hk))
  obtain ⟨_, label, plans, hplan, htags, hcases⟩ := h.plans_of_variant hcatalog hx hc
  obtain ⟨_, label', plans', hplan', htags', hcases'⟩ := h'.plans_of_variant hcatalog hx' hc'
  have hfits := hcases.imp fun _ _ hp => hp.1
  have hfits' := hcases'.imp fun _ _ hp => hp.1
  have hreads := Setting.readsByTag (s := ⟨catalog, d, switches⟩) hplan htags hfits
  have hreads' := Setting.readsByTag (s := ⟨catalog, d', switches⟩) hplan' htags' hfits'
  refine ⟨fun node v hv => ?_, fun tag args t ht => ?_, fun node t l rest hnode => ?_,
    fun tag args t ht => ?_⟩
  · obtain ⟨t, l, rest, hnode, k, hk⟩ := hreads.tagged node v hv
    obtain ⟨hmem, rfl⟩ := Setting.isNamed_iff_tag.1 hk
    have hagree := (h.agree_beside hcatalog h' hx hx' hsub hc hc' switches hmem).1 node l rest hnode
    exact hagree.ok_or_stops hv
  · obtain ⟨k, hmem, rfl⟩ := Setting.exists_of_write hplan hfits ht
    have hagree := (h.agree_beside hcatalog h' hx hx' hsub hc hc' switches hmem).2 args
    exact hagree.ok_or_stops ht
  · rw [Setting.refusesTag_iff hreads' hfits'.length_eq hnode]
    exact forall_congr' fun k => by rw [hx'.offers_iff]
  · obtain ⟨k, hmem, htag⟩ := Setting.exists_of_write hplan' hfits' ht
    exact ⟨k, hx'.offers_iff.2 hmem, htag⟩

end

namespace Inheritance

open Description Coil Reordering

/-- The variant with the second definition and the fifth one. -/
abbrev included : Description := .polyVariant (constructors.map .constructor)

/-- The variant with the first definition in front of that one. -/
abbrev extended : Description :=
  .polyVariant [.constructor ⟨"X", [.applied 0 []], none, none, false⟩, .nested included]

/-- The converter of the included variant. -/
def alone : Converter :=
  ⟨.derived 15, "variant", .variant "variant" false [⟨"Q", none, .arguments [innerAround 0]⟩,
    ⟨"B", none, .arguments [⟨.derived 14, "b", .link 14 4 [outerWithin 0]⟩]⟩]⟩

/-- The converter of the variant that includes it. -/
def beside : Converter :=
  ⟨.derived 15, "variant", .variant "variant" false [⟨"X", none, .arguments [outerAround 0]⟩,
    ⟨"Q", none, .arguments [innerWithin 0]⟩,
    ⟨"B", none, .arguments [⟨.derived 14, "b", .link 14 4 [outerAround 0]⟩]⟩]⟩

/-- After the included variant was derived. -/
def afterAlone : Deriver := ⟨16, (⟨.description 0, []⟩, alone) :: (remembersForward {}).cache⟩

/-- After the variant that includes it was derived. -/
def afterBeside : Deriver := ⟨16, (⟨.description 1, []⟩, beside) :: (remembersBackward {}).cache⟩

theorem derive_alone : derive coil (.description 0 included) [] {} = (.ok alone, afterAlone) := by
  obtain ⟨n, hn⟩ : ∃ n, depthBound coil included.size 0 = n + 5 := ⟨_, rfl⟩
  have hcases : buildCases coil (define coil (n + 5) [⟨.description 0, []⟩]) ⟨[], none⟩ true
      (constructors.map .constructor) {} = _ := buildCases_forward n true _ (idle_description 0)
  rw [← hn] at hcases
  exact ofDescription_run rfl (polyVariant_run hcases rfl)

theorem derive_beside : derive coil (.description 1 extended) [] {} = (.ok beside, afterBeside) := by
  obtain ⟨n, hn⟩ : ∃ n, depthBound coil extended.size 0 = n + 5 := ⟨_, rfl⟩
  have hincluded : buildCases coil (define coil (n + 5) [⟨.description 1, []⟩]) ⟨[], none⟩ true
      (constructors.map .constructor) (remembersBackward {}) = _ :=
    buildCases_cached (n + 4) true _ rfl rfl
  have hcases : buildCases coil (define coil (n + 5) [⟨.description 1, []⟩]) ⟨[], none⟩ true
      [.constructor ⟨"X", [.applied 0 []], none, none, false⟩, .nested included] {} = _ :=
    buildCases_run
      (arguments_run (buildAll_run (build_outer.trans (define_backward n (idle_description 1)))
        buildAll_nil))
      (buildCases_run_nested hincluded buildCases_nil)
  rw [← hn] at hcases
  exact ofDescription_run rfl (polyVariant_run hcases rfl)

/-! ### What is included is read and written alike -/

/-- The included variant and the one that includes it. -/
def bothNumbered : Nat → Description
  | 0 => included
  | _ => extended

theorem history_alone : History coil bothNumbered (fun _ => none) false afterAlone
    [(.mk included [], alone)] := by
  have hplain : (bothNumbered 0).isPlain := by decide
  exact History.start.describe hplain derive_alone

theorem history_beside : History coil bothNumbered (fun _ => none) false afterBeside
    [(.mk extended [], beside)] := by
  have hplain : (bothNumbered 1).isPlain := by decide
  exact History.start.describe hplain derive_beside

theorem extended_inherits : extended.Inherits included :=
  .case (List.mem_cons_of_mem _ List.mem_cons_self)

/-- What the included variant reads and writes the other one reads and writes alike. -/
theorem inherits_coil :
    History coil bothNumbered (fun _ => none) false afterAlone [(.mk included [], alone)] ∧
    History coil bothNumbered (fun _ => none) false afterBeside [(.mk extended [], beside)] ∧
    extended.Inherits included ∧
    ∀ switches, Setting.Conserves ⟨coil, afterAlone, switches⟩ ⟨coil, afterBeside, switches⟩ alone
      beside extended :=
  ⟨history_alone, history_beside, extended_inherits, history_alone.inherits coil_admitted
    history_beside extended_inherits List.mem_cons_self List.mem_cons_self⟩

/-! ### What is included has no end -/

/-- **A case in front of an included variant decides whether a link has an end**: what the variant
reads leads, where it is included, to a definition without an end. -/
theorem inherited_endless :
    extended.Inherits included ∧
    derive coil (.description 0 included) [] {} = (.ok alone, afterAlone) ∧
    derive coil (.description 1 extended) [] {} = (.ok beside, afterBeside) ∧
    ∀ switches, Setting.read ⟨coil, afterAlone, switches⟩ alone tagged =
        .ok (.variant "B" [.record [("h", .list [])]]) ∧
      Setting.read ⟨coil, afterBeside, switches⟩ beside tagged = .error .endless := by
  have halone : (⟨"B", none, .arguments [⟨.derived 14, "b", .link 14 4 [outerWithin 0]⟩]⟩ : CasePlan Plan) ∈
      [⟨"Q", none, .arguments [innerAround 0]⟩,
        ⟨"B", none, .arguments [⟨.derived 14, "b", .link 14 4 [outerWithin 0]⟩]⟩] := by simp
  have hbeside : (⟨"B", none, .arguments [⟨.derived 14, "b", .link 14 4 [outerAround 0]⟩]⟩ : CasePlan Plan) ∈
      [⟨"X", none, .arguments [outerAround 0]⟩, ⟨"Q", none, .arguments [innerWithin 0]⟩,
        ⟨"B", none, .arguments [⟨.derived 14, "b", .link 14 4 [outerAround 0]⟩]⟩] := by simp
  refine ⟨extended_inherits, derive_alone, derive_beside, fun switches => ⟨?_, ?_⟩⟩
  · rw [Setting.read_eq_readBy, alone, readBy_tagged (by decide) halone, Setting.readBy_eq_bind,
      afterAlone, settle_within]
    rfl
  · rw [Setting.read_eq_readBy, beside, readBy_tagged (by decide) hbeside, Setting.readBy_eq_bind,
      afterBeside, settle_around]
    rfl

end Inheritance

end TypedSexp
