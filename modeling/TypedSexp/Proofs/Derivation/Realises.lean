import TypedSexp.Proofs.Derivation.Define
import TypedSexp.Proofs.Derivation.Parts
import TypedSexp.Proofs.Description.Typing
/-!
# Plans of a type

A type is a description with what its parameters stand for, and its plans are built from the
description with converters of these (`Realises`). Wherever a link stands in such a plan, its
arguments are trusted and are converters of some types (`Realises.linked`): what the link comes to
is a plan of a type in turn.
-/

namespace TypedSexp

/-- The plan is one of the type. -/
inductive Realises (catalog : Catalog) (Trusted : List Converter → Prop) : BoundType → Plan → Prop
  | mk {d : Description} {env : List BoundType} {params : List Converter} {plan : Plan}
      (hlen : env.length = params.length)
      (henv : ∀ t c, (t, c) ∈ env.zip params → Realises catalog Trusted t c.plan)
      (hb : Built catalog Trusted params d plan) : Realises catalog Trusted (.mk d env) plan

theorem Realises.mono {catalog later : Catalog} {Trusted Trusted' : List Converter → Prop}
    (hcatalog : later.Extends catalog) (htrusted : ∀ cs, Trusted cs → Trusted' cs) {t : BoundType}
    {plan : Plan} (h : Realises catalog Trusted t plan) : Realises later Trusted' t plan := by
  induction h with
  | mk hlen _ hb ih => exact .mk hlen ih (hb.mono hcatalog htrusted)

variable {catalog : Catalog} {Trusted : List Converter → Prop} {params : List Converter}
  {env : List BoundType} {d : Description} {t : BoundType} {plan : Plan}

/-- The converters are of the types. -/
def Realises.All (catalog : Catalog) (Trusted : List Converter → Prop) (env : List BoundType)
    (params : List Converter) : Prop :=
  env.length = params.length ∧
    ∀ t (c : Converter), (t, c) ∈ env.zip params → Realises catalog Trusted t c.plan

theorem Realises.All.mk (h : Realises.All catalog Trusted env params)
    (hb : Built catalog Trusted params d plan) : Realises catalog Trusted (.mk d env) plan :=
  Realises.mk h.1 h.2 hb

theorem Realises.All.mono {l l' : Ledger} (h : Realises.All catalog l.Trusts env params)
    (hl : l'.Extends l) : Realises.All catalog l'.Trusts env params :=
  ⟨h.1, fun t c hmem => (h.2 t c hmem).mono (fun _ _ h => h) fun _ hcs => hcs.mono hl⟩

theorem Realises.All.args {cs : List Converter} {args : List Description}
    (h : Realises.All catalog Trusted env params) (hlen : args.length = cs.length)
    (hargs : ∀ d (c : Converter), (d, c) ∈ args.zip cs → Built catalog Trusted params d c.plan) :
    Realises.All catalog Trusted (args.map (.mk · env)) cs := by
  refine ⟨by simpa using hlen, fun t c hmem => ?_⟩
  obtain ⟨d, rfl, hzip⟩ := exists_of_mem_zip_map hmem
  exact h.mk (hargs d c hzip)

/-! ## Parts of fields and cases -/

/-- How the value of a field is written. -/
theorem FieldPlan.Fits.of_valued {f : Field Description} {p : FieldPlan Plan} (h : p.Fits f)
    {c : Converter} {omission : Omission} (hform : p.form = .valued c omission) :
    f.presence ≠ .sexpBool ∧ omission = f.presence.omission ∧ ∃ d, f.valueType = some d := by
  have hb : f.presence ≠ .sexpBool := fun hb => absurd ((h.flag hb).symm.trans hform) (by simp)
  obtain ⟨d, c', hd, hvalued⟩ := h.valued hb
  obtain ⟨-, rfl⟩ := FieldForm.valued.inj (hform.symm.trans hvalued)
  exact ⟨hb, rfl, d, hd⟩

/-- What is read behind a tag stands in the description of the constructor. -/
theorem CasePlan.Fits.part_of_inside {c : Constructor Description} {p : CasePlan Plan} {q : Plan}
    (h : p.Fits c) (hq : p.form.Inside q) :
    ∃ x, CasePlan.Part c p x q ∧ (x ∈ c.args ∨ c.inlineRecord = some x) := by
  by_cases hr : c.record = none
  · by_cases hs : c.spliced = true
    · obtain ⟨d, k, hargs, hform⟩ := h.splice hr hs
      rw [hform] at hq
      cases hq with
      | element => exact ⟨d, .element hform hargs, .inl (by simp [hargs])⟩
    · replace hs : c.spliced = false := by simpa using hs
      by_cases hempty : c.args = []
      · rw [h.constant hr hs hempty] at hq
        cases hq
      · obtain ⟨ks, hform, hlen⟩ := h.arguments hr hs hempty
        rw [hform] at hq
        cases hq with
        | argument hk =>
          obtain ⟨x, hmem⟩ := exists_zip_left hlen hk
          exact ⟨x, .argument hform hmem, .inl (List.of_mem_zip hmem).1⟩
  · obtain ⟨-, -, d, r, hd, hform⟩ := h.inline hr
    rw [hform] at hq
    cases hq with
    | fields => exact ⟨d, .fields hform hd, .inr hd⟩

/-! ## Links in a plan of a type -/

/-- The arguments of the links in the plan are trusted, and are converters of some types. -/
def Realises.Linked (catalog : Catalog) (Trusted : List Converter → Prop) (plan : Plan) : Prop :=
  ∀ cell id args, plan.Holds cell id args → Trusted args ∧ ∃ env, Realises.All catalog Trusted env args

/-- The links in a plan that is no link itself are those in its parts. -/
theorem Realises.Linked.of_parts (hplan : ∀ cell id args, plan ≠ .link cell id args)
    (h : ∀ q, plan.HasPart q → Realises.Linked catalog Trusted q) :
    Realises.Linked catalog Trusted plan := by
  intro cell id args hlink
  cases hlink with
  | here => exact absurd rfl (hplan cell id args)
  | part hq hlink => exact h _ hq cell id args hlink

theorem Built.linked (hb : Built catalog Trusted params d plan) :
    ∀ {env : List BoundType}, Realises.All catalog Trusted env params →
      (∀ c ∈ params, Realises.Linked catalog Trusted c.plan) → Realises.Linked catalog Trusted plan := by
  induction hb with
  | primitive _ => exact fun _ _ => .of_parts nofun nofun
  | product hlen _ ih =>
    refine fun henv hparams => .of_parts nofun fun q hq => ?_
    cases hq with
    | tuple hc =>
      obtain ⟨d, hmem⟩ := exists_zip_left hlen hc
      exact ih d _ hmem henv hparams
  | record _ hlen hfits _ ih =>
    refine fun henv hparams => .of_parts nofun fun q hq => ?_
    cases hq with
    | @field _ p c _ hp hform =>
      obtain ⟨f, hmem⟩ := exists_zip_left hlen hp
      obtain ⟨-, -, d, hd⟩ := (hfits f p hmem).of_valued hform
      exact ih f p d c.plan hmem (.value hd hform) henv hparams
  | variant _ _ hlen hfits _ ih =>
    refine fun henv hparams => .of_parts nofun fun q hq => ?_
    cases hq with
    | @case _ _ _ p q hp hq =>
      obtain ⟨k, hmem⟩ := exists_zip_left hlen hp
      obtain ⟨x, hpart, -⟩ := (hfits k p hmem).part_of_inside hq
      exact ih k p x q hmem hpart henv hparams
  | list _ ih =>
    refine fun henv hparams => .of_parts nofun fun q hq => ?_
    cases hq with
    | list => exact ih henv hparams
  | array _ ih =>
    refine fun henv hparams => .of_parts nofun fun q hq => ?_
    cases hq with
    | array => exact ih henv hparams
  | option _ _ ih =>
    refine fun henv hparams => .of_parts nofun fun q hq => ?_
    cases hq with
    | option => exact ih henv hparams
  | sealed => exact fun _ _ => .of_parts nofun nofun
  | custom _ => exact fun _ _ => .of_parts nofun nofun
  | parameter _ hc => exact fun _ hparams => hparams _ (List.mem_of_getElem? hc)
  | link ht =>
    intro env henv _ cell id args hlink
    cases hlink with
    | here => exact ⟨ht, env, henv⟩
    | part hq _ => cases hq
  | body _ _ ih => exact fun henv hparams => ih henv hparams
  | recursive hlen hargs _ ihargs ih =>
    refine fun henv hparams => ih (henv.args hlen hargs) fun c hc => ?_
    obtain ⟨d, hmem⟩ := exists_zip_left hlen hc
    exact ihargs d c hmem henv hparams
  | applied hlen hargs _ ihargs ih =>
    refine fun henv hparams => ih (henv.args hlen hargs) fun c hc => ?_
    obtain ⟨d, hmem⟩ := exists_zip_left hlen hc
    exact ihargs d c hmem henv hparams

/-- **The links in a plan of a type lead to plans of types.** -/
theorem Realises.linked (h : Realises catalog Trusted t plan) :
    Realises.Linked catalog Trusted plan := by
  induction h with
  | mk hlen henv hb ih =>
    refine hb.linked ⟨hlen, henv⟩ fun c hc => ?_
    obtain ⟨t, hmem⟩ := exists_zip_left hlen hc
    exact ih t c hmem

end TypedSexp
