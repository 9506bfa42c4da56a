import TypedSexp.Converter.Basic
/-!
# Parts of plans

What stands directly inside a plan (`Plan.HasPart`): what holds of every plan whose parts it holds of,
holds of all plans (`Plan.induct`). A link stands in a plan if it is the plan, or stands in one of its
parts (`Plan.Holds`); what stands behind the link is no part.
-/

namespace TypedSexp

/-- What follows a tag is read with the plan. -/
inductive CaseForm.Inside : CaseForm Plan → Plan → Prop
  | argument {cs : List Converter} {c : Converter} (hc : c ∈ cs) : Inside (.arguments cs) c.plan
  | element {c : Converter} : Inside (.spliced c) c.plan
  | fields {r : RecordPlan Plan} : Inside (.record r) (.record r)

/-- The second plan stands directly inside the first one. -/
inductive Plan.HasPart : Plan → Plan → Prop
  | option {label : Text} {c : Converter} : HasPart (.option label c) c.plan
  | list {label : Text} {c : Converter} : HasPart (.list label c) c.plan
  | array {label : Text} {stored : ElementType} {c : Converter} :
      HasPart (.array label stored c) c.plan
  | tuple {label : Text} {cs : List Converter} {c : Converter} (hc : c ∈ cs) :
      HasPart (.tuple label cs) c.plan
  | field {r : RecordPlan Plan} {p : FieldPlan Plan} {c : Converter} {omission : Omission}
      (hp : p ∈ r.fields) (hform : p.form = .valued c omission) : HasPart (.record r) c.plan
  | case {label : Text} {folding : Bool} {cases : List (CasePlan Plan)} {p : CasePlan Plan} {q : Plan}
      (hp : p ∈ cases) (hq : p.form.Inside q) : HasPart (.variant label folding cases) q

/-! ## Induction -/

section Induction

variable {P : Plan → Prop}

mutual

/-- What holds of every plan whose parts it holds of, holds of all plans. -/
theorem Plan.induct (hstep : ∀ p, (∀ q, p.HasPart q → P q) → P p) : ∀ p, P p
  | .primitive _ | .custom _ | .sealed _ | .link .. => hstep _ nofun
  | .option _ inner => by
    have hinner := Plan.induct hstep inner.plan
    exact hstep _ fun | _, .option => hinner
  | .list _ element => by
    have helement := Plan.induct hstep element.plan
    exact hstep _ fun | _, .list => helement
  | .array _ _ element => by
    have helement := Plan.induct hstep element.plan
    exact hstep _ fun | _, .array => helement
  | .tuple _ parts => by
    have hparts := Plan.inductParts hstep parts
    exact hstep _ fun | _, .tuple hc => hparts _ hc
  | .record ⟨_, _, _, fields⟩ => by
    have hfields := Plan.inductFields hstep fields
    exact hstep _ fun | _, .field hp hform => hfields _ hp _ _ hform
  | .variant _ _ cases => by
    have hcases := Plan.inductCases hstep cases
    exact hstep _ fun | _, .case hp hq => hcases _ hp _ hq

theorem Plan.inductParts (hstep : ∀ p, (∀ q, p.HasPart q → P q) → P p) :
    ∀ cs : List Converter, ∀ c ∈ cs, P c.plan
  | [] => nofun
  | c :: cs => List.forall_mem_cons.2 ⟨Plan.induct hstep c.plan, Plan.inductParts hstep cs⟩

theorem Plan.inductFields (hstep : ∀ p, (∀ q, p.HasPart q → P q) → P p) :
    ∀ ps : List (FieldPlan Plan), ∀ p ∈ ps, ∀ c omission, p.form = .valued c omission → P c.plan
  | [] => nofun
  | ⟨_, .flag, _, _⟩ :: ps => List.forall_mem_cons.2 ⟨nofun, Plan.inductFields hstep ps⟩
  | ⟨_, .valued c _, _, _⟩ :: ps => by
    have hc := Plan.induct hstep c.plan
    exact List.forall_mem_cons.2 ⟨fun | _, _, rfl => hc, Plan.inductFields hstep ps⟩

theorem Plan.inductCases (hstep : ∀ p, (∀ q, p.HasPart q → P q) → P p) :
    ∀ ps : List (CasePlan Plan), ∀ p ∈ ps, ∀ q, p.form.Inside q → P q
  | [] => nofun
  | ⟨_, _, .constant⟩ :: ps => List.forall_mem_cons.2 ⟨nofun, Plan.inductCases hstep ps⟩
  | ⟨_, _, .arguments cs⟩ :: ps => by
    have hcs := Plan.inductParts hstep cs
    exact List.forall_mem_cons.2 ⟨fun | _, .argument hc => hcs _ hc, Plan.inductCases hstep ps⟩
  | ⟨_, _, .spliced c⟩ :: ps => by
    have hc := Plan.induct hstep c.plan
    exact List.forall_mem_cons.2 ⟨fun | _, .element => hc, Plan.inductCases hstep ps⟩
  | ⟨_, _, .record ⟨_, _, _, fields⟩⟩ :: ps => by
    have hfields := Plan.inductFields hstep fields
    refine List.forall_mem_cons.2 ⟨fun | _, .fields => ?_, Plan.inductCases hstep ps⟩
    exact hstep _ fun | _, .field hp hform => hfields _ hp _ _ hform

end

end Induction

/-! ## Links inside plans -/

/-- The link stands in the plan. -/
inductive Plan.Holds (cell : Nat) (id : DefinitionId) (args : List Converter) : Plan → Prop
  | here : Holds cell id args (.link cell id args)
  | part {p q : Plan} (hq : p.HasPart q) (h : Holds cell id args q) : Holds cell id args p

/-- A link holds no other. -/
theorem Plan.Holds.of_link {cell cell' : Nat} {id id' : DefinitionId} {args args' : List Converter}
    {plan : Plan} (h : Plan.Holds cell' id' args' (.link cell id args))
    (hlink : plan.Holds cell id args) : plan.Holds cell' id' args' := by
  cases h with
  | here => exact hlink
  | part hq _ => cases hq

end TypedSexp
