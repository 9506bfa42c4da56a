import Mathlib.Data.Finset.Basic
import TypedSexp.Proofs.Derivation.Refusal
/-!
# Derivations that note what is underway

`Derivation.define` is told which definitions are being derived. Here they are noted where everybody
sees them: a `Desk` holds one set of requests, a definition is put there before its body is built,
and taken away afterwards whatever came of it (`Work.noted`). `Work.Follows` states that such a
derivation does what one does that is told: it gives the same, remembers the same and leaves the set
as it was. The set is restored because a request is put there only where it is not there already.
-/

namespace TypedSexp

/-- What derivation remembers, and the requests that are being derived. -/
structure Desk where
  deriver : Deriver
  underway : Finset Request

/-- A derivation that notes what is underway. -/
abbrev Work := ExceptT DescriptionFault (StateM Desk)

namespace Work

variable {α β : Type}

/-- A derivation that has nothing to note. -/
def lift (x : Derivation α) : Work α := fun desk =>
  ((x desk.deriver).1, ⟨(x desk.deriver).2, desk.underway⟩)

/-- The requests that are being derived. -/
def underway : Work (Finset Request) := fun desk => (.ok desk.underway, desk)

/-- A derivation during which a request is noted. The note is taken away also after a refusal. -/
def noted (r : Request) (x : Work α) : Work α := fun desk =>
  let (result, after) := x ⟨desk.deriver, insert r desk.underway⟩
  (result, ⟨after.deriver, after.underway.erase r⟩)

instance : MonadLift Derivation Work := ⟨lift⟩

/-- The converter of a definition. -/
def define (catalog : Catalog) : Nat → DefinitionId → List Converter → Work Converter
  | 0, _, _ => throw .endless
  | depth + 1, id, args => do
    let d ← liftExcept (Description.lookup catalog id args.length)
    let body ← liftExcept (Derivation.bodyOf d)
    let request : Request := ⟨.definition id, args.map Keyed.identity⟩
    match ← lift (Derivation.cached? request) with
    | some c => pure c
    | none =>
      if request ∈ (← underway) then lift (Derivation.link d.name id args)
      else do
        let c ← noted request do
          let built ← Description.build catalog (define catalog depth) ⟨args, some d.name⟩ body
          lift (Derivation.fresh (Derivation.definitionName d args) built.plan)
        lift (Derivation.remember request c)
        pure c

/-! ## What is underway is left as it was -/

variable {underway : Finset Request} {Fault : DescriptionFault → Prop}

/-- With these requests underway the first derivation does what the second one does and leaves them
underway; what it gives and why it is refused have these properties. -/
def Follows (underway : Finset Request) (Fault : DescriptionFault → Prop) (w : Work α)
    (x : Derivation α) (Post : α → Prop) : Prop :=
  ∀ d, w ⟨d, underway⟩ = ((x d).1, ⟨(x d).2, underway⟩) ∧
    (∀ a, x.result d = .ok a → Post a) ∧ ∀ e, x.result d = .error e → Fault e

theorem Follows.pure {a : α} {Post : α → Prop} (h : Post a) :
    Follows underway Fault (pure a) (pure a) Post := by
  refine fun d => ⟨rfl, fun b hb => ?_, fun e he => (nomatch he)⟩
  obtain rfl : a = b := Except.ok.inj hb
  exact h

theorem Follows.throw {e : DescriptionFault} {Post : α → Prop} (h : Fault e) :
    Follows underway Fault (throw e) (throw e) Post := by
  refine fun d => ⟨rfl, fun b hb => (nomatch hb), fun e' he => ?_⟩
  obtain rfl : e = e' := Except.error.inj he
  exact h

theorem Follows.bind {w : Work α} {x : Derivation α} {f : α → Work β} {g : α → Derivation β}
    {Mid : α → Prop} {Post : β → Prop} (hw : Follows underway Fault w x Mid)
    (hf : ∀ a, Mid a → Follows underway Fault (f a) (g a) Post) :
    Follows underway Fault (w >>= f) (x >>= g) Post := by
  intro d
  obtain ⟨hrun, hmid, hfault⟩ := hw d
  cases hr : x.result d with
  | error e =>
    have hx : x d = (.error e, (x d).2) := Prod.ext hr rfl
    rw [Derivation.run_bind, hrun, Derivation.result, Derivation.run_bind, hx]
    refine ⟨rfl, fun a ha => (by cases ha), fun e' he => ?_⟩
    obtain rfl : e = e' := Except.error.inj he
    exact hfault e hr
  | ok a =>
    have hx : x d = (.ok a, (x d).2) := Prod.ext hr rfl
    rw [Derivation.run_bind, hrun, Derivation.result, Derivation.run_bind, hx]
    exact hf a (hmid a hr) (x d).2

theorem Follows.weaken {w : Work α} {x : Derivation α} {Post Post' : α → Prop}
    (hw : Follows underway Fault w x Post) (h : ∀ a, Post a → Post' a) :
    Follows underway Fault w x Post' := fun d =>
  ⟨(hw d).1, fun a ha => h a ((hw d).2.1 a ha), (hw d).2.2⟩

/-- What has nothing to note leaves nothing noted. -/
theorem Follows.lift {x : Derivation α} (h : ∀ d e, x.result d = .error e → Fault e) :
    Follows underway Fault (lift x) x fun _ => True :=
  fun d => ⟨rfl, fun _ _ => trivial, h d⟩

/-- The same check in front of both. -/
theorem Follows.check {c : Except DescriptionFault α} {f : α → Work β} {g : α → Derivation β}
    {Post : β → Prop} (hfault : ∀ e, c = .error e → Fault e)
    (h : ∀ a, c = .ok a → Follows underway Fault (f a) (g a) Post) :
    Follows underway Fault (liftExcept c >>= f) (liftExcept c >>= g) Post := by
  cases c with
  | error e => exact .bind (.throw (hfault e rfl)) fun a (ha : False) => ha.elim
  | ok a => exact h a rfl

/-- A request that was not underway is not underway any more. -/
theorem Follows.noted {r : Request} {w : Work α} {x : Derivation α} {Post : α → Prop}
    (hr : r ∉ underway) (hw : Follows (insert r underway) Fault w x Post) :
    Follows underway Fault (noted r w) x Post := by
  refine fun d => ⟨?_, (hw d).2⟩
  have hnoted : Work.noted r w ⟨d, underway⟩ =
      ((w ⟨d, insert r underway⟩).1, ⟨(w ⟨d, insert r underway⟩).2.deriver,
        (w ⟨d, insert r underway⟩).2.underway.erase r⟩) := rfl
  rw [hnoted, (hw d).1, Finset.erase_insert hr]

end Work

end TypedSexp
