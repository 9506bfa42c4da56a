import TypedSexp.Proofs.Description.Typing
/-!
# Definitions that derivation accepts

A derivation that is never refused succeeds whatever is remembered (`Derivation.Succeeds`). A
definition is accepted if its body is built from any arguments, however the definitions that it
applies are derived (`Catalog.accepts_of_builds`).
-/

namespace TypedSexp

namespace Derivation

variable {α β : Type}

/-- The derivation is not refused, whatever is remembered. -/
def Succeeds (x : Derivation α) : Prop := ∀ d, ∃ a, x.result d = .ok a

theorem Succeeds.pure (a : α) : Succeeds (pure a) := fun _ => ⟨a, rfl⟩

theorem Succeeds.fresh (name : Text) (plan : Plan) : Succeeds (fresh name plan) :=
  fun _ => ⟨_, rfl⟩

theorem Succeeds.link (name : Text) (id : DefinitionId) (args : List Converter) :
    Succeeds (link name id args) := fun _ => ⟨_, rfl⟩

theorem Succeeds.cached? (r : Request) : Succeeds (cached? r) := fun _ => ⟨_, rfl⟩

theorem Succeeds.remember (r : Request) (c : Converter) : Succeeds (remember r c) :=
  fun _ => ⟨_, rfl⟩

theorem Succeeds.bind {x : Derivation α} {f : α → Derivation β} (hx : x.Succeeds)
    (hf : ∀ a, (f a).Succeeds) : Succeeds (x >>= f) := by
  intro d
  obtain ⟨a, ha⟩ := hx d
  obtain ⟨b, hb⟩ := hf a (x d).2
  refine ⟨b, ?_⟩
  have hrun : (x >>= f).result d =
      match (x d).1 with
      | .ok a => (f a).result (x d).2
      | .error e => .error e := by
    show (ExceptT.bind x f d).1 = _
    unfold ExceptT.bind ExceptT.mk
    show (ExceptT.bindCont f (x d).1 (x d).2).1 = _
    cases (x d).1 <;> rfl
  have hx' : (x d).1 = .ok a := ha
  rw [hrun, hx']
  exact hb

/-- A check in front of a derivation. -/
theorem Succeeds.check {x : Except DescriptionFault α} {a : α} {f : α → Derivation β}
    (hx : x = .ok a) (hf : (f a).Succeeds) : Succeeds (liftExcept x >>= f) := by
  rw [hx]
  exact hf

theorem define_succeeds {catalog : Catalog} {depth : Nat} {inProgress : List Request}
    {id : DefinitionId} {args : List Converter} {d : Definition} {body : Description}
    (hd : catalog[id]? = some d) (hbody : d.body = some body) (hlen : args.length = d.arity)
    (h : ∀ define, Succeeds (Description.build catalog define ⟨args, some d.name⟩ body)) :
    (define catalog (depth + 1) inProgress id args).Succeeds := by
  rw [define]
  refine .check (a := d) ?_ (.check (a := body) ?_ (.bind (.cached? _) fun found => ?_))
  · simp [Description.lookup, hd, Description.checkArity, hlen, Except.map]
  · simp [bodyOf, hbody]
  · cases found with
    | some c => exact .pure c
    | none =>
      by_cases hprogress : inProgress.contains ⟨.definition id, args.map Keyed.identity⟩
      · simp only [hprogress, if_true]
        exact .link _ _ _
      · simp only [hprogress, if_false, Bool.false_eq_true]
        refine (h _).bind fun built => (Succeeds.fresh _ _).bind fun c => ?_
        exact (Succeeds.remember _ c).bind fun _ => .pure c

end Derivation

/-- One of the definitions is not accepted, when it is applied to so many arguments. -/
def Catalog.Rejects (catalog : Catalog) (Through : DefinitionId → Nat → Prop) : Prop :=
  ∃ id count, Through id count ∧ ¬ catalog.Accepts id count

theorem Catalog.accepts_of_not_rejects {catalog : Catalog} {Through : DefinitionId → Nat → Prop}
    (h : ¬ catalog.Rejects Through) (id : DefinitionId) (count : Nat) (ht : Through id count) :
    catalog.Accepts id count :=
  by_contra fun hrefused => h ⟨id, count, ht, hrefused⟩

theorem Catalog.accepts_of_builds {catalog : Catalog} {id : DefinitionId} {d : Definition}
    {body : Description} (hd : catalog[id]? = some d) (hbody : d.body = some body)
    (h : ∀ define args, args.length = d.arity →
      Derivation.Succeeds (Description.build catalog define ⟨args, some d.name⟩ body)) :
    catalog.Accepts id d.arity :=
  fun args deriver hlen =>
    Derivation.define_succeeds hd hbody hlen (fun define => h define args hlen) deriver

end TypedSexp
