import TypedSexp.Proofs.Conversion.Unfolding
import TypedSexp.Proofs.Description.Replacement
/-!
# Types with arguments and types with parameters

A description under arguments stands for the same type as the description in which the arguments
replace the parameters. Inside such types there are others of the kind, applied to each other;
`BoundType.Twin` relates them all. Whatever one of two twins comes to, so does the other
(`BoundType.Twin.covers`), with twins again.
-/

namespace TypedSexp

/-- The same type, but descriptions may have their arguments in the place of their parameters. -/
inductive BoundType.Twin : BoundType → BoundType → Prop
  | kept {d : Description} {env env' : List BoundType} (hlen : env.length = env'.length)
      (h : ∀ t t', (t, t') ∈ env.zip env' → Twin t t') : Twin (.mk d env) (.mk d env')
  | replaced {d : Description} (ds : List Description) (hd : d.isSeparate) :
      Twin (.mk d (ds.map (.mk · []))) (.mk (d.replace (some ds)) [])

/-- What parameters stand for on both sides: twins, or arguments that have replaced them. -/
inductive BoundType.Bind : Replacement → List BoundType → List BoundType → Prop
  | kept {env env' : List BoundType} (hlen : env.length = env'.length)
      (h : ∀ t t', (t, t') ∈ env.zip env' → Twin t t') : Bind none env env'
  | replaced (ds : List Description) : Bind (some ds) (ds.map (.mk · [])) []

namespace BoundType

variable {catalog : Catalog} {through : Bool} {layers : Nat} {t t' u u' : BoundType}
  {d : Description} {env env' : List BoundType} {r : Replacement}

mutual

/-- Every type is its own twin. -/
theorem Twin.refl : ∀ t : BoundType, Twin t t
  | .mk _ env => .kept rfl (Twin.reflAll env)

theorem Twin.reflAll : ∀ (env : List BoundType) (t t' : BoundType), (t, t') ∈ env.zip env →
    Twin t t'
  | [], _, _, h => absurd h List.not_mem_nil
  | u :: env, t, t', h => by
    rw [List.zip_cons_cons] at h
    rcases List.mem_cons.1 h with heq | h
    · obtain ⟨rfl, rfl⟩ := Prod.mk.inj heq
      exact Twin.refl _
    · exact Twin.reflAll env t t' h

end

theorem Bind.twin (h : Bind r env env') (hd : d.Allows r) :
    Twin (.mk d env) (.mk (d.replace r) env') := by
  cases h with
  | kept hlen h =>
    rw [Description.replace_none]
    exact .kept hlen h
  | replaced ds => exact .replaced ds (hd.resolve_left (by simp))

theorem Twin.bind (h : Twin (.mk d env) t') :
    ∃ r env', t' = .mk (d.replace r) env' ∧ Bind r env env' ∧ d.Allows r := by
  cases h with
  | kept hlen h => exact ⟨none, _, by rw [Description.replace_none], .kept hlen h, .inl rfl⟩
  | replaced ds hd => exact ⟨some ds, [], rfl, .replaced ds, .inr hd⟩

/-- Arguments of a reference are twins one by one. -/
theorem Bind.args {id : DefinitionId} {args : List Description} (h : Bind r env env')
    (hargs : ∀ d ∈ args, d.Allows r) :
    Twin (.mk (.recursive id none) (args.map (.mk · env)))
      (.mk (.recursive id none) ((Description.replaceAll r args).map (.mk · env'))) := by
  rw [Description.replaceAll_eq, List.map_map]
  refine .kept (by simp) fun t t' hmem => ?_
  obtain ⟨i, hi, heq⟩ := List.mem_iff_getElem.1 hmem
  rw [List.getElem_zip, List.getElem_map, List.getElem_map] at heq
  obtain ⟨rfl, rfl⟩ := Prod.mk.inj heq
  exact h.twin (hargs _ (List.getElem_mem _))

/-- Whatever the second type comes to, so does the first. -/
def Covers (catalog : Catalog) (t t' : BoundType) : Prop :=
  ∀ through layers u', Unfolds catalog through t' layers u' →
    ∃ u, Unfolds catalog through t layers u ∧ Twin u u'

theorem isShape_replace (h : d.Keeps r) : (d.replace r).isShape through = d.isShape through := by
  rcases h with rfl | h
  · rw [Description.replace_none]
  · cases d with
    | parameter _ _ => exact absurd h (by simp [Description.isParameter])
    | recursive _ args => cases args <;> rfl
    | _ => rfl

/-- A parameter that is replaced comes to what its argument comes to. -/
theorem unfolds_argument {index : Int} {name : Option Text} {ds : List Description}
    (h : Unfolds catalog through (.mk (Description.argument (some ds) index name) []) layers u) :
    Unfolds catalog through (.mk (.parameter index name) (ds.map (.mk · []))) layers u := by
  unfold Description.argument at h
  by_cases hi : index < 0
  · cases (by simpa [hi] using h : Unfolds catalog through (.mk (.parameter index name) []) layers u) with
    | here hd => exact absurd hd (by simp [Description.isShape])
    | parameter _ ht _ => exact absurd ht (by simp)
  · cases hd : ds[index.toNat]? with
    | none =>
      cases (by simpa [hi, hd] using h :
          Unfolds catalog through (.mk (.parameter index name) []) layers u) with
      | here hd => exact absurd hd (by simp [Description.isShape])
      | parameter _ ht _ => exact absurd ht (by simp)
    | some d =>
      have hu : Unfolds catalog through (.mk d []) layers u := by simpa [hi, hd] using h
      exact .parameter (by omega) (by rw [List.getElem?_map, hd]; rfl) hu

/-- The first type is a parameter that stands for the second; or both are the same kind of
description. -/
theorem Twin.cases (h : Twin t t') :
    (∀ through layers u, Unfolds catalog through t' layers u →
      Unfolds catalog through t layers u) ∨
    ∃ d r env env', t = .mk d env ∧ t' = .mk (d.replace r) env' ∧ Bind r env env' ∧ d.Allows r ∧
      d.Keeps r := by
  obtain ⟨d, env⟩ := t
  obtain ⟨r, env', rfl, hbind, hallows⟩ := h.bind
  cases hbind with
  | kept hlen h => exact .inr ⟨d, none, env, env', rfl, rfl, .kept hlen h, hallows, .inl rfl⟩
  | replaced ds =>
    cases d with
    | parameter index name => exact .inl fun through layers u hu => unfolds_argument hu
    | _ => exact .inr ⟨_, some ds, _, [], rfl, rfl, .replaced ds, hallows, .inr rfl⟩

/-- **Twins come to twins.** The induction is on how the second type comes to its shape. -/
theorem Twin.covers (h : Twin t t') : Covers catalog t t' := by
  intro through layers u' hu
  induction hu generalizing t with
  | @here d' env'' hd =>
    rcases h.cases with hsame | ⟨d, r, env, env', rfl, hmk, hbind, hallows, hkeeps⟩
    · exact ⟨_, hsame _ _ _ (.here hd), .refl _⟩
    · obtain ⟨rfl, rfl⟩ := BoundType.mk.inj hmk
      rw [isShape_replace hkeeps] at hd
      exact ⟨_, .here hd, hbind.twin hallows⟩
  | @parameter env'' index name v u' layers hi hv hu ih =>
    rcases h.cases with hsame | ⟨d, r, env, env', rfl, hmk, hbind, hallows, hkeeps⟩
    · exact ⟨_, hsame _ _ _ (.parameter hi hv hu), .refl _⟩
    · obtain ⟨hd, rfl⟩ := BoundType.mk.inj hmk
      cases hbind with
      | replaced ds => exact absurd hv (by simp)
      | kept hlen hzip =>
        rw [Description.replace_none] at hd
        subst hd
        obtain ⟨hlt, rfl⟩ := List.getElem?_eq_some_iff.1 hv
        have hlt' : index.toNat < env.length := hlen ▸ hlt
        obtain ⟨u, hu, htwin⟩ := ih (hzip _ _ (mem_zip_getElem hlt' hlt))
        exact ⟨u, .parameter hi (List.getElem?_eq_getElem hlt') hu, htwin⟩
  | @body env'' id body u' layers hb hu ih =>
    rcases h.cases with hsame | ⟨d, r, env, env', rfl, hmk, hbind, hallows, hkeeps⟩
    · exact ⟨_, hsame _ _ _ (.body hb hu), .refl _⟩
    · obtain ⟨hd, rfl⟩ := BoundType.mk.inj hmk
      cases hbind with
      | replaced ds =>
        rcases Description.eq_of_replace_recursive hkeeps hd.symm with
          ⟨-, h⟩ | ⟨args, -, h⟩ <;> exact absurd h (by simp)
      | kept hlen hzip =>
        rw [Description.replace_none] at hd
        subst hd
        obtain ⟨u, hu, htwin⟩ := ih (.kept hlen hzip)
        exact ⟨u, .body hb hu, htwin⟩
  | @recursive env'' id args u' layers hu ih =>
    rcases h.cases with hsame | ⟨d, r, env, env', rfl, hmk, hbind, hallows, hkeeps⟩
    · exact ⟨_, hsame _ _ _ (.recursive hu), .refl _⟩
    · obtain ⟨hd, rfl⟩ := BoundType.mk.inj hmk
      rcases Description.eq_of_replace_recursive hkeeps hd.symm with ⟨rfl, hr⟩ | ⟨ds, rfl, hr⟩
      · subst hr
        -- the arguments were put in; on the other side they are what the parameters stand for
        cases hbind
        exact ⟨u', hu, .refl _⟩
      · obtain rfl := Option.some.inj hr
        obtain ⟨u, hu, htwin⟩ := ih (hbind.args fun d hd => hallows.recursive hd)
        exact ⟨u, .recursive hu, htwin⟩
  | @applied env'' id args u' layers hu ih =>
    rcases h.cases with hsame | ⟨d, r, env, env', rfl, hmk, hbind, hallows, hkeeps⟩
    · exact ⟨_, hsame _ _ _ (.applied hu), .refl _⟩
    · obtain ⟨hd, rfl⟩ := BoundType.mk.inj hmk
      obtain ⟨ds, rfl, rfl⟩ := Description.eq_of_replace_applied hkeeps hd.symm
      obtain ⟨u, hu, htwin⟩ := ih (hbind.args fun d hd => hallows.applied hd)
      exact ⟨u, .applied hu, htwin⟩
  | @option env'' d' u' layers hthrough hu ih =>
    rcases h.cases with hsame | ⟨d, r, env, env', rfl, hmk, hbind, hallows, hkeeps⟩
    · exact ⟨_, hsame _ _ _ (.option hthrough hu), .refl _⟩
    · obtain ⟨hd, rfl⟩ := BoundType.mk.inj hmk
      obtain ⟨inner, rfl, rfl⟩ := Description.eq_of_replace_option hkeeps hd.symm
      obtain ⟨u, hu, htwin⟩ := ih (hbind.twin hallows.option.2)
      exact ⟨u, .option hthrough hu, htwin⟩

end BoundType

end TypedSexp
