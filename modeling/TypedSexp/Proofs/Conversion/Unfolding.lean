import TypedSexp.Proofs.Conversion.Levels
import TypedSexp.Proofs.Results
/-!
# What a type comes to

A type may be a parameter or a reference. `BoundType.Unfolds` follows it to the shape that it stands
for in the end, through options if asked; there is at most one (`BoundType.Unfolds.unique`). Plans
are settled along the same way: whatever a plan of a type comes to is a plan of that shape
(`Setting.unfolds_of_settle`), so two plans of one type come to the same shape, wherever the one has
a link and the other what stands behind it.
-/

namespace TypedSexp

/-- The description is no parameter and no reference, and no option if these are passed. -/
def Description.isShape (through : Bool) : Description → Bool
  | .parameter .. => false
  | .recursive .. => false
  | .applied .. => false
  | .option _ => !through
  | _ => true

/-- What a type comes to, past so many options. -/
inductive BoundType.Unfolds (catalog : Catalog) (through : Bool) :
    BoundType → Nat → BoundType → Prop
  | here {d : Description} {env : List BoundType} (hd : d.isShape through) :
      Unfolds catalog through (.mk d env) 0 (.mk d env)
  | parameter {env : List BoundType} {index : Int} {name : Option Text} {t u : BoundType}
      {layers : Nat} (hi : 0 ≤ index) (ht : env[index.toNat]? = some t)
      (h : Unfolds catalog through t layers u) :
      Unfolds catalog through (.mk (.parameter index name) env) layers u
  | body {env : List BoundType} {id : DefinitionId} {body : Description} {u : BoundType}
      {layers : Nat} (hb : catalog.body? id = some body)
      (h : Unfolds catalog through (.mk body env) layers u) :
      Unfolds catalog through (.mk (.recursive id none) env) layers u
  | recursive {env : List BoundType} {id : DefinitionId} {args : List Description} {u : BoundType}
      {layers : Nat}
      (h : Unfolds catalog through (.mk (.recursive id none) (args.map (.mk · env))) layers u) :
      Unfolds catalog through (.mk (.recursive id (some args)) env) layers u
  | applied {env : List BoundType} {id : DefinitionId} {args : List Description} {u : BoundType}
      {layers : Nat}
      (h : Unfolds catalog through (.mk (.recursive id none) (args.map (.mk · env))) layers u) :
      Unfolds catalog through (.mk (.applied id args) env) layers u
  | option {env : List BoundType} {d : Description} {u : BoundType} {layers : Nat}
      (ht : through = true) (h : Unfolds catalog through (.mk d env) layers u) :
      Unfolds catalog through (.mk (.option d) env) (layers + 1) u

namespace BoundType

variable {catalog : Catalog} {through : Bool} {t u u' : BoundType} {layers layers' : Nat}
  {d : Description} {env : List BoundType}

/-- A shape comes to itself. -/
theorem Unfolds.of_shape (hd : d.isShape through) (h : Unfolds catalog through (.mk d env) layers u) :
    layers = 0 ∧ u = .mk d env := by
  cases h with
  | here _ => exact ⟨rfl, rfl⟩
  | option ht _ => exact absurd hd (by simp [Description.isShape, ht])
  | _ => exact absurd hd (by simp [Description.isShape])

/-- What a type comes to is a shape. -/
theorem Unfolds.self (h : Unfolds catalog through t layers u) : Unfolds catalog through u 0 u := by
  induction h with
  | here hd => exact .here hd
  | parameter _ _ _ ih => exact ih
  | body _ _ ih => exact ih
  | recursive _ ih => exact ih
  | applied _ ih => exact ih
  | option _ _ ih => exact ih

theorem Unfolds.unique (h : Unfolds catalog through t layers u)
    (h' : Unfolds catalog through t layers' u') : layers = layers' ∧ u = u' := by
  induction h generalizing layers' with
  | here hd =>
    obtain ⟨rfl, rfl⟩ := h'.of_shape hd
    exact ⟨rfl, rfl⟩
  | parameter _ ht _ ih =>
    cases h' with
    | here hd => exact absurd hd (by simp [Description.isShape])
    | parameter _ ht' h' =>
      obtain rfl := Option.some.inj (ht.symm.trans ht')
      exact ih h'
  | body hb _ ih =>
    cases h' with
    | here hd => exact absurd hd (by simp [Description.isShape])
    | body hb' h' =>
      obtain rfl := Option.some.inj (hb.symm.trans hb')
      exact ih h'
  | recursive _ ih =>
    cases h' with
    | here hd => exact absurd hd (by simp [Description.isShape])
    | recursive h' => exact ih h'
  | applied _ ih =>
    cases h' with
    | here hd => exact absurd hd (by simp [Description.isShape])
    | applied h' => exact ih h'
  | option ht _ ih =>
    cases h' with
    | here hd => exact absurd hd (by simp [Description.isShape, ht])
    | option _ h' =>
      obtain ⟨rfl, rfl⟩ := ih h'
      exact ⟨rfl, rfl⟩

/-- Without options on the way none is passed. -/
theorem Unfolds.layers_eq (h : Unfolds catalog false t layers u) : layers = 0 := by
  induction h with
  | here _ => rfl
  | option ht _ _ => exact absurd ht (by simp)
  | parameter _ _ _ ih => exact ih
  | body _ _ ih => exact ih
  | recursive _ ih => exact ih
  | applied _ ih => exact ih

end BoundType

/-! ## Plans of a type -/

variable {catalog : Catalog} {Trusted : List Converter → Prop} {params : List Converter}
  {env : List BoundType} {d : Description} {t : BoundType} {plan : Plan}

/-- The type comes to a description of which the plan is built: a shape, or a reference where the
plan is a link. -/
def Realises.Fronts (catalog : Catalog) (Trusted : List Converter → Prop) (t : BoundType)
    (plan : Plan) : Prop :=
  ∃ d env params, (∀ through layers u, BoundType.Unfolds catalog through (.mk d env) layers u →
      BoundType.Unfolds catalog through t layers u) ∧
    Realises.All catalog Trusted env params ∧ Built catalog Trusted params d plan ∧
    (d.isShape false ∨ ∃ cell id, d = .recursive id none ∧ plan = .link cell id params ∧
      Trusted params)

theorem Realises.Fronts.imp {t' : BoundType} (h : Realises.Fronts catalog Trusted t plan)
    (himp : ∀ through layers u, BoundType.Unfolds catalog through t layers u →
      BoundType.Unfolds catalog through t' layers u) :
    Realises.Fronts catalog Trusted t' plan := by
  obtain ⟨d, env, params, hunfolds, hrest⟩ := h
  exact ⟨d, env, params, fun through layers u hu => himp _ _ _ (hunfolds _ _ _ hu), hrest⟩

theorem Built.fronts (hb : Built catalog Trusted params d plan) :
    ∀ {env : List BoundType}, Realises.All catalog Trusted env params →
      (∀ t (c : Converter), (t, c) ∈ env.zip params → Realises.Fronts catalog Trusted t c.plan) →
      Realises.Fronts catalog Trusted (.mk d env) plan := by
  have shape {params : List Converter} {d : Description} {plan : Plan} {env : List BoundType}
      (hd : d.isShape false) (hb : Built catalog Trusted params d plan)
      (henv : Realises.All catalog Trusted env params) :
      Realises.Fronts catalog Trusted (.mk d env) plan :=
    ⟨d, env, params, fun _ _ _ h => h, henv, hb, .inl hd⟩
  induction hb with
  | primitive h => exact fun henv _ => shape rfl (.primitive h) henv
  | product hlen h _ => exact fun henv _ => shape rfl (.product hlen h) henv
  | record hnames hlen hfits h _ => exact fun henv _ => shape rfl (.record hnames hlen hfits h) henv
  | variant hd htags hlen hfits h _ =>
    intro env henv _
    exact shape (by cases hd <;> rfl) (.variant hd htags hlen hfits h) henv
  | list h _ => exact fun henv _ => shape rfl (.list h) henv
  | array h _ => exact fun henv _ => shape rfl (.array h) henv
  | option hd h _ => exact fun henv _ => shape rfl (.option hd h) henv
  | sealed => exact fun henv _ => shape rfl .sealed henv
  | custom h => exact fun henv _ => shape rfl (.custom h) henv
  | @parameter params index name c hi hc =>
    intro env henv hfronts
    obtain ⟨hi', rfl⟩ := List.getElem?_eq_some_iff.1 hc
    have hi'' : index.toNat < env.length := by rw [henv.1]; exact hi'
    refine (hfronts _ _ (mem_zip_getElem hi'' hi')).imp fun through layers u hu => ?_
    exact .parameter hi (List.getElem?_eq_getElem hi'') hu
  | @link params cell id ht =>
    exact fun henv _ =>
      ⟨_, _, params, fun _ _ _ h => h, henv, .link ht, .inr ⟨cell, id, rfl, rfl, ht⟩⟩
  | body hb _ ih =>
    exact fun henv hfronts => (ih henv hfronts).imp fun _ _ _ hu => .body hb hu
  | @recursive params cs id args plan hlen hargs h ihargs ih =>
    intro env henv hfronts
    refine (ih (henv.args hlen hargs) fun t c hmem => ?_).imp fun _ _ _ hu => .recursive hu
    obtain ⟨d, rfl, hzip⟩ := exists_of_mem_zip_map hmem
    exact ihargs d c hzip henv hfronts
  | @applied params cs id args plan hlen hargs h ihargs ih =>
    intro env henv hfronts
    refine (ih (henv.args hlen hargs) fun t c hmem => ?_).imp fun _ _ _ hu => .applied hu
    obtain ⟨d, rfl, hzip⟩ := exists_of_mem_zip_map hmem
    exact ihargs d c hzip henv hfronts

theorem Realises.fronts (h : Realises catalog Trusted t plan) :
    Realises.Fronts catalog Trusted t plan := by
  induction h with
  | mk hlen henv hb ih => exact hb.fronts ⟨hlen, henv⟩ ih

/-! ## Settling -/

namespace Setting

variable {numbering : Nat → Description} {l : Ledger} {s : Setting} {through : Bool} {q : Plan}
  {layers : Nat}

/-- What a plan of a type comes to is a plan of what the type comes to. -/
theorem unfolds_of_settleWithin (hs : s.Sound numbering l) {steps : Nat} {t : BoundType}
    {plan : Plan} {layers : Nat} (ht : Realises s.catalog l.Foresees t plan)
    (h : s.settleWithin through steps plan = .ok (layers, q)) : q.isSettled through ∧
      ∃ u, BoundType.Unfolds s.catalog through t layers u ∧ Realises s.catalog l.Foresees u q := by
  induction steps generalizing t plan layers with
  | zero => exact nomatch h
  | succ steps ih =>
    obtain ⟨d, env, params, hunfolds, henv, hb, hfront⟩ := ht.fronts
    rcases hfront with hd | ⟨cell, id, rfl, rfl, htrusted⟩
    · have here (hq : plan.isSettled through) (hshape : d.isShape through) :
          q.isSettled through ∧ ∃ u, BoundType.Unfolds s.catalog through t layers u ∧
            Realises s.catalog l.Foresees u q := by
        have hleads : s.Leads l.Foresees through plan 0 plan 0 := .here hq
        rw [settleWithin_of_leads hleads _ (Nat.succ_pos steps)] at h
        obtain ⟨rfl, rfl⟩ := Prod.mk.inj (Except.ok.inj h)
        exact ⟨hq, _, hunfolds _ _ _ (.here hshape), henv.mk hb⟩
      cases hb with
      | @option _ d inner label hoption hb =>
        by_cases hthrough : through = true
        · rw [settleWithin_option, if_pos hthrough] at h
          obtain ⟨⟨k, q'⟩, hk, h⟩ := bind_eq_ok.1 h
          obtain ⟨rfl, rfl⟩ := Prod.mk.inj (Except.ok.inj h)
          obtain ⟨hq, u, hu, hreal⟩ := ih (henv.mk hb) hk
          exact ⟨hq, u, hunfolds _ _ _ (.option hthrough hu), hreal⟩
        · exact here (by simpa [Plan.isSettled] using hthrough)
            (by simpa [Description.isShape] using hthrough)
      | variant hd _ _ _ _ => exact here rfl (by cases hd <;> rfl)
      | parameter _ _ => exact absurd hd (by simp [Description.isShape])
      | link _ => exact absurd hd (by simp [Description.isShape])
      | body _ _ => exact absurd hd (by simp [Description.isShape])
      | recursive _ _ _ => exact absurd hd (by simp [Description.isShape])
      | applied _ _ _ => exact absurd hd (by simp [Description.isShape])
      | _ => exact here rfl rfl
    · rw [settleWithin_link] at h
      obtain ⟨c, hc, h⟩ := bind_eq_ok.1 h
      obtain ⟨body, hbody, hbuilt⟩ := resolve_defines hs htrusted hc
      obtain ⟨hq, u, hu, hreal⟩ := ih (henv.mk hbuilt) h
      exact ⟨hq, u, hunfolds _ _ _ (.body hbody hu), hreal⟩

theorem unfolds_of_settle (hs : s.Sound numbering l) (ht : Realises s.catalog l.Foresees t plan)
    (h : s.settle through plan = .ok (layers, q)) : q.isSettled through ∧
      ∃ u, BoundType.Unfolds s.catalog through t layers u ∧ Realises s.catalog l.Foresees u q := by
  rw [settle_eq] at h
  by_cases hhead : plan.head through (s.catalog.heads through) = .endless
  · rw [if_pos hhead] at h
    exact nomatch h
  · rw [if_neg hhead] at h
    exact unfolds_of_settleWithin hs ht h

end Setting

end TypedSexp
