import TypedSexp.Proofs.Conversion.Resolve
import TypedSexp.Proofs.Conversion.Stops
import TypedSexp.Proofs.Description.Heads
import TypedSexp.Proofs.Lists
/-!
# Links settle

`Setting.Leads` says what a plan comes to when links and options are passed one after the other. If
it comes to anything at all, `Setting.settle` finds it (`settle_of_leads`): its head is not endless,
and the bound on the steps suffices. The bound is counted in the rounds in which heads are found: a
head that is found in a round leads to the definitions of the round before, and to each parameter at
most once.
-/

namespace TypedSexp

/-- Nothing has to be passed any more. -/
def Plan.isSettled (through : Bool) : Plan → Bool
  | .link .. => false
  | .option .. => !through
  | _ => true

theorem Plan.isSettled_variant {plan : Plan} {label : Text} {folding : Bool}
    {plans : List (CasePlan Plan)} (h : plan = .variant label folding plans) (through : Bool) :
    plan.isSettled through := by
  rw [h]
  rfl

namespace Setting

/-- The plan comes to a settled one in a number of steps, past so many options. Each link on the way
is followed to what it defines. -/
inductive Leads (s : Setting) (Trusted : List Converter → Prop) (through : Bool) :
    Plan → Nat → Plan → Nat → Prop
  | here {q : Plan} (hq : q.isSettled through) : Leads s Trusted through q 0 q 0
  | link {cell : Nat} {id : DefinitionId} {args : List Converter} {c : Converter} {layers steps : Nat} {q : Plan}
      (hr : s.resolve cell id args = .ok c) (hd : Defines s.catalog Trusted id args c.plan)
      (h : Leads s Trusted through c.plan layers q steps) :
      Leads s Trusted through (.link cell id args) layers q (steps + 1)
  | option {label : Text} {inner : Converter} {layers steps : Nat} {q : Plan}
      (ht : through = true) (h : Leads s Trusted through inner.plan layers q steps) :
      Leads s Trusted through (.option label inner) (layers + 1) q (steps + 1)

variable {s : Setting} {Trusted : List Converter → Prop} {through : Bool} {plan q : Plan}
  {layers k : Nat}

theorem Leads.isSettled (h : s.Leads Trusted through plan layers q k) : q.isSettled through := by
  induction h with
  | here hq => exact hq
  | link _ _ _ ih => exact ih
  | option _ _ ih => exact ih

theorem Leads.eq_here (h : s.Leads Trusted through plan layers q k)
    (hplan : plan.isSettled through) : k = 0 := by
  cases h with
  | here _ => rfl
  | link _ _ _ => exact absurd hplan (by simp [Plan.isSettled])
  | option ht _ => exact absurd hplan (by simp [Plan.isSettled, ht])

theorem settleWithin_of_leads (h : s.Leads Trusted through plan layers q k) :
    ∀ steps, k < steps → s.settleWithin through steps plan = .ok (layers, q) := by
  induction h with
  | @here q hq =>
    intro steps hk
    obtain ⟨steps, rfl⟩ : ∃ n, steps = n + 1 := ⟨steps - 1, by omega⟩
    cases q with
    | link cell id args => exact absurd hq (by simp [Plan.isSettled])
    | option label inner =>
      have ht : through = false := by simpa [Plan.isSettled] using hq
      rw [settleWithin_option, if_neg (by simp [ht])]
    | _ => rfl
  | link hr _ _ ih =>
    intro steps hk
    obtain ⟨steps, rfl⟩ : ∃ n, steps = n + 1 := ⟨steps - 1, by omega⟩
    rw [settleWithin_link, hr]
    exact ih steps (by omega)
  | option ht _ ih =>
    intro steps hk
    obtain ⟨steps, rfl⟩ : ∃ n, steps = n + 1 := ⟨steps - 1, by omega⟩
    rw [settleWithin_option, if_pos ht, ih steps (by omega)]
    rfl

/-! ## What leads nowhere -/

/-- The plan comes to a link whose definition is not derived. -/
inductive Sticks (s : Setting) (through : Bool) : Plan → Prop
  | here {cell : Nat} {id : DefinitionId} {args : List Converter} {e : DescriptionFault}
      (hr : s.resolve cell id args = .error e) : Sticks s through (.link cell id args)
  | link {cell : Nat} {id : DefinitionId} {args : List Converter} {c : Converter} (hr : s.resolve cell id args = .ok c)
      (h : Sticks s through c.plan) : Sticks s through (.link cell id args)
  | option {label : Text} {inner : Converter} (ht : through = true)
      (h : Sticks s through inner.plan) : Sticks s through (.option label inner)

theorem settleWithin_of_sticks (h : s.Sticks through plan) :
    ∀ steps, ∃ e, s.settleWithin through steps plan = .error e := by
  induction h with
  | here hr =>
    rintro (_ | steps)
    · exact ⟨_, rfl⟩
    · exact ⟨_, by rw [settleWithin_link, hr]; rfl⟩
  | link hr _ ih =>
    rintro (_ | steps)
    · exact ⟨_, rfl⟩
    · obtain ⟨e, he⟩ := ih steps
      exact ⟨e, by rw [settleWithin_link, hr, ← he]; rfl⟩
  | option ht _ ih =>
    rintro (_ | steps)
    · exact ⟨_, rfl⟩
    · obtain ⟨e, he⟩ := ih steps
      exact ⟨e, by rw [settleWithin_option, if_pos ht, he]; rfl⟩

/-- A plan that sticks comes to nothing. -/
theorem settle_of_sticks (h : s.Sticks through plan) : ∃ e, s.settle through plan = .error e := by
  rw [settle_eq]
  split
  · exact ⟨_, rfl⟩
  · exact settleWithin_of_sticks h _

/-! ## What leads somewhere is not endless -/

/-- A head of a description, with converters for the parameters. -/
def headUnder (through : Bool) (heads : List Head) (params : List Converter) : Head → Head
  | .parameter i => Plan.headAt through heads i params
  | h => h

theorem head_link (heads : List Head) (cell : Nat) (id : DefinitionId) (args : List Converter) :
    (Plan.link cell id args).head through heads =
      headUnder through heads args ((heads[id]?).getD .shape) := by
  rw [Plan.head]
  cases heads[id]? with
  | none => rfl
  | some h => cases h <;> rfl

/-- The head of a definition that is applied, where what it is applied to has the heads that the
arguments have. -/
theorem headOf_under {heads : List Head} {params cs : List Converter} {args : List Description}
    (hlen : args.length = cs.length)
    (hargs : ∀ d c, (d, c) ∈ args.zip cs →
      c.plan.head through heads = headUnder through heads params (d.head through heads))
    (id : DefinitionId) :
    headUnder through heads cs ((heads[id]?).getD .shape) =
      headUnder through heads params (Description.headOf through heads id args) := by
  unfold Description.headOf
  cases heads[id]? with
  | none => rfl
  | some h =>
    cases h with
    | shape => rfl
    | endless => rfl
    | parameter i =>
      show Plan.headAt through heads i cs =
        headUnder through heads params (Description.headAt through heads i args)
      rw [Plan.headAt_eq, Description.headAt_eq]
      by_cases hi : i < cs.length
      · have hi' : i < args.length := by omega
        have hmem := mem_zip_getElem hi' hi
        simpa [hi, hi'] using hargs _ _ hmem
      · rw [List.getElem?_eq_none (by omega), List.getElem?_eq_none (by omega)]
        rfl

/-- The head of a plan is that of its description. -/
theorem head_of_built {catalog : Catalog} {heads : List Head}
    (hfix : catalog.headsFrom through heads = heads) {params : List Converter} {d : Description}
    {plan : Plan} (h : Built catalog Trusted params d plan) :
    plan.head through heads = headUnder through heads params (d.head through heads) := by
  induction h with
  | primitive _ => simp [Plan.head, Description.head, headUnder]
  | product _ _ _ => simp [Plan.head, Description.head, headUnder]
  | record _ _ _ _ _ => simp [Plan.head, Description.head, headUnder]
  | variant hd _ _ _ _ _ => cases hd <;> simp [Plan.head, Description.head, headUnder]
  | list _ _ => simp [Plan.head, Description.head, headUnder]
  | array _ _ => simp [Plan.head, Description.head, headUnder]
  | sealed => simp [Plan.head, Description.head, headUnder]
  | custom _ => simp [Plan.head, Description.head, headUnder, Converter.ofCustom]
  | option _ _ ih =>
    unfold Plan.head Description.head
    by_cases ht : through
    · rw [if_pos ht, if_pos ht]
      exact ih
    · rw [if_neg ht, if_neg ht]
      rfl
  | parameter hi hc =>
    rw [Description.head, if_neg (by omega)]
    simp [headUnder, Plan.headAt_eq, hc]
  | link _ => rw [head_link, Description.head]
  | @body _ id body _ hb _ ih =>
    obtain ⟨d, hd, hbody⟩ := Option.bind_eq_some_iff.1 hb
    have hid : heads[id]? = some (body.head through heads) := by
      conv => lhs; rw [← hfix]
      exact catalog.getElem?_headsFrom through hd hbody
    rw [ih, Description.head, hid]
    rfl
  | recursive hlen _ _ ihargs ih =>
    rw [ih, Description.head, Description.head]
    exact headOf_under hlen ihargs _
  | applied hlen _ _ ihargs ih =>
    rw [ih, Description.head, Description.head]
    exact headOf_under hlen ihargs _

/-- A plan that leads somewhere does not only lead back to itself. -/
theorem Leads.head_ne_endless (h : s.Leads Trusted through plan layers q k) :
    plan.head through (s.catalog.heads through) ≠ .endless := by
  induction h with
  | @here q hq =>
    cases q with
    | link cell id args => exact absurd hq (by simp [Plan.isSettled])
    | option label inner =>
      have ht : through = false := by simpa [Plan.isSettled] using hq
      simp [Plan.head, ht]
    | _ => simp [Plan.head]
  | @link cell id args c _ _ _ _ hd _ ih =>
    obtain ⟨body, hb, hbuilt⟩ := hd
    have hfix := s.catalog.headsFrom_heads through
    -- the body is a plan of the definition too
    have hc := head_of_built hfix (.body hb hbuilt)
    rw [Description.head] at hc
    rw [head_link, ← hc]
    exact ih
  | option ht _ ih =>
    rw [Plan.head, if_pos ht]
    exact ih

/-! ## The bound suffices -/

/-- The steps are at most a bound, unless the head is a parameter: what its converter leads to takes
steps of its own. -/
def Spends (s : Setting) (Trusted : List Converter → Prop) (through : Bool)
    (params : List Converter) (h : Head) (q : Plan) (bound k : Nat) : Prop :=
  k ≤ bound ∨ ∃ i c layers steps, h = .parameter i ∧ params[i]? = some c ∧
    s.Leads Trusted through c.plan layers q steps ∧ k ≤ steps + bound

/-- A plan takes no more steps than its description is large, times a factor, if the head is known
in a round. -/
def Bounded (s : Setting) (Trusted : List Converter → Prop) (through : Bool) (round factor : Nat) :
    Prop :=
  ∀ {params : List Converter} {d : Description} {plan q : Plan} {layers k : Nat},
    Built s.catalog Trusted params d plan →
    d.head through (s.catalog.headsWithin through round) ≠ .endless →
    s.Leads Trusted through plan layers q k →
    s.Spends Trusted through params (d.head through (s.catalog.headsWithin through round)) q
      (d.size * factor) k

theorem Spends.mono {params : List Converter} {h : Head} {bound bound' : Nat}
    (hs : s.Spends Trusted through params h q bound k) (hle : bound ≤ bound') :
    s.Spends Trusted through params h q bound' k := by
  rcases hs with hk | ⟨i, c, layers, steps, hi, hc, hleads, hk⟩
  · exact .inl (by omega)
  · exact .inr ⟨i, c, layers, steps, hi, hc, hleads, by omega⟩

theorem Spends.step {params : List Converter} {h : Head} {bound : Nat}
    (hs : s.Spends Trusted through params h q bound k) :
    s.Spends Trusted through params h q (bound + 1) (k + 1) := by
  rcases hs with hk | ⟨i, c, layers, steps, hi, hc, hleads, hk⟩
  · exact .inl (by omega)
  · exact .inr ⟨i, c, layers, steps, hi, hc, hleads, by omega⟩

theorem size_le_of_mem {d : Definition} {body : Description} (hbody : d.body = some body) :
    ∀ {catalog : Catalog}, d ∈ catalog → body.size ≤ catalog.size
  | [], h => absurd h List.not_mem_nil
  | e :: catalog, h => by
    have hcons : Catalog.size (e :: catalog) =
        (e.body.map Description.size).getD 0 + 1 + Catalog.size catalog := rfl
    rw [hcons]
    rcases List.mem_cons.1 h with rfl | h
    · rw [hbody, Option.map_some, Option.getD_some]
      omega
    · have := size_le_of_mem hbody h
      omega

theorem size_le_of_body? {catalog : Catalog} {id : DefinitionId} {body : Description}
    (hb : catalog.body? id = some body) : body.size ≤ catalog.size := by
  obtain ⟨d, hd, hbody⟩ := Option.bind_eq_some_iff.1 hb
  exact size_le_of_mem hbody (List.mem_of_getElem? hd)

theorem size_le_sizes {d : Description} : ∀ {ds : List Description}, d ∈ ds →
    d.size ≤ Description.sizes ds
  | [], h => absurd h List.not_mem_nil
  | e :: ds, h => by
    rw [Description.sizes]
    rcases List.mem_cons.1 h with rfl | h
    · omega
    · have := size_le_sizes h
      omega

/-- A definition whose head is known in a round has a body whose head was known the round before. -/
theorem round_of_body {round : Nat} {id : DefinitionId} {body : Description}
    (hb : s.catalog.body? id = some body)
    (hne : ((s.catalog.headsWithin through round)[id]?).getD .shape ≠ .endless) :
    ∃ before, round = before + 1 ∧
      ((s.catalog.headsWithin through round)[id]?).getD .shape =
        body.head through (s.catalog.headsWithin through before) := by
  obtain ⟨d, hd, hbody⟩ := Option.bind_eq_some_iff.1 hb
  cases round with
  | zero =>
    refine absurd ?_ hne
    rw [Catalog.headsWithin, List.getElem?_map, hd]
    rfl
  | succ before =>
    refine ⟨before, rfl, ?_⟩
    rw [Catalog.headsWithin, s.catalog.getElem?_headsFrom through hd hbody]
    rfl

/-- The factor of a round. -/
def factor (s : Setting) (round : Nat) : Nat := Nat.pow (s.catalog.size + 2) round

theorem factor_pos (s : Setting) (round : Nat) : 0 < s.factor round := Nat.pow_pos (by omega)

theorem lt_factor_succ (s : Setting) (round : Nat) :
    s.catalog.size * s.factor round + 1 ≤ s.factor (round + 1) := by
  have hpos := s.factor_pos round
  have : s.factor (round + 1) = s.catalog.size * s.factor round + 2 * s.factor round := by
    rw [← Nat.add_mul, Nat.mul_comm]
    rfl
  omega

/-- What a definition leads to, if the bodies are bounded in the round before. -/
theorem spends_body {round : Nat} {params : List Converter} {id : DefinitionId} {body : Description}
    (hprev : ∀ before, round = before + 1 →
      s.Bounded Trusted through before (s.factor before))
    (hb : s.catalog.body? id = some body) (hbuilt : Built s.catalog Trusted params body plan)
    (hne : ((s.catalog.headsWithin through round)[id]?).getD .shape ≠ .endless)
    (h : s.Leads Trusted through plan layers q k) :
    ∃ bound, bound + 1 ≤ s.factor round ∧ s.Spends Trusted through params
      (((s.catalog.headsWithin through round)[id]?).getD .shape) q bound k := by
  obtain ⟨before, rfl, hhead⟩ := round_of_body hb hne
  rw [hhead] at hne ⊢
  refine ⟨s.catalog.size * s.factor before, s.lt_factor_succ before, ?_⟩
  exact (hprev before rfl hbuilt hne h).mono (Nat.mul_le_mul_right _ (size_le_of_body? hb))

/-- What a definition that is applied leads to, from what it leads to with parameters. -/
theorem spends_headOf {heads : List Head} {params cs : List Converter} {args : List Description}
    {factor : Nat} (hlen : args.length = cs.length)
    (hargs : ∀ d c, (d, c) ∈ args.zip cs → ∀ {layers k : Nat},
      d.head through heads ≠ .endless → s.Leads Trusted through c.plan layers q k →
      s.Spends Trusted through params (d.head through heads) q (d.size * factor) k)
    {id : DefinitionId} (hne : Description.headOf through heads id args ≠ .endless)
    (hid : (heads[id]?).getD .shape ≠ .endless →
      s.Spends Trusted through cs ((heads[id]?).getD .shape) q factor k) :
    s.Spends Trusted through params (Description.headOf through heads id args) q
      ((Description.sizes args + 1) * factor) k := by
  unfold Description.headOf at hne ⊢
  have hle : factor ≤ (Description.sizes args + 1) * factor := Nat.le_mul_of_pos_left _ (by omega)
  cases hi : heads[id]? with
  | none =>
    rw [hi] at hid
    rcases hid (by simp) with hk | ⟨i, c, _, _, hshape, _⟩
    · exact .inl (by omega)
    · exact absurd hshape (by simp)
  | some h =>
    rw [hi] at hid hne
    cases h with
    | endless => exact absurd rfl hne
    | shape =>
      rcases hid (by simp) with hk | ⟨i, c, _, _, hshape, _⟩
      · exact .inl (by omega)
      · exact absurd hshape (by simp)
    | parameter i =>
      rcases hid (by simp) with hk | ⟨j, c, layers', steps, hj, hc, hleads, hk⟩
      · exact .inl (by omega)
      · obtain rfl : i = j := by simpa using hj
        obtain ⟨hi', rfl⟩ := List.getElem?_eq_some_iff.1 hc
        have hi'' : i < args.length := by omega
        have hmem := mem_zip_getElem hi'' hi'
        have hat : Description.headAt through heads i args = args[i].head through heads := by
          simp [Description.headAt_eq, hi'']
        have hsize : args[i].size * factor ≤ Description.sizes args * factor :=
          Nat.mul_le_mul_right _ (size_le_sizes (List.getElem_mem hi''))
        have hsum : (Description.sizes args + 1) * factor =
            Description.sizes args * factor + factor := Nat.succ_mul _ _
        show s.Spends Trusted through params (Description.headAt through heads i args) q _ k
        replace hne : Description.headAt through heads i args ≠ .endless := hne
        rw [hat] at hne ⊢
        rcases hargs _ _ hmem hne hleads with hk' | ⟨j, c, layers'', steps', hj, hc, hleads', hk'⟩
        · exact .inl (by omega)
        · exact .inr ⟨j, c, layers'', steps', hj, hc, hleads', by omega⟩

theorem size_recursive (id : DefinitionId) : (Description.recursive id none).size = 1 := by
  simp [Description.size]

theorem bounded_of_before {round : Nat}
    (hprev : ∀ before, round = before + 1 → s.Bounded Trusted through before (s.factor before)) :
    s.Bounded Trusted through round (s.factor round) := by
  intro params d plan q layers k hb
  have settled {params : List Converter} {d : Description} {plan : Plan} {layers k bound : Nat}
      (hplan : plan.isSettled through) (h : s.Leads Trusted through plan layers q k) :
      s.Spends Trusted through params (d.head through (s.catalog.headsWithin through round)) q
        bound k := .inl (by rw [h.eq_here hplan]; exact Nat.zero_le _)
  induction hb generalizing layers k with
  | primitive _ => exact fun _ h => settled rfl h
  | product _ _ _ => exact fun _ h => settled rfl h
  | record _ _ _ _ _ => exact fun _ h => settled rfl h
  | variant _ _ _ _ _ _ => exact fun _ h => settled rfl h
  | list _ _ => exact fun _ h => settled rfl h
  | array _ _ => exact fun _ h => settled rfl h
  | sealed => exact fun _ h => settled rfl h
  | custom _ => exact fun _ h => settled rfl h
  | @option params d c label _ _ ih =>
    intro hne h
    cases h with
    | here hq => exact settled hq (.here hq)
    | option ht h =>
      rw [Description.head, if_pos ht] at hne ⊢
      have hsize : d.size * s.factor round + 1 ≤ d.option.size * s.factor round := by
        have hpos := s.factor_pos round
        rw [Description.size, Nat.succ_mul]
        omega
      exact (ih hne h).step.mono hsize
  | @parameter params index name c hi hc =>
    intro _ h
    refine .inr ⟨index.toNat, c, _, _, ?_, hc, h, Nat.le_add_right ..⟩
    rw [Description.head, if_neg (by omega)]
  | @link params id _ =>
    intro hne h
    rw [Description.head] at hne ⊢
    cases h with
    | here hq => exact absurd hq (by simp [Plan.isSettled])
    | link _ hd h =>
      obtain ⟨body, hbody, hbuilt⟩ := hd
      obtain ⟨bound, hle, hspends⟩ := spends_body hprev hbody hbuilt hne h
      exact hspends.step.mono (by rw [size_recursive]; omega)
  | @body params id body _ hbody hbuilt _ =>
    intro hne h
    rw [Description.head] at hne ⊢
    obtain ⟨bound, hle, hspends⟩ := spends_body hprev hbody hbuilt hne h
    exact hspends.mono (by rw [size_recursive]; omega)
  | @recursive params cs id args plan hlen _ _ ihargs ih =>
    intro hne h
    rw [Description.head] at hne ⊢
    refine spends_headOf hlen (fun d c hmem _ _ => ihargs d c hmem) hne fun hid => ?_
    have := ih (by rwa [Description.head]) h
    rwa [Description.head, size_recursive, Nat.one_mul] at this
  | @applied params cs id args plan hlen _ _ ihargs ih =>
    intro hne h
    rw [Description.head] at hne ⊢
    refine spends_headOf hlen (fun d c hmem _ _ => ihargs d c hmem) hne fun hid => ?_
    have := ih (by rwa [Description.head]) h
    rwa [Description.head, size_recursive, Nat.one_mul] at this

theorem bounded (s : Setting) (Trusted : List Converter → Prop) (through : Bool) :
    ∀ round, s.Bounded Trusted through round (s.factor round)
  | 0 => bounded_of_before fun before h => absurd h (by omega)
  | round + 1 => bounded_of_before fun before h => by
    obtain rfl : round = before := Nat.succ.inj h
    exact bounded s Trusted through round

mutual

/-- A plan takes no more steps than it is large, times the factor of the round in which its head is
known. -/
theorem Leads.steps_le {round : Nat} : ∀ {plan : Plan} {layers k : Nat},
    plan.head through (s.catalog.headsWithin through round) ≠ .endless →
    s.Leads Trusted through plan layers q k → k ≤ plan.size * s.factor round
  | .link cell id args, layers, k, hne, h => by
    cases h with
    | here hq => exact absurd hq (by simp [Plan.isSettled])
    | @link _ _ _ c _ k _ hr hd h =>
      obtain ⟨body, hbody, hbuilt⟩ := hd
      rw [head_link] at hne
      have hid : ((s.catalog.headsWithin through round)[id]?).getD .shape ≠ .endless :=
        fun he => hne (by rw [he]; rfl)
      obtain ⟨bound, hle, hspends⟩ :=
        spends_body (fun before _ => s.bounded Trusted through before) hbody hbuilt hid h
      have hsize : (Plan.link cell id args).size * s.factor round =
          Plan.sizes args * s.factor round + s.factor round := Nat.succ_mul _ _
      rcases hspends with hk | ⟨i, a, layers', steps, hi, ha, hleads, hk⟩
      · omega
      · rw [hi] at hne
        have := Leads.stepsAt_le i args ha hne hleads
        omega
  | .option label inner, layers, k, hne, h => by
    cases h with
    | here _ => exact Nat.zero_le _
    | option ht h =>
      rw [Plan.head, if_pos ht] at hne
      have := Leads.steps_le hne h
      have hpos := s.factor_pos round
      rw [Plan.size, Nat.succ_mul]
      omega
  | .primitive _, _, _, _, h => by rw [h.eq_here rfl]; exact Nat.zero_le _
  | .custom _, _, _, _, h => by rw [h.eq_here rfl]; exact Nat.zero_le _
  | .sealed _, _, _, _, h => by rw [h.eq_here rfl]; exact Nat.zero_le _
  | .list .., _, _, _, h => by rw [h.eq_here rfl]; exact Nat.zero_le _
  | .array .., _, _, _, h => by rw [h.eq_here rfl]; exact Nat.zero_le _
  | .tuple .., _, _, _, h => by rw [h.eq_here rfl]; exact Nat.zero_le _
  | .record _, _, _, _, h => by rw [h.eq_here rfl]; exact Nat.zero_le _
  | .variant .., _, _, _, h => by rw [h.eq_here rfl]; exact Nat.zero_le _

theorem Leads.stepsAt_le {round : Nat} : ∀ (i : Nat) (cs : List Converter) {c : Converter}
    {layers k : Nat}, cs[i]? = some c →
    Plan.headAt through (s.catalog.headsWithin through round) i cs ≠ .endless →
    s.Leads Trusted through c.plan layers q k → k ≤ Plan.sizes cs * s.factor round
  | _, [], _, _, _, hc, _, _ => absurd hc (by simp)
  | 0, c :: cs, a, _, _, hc, hne, h => by
    obtain rfl : c = a := by simpa using hc
    have := Leads.steps_le hne h
    rw [Plan.sizes, Nat.add_mul]
    omega
  | i + 1, c :: cs, a, _, _, hc, hne, h => by
    have := Leads.stepsAt_le i cs (by simpa using hc) hne h
    rw [Plan.sizes, Nat.add_mul]
    omega

end

/-- **What a plan comes to is found.** -/
theorem settle_of_leads (h : s.Leads Trusted through plan layers q k) :
    s.settle through plan = .ok (layers, q) := by
  have hne := h.head_ne_endless
  rw [settle_eq, if_neg hne]
  refine settleWithin_of_leads h _ ?_
  exact Nat.lt_succ_of_le (h.steps_le hne)

/-! ## One link -/

/-- A link comes to what stands behind it, if that is no link. -/
theorem settle_link {cell : Nat} {id : DefinitionId} {args : List Converter} {c : Converter}
    (hhead : (Plan.link cell id args).head through (s.catalog.heads through) ≠ .endless)
    (hc : s.resolve cell id args = .ok c) (hplan : c.plan.isSettled through) :
    s.settle through (.link cell id args) = .ok (0, c.plan) := by
  have hsteps : 0 < (Plan.link cell id args).size * Nat.pow (s.catalog.size + 2) s.catalog.length := by
    rw [Plan.size]
    exact Nat.mul_pos (Nat.succ_pos _) (Nat.pow_pos (Nat.succ_pos _))
  have hhere : s.Leads (fun _ => True) through c.plan 0 c.plan 0 := .here hplan
  rw [settle_eq, if_neg hhead, stepBound, Course.stepBound, settleWithin_link, hc]
  exact settleWithin_of_leads hhere _ hsteps

/-- A link with nothing behind it comes to nothing. -/
theorem settle_link_endless {cell : Nat} {id : DefinitionId} {args : List Converter}
    (hc : s.resolve cell id args = .error .endless) :
    s.settle through (.link cell id args) = .error .endless := by
  rw [settle_eq, stepBound, Course.stepBound, settleWithin_link, hc]
  exact ite_self _

end Setting

end TypedSexp
