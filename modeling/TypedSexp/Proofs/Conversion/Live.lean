import TypedSexp.Proofs.Conversion.Independence
/-!
# Conversions that derive what they need

A conversion follows links as it meets them, and what these come to is remembered. It goes as a
conversion for which everything was remembered beforehand: what it gives is given by every memory
that recalls its cells, and if a link stops it, by the memory in which the link was refused
(`Setting.live_read`, `Setting.live_write`). So all that is known of conversions from a memory is
known of conversions that derive.

`Tracks` compares the two step by step. The second one runs in the carrier `Recalling`, which leaves
open from which memory it is going to run.
-/

namespace TypedSexp

/-- Conversions from a memory that is not chosen yet. -/
abbrev Recalling (ε : Type) := ReaderT Deriver (Except ε)

instance : Carrier Recalling where
  outcome x _ := x
  mapError f x m := (x m).mapError f

instance : LawfulCarrier Recalling where
  lawful _ := inferInstance
  gives x a := ∃ m, x m = .ok a
  outcome_ok _ := rfl
  mapError_ok _ _ := rfl
  of_outcome := fun ⟨_, h⟩ => h
  of_bind := by
    rintro ε α β x f b ⟨m, h⟩
    obtain ⟨a, ha, hb⟩ := bind_eq_ok.1 h
    exact ⟨a, ⟨m, ha⟩, m, hb⟩
  of_mapError := fun ⟨m, h⟩ => ⟨m, mapError_eq_ok.1 h⟩
  bind_congr {ε α β x f g} h := by
    funext m
    show (x m >>= fun a => f a m) = (x m >>= fun a => g a m)
    cases hx : x m with
    | error e => rfl
    | ok a => exact congrFun (h a ⟨m, hx⟩) m

/-- Conversion that finds what stands behind a link from the memory that is chosen. -/
def Setting.recalling (s : Setting) : Course Recalling where
  catalog := s.catalog
  switches := s.switches
  resolve cell id args m := (Derivation.ofLink s.catalog cell id args).result m

/-! ## From one memory -/

/-- The same from a memory. -/
def Concord.at {ε : Type} (m : Deriver) (gist : ε → ε) : Concord Recalling Except gist where
  rel x y := x m = y
  exact := True
  lenient := False
  refl _ := rfl
  errors he _ := by rw [he trivial]; rfl
  anything _ _ h := h.elim
  bind := by
    rintro α β x _ f g rfl h
    show (x m >>= fun a => f a m) = (x m >>= g)
    cases hx : x m with
    | error e => rfl
    | ok a => exact h a ⟨m, hx⟩ hx

/-- The same from a memory. -/
def ReadConcord.at (m : Deriver) : ReadConcord Recalling Except where
  toConcord := .at m _
  within := by
    rintro α x _ seg rfl
    rfl

namespace Setting

variable {s : Setting}

theorem recalling_settleWithin (m : Deriver) (through : Bool) : ∀ (steps : Nat) (plan : Plan),
    s.recalling.settleWithin through steps plan m =
      (s.remembering m).settleWithin through steps plan := by
  intro steps
  induction steps with
  | zero => exact fun _ => rfl
  | succ steps ih =>
    intro plan
    cases plan with
    | link cell id args =>
      rw [settleWithin_link]
      exact congrArg ((s.remembering m).resolve cell id args >>= ·) (funext fun c => ih c.plan)
    | option label inner =>
      rw [settleWithin_option, Course.settleWithin]
      cases through with
      | true =>
        rw [if_pos rfl, if_pos rfl, ← ih]
        rfl
      | false => rfl
    | _ => rfl

theorem recalling_settle (m : Deriver) (through : Bool) (plan : Plan) :
    s.recalling.settle through plan m = (s.remembering m).settle through plan := by
  by_cases hhead : plan.head through (s.catalog.heads through) = .endless
  · have hleft : s.recalling.settle through plan = outcome (.error .endless) := if_pos hhead
    have hright : (s.remembering m).settle through plan = .error .endless := if_pos hhead
    rw [hleft, hright]
    rfl
  · have hleft : s.recalling.settle through plan =
        s.recalling.settleWithin through (s.recalling.stepBound plan) plan := if_neg hhead
    have hright : (s.remembering m).settle through plan =
        (s.remembering m).settleWithin through (s.recalling.stepBound plan) plan := if_neg hhead
    rw [hleft, hright]
    exact recalling_settleWithin m through _ plan

theorem recalling_readWithin (m : Deriver) : ∀ (levels : Nat) (plan : Plan) (node : Node),
    s.recalling.readWithin levels plan node m = (s.remembering m).readWithin levels plan node := by
  intro levels
  induction levels with
  | zero => exact fun _ _ => rfl
  | succ levels ih =>
    intro plan node
    rw [Course.readWithin, readWithin_succ]
    refine (ReadConcord.at m).bind ?_ fun found _ _ => ?_
    · exact congrArg (Except.mapError readFault) (recalling_settle m false plan)
    · exact Plan.read_congr (H := .at m) (.refl _ s.switches) found.2
        (fun cell id args _ n _ => ih (.link cell id args) n) node (Nat.le_succ _)
        fun _ => Nat.lt_succ_self node.depth

theorem recalling_writeWithin (m : Deriver) : ∀ (levels : Nat) (plan : Plan) (v : Value),
    s.recalling.writeWithin levels plan v m = (s.remembering m).writeWithin levels plan v := by
  intro levels
  induction levels with
  | zero => exact fun _ _ => rfl
  | succ levels ih =>
    intro plan v
    rw [Course.writeWithin, writeWithin_succ]
    refine (Concord.at m WriteError.gist).bind ?_ fun found _ _ => ?_
    · exact congrArg (Except.mapError writeFault) (recalling_settle m (!v.isNone) plan)
    · refine (Concord.at m WriteError.gist).bind ?_ fun t _ _ => rfl
      exact Plan.write_congr (H := .at m _) rfl found.2
        (fun cell id args _ v => ih (.link cell id args) v) v

end Setting

/-! ## Beside each other -/

/-- What a computation came to, beside one from a memory that is not chosen yet. Unless it was
stopped, every memory that recalls what it left gives the same; if a link stopped it, the memory
that the link was followed from does. -/
inductive Tracked {ε α : Type} (catalog : Catalog) (plan : Plan) (d : Deriver) (y : Recalling ε α) :
    Except ε α × Deriver → Prop
  | answered {r : Except ε α} {d' : Deriver} (hlinks : plan.Pursues catalog d false d')
      (hsame : ∀ m : Deriver, m.Recalls d' → y m = r) : Tracked catalog plan d y (r, d')
  | halted {e : ε} {d' m : Deriver} (hlinks : plan.Pursues catalog d true d')
      (hbefore : plan.Pursues catalog d false m) (hsame : y m = .error e) :
      Tracked catalog plan d y (.error e, d')

/-- The first computation, which follows links of the plan, goes as the second one. -/
def Tracks {ε α : Type} (catalog : Catalog) (plan : Plan) (x : Remembering ε α) (y : Recalling ε α) :
    Prop := ∀ d, Tracked catalog plan d y (x d)

section Tracks

variable {ε ε' α β : Type} {catalog : Catalog} {plan : Plan} {x : Remembering ε α} {y : Recalling ε α}

theorem Tracks.of_known (r : Except ε α) : Tracks catalog plan (outcome r) (outcome r) :=
  fun d => .answered (.refl plan d) fun _ _ => rfl

/-- What gives something has followed links of the plan. -/
theorem Tracks.pursues (h : Tracks catalog plan x y) {d d' : Deriver} {a : α} (hx : x d = (.ok a, d')) :
    plan.Pursues catalog d false d' := by
  have hd := h d
  rw [hx] at hd
  cases hd with
  | answered hlinks _ => exact hlinks

/-- The links may be those of a larger plan. -/
theorem Tracks.mono {plan' : Plan} (h : Tracks catalog plan x y)
    (hlinks : ∀ cell id args, plan.Holds cell id args → plan'.Holds cell id args) :
    Tracks catalog plan' x y := by
  intro d
  have hd := h d
  generalize x d = run at hd ⊢
  cases hd with
  | answered hpursues hsame => exact .answered (hpursues.mono hlinks) hsame
  | halted hpursues hbefore hsame =>
    exact .halted (hpursues.mono hlinks) (hbefore.mono hlinks) hsame

theorem Tracks.mapError {f : ε → ε'} (h : Tracks catalog plan x y) :
    Tracks catalog plan (Carrier.mapError f x) (Carrier.mapError f y) := by
  intro d
  have hd := h d
  cases hrun : x d with
  | mk r d' =>
    rw [hrun] at hd
    show Tracked catalog plan d (fun m => (y m).mapError f) ((x d).1.mapError f, (x d).2)
    rw [hrun]
    cases hd with
    | answered hlinks hsame => exact .answered hlinks fun m hm => congrArg _ (hsame m hm)
    | halted hlinks hbefore hsame => exact .halted hlinks hbefore (congrArg _ hsame)

/-- What goes on may follow links of another plan, which was found behind links of the first one. -/
theorem Tracks.through {f : α → Remembering ε β} {g : α → Recalling ε β} (next : α → Plan)
    (hx : Tracks catalog plan x y)
    (hnext : ∀ d a d', x d = (.ok a, d') → ∀ stopped m, (next a).Pursues catalog d' stopped m →
      plan.Pursues catalog d stopped m)
    (hf : ∀ a, gives x a → gives y a → Tracks catalog (next a) (f a) (g a)) :
    Tracks catalog plan (x >>= f) (y >>= g) := by
  intro d
  have hd := hx d
  rw [Derivation.run_bind]
  cases hrun : x d with
  | mk r d' =>
    rw [hrun] at hd
    cases hd with
    | halted hlinks hbefore hsame =>
      exact .halted hlinks hbefore (bind_eq_error.2 (.inl hsame))
    | answered hlinks hsame =>
      cases r with
      | error e =>
        exact .answered hlinks fun m hm => bind_eq_error.2 (.inl (hsame m hm))
      | ok a =>
        have hgo (m : Deriver) (hm : m.Recalls d') : (y >>= g) m = g a m := by
          show (y m >>= fun a => g a m) = g a m
          rw [hsame m hm]
          rfl
        have hrest := hf a ⟨d, congrArg Prod.fst hrun⟩ ⟨d', hsame d' (.refl d')⟩ d'
        show Tracked catalog plan d (y >>= g) (f a d')
        cases hfa : f a d' with
        | mk q d'' =>
          rw [hfa] at hrest
          cases hrest with
          | answered hlinks' hsame' =>
            refine .answered (hnext d a d' hrun _ _ hlinks') fun m hm => ?_
            rw [hgo m (hm.trans (hlinks'.recalls_start rfl))]
            exact hsame' m hm
          | halted hlinks' hbefore hsame' =>
            refine .halted (hnext d a d' hrun _ _ hlinks') (hnext d a d' hrun _ _ hbefore) ?_
            rw [hgo _ (hbefore.recalls_start rfl)]
            exact hsame'

/-- Computations that go as others do so one after another. -/
def Concord.tracking (catalog : Catalog) (plan : Plan) (gist : ε → ε) :
    Concord Remembering Recalling gist where
  rel x y := Tracks catalog plan x y
  exact := True
  lenient := False
  refl := .of_known
  errors he _ := by
    rw [he trivial]
    exact .of_known _
  anything _ _ h := h.elim
  bind hx hf := hx.through (fun _ => plan)
    (fun d a d' hrun stopped m hm => (hx.pursues hrun).trans hm) hf

/-- Readings that go as others do so one after another. -/
def ReadConcord.tracking (catalog : Catalog) (plan : Plan) : ReadConcord Remembering Recalling where
  toConcord := .tracking catalog plan _
  within _ h := h.mapError

end Tracks

/-! ## Conversions -/

namespace Setting

variable {s : Setting}

/-- A link goes as from memory, and what it comes to may be followed in turn. -/
theorem tracks_resolve (cell : Nat) (id : DefinitionId) (args : List Converter) :
    Tracks s.catalog (.link cell id args) (s.live.resolve cell id args)
      (s.recalling.resolve cell id args) := by
  intro d
  show Tracked s.catalog _ d _ (Derivation.ofLink s.catalog cell id args d)
  cases hrun : Derivation.ofLink s.catalog cell id args d with
  | mk r d' =>
    cases r with
    | ok c =>
      refine .answered (.link .here hrun (.refl _ d')) fun m hm => ?_
      exact Derivation.result_of_recalls hrun hm
    | error e =>
      exact .halted (.refused .here hrun) (.refl _ d) (congrArg Prod.fst hrun)

/-- What a plan comes to was found behind its links. -/
theorem pursues_of_settleWithin {through : Bool} : ∀ (steps : Nat) {plan : Plan} {d d' : Deriver}
    {found : Nat × Plan}, s.live.settleWithin through steps plan d = (.ok found, d') →
    ∀ stopped m, found.2.Pursues s.catalog d' stopped m → plan.Pursues s.catalog d stopped m := by
  intro steps
  induction steps with
  | zero => exact fun h => (Derivation.error_ne_ok (congrArg Prod.fst h)).elim
  | succ steps ih =>
    intro plan d d' found h stopped m hm
    have settled (hrun : s.live.settleWithin through (steps + 1) plan d = (.ok (0, plan), d)) :
        plan.Pursues s.catalog d stopped m := by
      obtain ⟨hfound, rfl⟩ := Prod.mk.inj (hrun.symm.trans h)
      obtain rfl := Except.ok.inj hfound
      exact hm
    cases plan with
    | link cell id args =>
      rw [Course.settleWithin, Derivation.run_bind] at h
      cases hrun : Derivation.ofLink s.catalog cell id args d with
      | mk r d₁ =>
        rw [show s.live.resolve cell id args d = (r, d₁) from hrun] at h
        cases r with
        | error e => exact (Derivation.error_ne_ok (congrArg Prod.fst h)).elim
        | ok c => exact .link .here hrun (ih h stopped m hm)
    | option label inner =>
      cases through with
      | true =>
        rw [Course.settleWithin, if_pos rfl, Derivation.run_bind] at h
        cases hrun : s.live.settleWithin true steps inner.plan d with
        | mk r d₁ =>
          rw [hrun] at h
          cases r with
          | error e => exact (Derivation.error_ne_ok (congrArg Prod.fst h)).elim
          | ok inside =>
            obtain ⟨hfound, rfl⟩ := Prod.mk.inj h
            obtain rfl := Except.ok.inj hfound
            exact (ih hrun stopped m hm).mono fun _ _ _ => .part .option
      | false => exact settled rfl
    | _ => exact settled rfl

theorem tracks_settleWithin {through : Bool} : ∀ (steps : Nat) (plan : Plan),
    Tracks s.catalog plan (s.live.settleWithin through steps plan)
      (s.recalling.settleWithin through steps plan) := by
  intro steps
  induction steps with
  | zero => exact fun _ => .of_known _
  | succ steps ih =>
    intro plan
    cases plan with
    | link cell id args =>
      rw [Course.settleWithin, Course.settleWithin]
      refine (tracks_resolve cell id args).through Keyed.plan ?_ fun c _ _ => ih c.plan
      exact fun d c d' hrun stopped m hm => .link .here hrun hm
    | option label inner =>
      rw [Course.settleWithin, Course.settleWithin]
      cases through with
      | true =>
        rw [if_pos rfl, if_pos rfl]
        have hinner := (ih inner.plan).mono fun _ _ _ =>
          Plan.Holds.part (.option : Plan.HasPart (.option label inner) inner.plan)
        exact (Concord.tracking s.catalog _ id).bind hinner fun found _ _ => .of_known _
      | false =>
        rw [if_neg Bool.false_ne_true, if_neg Bool.false_ne_true]
        exact .of_known _
    | _ => exact .of_known _

theorem tracks_settle (through : Bool) (plan : Plan) :
    Tracks s.catalog plan (s.live.settle through plan) (s.recalling.settle through plan) := by
  rw [Course.settle, Course.settle]
  exact (Concord.tracking s.catalog plan id).ite (.of_known _) (tracks_settleWithin _ plan)

theorem pursues_of_settle {through : Bool} {plan : Plan} {d d' : Deriver} {found : Nat × Plan}
    (h : s.live.settle through plan d = (.ok found, d')) (stopped : Bool) (m : Deriver)
    (hm : found.2.Pursues s.catalog d' stopped m) : plan.Pursues s.catalog d stopped m := by
  rw [Course.settle] at h
  by_cases hhead : plan.head through (s.live.catalog.heads through) = .endless
  · rw [if_pos hhead] at h
    exact (Derivation.error_ne_ok (congrArg Prod.fst h)).elim
  · rw [if_neg hhead] at h
    exact pursues_of_settleWithin _ h stopped m hm

/-- What a plan comes to is converted next. -/
theorem tracks_settled {ε β : Type} {fault : DescriptionFault → ε} {through : Bool} {plan : Plan}
    {f : Nat × Plan → Remembering ε β} {g : Nat × Plan → Recalling ε β}
    (hf : ∀ found, Tracks s.catalog found.2 (f found) (g found)) :
    Tracks s.catalog plan (Carrier.mapError fault (s.live.settle through plan) >>= f)
      (Carrier.mapError fault (s.recalling.settle through plan) >>= g) := by
  refine (tracks_settle through plan).mapError.through Prod.snd ?_ fun found _ _ => hf found
  intro d found d' hrun stopped m hm
  cases hsettle : s.live.settle through plan d with
  | mk r d₁ =>
    replace hrun : (r.mapError fault, d₁) = (.ok found, d') := by
      rw [← hrun]
      show _ = ((s.live.settle through plan d).1.mapError fault, (s.live.settle through plan d).2)
      rw [hsettle]
    obtain ⟨hok, rfl⟩ := Prod.mk.inj hrun
    obtain rfl := mapError_eq_ok.1 hok
    exact pursues_of_settle hsettle stopped m hm

/-- **Reading goes as reading from a memory.** -/
theorem tracks_readWithin : ∀ (levels : Nat) (plan : Plan) (node : Node),
    Tracks s.catalog plan (s.live.readWithin levels plan node)
      (s.recalling.readWithin levels plan node) := by
  intro levels
  induction levels with
  | zero => exact fun _ _ => .of_known _
  | succ levels ih =>
    intro plan node
    rw [Course.readWithin, Course.readWithin]
    refine tracks_settled fun found => ?_
    refine Plan.read_congr (H := .tracking s.catalog found.2) (.refl _ s.switches) found.2
      (fun cell id args hlink n _ => ?_) node (Nat.le_succ _) fun _ => Nat.lt_succ_self node.depth
    exact (ih (.link cell id args) n).mono fun _ _ _ h => h.of_link hlink

/-- **Writing goes as writing from a memory.** -/
theorem tracks_writeWithin : ∀ (levels : Nat) (plan : Plan) (v : Value),
    Tracks s.catalog plan (s.live.writeWithin levels plan v)
      (s.recalling.writeWithin levels plan v) := by
  intro levels
  induction levels with
  | zero => exact fun _ _ => .of_known _
  | succ levels ih =>
    intro plan v
    rw [Course.writeWithin, Course.writeWithin]
    refine tracks_settled fun found => ?_
    refine (Concord.tracking s.catalog found.2 WriteError.gist).bind ?_ fun t _ _ => .of_known _
    refine Plan.write_congr (H := .tracking s.catalog found.2 _) rfl found.2
      (fun cell id args hlink v => ?_) v
    exact (ih (.link cell id args) v).mono fun _ _ _ h => h.of_link hlink

/-- **A reading that derives goes as one from a memory.** -/
theorem live_read (s : Setting) (c : Converter) (node : Node) (d : Deriver) :
    Tracked s.catalog c.plan d (fun m => (s.remembering m).read c node) (s.live.read c node d) := by
  have hsame : s.recalling.read c node = fun m => (s.remembering m).read c node :=
    funext fun m => recalling_readWithin m _ c.plan node
  rw [← hsame]
  exact tracks_readWithin _ c.plan node d

/-- **A writing that derives goes as one from a memory.** -/
theorem live_write (s : Setting) (c : Converter) (v : Value) (d : Deriver) :
    Tracked s.catalog c.plan d (fun m => (s.remembering m).write c v) (s.live.write c v d) := by
  have hsame : s.recalling.write c v = fun m => (s.remembering m).write c v :=
    funext fun m => recalling_writeWithin m _ c.plan v
  rw [← hsame]
  exact tracks_writeWithin _ c.plan v d

end Setting

/-! ## One link -/

namespace Setting

open Derivation

variable {s : Setting} {cell : Nat} {id : DefinitionId} {args : List Converter} {d d' : Deriver}

/-- What stands behind a link is read with what is remembered once the link is derived. -/
theorem live_readBy_link {c : Converter}
    (hhead : (Plan.link cell id args).head false (s.catalog.heads false) ≠ .endless)
    (hc : ofLink s.catalog cell id args d = (.ok c, d')) (hplan : c.plan.isSettled false) (node : Node) :
    s.live.readBy (.link cell id args) node d = s.live.readBy c.plan node d' := by
  obtain ⟨steps, hsteps⟩ : ∃ n, (Plan.link cell id args).size *
      Nat.pow (s.catalog.size + 2) s.catalog.length = n + 1 := by
    refine ⟨_, (Nat.succ_pred_eq_of_pos (Nat.mul_pos ?_ (Nat.pow_pos (Nat.succ_pos _)))).symm⟩
    rw [Plan.size]
    exact Nat.succ_pos _
  have hsettle : s.live.settle false (.link cell id args) d = (.ok (0, c.plan), d') := by
    have hresolve : s.live.resolve cell id args d = (.ok c, d') := hc
    have hlive : (Plan.link cell id args).head false (s.live.catalog.heads false) ≠ .endless := hhead
    rw [Course.settle, if_neg hlive, Course.stepBound, Course.settleWithin, bind_run hresolve]
    show s.live.settleWithin false (_ * Nat.pow (s.catalog.size + 2) s.catalog.length) _ d' = _
    rw [hsteps]
    cases hshape : c.plan with
    | link _ _ _ => exact absurd hplan (by simp [hshape, Plan.isSettled])
    | _ => rfl
  have hfound : Carrier.mapError readFault (s.live.settle false (.link cell id args)) d =
      (.ok (0, c.plan), d') := mapError_run_iff.2 hsettle
  rw [← Course.readWithin_eq_readBy, Course.readWithin_eq_bind, bind_run hfound]

theorem live_settle_link_endless (hc : ofLink s.catalog cell id args d = (.error .endless, d'))
    (through : Bool) :
    ∃ d'', s.live.settle through (.link cell id args) d = (.error .endless, d'') := by
  have hresolve : s.live.resolve cell id args d = (.error .endless, d') := hc
  rw [Course.settle]
  split
  · exact ⟨d, rfl⟩
  · exact ⟨d', by rw [Course.stepBound, Course.settleWithin, bind_run_error hresolve]⟩

/-- A link whose definition has no end is not read. -/
theorem live_readBy_link_endless (hc : ofLink s.catalog cell id args d = (.error .endless, d'))
    (node : Node) : ∃ d'', s.live.readBy (.link cell id args) node d = (.error .endless, d'') := by
  obtain ⟨d'', hsettle⟩ := live_settle_link_endless hc false
  have hstop : Carrier.mapError readFault (s.live.settle false (.link cell id args)) d =
      (.error .endless, d'') := mapError_run_error hsettle
  exact ⟨d'', by rw [← Course.readWithin_eq_readBy, Course.readWithin_eq_bind, bind_run_error hstop]⟩

/-- It is not written. -/
theorem live_writeWithin_link_endless (hc : ofLink s.catalog cell id args d = (.error .endless, d'))
    (levels : Nat) (v : Value) :
    ∃ d'', s.live.writeWithin (levels + 1) (.link cell id args) v d = (.error .endless, d'') := by
  obtain ⟨d'', hsettle⟩ := live_settle_link_endless hc (!v.isNone)
  have hstop : Carrier.mapError writeFault (s.live.settle (!v.isNone) (.link cell id args)) d =
      (.error .endless, d'') := mapError_run_error hsettle
  exact ⟨d'', by rw [Course.writeWithin, bind_run_error hstop]⟩

end Setting

/-! ## After other conversions -/

section After

variable {ε α : Type} {catalog : Catalog} {plan : Plan} {d : Deriver} {y : Recalling ε α}
  {run : Except ε α × Deriver}

/-- What a computation gave is given from some memory that is reached on the way. -/
theorem Tracked.exists_memory (h : Tracked catalog plan d y run) :
    ∃ m stopped, plan.Pursues catalog d stopped run.2 ∧ plan.Pursues catalog d false m ∧ y m = run.1 ∧
      (stopped = false → m = run.2) := by
  cases h with
  | answered hlinks hsame => exact ⟨_, false, hlinks, hlinks, hsame _ (.refl _), fun _ => rfl⟩
  | halted hlinks hbefore hsame => exact ⟨_, true, hlinks, hbefore, hsame, nofun⟩

/-- What a computation gave is given from every memory that the links lead to afterwards. -/
theorem Tracked.of_ok {a : α} {d' : Deriver} (h : Tracked catalog plan d y run)
    (hrun : run = (.ok a, d')) : plan.Pursues catalog d false d' ∧
      ∀ m, plan.Pursues catalog d' false m → y m = .ok a := by
  subst hrun
  cases h with
  | answered hlinks hsame => exact ⟨hlinks, fun m hm => hsame m (hm.recalls_start rfl)⟩

end After

namespace Setting

variable {s : Setting} {numbering : Nat → Description} {l : Ledger} {plan : Plan} {t : BoundType}
  {c : Converter} {d₁ d₂ : Deriver}

/-- The memory of a computation, before and after links of the plan were followed. -/
theorem Sound.pursued (hs : s.Sound numbering l) (hplan : Realises s.catalog l.Trusts t plan)
    {m : Deriver} {stopped : Bool} (hm : plan.Pursues s.catalog s.deriver stopped m) :
    ∃ l' : Ledger, l'.Extends l ∧ (s.remembering m).Sound numbering l' := by
  obtain ⟨l', hext, hkept⟩ := hm.kept hs.admitted hs.kept hplan
  exact ⟨l', hext, hs.admitted.later hext, hkept⟩

/-- What was read is read from every memory that the links lead to afterwards. -/
theorem of_live_read {node : Node} {v : Value} (h : s.live.read c node d₁ = (.ok v, d₂)) :
    c.plan.Pursues s.catalog d₁ false d₂ ∧
      ∀ m, c.plan.Pursues s.catalog d₂ false m → (s.remembering m).read c node = .ok v :=
  (live_read s c node d₁).of_ok h

/-- What writings from a memory give, wherever the links lead, a writing that derives gives as well, and
it stays so. -/
theorem live_write_yields {halts : Prop} {v : Value} {P : Deriver → Sexp → Prop}
    (h : ∀ m, c.plan.Pursues s.catalog d₁ false m →
      Yields halts ((s.remembering m).write c v) (P m)) :
    (∃ t d, s.live.write c v d₁ = (.ok t, d) ∧ c.plan.Pursues s.catalog d₁ false d ∧
      ∀ m, c.plan.Pursues s.catalog d false m → P m t) ∨
    (halts ∧ ∃ e d, s.live.write c v d₁ = (.error e, d) ∧ e.stops = true) := by
  have htracked := live_write s c v d₁
  cases hrun : s.live.write c v d₁ with
  | mk result d =>
    cases result with
    | ok t =>
      obtain ⟨hlinks, hsame⟩ := htracked.of_ok hrun
      exact .inl ⟨t, d, rfl, hlinks, fun m hm => (h m (hlinks.trans hm)).of_ok (hsame m hm)⟩
    | error e =>
      obtain ⟨m, -, -, hm, hsame, -⟩ := htracked.exists_memory
      have herror := hsame.trans (congrArg Prod.fst hrun)
      rcases h m hm with ⟨hhalts, e', he', hstops⟩ | ⟨t, ht, -⟩
      · obtain rfl := Except.error.inj (he'.symm.trans herror)
        exact .inr ⟨hhalts, e', d, rfl, hstops⟩
      · exact nomatch ht.symm.trans herror

/-- **Reading does not depend on the links that were followed before**, unless a link stops it:
those of a plan that holds the links of the converter. -/
theorem live_read_agree (hs : s.Sound numbering l) (hplan : Realises s.catalog l.Trusts t plan)
    {u : BoundType} (hc : Realises s.catalog l.Trusts u c.plan)
    (hlinks : ∀ cell id args, c.plan.Holds cell id args → plan.Holds cell id args)
    (h₁ : plan.Pursues s.catalog s.deriver false d₁) (h₂ : plan.Pursues s.catalog s.deriver false d₂)
    (node : Node) : Agree ReadError.stops ReadError.gist (s.live.read c node d₁).1
      (s.live.read c node d₂).1 := by
  obtain ⟨m₁, -, -, hm₁, hread₁, -⟩ := (live_read s c node d₁).exists_memory
  obtain ⟨m₂, -, -, hm₂, hread₂, -⟩ := (live_read s c node d₂).exists_memory
  obtain ⟨l₁, hext₁, hs₁⟩ := hs.pursued hplan (h₁.trans (hm₁.mono hlinks))
  obtain ⟨l₂, hext₂, hs₂⟩ := hs.pursued hplan (h₂.trans (hm₂.mono hlinks))
  have hreal {l' : Ledger} (hext : l'.Extends l) : Realises s.catalog l'.Foresees u c.plan :=
    (hc.mono (fun _ _ h => h) fun _ hcs => hcs.mono hext).foreseen
  rw [← hread₁, ← hread₂]
  exact read_agree hs₁ hs₂ (BoundType.Twin.refl u).covers (hreal hext₁) (hreal hext₂) node

end Setting

/-! ## In a history -/

section History

variable {catalog : Catalog} {numbering : Nat → Description} {outside : Text → Option Custom}
  {failed : Bool} {d : Deriver} {converters : List (BoundType × Converter)} {t : BoundType}
  {c : Converter}

/-- **A conversion that derives is one from the memory of a history**: of the one that it leads to,
or, if a link stops it, of one on the way. -/
theorem History.converted {ε α : Type} {y : Recalling ε α} {run : Except ε α × Deriver}
    (h : History catalog numbering outside failed d converters) (hc : (t, c) ∈ converters)
    (hrun : Tracked catalog c.plan d y run) :
    ∃ m stopped, History catalog numbering outside (failed || stopped) run.2 converters ∧
      History catalog numbering outside failed m converters ∧ y m = run.1 ∧
      (stopped = false → m = run.2) := by
  obtain ⟨m, stopped, hlinks, hm, hsame, hlast⟩ := hrun.exists_memory
  have hbefore := h.pursued hc hm
  rw [Bool.or_false] at hbefore
  exact ⟨m, stopped, h.pursued hc hlinks, hbefore, hsame, hlast⟩

theorem History.live_read (h : History catalog numbering outside failed d converters)
    (hc : (t, c) ∈ converters) (switches : Switches) (node : Node) :
    ∃ m stopped,
      History catalog numbering outside (failed || stopped)
        ((Setting.live ⟨catalog, d, switches⟩).read c node d).2 converters ∧
      History catalog numbering outside failed m converters ∧
      Setting.read ⟨catalog, m, switches⟩ c node =
        ((Setting.live ⟨catalog, d, switches⟩).read c node d).1 ∧
      (stopped = false → m = ((Setting.live ⟨catalog, d, switches⟩).read c node d).2) :=
  h.converted hc (Setting.live_read ⟨catalog, d, switches⟩ c node d)

theorem History.live_write (h : History catalog numbering outside failed d converters)
    (hc : (t, c) ∈ converters) (switches : Switches) (v : Value) :
    ∃ m stopped,
      History catalog numbering outside (failed || stopped)
        ((Setting.live ⟨catalog, d, switches⟩).write c v d).2 converters ∧
      History catalog numbering outside failed m converters ∧
      Setting.write ⟨catalog, m, switches⟩ c v =
        ((Setting.live ⟨catalog, d, switches⟩).write c v d).1 ∧
      (stopped = false → m = ((Setting.live ⟨catalog, d, switches⟩).write c v d).2) :=
  h.converted hc (Setting.live_write ⟨catalog, d, switches⟩ c v d)

/-- In a session as well. -/
theorem Session.converted {ε α : Type} {y : Recalling ε α} {run : Except ε α × Deriver}
    (h : Session numbering catalog d converters) (hc : (t, c) ∈ converters)
    (hrun : Tracked catalog c.plan d y run) :
    ∃ m, Session numbering catalog m converters ∧ c.plan.Pursues catalog d false m ∧ y m = run.1 := by
  obtain ⟨m, -, -, hm, hsame, -⟩ := hrun.exists_memory
  exact ⟨m, h.pursue hc hm, hm, hsame⟩

theorem Session.live_read (h : Session numbering catalog d converters) (hc : (t, c) ∈ converters)
    (switches : Switches) (node : Node) :
    ∃ m, Session numbering catalog m converters ∧ c.plan.Pursues catalog d false m ∧
      Setting.read ⟨catalog, m, switches⟩ c node =
        ((Setting.live ⟨catalog, d, switches⟩).read c node d).1 :=
  h.converted hc (Setting.live_read ⟨catalog, d, switches⟩ c node d)

theorem Session.live_write (h : Session numbering catalog d converters) (hc : (t, c) ∈ converters)
    (switches : Switches) (v : Value) :
    ∃ m, Session numbering catalog m converters ∧ c.plan.Pursues catalog d false m ∧
      Setting.write ⟨catalog, m, switches⟩ c v =
        ((Setting.live ⟨catalog, d, switches⟩).write c v d).1 :=
  h.converted hc (Setting.live_write ⟨catalog, d, switches⟩ c v d)

end History

end TypedSexp
