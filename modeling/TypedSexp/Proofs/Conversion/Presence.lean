import TypedSexp.Proofs.Conversion.Spelled
import TypedSexp.Proofs.Derivation.History
import TypedSexp.Proofs.Derivation.Steps
/-!
# Whether an option is present

Nothing is one value, whether an option is absent or holds something that is nothing itself. A type
may be nothing if it comes to the unit, to an option, or to a converter from outside that reads some
tree so (`BoundType.MayBeNothing`). Options of all other types tell whether they are present, and
rewriting keeps it (`Setting.TellsPresence`). Derivation refuses an option directly in an option only;
an option of another type that may be nothing does not tell (`History.read_option`).
-/

namespace TypedSexp

/-! ## Types that may be nothing -/

/-- Some tree is read as nothing for the shape. -/
inductive Description.ReadsNothing : Description → Prop
  | unit {name : Text} (hp : Primitive.ofName? name = some .unit) : ReadsNothing (.primitive name)
  | option {d : Description} : ReadsNothing (.option d)
  | custom {name : Text} {k : Custom} {node : Node} (h : k.read node = .ok .none) :
      ReadsNothing (.given (.ofCustom name k))

/-- The type comes to a shape for which some tree is read as nothing. -/
def BoundType.MayBeNothing (catalog : Catalog) (t : BoundType) : Prop :=
  ∃ d env, t.Unfolds catalog false 0 (.mk d env) ∧ d.ReadsNothing

/-- Some tree is read as nothing by the plan. -/
inductive Plan.ReadsNothing : Plan → Prop
  | unit : ReadsNothing (.primitive .unit)
  | option {label : Text} {c : Converter} : ReadsNothing (.option label c)
  | custom {k : Custom} {node : Node} (h : k.read node = .ok .none) : ReadsNothing (.custom k)

theorem Built.readsNothing_iff {catalog : Catalog} {Trusted : List Converter → Prop}
    {params : List Converter} {d : Description} {plan : Plan}
    (h : Built catalog Trusted params d plan) (hd : d.isShape false) :
    plan.ReadsNothing ↔ d.ReadsNothing := by
  cases h with
  | primitive hp =>
    constructor
    · intro h
      cases h
      exact .unit hp
    · intro h
      cases h with
      | unit hp' =>
        obtain rfl := Option.some.inj (hp.symm.trans hp')
        exact .unit
  | custom _ =>
    constructor
    · intro h
      cases h with
      | custom h => exact .custom h
    · intro h
      generalize hc : Description.given _ = x at h
      cases h with
      | @custom _ k' node h =>
        have hplan : Plan.custom _ = .custom k' := congrArg Keyed.plan (Description.given.inj hc)
        obtain rfl := Plan.custom.inj hplan
        exact .custom h
      | _ => cases hc
  | option _ _ => exact ⟨fun _ => .option, fun _ => .option⟩
  | variant hvariant _ _ _ _ =>
    constructor
    · intro h
      cases h
    · intro h
      cases h <;> cases hvariant
  | parameter _ _ => exact absurd hd (by simp [Description.isShape])
  | body _ _ => exact absurd hd (by simp [Description.isShape])
  | recursive _ _ _ => exact absurd hd (by simp [Description.isShape])
  | applied _ _ _ => exact absurd hd (by simp [Description.isShape])
  | link _ => exact absurd hd (by simp [Description.isShape])
  | _ =>
    constructor
    · intro h
      cases h
    · intro h
      cases h

namespace Setting

variable {numbering : Nat → Description} {l : Ledger} {s : Setting} {t : BoundType} {plan q : Plan}
  {node item : Node} {v : Value} {label : Text} {inner c : Converter}

theorem readBy_presented (h : Presented s.switches node item) :
    s.readBy (.option label inner) node = s.readBy inner.plan item :=
  Plan.read_presented h

/-- Only the unit is read as nothing. -/
theorem eq_unit_of_read {p : Primitive} (h : Builtin.read p node = .ok .none) : p = .unit := by
  by_cases hfloat : p = .float
  · subst hfloat
    obtain ⟨text, -, h⟩ := bind_eq_ok.1 h
    cases hx : Spelling.readFloat? text with
    | none => simp [hx] at h
    | some x => simp [hx] at h
  · cases Primitive.holds_of_read hfloat h (by simp [Value.IsSpelled, Value.integers]) with
    | unit => rfl

theorem readsNothing_of_readBy (hq : q.isSettled false) (h : s.readBy q node = .ok .none) :
    q.ReadsNothing := by
  cases q with
  | primitive p =>
    obtain rfl := eq_unit_of_read ((Plan.read.eq_def _ _ _ _).symm.trans h)
    exact .unit
  | custom k => exact .custom ((Plan.read.eq_def _ _ _ _).symm.trans h)
  | option label c => exact .option
  | _ => exact absurd (isComposite_of_readBy hq (by simp) (by simp) (by simp) h) (by simp [Value.isComposite])

theorem exists_of_readsNothing (h : q.ReadsNothing) : ∃ node, s.readBy q node = .ok .none := by
  cases h with
  | unit =>
    refine ⟨.list [] none, ?_⟩
    rw [readBy, Plan.read]
    rfl
  | option =>
    refine ⟨.atom "none" none, ?_⟩
    rw [readBy, Plan.read, if_pos (by decide), outcome_except]
  | @custom k node h =>
    refine ⟨node, ?_⟩
    rw [readBy, Plan.read, h, outcome_except]

/-- **Nothing is read only for a type that may be nothing.** -/
theorem mayBeNothing_of_readBy (hs : s.Sound numbering l) (ht : Realises s.catalog l.Foresees t plan)
    (h : s.readBy plan node = .ok .none) : t.MayBeNothing s.catalog := by
  rw [readBy_eq_bind] at h
  obtain ⟨⟨layers, q⟩, hq, h⟩ := bind_eq_ok.1 h
  obtain ⟨hplan, u, hunfolds, hu⟩ := unfolds_of_settle hs ht (mapError_eq_ok.1 hq)
  obtain ⟨d, env, params, hd, hshape, -, hb⟩ := hu.shape hplan
  obtain rfl := hunfolds.layers_eq
  obtain ⟨-, rfl⟩ := hunfolds.self.unique hd
  exact ⟨d, env, hunfolds, (hb.readsNothing_iff hshape).1 (readsNothing_of_readBy hplan h)⟩

/-- A type that may be nothing has a tree that is read as nothing, if any tree is read at all. -/
theorem exists_readBy_nothing (hs : s.Sound numbering l) (ht : Realises s.catalog l.Foresees t plan)
    (h : t.MayBeNothing s.catalog) :
    (∀ node, ∃ e, s.readBy plan node = .error e) ∨ ∃ node, s.readBy plan node = .ok .none := by
  cases hq : s.settle false plan with
  | error fault =>
    refine .inl fun node => ⟨readFault fault, ?_⟩
    rw [readBy_eq_bind, hq]
    rfl
  | ok found =>
    obtain ⟨layers, q⟩ := found
    obtain ⟨d, env, hunfolds, hd⟩ := h
    obtain ⟨hplan, u, hunfolds', hu⟩ := unfolds_of_settle hs ht hq
    obtain ⟨-, rfl⟩ := hunfolds.unique hunfolds'
    obtain ⟨d', env', params, hself, hshape, -, hb⟩ := hu.shape hplan
    obtain ⟨-, heq⟩ := hunfolds.self.unique hself
    obtain ⟨rfl, rfl⟩ := BoundType.mk.inj heq
    obtain ⟨node, hnode⟩ := exists_of_readsNothing (s := s) ((hb.readsNothing_iff hshape).2 hd)
    refine .inr ⟨node, ?_⟩
    rw [readBy_eq_bind, hq]
    exact hnode

/-! ## What is written -/

theorem layers_pos_of_settle {layers : Nat}
    (h : s.settle true (.option label inner) = .ok (layers, q)) : 0 < layers := by
  rw [settle_eq] at h
  split at h
  · cases h
  · rw [stepBound, Course.stepBound, settleWithin_option, if_pos rfl] at h
    obtain ⟨found, -, h⟩ := bind_eq_ok.1 h
    obtain ⟨rfl, -⟩ := Prod.mk.inj (Except.ok.inj h)
    exact Nat.succ_pos _

/-- **A value is written as an option that is present if and only if it is not nothing.** -/
theorem presented_iff_of_write (hopt : s.ReadsOptions) (hplan : c.plan = .option label inner) {t : Sexp}
    (h : s.write c v = .ok t) {again : Node} (hagain : again.sexp = t) :
    (∃ item, Presented s.switches again item) ↔ v ≠ .none := by
  obtain ⟨levels, hlevels⟩ : ∃ n, v.depth + s.catalog.size + c.plan.size = n + 1 :=
    ⟨v.depth + s.catalog.size + c.plan.size - 1, by have := v.depth_pos; omega⟩
  rw [write_eq, hlevels, hplan, writeWithin_succ] at h
  obtain ⟨⟨layers, q⟩, hq, h⟩ := bind_eq_ok.1 h
  obtain ⟨t', ht', h⟩ := bind_eq_ok.1 h
  obtain rfl := Except.ok.inj h
  replace hq := mapError_eq_ok.1 hq
  by_cases hv : v = .none
  · subst hv
    have hself : s.settle false (.option label inner) = .ok (0, .option label inner) :=
      settle_of_isSettled rfl
    obtain ⟨rfl, rfl⟩ := Prod.mk.inj (Except.ok.inj (hself.symm.trans hq))
    rw [Plan.write] at ht'
    obtain rfl := Except.ok.inj ht'
    refine ⟨?_, fun hne => absurd rfl hne⟩
    rintro ⟨item, hitem⟩
    cases hitem <;> cases hold : s.switches.writesOldOption <;>
      simp [Node.sexp, Node.sexps, Sexp.empty, hold, Nat.repeat] at hagain
  · refine ⟨fun _ => hv, fun _ => ?_⟩
    have hthrough : (!v.isNone) = true := by
      cases v <;> first | rfl | exact absurd rfl hv
    rw [hthrough] at hq
    obtain ⟨layers, rfl⟩ : ∃ n, layers = n + 1 := ⟨layers - 1, by have := layers_pos_of_settle hq; omega⟩
    obtain ⟨item, hitem, -⟩ := exists_presented hopt hagain
    exact ⟨item, hitem⟩

/-- Reading tells whether an option is present, and rewriting keeps it, if options are read in the
form in which they are written. -/
structure TellsPresence (s : Setting) (c : Converter) : Prop where
  told : ∀ node item, Presented s.switches node item → s.read c node ≠ .ok .none
  kept : s.ReadsOptions → ∀ node v t, s.read c node = .ok v → s.write c v = .ok t →
    ∀ again, Node.sexp again = t →
      ((∃ item, Presented s.switches again item) ↔ ∃ item, Presented s.switches node item)

theorem tellsPresence (hplan : c.plan = .option label inner)
    (h : ∀ item, s.readBy inner.plan item ≠ .ok .none) : s.TellsPresence c := by
  have htold (node item : Node) (hitem : Presented s.switches node item) :
      s.read c node ≠ .ok .none := by
    rw [read_eq_readBy, hplan, readBy_presented hitem]
    exact h item
  refine ⟨htold, fun hopt node v t hv ht again hagain => ?_⟩
  rw [presented_iff_of_write hopt hplan ht hagain]
  constructor
  · intro hne
    rw [read_eq_readBy, hplan] at hv
    obtain ⟨item, hitem, -⟩ := (presented_of_readOption hv).resolve_left hne
    exact ⟨item, hitem⟩
  · rintro ⟨item, hitem⟩ rfl
    exact htold node item hitem hv

end Setting

/-- **An option tells whether it is present if what it holds may not be nothing.** If that may be
nothing, either no option that is present is read at all, or there is one that is read as nothing; and
nothing is written as an option that is absent. An option is never directly inside an option. -/
theorem History.read_option {catalog : Catalog} {numbering : Nat → Description}
    {outside : Text → Option Custom} {failed : Bool} {deriver : Deriver}
    {converters : List (BoundType × Converter)} (hcatalog : catalog.AdmittedBy (.first outside))
    (h : History catalog numbering outside failed deriver converters) {x : Description}
    {env : List BoundType} {c : Converter} (hc : (.mk (.option x) env, c) ∈ converters) :
    x.isOption = false ∧ ∀ switches, let s : Setting := ⟨catalog, deriver, switches⟩
      (¬ (BoundType.mk x env).MayBeNothing catalog → s.TellsPresence c) ∧
      ((BoundType.mk x env).MayBeNothing catalog →
        (∀ node item, Presented switches node item → ∃ e, s.read c node = .error e) ∨
        ∃ item, ∀ node, Presented switches node item → s.read c node = .ok .none) ∧
      ∀ v t, s.ReadsOptions → s.write c v = .ok t → ∀ again, Node.sexp again = t →
        ((∃ item, Presented switches again item) ↔ v ≠ .none) := by
  obtain ⟨l, hl, hkept, hholds⟩ := h.kept hcatalog
  obtain ⟨hlen, henv, hb⟩ := (hholds _ c hc).2.foreseen
  generalize hplan : c.plan = plan at hb
  cases hb with
  | variant hd _ _ _ _ => cases hd
  | @option _ _ inner label hoption hb =>
    have hinner : Realises catalog l.Foresees (.mk x env) inner.plan := .mk hlen henv hb
    have hs (switches : Switches) : Setting.Sound numbering l ⟨catalog, deriver, switches⟩ :=
      ⟨hcatalog.later hl, hkept⟩
    refine ⟨hoption, fun switches => ⟨fun hnot => ?_, fun hmay => ?_, fun v t hopt ht again hagain =>
      Setting.presented_iff_of_write hopt hplan ht hagain⟩⟩
    · exact Setting.tellsPresence hplan fun item hitem =>
        hnot (Setting.mayBeNothing_of_readBy (hs switches) hinner hitem)
    · have hread (node item : Node) (hitem : Presented switches node item) :
          Setting.read ⟨catalog, deriver, switches⟩ c node =
            Setting.readBy ⟨catalog, deriver, switches⟩ inner.plan item := by
        rw [Setting.read_eq_readBy, hplan, Setting.readBy_presented hitem]
      refine (Setting.exists_readBy_nothing (hs switches) hinner hmay).imp (fun h node item hitem => ?_) ?_
      · rw [hread node item hitem]
        exact h item
      · rintro ⟨item, hnothing⟩
        exact ⟨item, fun node hitem => (hread node item hitem).trans hnothing⟩

namespace Presence

/-- A definition that is an option. -/
def optional : Definition := ⟨"o", [], some (.option (.primitive "int"))⟩

/-- An option of integers, and an option of the definition. -/
def numbering : Nat → Description
  | 0 => .option (.primitive "int")
  | _ => .option (.applied 0 [])

/-- The converter of an option of a built-in type. -/
def optionOf (p : Primitive) : Converter :=
  ⟨.derived 0, (Converter.ofPrimitive p).name ++ " option", .option "option" (Converter.ofPrimitive p)⟩

/-- The converter of the definition. -/
def definitionOption : Converter := ⟨.derived 2, "o", .option "o" (Converter.ofPrimitive .int)⟩

/-- The converter of the option of the definition. -/
def hiddenOption : Converter := ⟨.derived 3, "o option", .option "option" definitionOption⟩

/-- After the first option was derived. -/
def afterInt : Deriver := ⟨1, [(⟨.description 0, []⟩, optionOf .int)]⟩

/-- The converters of both options. -/
def converters : List (BoundType × Converter) :=
  [(.mk (.option (.applied 0 [])) [], hiddenOption),
    (.mk (.option (.primitive "int")) [], optionOf .int)]

/-- After both were derived. -/
def afterHidden : Deriver :=
  ⟨4, (⟨.description 1, []⟩, hiddenOption) :: (⟨.definition 0, []⟩, definitionOption) ::
    afterInt.cache⟩

section Derivations

open Derivation Description

theorem derive_optionOf {name : Text} {p : Primitive} (hp : Primitive.ofName? name = some p) :
    derive [optional] (.description 0 (.option (.primitive name))) [] {} =
      (.ok (optionOf p), ⟨1, [(⟨.description 0, []⟩, optionOf p)]⟩) := by
  let define := define [optional] (depthBound [optional] (Description.option (.primitive name)).size 0)
    [⟨.description 0, []⟩]
  have hprimitive : build [optional] define ⟨[], none⟩ (.primitive name) {} =
      (.ok (.ofPrimitive p), {}) := primitive_run hp
  exact ofDescription_run rfl (option_run rfl hprimitive)

theorem derive_hidden : derive [optional] (.description 1 (numbering 1)) [] afterInt =
    (.ok hiddenOption, afterHidden) := by
  obtain ⟨n, hn⟩ : ∃ n, depthBound [optional] (numbering 1).size 0 = n + 1 := ⟨_, rfl⟩
  have hdefine : define [optional] (n + 1) [⟨.description 1, []⟩] 0 [] afterInt =
      (.ok definitionOption, ⟨3, (⟨.definition 0, []⟩, definitionOption) :: afterInt.cache⟩) :=
    define_run (d := optional) rfl rfl rfl (by simp) (option_run rfl (primitive_run rfl))
  have happlied : build [optional] (define [optional] (depthBound [optional] (numbering 1).size 0)
      [⟨.description 1, []⟩]) ⟨[], none⟩ (.applied 0 []) afterInt =
      (.ok definitionOption, ⟨3, (⟨.definition 0, []⟩, definitionOption) :: afterInt.cache⟩) := by
    rw [hn]
    exact (applied_run (x := optional) buildAll_nil rfl).trans hdefine
  exact ofDescription_run rfl (option_run rfl happlied)

/-- An option directly inside an option is refused. -/
theorem derive_nested (d : Description) :
    (derive [optional] (.description 0 (.option (.option d))) []).result {} = .error .nestedOption :=
  congrArg Prod.fst (ofDescription_run_error rfl (option_run_error rfl))

end Derivations

theorem history_hidden :
    History [optional] numbering (fun _ => none) false afterHidden converters := by
  have hint : (numbering 0).isPlain := by decide
  have hhidden : (numbering 1).isPlain := by decide
  have hfirst : Derivation.derive [optional] (.description 0 (numbering 0)) [] {} =
      (.ok (optionOf .int), afterInt) := derive_optionOf rfl
  exact (History.start.describe hint hfirst).describe hhidden derive_hidden

theorem optional_admitted : Catalog.AdmittedBy [optional] (.first fun _ => none) := by
  refine Catalog.isPlain.admittedBy (fun id body hb => ?_) _
  cases id with
  | zero =>
    obtain rfl := Option.some.inj hb
    rfl
  | succ id => exact absurd hb (by simp [Catalog.body?, optional])

/-- An option of integers tells whether it is present; one of the definition may be read as nothing. -/
theorem read_option_hidden :
    History [optional] numbering (fun _ => none) false afterHidden converters ∧
    ∀ switches, Setting.TellsPresence ⟨[optional], afterHidden, switches⟩ (optionOf .int) ∧
      ((∀ node item, Presented switches node item →
          ∃ e, Setting.read ⟨[optional], afterHidden, switches⟩ hiddenOption node = .error e) ∨
        ∃ item, ∀ node, Presented switches node item →
          Setting.read ⟨[optional], afterHidden, switches⟩ hiddenOption node = .ok .none) := by
  have hint : (BoundType.mk (.option (.primitive "int")) [], optionOf .int) ∈ converters :=
    List.mem_cons_of_mem _ List.mem_cons_self
  have hhidden : (BoundType.mk (.option (.applied 0 [])) [], hiddenOption) ∈ converters :=
    List.mem_cons_self
  refine ⟨history_hidden, fun switches => ⟨?_, ?_⟩⟩
  · refine ((history_hidden.read_option optional_admitted hint).2 switches).1 ?_
    rintro ⟨d, env, hunfolds, hd⟩
    obtain ⟨-, heq⟩ := hunfolds.of_shape rfl
    obtain ⟨rfl, rfl⟩ := BoundType.mk.inj heq
    cases hd with
    | unit hp => exact absurd hp (by decide)
  · refine ((history_hidden.read_option optional_admitted hhidden).2 switches).2.1 ?_
    exact ⟨_, _, .applied (.body rfl (.here rfl)), .option⟩

/-- **A present option is read as nothing** where it holds the unit, or an option that hides behind a
definition, and is written as an absent one; an option directly inside an option is refused. -/
theorem presence_lost :
    (Derivation.derive [optional] (.description 1 (numbering 1)) []).result afterInt =
      .ok hiddenOption ∧
    (Derivation.derive [optional] (.description 0 (.option (.primitive "unit"))) []).result {} =
      .ok (optionOf .unit) ∧
    (∀ d, (Derivation.derive [optional] (.description 0 (.option (.option d))) []).result {} =
      .error .nestedOption) ∧
    let s : Setting := ⟨[optional], afterHidden, .standard⟩
    s.read hiddenOption (.list [.atom "some" none, .atom "none" none] none) = .ok .none ∧
      s.write hiddenOption .none = .ok (.atom "none") ∧
      s.read (optionOf .unit) (.list [.atom "some" none, .list [] none] none) = .ok .none ∧
      s.write (optionOf .unit) .none = .ok (.atom "none") :=
  ⟨congrArg Prod.fst derive_hidden, congrArg Prod.fst (derive_optionOf rfl), derive_nested,
    rfl, rfl, rfl, rfl⟩

end Presence

end TypedSexp
