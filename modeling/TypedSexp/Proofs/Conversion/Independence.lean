import TypedSexp.Proofs.Conversion.Descent
import TypedSexp.Proofs.Conversion.Twin
import TypedSexp.Proofs.Derivation.History
import TypedSexp.Proofs.Derivation.Inversion
/-!
# Conversion does not depend on what is remembered

Two derivers that derive the same type, or twins, may give converters with links in different places,
and follow links with different memories. Both converters come to the same shapes, so they read and
write alike (`Setting.agreesAt`), by induction on the levels that are left for links and, inside a
level, on how the plan was built. So converters of twins are interchangeable, whatever their derivers
were asked for before (`History.interchangeable`). Only a link that is refused or has no end, which
depends on what is remembered, can stop one of them and not the other.
-/

namespace TypedSexp

/-! ## Plans that are built from the same description -/

section Matching

variable {catalog : Catalog} {Trusted : List Converter → Prop} {params : List Converter}
  {r : Replacement} {R : Plan → Plan → Prop}

open Description (replace)

/-- Related to every plan of the description with arguments in the place of its parameters. -/
def RelatedTo (catalog : Catalog) (Trusted : List Converter → Prop) (params : List Converter)
    (r : Replacement) (R : Plan → Plan → Prop) (d : Description) (q : Plan) : Prop :=
  d.Allows r → ∀ q', Built catalog Trusted params (d.replace r) q' → R q q'

theorem forall₂_of_zip {α α' β γ : Type} {P : β → γ → Prop} {g : α → α'} {ds : List α}
    {bs : List β} {cs : List γ} (hb : ds.length = bs.length) (hc : (ds.map g).length = cs.length)
    (h : ∀ d b c, (d, b) ∈ ds.zip bs → (g d, c) ∈ (ds.map g).zip cs → P b c) :
    List.Forall₂ P bs cs := by
  rw [List.length_map] at hc
  refine List.forall₂_iff_zip.2 ⟨hb.symm.trans hc, fun hmem => ?_⟩
  obtain ⟨d, hdb, hdc⟩ := exists_zip_middle hb hc hmem
  refine h d _ _ hdb ?_
  rw [List.zip_map_left]
  exact List.mem_map_of_mem hdc

theorem field_matches {f : Field Description} {p p' : FieldPlan Plan} (hf : f.Allows r)
    (hfits : p.Fits f)
    (hparts : ∀ d q, FieldPlan.Part f p d q → RelatedTo catalog Trusted params r R d q)
    (h' : BuiltField catalog Trusted params (f.map (replace r)) p') : FieldPlan.Matches R p p' := by
  have hdropping := hfits.dropping.symm.trans h'.1.dropping
  have habsent := hf.absentValue.symm.trans h'.1.absent.symm
  refine ⟨hfits.name.trans h'.1.name.symm, hfits.absent.trans habsent, Except.ok.inj hdropping, ?_⟩
  by_cases hp : f.presence = .sexpBool
  · rw [hfits.flag hp, h'.1.flag hp]
    exact .flag
  · obtain ⟨d, c, hd, hform⟩ := hfits.valued hp
    obtain ⟨d', c', hd', hform'⟩ := h'.1.valued hp
    obtain rfl : replace r d = d' := by simpa [Field.valueType_map, hd] using hd'
    have hbuilt := h'.2 _ _ (.value hd' hform')
    rw [hform, hform']
    exact .valued _ (hparts d _ (.value hd hform) (hf.valueType hd) _ hbuilt)

theorem record_matches {fields : List (Field Description)} {plans plans' : List (FieldPlan Plan)}
    {label label' : Text} {instanceOf : Option ClassInfo} {extra : Bool}
    (hallows : ∀ f ∈ fields, f.Allows r) (hlen : fields.length = plans.length)
    (hlen' : (fields.map (Field.map (replace r))).length = plans'.length)
    (hfits : ∀ f p, (f, p) ∈ fields.zip plans → p.Fits f)
    (hparts : ∀ f p d q, (f, p) ∈ fields.zip plans → FieldPlan.Part f p d q →
      RelatedTo catalog Trusted params r R d q)
    (h' : ∀ f p, (f, p) ∈ (fields.map (Field.map (replace r))).zip plans' →
      BuiltField catalog Trusted params f p) :
    RecordPlan.Matches False R ⟨label, instanceOf, extra, plans⟩
      ⟨label', instanceOf, extra, plans'⟩ := by
  refine ⟨fun h => h.elim, rfl, rfl, forall₂_of_zip hlen hlen' fun f p p' hp hp' => ?_⟩
  exact field_matches (hallows f (List.of_mem_zip hp).1) (hfits f p hp)
    (fun d q => hparts f p d q hp) (h' _ p' hp')

theorem case_matches {c : Constructor Description} {p p' : CasePlan Plan} (hc : c.Allows r)
    (hfits : p.Fits c)
    (hparts : ∀ d q, CasePlan.Part c p d q → RelatedTo catalog Trusted params r R d q)
    (h' : BuiltCase catalog Trusted params (c.map (replace r)) p') : CasePlan.Matches R p p' := by
  have hargs' : (c.map (replace r)).args = c.args.map (replace r) := rfl
  refine ⟨hfits.tag.trans h'.1.tag.symm, hfits.instanceOf.trans h'.1.instanceOf.symm, ?_⟩
  by_cases hrecord : c.record = none
  · have hrecord' : (c.map (replace r)).record = none := by simp [Constructor.map, hrecord]
    cases hsplice : c.spliced with
    | true =>
      obtain ⟨d, k, hargs, hform⟩ := hfits.splice hrecord hsplice
      obtain ⟨d', k', hd', hform'⟩ := h'.1.splice hrecord' hsplice
      obtain rfl : replace r d = d' := by simpa [hargs', hargs] using hd'
      have hallows := hc.1 d (hargs ▸ List.mem_cons_self)
      rw [hform, hform']
      exact .spliced (hparts d _ (.element hform hargs) hallows _ (h'.2 _ _ (.element hform' hd')))
    | false =>
      by_cases hargs : c.args = []
      · rw [hfits.constant hrecord hsplice hargs,
          h'.1.constant hrecord' hsplice (by rw [hargs', hargs, List.map_nil])]
        exact .constant
      · obtain ⟨cs, hform, hlen⟩ := hfits.arguments hrecord hsplice hargs
        obtain ⟨cs', hform', hlen'⟩ := h'.1.arguments hrecord' hsplice (by simpa [hargs'] using hargs)
        rw [hform, hform']
        refine .arguments (forall₂_of_zip hlen hlen' fun d k k' hk hk' => ?_)
        exact hparts d _ (.argument hform hk) (hc.1 d (List.of_mem_zip hk).1) _
          (h'.2 _ _ (.argument hform' hk'))
  · obtain ⟨-, -, d, plan, hd, hform⟩ := hfits.inline hrecord
    obtain ⟨-, -, d', plan', hd', hform'⟩ := h'.1.inline (by simpa [Constructor.map] using hrecord)
    obtain rfl := Option.some.inj ((Constructor.inlineRecord_map hd).symm.trans hd')
    rw [hform, hform']
    exact .record (hparts d _ (.fields hform hd) (hc.inlineRecord hd) _
      (h'.2 _ _ (.fields hform' hd')))

end Matching

namespace Setting

/-! ## What conversion comes to -/

variable {numbering : Nat → Description} {l : Ledger} {s : Setting} {t : BoundType} {plan : Plan}

/-- Reading is stopped, or it is reading by the shape that the type comes to, a level further
down. -/
theorem readWithin_unfolds (hs : s.Sound numbering l) (ht : Realises s.catalog l.Foresees t plan)
    (levels : Nat) : (∃ e, e.stops ∧ ∀ node, s.readWithin levels plan node = .error e) ∨
      ∃ below u q, levels = below + 1 ∧ BoundType.Unfolds s.catalog false t 0 u ∧
        Realises s.catalog l.Foresees u q ∧ q.isSettled false ∧
        ∀ node, s.readWithin levels plan node = s.readAt below q node := by
  cases levels with
  | zero => exact .inl ⟨.endless, rfl, fun node => rfl⟩
  | succ below =>
    cases hsettle : s.settle false plan with
    | error e =>
      refine .inl ⟨readFault e, stops_readFault e, fun node => ?_⟩
      rw [readWithin_succ, hsettle]
      rfl
    | ok found =>
      obtain ⟨layers, q⟩ := found
      obtain ⟨hq, u, hu, hreal⟩ := unfolds_of_settle hs ht hsettle
      obtain rfl := hu.layers_eq
      refine .inr ⟨below, u, q, rfl, hu, hreal, hq, fun node => ?_⟩
      rw [readWithin_succ, hsettle]
      rfl

/-- Writing is stopped, or it is writing by the shape that the type comes to, a level further down
and in the options that were passed. -/
theorem writeWithin_unfolds (hs : s.Sound numbering l) (ht : Realises s.catalog l.Foresees t plan)
    (levels : Nat) (v : Value) : (∃ e, e.stops ∧ s.writeWithin levels plan v = .error e) ∨
      ∃ below layers u q, levels = below + 1 ∧
        BoundType.Unfolds s.catalog (!v.isNone) t layers u ∧
        Realises s.catalog l.Foresees u q ∧ q.isSettled (!v.isNone) ∧
        s.writeWithin levels plan v =
          (s.writeAt below q v).map (layers.repeat (presentSexp s.switches)) := by
  cases levels with
  | zero => exact .inl ⟨.endless, rfl, rfl⟩
  | succ below =>
    cases hsettle : s.settle (!v.isNone) plan with
    | error e =>
      refine .inl ⟨writeFault e, stops_writeFault e, ?_⟩
      rw [writeWithin_succ, hsettle]
      rfl
    | ok found =>
      obtain ⟨layers, q⟩ := found
      obtain ⟨hq, u, hu, hreal⟩ := unfolds_of_settle hs ht hsettle
      refine .inr ⟨below, layers, u, q, rfl, hu, hreal, hq, ?_⟩
      rw [writeWithin_succ, hsettle]
      show (s.writeAt below q v >>= fun t => .ok (layers.repeat (presentSexp s.switches) t)) = _
      cases s.writeAt below q v <;> rfl

/-- A plan that is no link is settled where options are not passed. -/
theorem unfolds_of_settled {through : Bool} (hs : s.Sound numbering l)
    (ht : Realises s.catalog l.Foresees t plan) (hplan : plan.isSettled through) :
    ∃ u, BoundType.Unfolds s.catalog through t 0 u ∧ Realises s.catalog l.Foresees u plan := by
  have hleads : s.Leads l.Foresees through plan 0 plan 0 := .here hplan
  obtain ⟨-, u, hu, hreal⟩ := unfolds_of_settle hs ht (settle_of_leads hleads)
  exact ⟨u, hu, hreal⟩

theorem readAt_unfolds (hs : s.Sound numbering l) (ht : Realises s.catalog l.Foresees t plan)
    (levels : Nat) : (∃ e, e.stops ∧ ∀ node, s.readAt levels plan node = .error e) ∨
      ∃ below u q, BoundType.Unfolds s.catalog false t 0 u ∧ Realises s.catalog l.Foresees u q ∧
        q.isSettled false ∧ ∀ node, s.readAt levels plan node = s.readAt below q node := by
  cases hplan : plan.isSettled false with
  | true =>
    obtain ⟨u, hu, hreal⟩ := unfolds_of_settled hs ht hplan
    exact .inr ⟨levels, u, plan, hu, hreal, hplan, fun _ => rfl⟩
  | false =>
    cases plan with
    | link cell id args =>
      have hread (node : Node) :
          s.readAt levels (.link cell id args) node = s.readWithin levels (.link cell id args) node := by
        rw [readAt, Plan.read]
      rcases readWithin_unfolds hs ht levels with ⟨e, he, h⟩ | ⟨below, u, q, -, hu, hreal, hq, h⟩
      · exact .inl ⟨e, he, fun node => (hread node).trans (h node)⟩
      · exact .inr ⟨below, u, q, hu, hreal, hq, fun node => (hread node).trans (h node)⟩
    | _ => exact absurd hplan (by simp [Plan.isSettled])

/-- A plan of an option is one of a type that comes to an option. -/
theorem unfolds_option {label : Text} {inner : Converter}
    (ht : Realises s.catalog l.Foresees t (.option label inner)) :
    ∃ t', Realises s.catalog l.Foresees t' inner.plan ∧
      ∀ layers u, BoundType.Unfolds s.catalog true t' layers u →
        BoundType.Unfolds s.catalog true t (layers + 1) u := by
  obtain ⟨d, env, params, hunfolds, henv, hb, hfront⟩ := ht.fronts
  rcases hfront with hd | ⟨cell, id, -, hlink, -⟩
  · generalize hplan : Plan.option label inner = plan at hb
    cases hb with
    | option _ hb =>
      obtain ⟨rfl, rfl⟩ := Plan.option.inj hplan
      exact ⟨_, henv.mk hb, fun layers u hu => hunfolds _ _ _ (.option rfl hu)⟩
    | parameter _ _ => exact absurd hd (by simp [Description.isShape])
    | body _ _ => exact absurd hd (by simp [Description.isShape])
    | recursive _ _ _ => exact absurd hd (by simp [Description.isShape])
    | applied _ _ _ => exact absurd hd (by simp [Description.isShape])
    | _ => exact absurd hplan (by simp)
  · exact absurd hlink (by simp)

/-- Writing is stopped, or it is writing by the shape that the type comes to, in the options that
were passed. -/
def WritesBy (s : Setting) (l : Ledger) (levels : Nat) (t : BoundType) (plan : Plan) (v : Value) :
    Prop :=
  (∃ e, e.stops ∧ s.writeAt levels plan v = .error e) ∨
    ∃ below layers u q, BoundType.Unfolds s.catalog (!v.isNone) t layers u ∧
      Realises s.catalog l.Foresees u q ∧ q.isSettled (!v.isNone) ∧
      s.writeAt levels plan v = (s.writeAt below q v).map (layers.repeat (presentSexp s.switches))

theorem writesBy_of_settled (hs : s.Sound numbering l) (ht : Realises s.catalog l.Foresees t plan)
    (levels : Nat) (v : Value) (hplan : plan.isSettled (!v.isNone)) :
    s.WritesBy l levels t plan v := by
  obtain ⟨u, hu, hreal⟩ := unfolds_of_settled hs ht hplan
  refine .inr ⟨levels, 0, u, plan, hu, hreal, hplan, ?_⟩
  cases s.writeAt levels plan v <;> rfl

theorem writesBy (hs : s.Sound numbering l) (levels : Nat) (v : Value) :
    ∀ (plan : Plan) {t : BoundType}, Realises s.catalog l.Foresees t plan →
      s.WritesBy l levels t plan v
  | .option label inner, t, ht => by
    cases hv : v.isNone with
    | true => exact writesBy_of_settled hs ht levels v (by simp [Plan.isSettled, hv])
    | false =>
      obtain ⟨t', ht', hunfolds⟩ := unfolds_option ht
      have hwrite := writeAt_option (s := s) levels label inner hv
      rcases writesBy hs levels v inner.plan ht' with
        ⟨e, he, h⟩ | ⟨below, layers, u, q, hu, hreal, hq, h⟩
      · exact .inl ⟨e, he, by rw [hwrite, h]; rfl⟩
      · rw [hv] at hu
        refine .inr ⟨below, layers + 1, u, q, by rw [hv]; exact hunfolds _ _ hu, hreal, hq, ?_⟩
        rw [hwrite, h]
        cases s.writeAt below q v <;> rfl
  | .link cell id args, t, ht => by
    have hwrite : s.writeAt levels (.link cell id args) v = s.writeWithin levels (.link cell id args) v := by
      rw [writeAt, Plan.write]
    rcases writeWithin_unfolds hs ht levels v with
      ⟨e, he, h⟩ | ⟨below, layers, u, q, -, hu, hreal, hq, h⟩
    · exact .inl ⟨e, he, hwrite.trans h⟩
    · exact .inr ⟨below, layers, u, q, hu, hreal, hq, hwrite.trans h⟩
  | .primitive _, t, ht => writesBy_of_settled hs ht levels v rfl
  | .custom _, t, ht => writesBy_of_settled hs ht levels v rfl
  | .sealed _, t, ht => writesBy_of_settled hs ht levels v rfl
  | .list .., t, ht => writesBy_of_settled hs ht levels v rfl
  | .array .., t, ht => writesBy_of_settled hs ht levels v rfl
  | .tuple .., t, ht => writesBy_of_settled hs ht levels v rfl
  | .record _, t, ht => writesBy_of_settled hs ht levels v rfl
  | .variant .., t, ht => writesBy_of_settled hs ht levels v rfl

/-! ## Two memories -/

/-- Plans that read and write alike, with so many levels on either side. -/
def Alike (s s' : Setting) (n m : Nat) (p p' : Plan) : Prop :=
  (∀ node, Agree ReadError.stops ReadError.gist (s.readAt n p node) (s'.readAt m p' node)) ∧
    ∀ v, Agree WriteError.stops WriteError.gist (s.writeAt n p v) (s'.writeAt m p' v)

/-- The plan converts with so many levels as any plan of a twin of the shape that its type comes
to. -/
structure AgreesAt (s s' : Setting) (l' : Ledger) (n : Nat) (t : BoundType) (plan : Plan) : Prop where
  read : ∀ u, BoundType.Unfolds s.catalog false t 0 u → ∀ u', BoundType.Twin u u' →
    ∀ m q, Realises s'.catalog l'.Foresees u' q → q.isSettled false → ∀ node,
      Agree ReadError.stops ReadError.gist (s.readAt n plan node) (s'.readAt m q node)
  write : ∀ v layers u, BoundType.Unfolds s.catalog (!v.isNone) t layers u →
    ∀ u', BoundType.Twin u u' →
    ∀ m q, Realises s'.catalog l'.Foresees u' q → q.isSettled (!v.isNone) →
      Agree WriteError.stops WriteError.gist (s.writeAt n plan v)
        ((s'.writeAt m q v).map (layers.repeat (presentSexp s.switches)))

variable {deriver' : Deriver} {l' : Ledger} {n : Nat} {d : Description} {env env' : List BoundType}
  {r : Replacement}

theorem AgreesAt.imp {t' : BoundType} (h : AgreesAt s (s.remembering deriver') l' n t plan)
    (himp : ∀ through layers u, BoundType.Unfolds s.catalog through t' layers u →
      BoundType.Unfolds s.catalog through t layers u) :
    AgreesAt s (s.remembering deriver') l' n t' plan :=
  ⟨fun u hu => h.read u (himp _ _ _ hu), fun v layers u hu => h.write v layers u (himp _ _ _ hu)⟩

/-- The plan converts as every plan of a twin of its type. -/
theorem AgreesAt.alike (hs' : (s.remembering deriver').Sound numbering l')
    (h : AgreesAt s (s.remembering deriver') l' n t plan) {t' : BoundType}
    (htwin : BoundType.Twin t t') {plan' : Plan} (ht : Realises s.catalog l'.Foresees t' plan')
    (m : Nat) : Alike s (s.remembering deriver') n m plan plan' := by
  refine ⟨fun node => ?_, fun v => ?_⟩
  · rcases readAt_unfolds hs' ht m with ⟨e, he, hread⟩ | ⟨below, u', q, hu', hreal, hq, hread⟩
    · exact .inr (.inl ⟨e, hread node, he⟩)
    · obtain ⟨u, hu, hutwin⟩ := htwin.covers _ _ _ hu'
      rw [hread]
      exact h.read u hu u' hutwin below q hreal hq node
  · rcases writesBy hs' m v plan' ht with
      ⟨e, he, hwrite⟩ | ⟨below, layers, u', q, hu', hreal, hq, hwrite⟩
    · exact .inr (.inl ⟨e, hwrite, he⟩)
    · obtain ⟨u, hu, hutwin⟩ := htwin.covers _ _ _ hu'
      rw [hwrite]
      exact h.write v layers u hu u' hutwin below q hreal hq

theorem map_repeat_zero {ε α : Type} (f : α → α) (x : Except ε α) :
    x.map (Nat.repeat f 0) = x := by
  cases x <;> rfl

theorem map_repeat_succ {ε α : Type} (f : α → α) (k : Nat) (x : Except ε α) :
    x.map (Nat.repeat f (k + 1)) = (x.map (Nat.repeat f k)).map f := by
  cases x <;> rfl

/-- Plans that match read and write alike if their parts do. -/
theorem Alike.of_matches {m : Nat} {p q : Plan}
    (h : Plan.Matches False (Alike s (s.remembering deriver') n m) p q) :
    Alike s (s.remembering deriver') n m p q := by
  refine ⟨fun node => ?_, fun v => ?_⟩
  · exact Plan.read_alike (H := .unstopped ReadError.stops ReadError.stops_within) (.refl _ _)
      (h.imp id fun _ _ halike node _ _ => halike.1 node) (Nat.le_refl node.depth)
  · exact Plan.write_alike (H := .unstopped WriteError.stops WriteError.gist) rfl
      (h.imp id fun _ _ halike => halike.2) v

/-- A shape converts as every plan of its twins if the parts do. -/
theorem agreesAt_of_matches (hd : d.isShape true)
    (h : ∀ m r env' params q, BoundType.Bind r env env' → d.Allows r →
      Realises.All s.catalog l'.Foresees env' params →
      Built s.catalog l'.Foresees params (d.replace r) q →
      Plan.Matches False (Alike s (s.remembering deriver') n m) plan q) :
    AgreesAt s (s.remembering deriver') l' n (.mk d env) plan := by
  have hd' (through : Bool) : d.isShape through := by
    cases d <;> first | rfl | exact absurd hd (by simp [Description.isShape])
  have halike (m : Nat) {u' : BoundType} (htwin : BoundType.Twin (.mk d env) u') {q : Plan}
      (hreal : Realises s.catalog l'.Foresees u' q) :
      Alike s (s.remembering deriver') n m plan q := by
    obtain ⟨r, env', rfl, hbind, hallows⟩ := htwin.bind
    obtain ⟨hlen, henv, hb⟩ := hreal
    exact .of_matches (h m r env' _ q hbind hallows ⟨hlen, henv⟩ hb)
  refine ⟨fun u hu u' htwin m q hreal _ => ?_, fun v layers u hu u' htwin m q hreal _ => ?_⟩
  · obtain ⟨-, rfl⟩ := hu.of_shape (hd' false)
    exact (halike m htwin hreal).1
  · obtain ⟨rfl, rfl⟩ := hu.of_shape (hd' _)
    rw [map_repeat_zero]
    exact (halike m htwin hreal).2 v

/-- Parts that convert as every plan of the twins of their types are related to all plans of their
descriptions. -/
theorem AgreesAt.relatedTo (hs' : (s.remembering deriver').Sound numbering l')
    (h : AgreesAt s (s.remembering deriver') l' n (.mk d env) plan) (hbind : BoundType.Bind r env env')
    {params : List Converter} (henv : Realises.All s.catalog l'.Foresees env' params) (m : Nat) :
    RelatedTo s.catalog l'.Foresees params r (Alike s (s.remembering deriver') n m) d plan :=
  fun hallows _ hb => h.alike hs' (hbind.twin hallows) (henv.mk hb) m

/-- An option converts as every plan of its twins if what it holds does. -/
theorem agreesAt_option (hs' : (s.remembering deriver').Sound numbering l') {label : Text}
    {c : Converter} (h : AgreesAt s (s.remembering deriver') l' n (.mk d env) c.plan) :
    AgreesAt s (s.remembering deriver') l' n (.mk (.option d) env) (.option label c) := by
  have halike (m : Nat) {u' : BoundType} (htwin : BoundType.Twin (.mk (.option d) env) u') {q : Plan}
      (hreal : Realises s.catalog l'.Foresees u' q) :
      Alike s (s.remembering deriver') n m (.option label c) q := by
    obtain ⟨r, env', rfl, hbind, hallows⟩ := htwin.bind
    obtain ⟨hlen, henv, hb⟩ := hreal
    obtain ⟨label', c', rfl, hinner⟩ := Built.of_option hb
    refine .of_matches (.option (fun h => h.elim) ?_)
    exact h.relatedTo hs' hbind ⟨hlen, henv⟩ m hallows.option.2 c'.plan hinner
  refine ⟨fun u hu u' htwin m q hreal _ => ?_, fun v layers u hu u' htwin m q hreal hq => ?_⟩
  · obtain ⟨-, rfl⟩ := hu.of_shape (by rfl)
    exact (halike m htwin hreal).1
  · cases hv : v.isNone with
    | true =>
      rw [hv] at hu
      obtain ⟨rfl, rfl⟩ := hu.of_shape (by rfl)
      rw [map_repeat_zero]
      exact (halike m htwin hreal).2 v
    | false =>
      rw [writeAt_option n label c hv]
      cases hu with
      | here hd => exact absurd hd (by simp [Description.isShape, hv])
      | @option _ _ _ layers _ hu =>
        have hagree := (h.write v layers u hu u' htwin m q hreal hq).map (f := presentSexp s.switches)
        rw [map_repeat_succ]
        exact hagree

/-- A link converts as every plan of the twins of its type, if the levels below do. -/
theorem agreesAt_link (hs : s.Sound numbering l) {cell : Nat} {id : DefinitionId} {args : List Converter}
    {t : BoundType} (ht : Realises s.catalog l.Foresees t (.link cell id args))
    (hbelow : ∀ below < n, ∀ u q, Realises s.catalog l.Foresees u q →
      AgreesAt s (s.remembering deriver') l' below u q) :
    AgreesAt s (s.remembering deriver') l' n t (.link cell id args) := by
  refine ⟨fun u hu u' htwin m q hreal hq node => ?_, fun v layers u hu u' htwin m q hreal hq => ?_⟩
  · have hlink : s.readAt n (.link cell id args) node = s.readWithin n (.link cell id args) node := by
      rw [readAt, Plan.read]
    rw [hlink]
    rcases readWithin_unfolds hs ht n with
      ⟨e, he, hread⟩ | ⟨below, x, q', rfl, hx, hreal', -, hread⟩
    · exact .inl ⟨e, hread node, he⟩
    · obtain ⟨-, rfl⟩ := hu.unique hx
      rw [hread]
      exact (hbelow below (Nat.lt_succ_self below) _ _ hreal').read _ hu.self u' htwin m q hreal hq
        node
  · have hlink : s.writeAt n (.link cell id args) v = s.writeWithin n (.link cell id args) v := by
      rw [writeAt, Plan.write]
    rw [hlink]
    rcases writeWithin_unfolds hs ht n v with
      ⟨e, he, hwrite⟩ | ⟨below, layers', x, q', rfl, hx, hreal', -, hwrite⟩
    · exact .inl ⟨e, hwrite, he⟩
    · obtain ⟨rfl, rfl⟩ := hu.unique hx
      rw [hwrite]
      have hagree := (hbelow below (Nat.lt_succ_self below) _ _ hreal').write v 0 _ hu.self u' htwin
        m q hreal hq
      rw [map_repeat_zero] at hagree
      exact hagree.map

/-- A plan converts as every plan of the twins of its type, if the converters of the parameters do
and the levels below. -/
theorem agreesAt_of_built (hs : s.Sound numbering l)
    (hs' : (s.remembering deriver').Sound numbering l')
    (hbelow : ∀ below < n, ∀ u q, Realises s.catalog l.Foresees u q →
      AgreesAt s (s.remembering deriver') l' below u q)
    {params : List Converter} (hb : Built s.catalog l.Foresees params d plan) :
    ∀ {env : List BoundType}, Realises.All s.catalog l.Foresees env params →
      (∀ t (c : Converter), (t, c) ∈ env.zip params →
        AgreesAt s (s.remembering deriver') l' n t c.plan) →
      AgreesAt s (s.remembering deriver') l' n (.mk d env) plan := by
  induction hb with
  | @primitive _ name p hp =>
    intro env _ _
    refine agreesAt_of_matches rfl fun m r env' params q _ _ _ hb => ?_
    rw [Built.of_primitive hp hb]
    exact .primitive p
  | @product _ cs parts label hlen _ ih =>
    intro env henv hparams
    refine agreesAt_of_matches rfl fun m r env' params q hbind hallows henv' hb => ?_
    rw [Description.replace, Description.replaceAll_eq] at hb
    obtain ⟨label', cs', rfl, hlen', hparts⟩ := hb.of_product
    refine .tuple (fun h => h.elim) (forall₂_of_zip hlen hlen' fun d c c' hc hc' => ?_)
    exact (ih d c hc henv hparams).relatedTo hs' hbind henv' m
      (hallows.product (List.of_mem_zip hc).1) c'.plan (hparts _ c' hc')
  | record hnames hlen hfits _ ih =>
    intro env henv hparams
    refine agreesAt_of_matches rfl fun m r env' params q hbind hallows henv' hb => ?_
    rw [Description.replace, Description.replaceFields_eq] at hb
    obtain ⟨label', plans', rfl, -, hlen', hfields⟩ := hb.of_record
    refine .record (record_matches (fun f hf => hallows.record hf) hlen hlen' hfits
      (fun f p d q hp hpart => ?_) hfields)
    exact (ih f p d q hp hpart henv hparams).relatedTo hs' hbind henv' m
  | variant hd htags hlen hfits _ ih =>
    intro env henv hparams
    refine agreesAt_of_matches (by cases hd <;> rfl) fun m r env' params q hbind hallows henv' hb => ?_
    obtain ⟨label', plans', rfl, -, hlen', hcases⟩ := hb.of_variant hd.replace
    refine .variant _ (fun h => h.elim) (forall₂_of_zip hlen hlen' fun c p p' hp hp' => ?_)
    refine case_matches (hallows.variant hd (List.of_mem_zip hp).1) (hfits c p hp)
      (fun d q hpart => ?_) (hcases _ p' hp')
    exact (ih c p d q hp hpart henv hparams).relatedTo hs' hbind henv' m
  | @list _ d c _ _ ih =>
    intro env henv hparams
    refine agreesAt_of_matches rfl fun m r env' params q hbind hallows henv' hb => ?_
    obtain ⟨label', c', rfl, hc⟩ := Built.of_list hb
    exact .list (fun h => h.elim) ((ih henv hparams).relatedTo hs' hbind henv' m hallows.list c'.plan hc)
  | @array _ d c _ stated _ ih =>
    intro env henv hparams
    refine agreesAt_of_matches rfl fun m r env' params q hbind hallows henv' hb => ?_
    obtain ⟨label', c', rfl, hc⟩ := Built.of_array hb
    rw [hallows.array.1.storedAs]
    exact .array _ (fun h => h.elim)
      ((ih henv hparams).relatedTo hs' hbind henv' m hallows.array.2 c'.plan hc)
  | option _ _ ih => exact fun henv hparams => agreesAt_option hs' (ih henv hparams)
  | sealed =>
    intro env henv hparams
    refine agreesAt_of_matches rfl fun m r env' params q _ _ _ hb => ?_
    obtain ⟨label', rfl⟩ := Built.of_sealed hb
    exact .sealed fun h => h.elim
  | @custom _ name k _ =>
    intro env henv hparams
    refine agreesAt_of_matches rfl fun m r env' params q _ _ _ hb => ?_
    rw [Built.of_custom hb]
    exact .custom k
  | @parameter params index name c hi hc =>
    intro env henv hparams
    obtain ⟨hi', rfl⟩ := List.getElem?_eq_some_iff.1 hc
    have hi'' : index.toNat < env.length := by rw [henv.1]; exact hi'
    refine (hparams _ _ (mem_zip_getElem hi'' hi')).imp fun through layers u hu => ?_
    cases hu with
    | here hd => exact absurd hd (by simp [Description.isShape])
    | parameter _ ht hu =>
      obtain rfl := Option.some.inj ((List.getElem?_eq_getElem hi'').symm.trans ht)
      exact hu
  | link ht => exact fun henv _ => agreesAt_link hs (henv.mk (.link ht)) hbelow
  | body hbody _ ih =>
    intro env henv hparams
    refine (ih henv hparams).imp fun through layers u hu => ?_
    cases hu with
    | here hd => exact absurd hd (by simp [Description.isShape])
    | body hbody' hu =>
      obtain rfl := Option.some.inj (hbody.symm.trans hbody')
      exact hu
  | recursive hlen hargs _ ihargs ih =>
    intro env henv hparams
    refine (ih (henv.args hlen hargs) fun t c hmem => ?_).imp fun through layers u hu => ?_
    · obtain ⟨d, rfl, hzip⟩ := exists_of_mem_zip_map hmem
      exact ihargs d c hzip henv hparams
    · cases hu with
      | here hd => exact absurd hd (by simp [Description.isShape])
      | recursive hu => exact hu
  | applied hlen hargs _ ihargs ih =>
    intro env henv hparams
    refine (ih (henv.args hlen hargs) fun t c hmem => ?_).imp fun through layers u hu => ?_
    · obtain ⟨d, rfl, hzip⟩ := exists_of_mem_zip_map hmem
      exact ihargs d c hzip henv hparams
    · cases hu with
      | here hd => exact absurd hd (by simp [Description.isShape])
      | applied hu => exact hu

/-- **Every plan converts as every plan of the twins of its type**, whatever is remembered: by
induction on the levels, and inside a level on how the plan was built. -/
theorem agreesAt (hs : s.Sound numbering l) (hs' : (s.remembering deriver').Sound numbering l')
    (n : Nat) : ∀ t plan, Realises s.catalog l.Foresees t plan →
      AgreesAt s (s.remembering deriver') l' n t plan := by
  induction n using Nat.strongRecOn with
  | ind n ihlevels =>
    intro t plan ht
    induction ht with
    | mk hlen henv hb ih => exact agreesAt_of_built hs hs' ihlevels hb ⟨hlen, henv⟩ ih

/-- **Converters of twins read alike**, whatever is remembered. -/
theorem read_agree (hs : s.Sound numbering l) (hs' : (s.remembering deriver').Sound numbering l')
    {t' : BoundType} (htwin : BoundType.Covers s.catalog t t') {c c' : Converter}
    (ht : Realises s.catalog l.Foresees t c.plan) (ht' : Realises s.catalog l'.Foresees t' c'.plan)
    (node : Node) : Agree ReadError.stops ReadError.gist (s.read c node)
      ((s.remembering deriver').read c' node) := by
  rw [read_eq, read_eq]
  rcases readWithin_unfolds hs ht node.sexp.census.depth with
    ⟨e, he, hread⟩ | ⟨n, u, q, -, hu, hreal, -, hread⟩
  · exact .inl ⟨e, hread node, he⟩
  rcases readWithin_unfolds hs' ht' node.sexp.census.depth with
    ⟨e, he, hread'⟩ | ⟨m, u', q', -, hu', hreal', hq', hread'⟩
  · exact .inr (.inl ⟨e, hread' node, he⟩)
  obtain ⟨x, hx, hutwin⟩ := htwin _ _ _ hu'
  obtain ⟨-, rfl⟩ := hu.unique hx
  rw [hread, hread']
  exact (agreesAt hs hs' n _ q hreal).read _ hu.self u' hutwin m q' hreal' hq' node

/-- **Converters of twins write alike**, whatever is remembered. -/
theorem write_agree (hs : s.Sound numbering l) (hs' : (s.remembering deriver').Sound numbering l')
    {t' : BoundType} (htwin : BoundType.Covers s.catalog t t') {c c' : Converter}
    (ht : Realises s.catalog l.Foresees t c.plan) (ht' : Realises s.catalog l'.Foresees t' c'.plan)
    (v : Value) : Agree WriteError.stops WriteError.gist (s.write c v)
      ((s.remembering deriver').write c' v) := by
  rw [write_eq, write_eq]
  rcases writeWithin_unfolds hs ht (v.depth + s.catalog.size + c.plan.size) v with
    ⟨e, he, hwrite⟩ | ⟨n, layers, u, q, -, hu, hreal, -, hwrite⟩
  · exact .inl ⟨e, hwrite, he⟩
  rcases writeWithin_unfolds hs' ht' (v.depth + s.catalog.size + c'.plan.size) v with
    ⟨e, he, hwrite'⟩ | ⟨m, layers', u', q', -, hu', hreal', hq', hwrite'⟩
  · exact .inr (.inl ⟨e, hwrite', he⟩)
  obtain ⟨x, hx, hutwin⟩ := htwin _ _ _ hu'
  obtain ⟨rfl, rfl⟩ := hu.unique hx
  rw [hwrite, hwrite']
  have hagree := (agreesAt hs hs' n _ q hreal).write v 0 _ hu.self u' hutwin m q' hreal' hq'
  rw [map_repeat_zero] at hagree
  exact hagree.map

/-- The converters read every tree and write every value alike, unless one of them is stopped; their
errors may name different converters. -/
def Interchangeable (s s' : Setting) (c c' : Converter) : Prop :=
  (∀ node, Agree ReadError.stops ReadError.gist (s.read c node) (s'.read c' node)) ∧
    ∀ v, Agree WriteError.stops WriteError.gist (s.write c v) (s'.write c' v)

end Setting

/-- **Converters of twins are interchangeable**, whatever the derivers remember. -/
theorem History.interchangeable {catalog : Catalog} {numbering : Nat → Description}
    {outside : Text → Option Custom} (hcatalog : catalog.AdmittedBy (.first outside))
    {failed failed' : Bool} {d d' : Deriver} {converters converters' : List (BoundType × Converter)}
    (h : History catalog numbering outside failed d converters)
    (h' : History catalog numbering outside failed' d' converters') {t t' : BoundType}
    {c c' : Converter} (hc : (t, c) ∈ converters) (hc' : (t', c') ∈ converters')
    (htwin : BoundType.Covers catalog t t') (switches : Switches) :
    Setting.Interchangeable ⟨catalog, d, switches⟩ ⟨catalog, d', switches⟩ c c' := by
  obtain ⟨l, hs, ht⟩ := h.realises hcatalog hc switches
  obtain ⟨l', hs', ht'⟩ := h'.realises hcatalog hc' switches
  exact ⟨Setting.read_agree hs hs' htwin ht ht', Setting.write_agree hs hs' htwin ht ht'⟩

end TypedSexp
