import TypedSexp.Proofs.Conversion.Choice
import TypedSexp.Proofs.Conversion.Dropping
import TypedSexp.Proofs.Derivation.Steps
/-!
# How many arguments are written

A value of a constructor has as many arguments as whoever made it gave it. Writing refuses it if these
are too few, and, where the constructor has arguments of its own behind the tag, if they are too many
(`History.write_arguments`). In front of a constant, a spliced list or the fields of a record nothing
counts them: there whatever is too much is lost (`Arguments.arguments_lost`).
-/

namespace TypedSexp

/-! ## Counted arguments -/

/-- The number of arguments of the values of a constructor: a record and a spliced list are one. -/
def Constructor.count (k : Constructor Description) : Nat :=
  if k.record.isSome then 1 else k.args.length

/-- The arguments follow the tag one by one. -/
def Constructor.isCounted (k : Constructor Description) : Bool :=
  k.record.isNone && !k.spliced && !k.args.isEmpty

section

variable {k : Constructor Description} {p : CasePlan Plan}

theorem CasePlan.Fits.counted (h : p.Fits k) (hk : k.isCounted) :
    ∃ cs, p.form = .arguments cs ∧ cs.length = k.count := by
  obtain ⟨⟨hrecord, hspliced⟩, hargs⟩ : (k.record = none ∧ k.spliced = false) ∧ k.args ≠ [] := by
    simpa [Constructor.isCounted] using hk
  obtain ⟨cs, hform, hlen⟩ := h.arguments hrecord hspliced hargs
  exact ⟨cs, hform, by simp [Constructor.count, hrecord, hlen]⟩

/-- What is not counted is nothing at all, or one list or record. -/
theorem CasePlan.Fits.uncounted (h : p.Fits k) (hk : k.isCounted = false) :
    (k.count = 0 ∧ p.form = .constant) ∨
      k.count = 1 ∧ ((∃ c, p.form = .spliced c) ∨ ∃ r, p.form = .record r) := by
  by_cases hrecord : k.record = none
  · cases hspliced : k.spliced with
    | true =>
      obtain ⟨d, c, hargs, hform⟩ := h.splice hrecord hspliced
      exact .inr ⟨by simp [Constructor.count, hrecord, hargs], .inl ⟨c, hform⟩⟩
    | false =>
      have hargs : k.args = [] := by simpa [Constructor.isCounted, hrecord, hspliced] using hk
      exact .inl ⟨by simp [Constructor.count, hrecord, hargs], h.constant hrecord hspliced hargs⟩
  · obtain ⟨-, -, d, r, -, hform⟩ := h.inline hrecord
    have hsome : k.record.isSome := by simpa [Option.isSome_iff_ne_none] using hrecord
    exact .inr ⟨if_pos hsome, .inr ⟨r, hform⟩⟩

end

namespace Setting

/-- What writing makes of the arguments of a constructor. -/
structure WritesArguments (s : Setting) (c : Converter) (label : Text) (k : Constructor Description) :
    Prop where
  /-- Counted arguments have to be as many as the constructor has. -/
  counted : k.isCounted → ∀ args : List Value, args.length ≠ k.count →
    s.write c (.variant k.tag args) =
      .error (.constructorArity (Converter.writerName label) k.tag k.count args.length)
  /-- Others have to be there. -/
  missing : k.isCounted = false → ∀ args : List Value, args.length < k.count →
    s.write c (.variant k.tag args) = .error (.value .noSuchArgument)
  /-- What stands behind them is lost. -/
  lost : k.isCounted = false → ∀ args extra : List Value, args.length = k.count →
    s.write c (.variant k.tag args) = .error .endless ∨
      s.write c (.variant k.tag args) = s.write c (.variant k.tag (args ++ extra))

section

variable {s : Setting} {levels : Nat} {c : Converter} {label : Text} {folding : Bool}
  {k : Constructor Description} {p : CasePlan Plan} {plans : List (CasePlan Plan)}
  {args : List Value}

theorem depths_append (extra : List Value) : ∀ args : List Value,
    Value.depths args ≤ Value.depths (args ++ extra)
  | [] => Nat.zero_le _
  | v :: args => by
    have ih := depths_append extra args
    rw [List.cons_append, Value.depths, Value.depths]
    omega

/-- Values that are not counted are written alike with more behind them. -/
theorem writeFormAt_append (hfits : p.Fits k) (hk : k.isCounted = false)
    (hargs : args.length = k.count) (extra : List Value) {writer tag : Text} :
    s.writeFormAt levels writer tag (.variant tag args) args p.form =
      s.writeFormAt levels writer tag (.variant tag (args ++ extra)) (args ++ extra) p.form := by
  rcases hfits.uncounted hk with ⟨-, hform⟩ | ⟨hcount, hform⟩
  · rw [hform, writeFormAt, writeFormAt, Plan.writeForm, Plan.writeForm]
  · obtain ⟨v, rfl⟩ := List.length_eq_one_iff.1 (hargs.trans hcount)
    rcases hform with ⟨c, hform⟩ | ⟨r, hform⟩
    · rw [hform, writeFormAt, writeFormAt, Plan.writeForm, Plan.writeForm]
      rfl
    · rw [hform, writeFormAt, writeFormAt, Plan.writeForm, Plan.writeForm]
      rfl

variable (hplan : c.plan = .variant label folding plans)
  (hnodup : (plans.map CasePlan.tag).Nodup) (hp : p ∈ plans) (hfits : p.Fits k)

include hplan hnodup hp hfits

/-- The form of a constructor decides how its arguments are written. -/
theorem writeAt_tag (levels : Nat) (args : List Value) :
    s.writeAt levels c.plan (.variant k.tag args) =
      s.writeFormAt levels (Converter.writerName label) k.tag (.variant k.tag args) args p.form := by
  have hcontains : (CasePlan.tags plans).contains k.tag = true := by
    simpa [CasePlan.tags] using ⟨p, hp, hfits.tag⟩
  have hconstructor : constructorOf (Converter.writerName label) plans (.variant k.tag args) =
      .ok (p.tag, args) := by
    rw [hfits.tag]
    exact if_pos hcontains
  rw [hplan, writeAt_variant hnodup hp hconstructor, hfits.tag]

theorem writesArguments : s.WritesArguments c label k := by
  have hwrite (args : List Value) : s.write c (.variant k.tag args) =
      s.writeAt ((Value.variant k.tag args).depth + s.catalog.size + c.plan.size - 1) c.plan
        (.variant k.tag args) := write_of_settled (Plan.isSettled_variant hplan) _
  have hforms := writeAt_tag (s := s) hplan hnodup hp hfits
  refine ⟨fun hk args hargs => ?_, fun hk args hargs => ?_, fun hk args extra hargs => ?_⟩
  · obtain ⟨cs, hform, hlen⟩ := hfits.counted hk
    have hne : args.length ≠ cs.length := fun heq => hargs (heq.trans hlen)
    rw [hwrite, hforms, hform, writeFormAt, Plan.writeForm, if_neg hne, hlen, outcome_except]
  · rcases hfits.uncounted hk with ⟨hcount, -⟩ | ⟨hcount, hform⟩
    · omega
    · obtain rfl : args = [] := List.eq_nil_of_length_eq_zero (by omega)
      rcases hform with ⟨c', hform⟩ | ⟨r, hform⟩
      · rw [hwrite, hforms, hform, writeFormAt, Plan.writeForm]
        rfl
      · rw [hwrite, hforms, hform, writeFormAt, Plan.writeForm]
        rfl
  · have hdepth : (Value.variant k.tag args).depth ≤ (Value.variant k.tag (args ++ extra)).depth := by
      rw [Value.depth, Value.depth]
      exact Nat.succ_le_succ (depths_append extra args)
    have hsame (levels : Nat) : s.writeAt levels c.plan (.variant k.tag args) =
        s.writeAt levels c.plan (.variant k.tag (args ++ extra)) := by
      rw [hforms, hforms]
      exact writeFormAt_append hfits hk hargs extra
    rw [hwrite, hwrite, hsame]
    exact writeAt_unended (by omega) _ _

end

end Setting

/-- **Too few arguments are never written, and too many only where they are not counted**: then what
is too much is lost. Counted arguments are refused with their number. -/
theorem History.write_arguments {catalog : Catalog} {numbering : Nat → Description}
    {outside : Text → Option Custom} {failed : Bool} {d : Deriver}
    {converters : List (BoundType × Converter)} (hcatalog : catalog.AdmittedBy (.first outside))
    (h : History catalog numbering outside failed d converters) {x : Description} {folding : Bool}
    {cs : List (Constructor Description)} (hx : x.IsVariant folding cs) {env : List BoundType}
    {c : Converter} (hc : (.mk x env, c) ∈ converters) :
    ∃ label plans, c.plan = .variant label folding plans ∧
      ∀ k ∈ cs, ∀ s : Setting, s.WritesArguments c label k ∧
        ∀ args t, s.write c (.variant k.tag args) = .ok t →
          k.count ≤ args.length ∧ (k.isCounted → args.length = k.count) := by
  obtain ⟨l, label, plans, hplan, htags, hcases⟩ := h.plans_of_variant hcatalog hx hc
  have hnodup := Setting.nodup_of_fits htags (hcases.imp fun _ _ hp => hp.1)
  refine ⟨label, plans, hplan, fun k hk s => ?_⟩
  obtain ⟨hlen, hzip⟩ := List.forall₂_iff_zip.1 hcases
  obtain ⟨p, hmem⟩ := exists_zip_right hlen hk
  have hwrites : s.WritesArguments c label k :=
    Setting.writesArguments hplan hnodup (List.of_mem_zip hmem).2 (hzip hmem).1
  refine ⟨hwrites, fun args t ht => ?_⟩
  cases hcounted : k.isCounted with
  | true =>
    have hargs : args.length = k.count := by
      by_contra hne
      cases (hwrites.counted hcounted args hne).symm.trans ht
    exact ⟨Nat.le_of_eq hargs.symm, fun _ => hargs⟩
  | false =>
    refine ⟨?_, fun h => absurd h (by simp)⟩
    by_contra hfew
    cases (hwrites.missing hcounted args (by omega)).symm.trans ht

namespace Arguments

/-- A constructor of each kind: a constant, a spliced list, the fields of a record, an argument. -/
def kinds : List (Constructor Description) :=
  [⟨"A", [], none, none, false⟩, ⟨"L", [.primitive "int"], none, none, true⟩,
    ⟨"R", [], none, some (.record [.needed "x" (.primitive "int")] none false), false⟩,
    ⟨"P", [.primitive "int"], none, none, false⟩]

/-- The variant with these constructors. -/
def sumOfKinds : Description := .sum (kinds.map .constructor)

/-- The plans of the constructors. -/
def kindPlans : List (CasePlan Plan) :=
  [⟨"A", none, .constant⟩, ⟨"L", none, .spliced (Converter.ofPrimitive .int)⟩,
    ⟨"R", none, .record ⟨"record", none, false, [.needed "x" (Converter.ofPrimitive .int)]⟩⟩,
    ⟨"P", none, .arguments [Converter.ofPrimitive .int]⟩]

/-- The converter of the variant. -/
def kindsConverter : Converter := ⟨.derived 0, "sum", .variant "sum" true kindPlans⟩

open Derivation Description in
theorem derive_kinds : derive [] (.description 0 sumOfKinds) [] {} =
    (.ok kindsConverter, ⟨1, [(⟨.description 0, []⟩, kindsConverter)]⟩) := by
  let define := define [] (depthBound [] sumOfKinds.size 0) [⟨.description 0, []⟩]
  have hint : build [] define ⟨[], none⟩ (.primitive "int") {} = (.ok (.ofPrimitive .int), {}) :=
    primitive_run rfl
  have hcases : buildCases [] define ⟨[], none⟩ false (kinds.map .constructor) {} =
      (.ok kindPlans, {}) :=
    buildCases_run constant_run (buildCases_run (spliced_run hint)
      (buildCases_run (inline_run (buildRecord_run rfl (buildFields_run hint buildFields_nil)))
        (buildCases_run (arguments_run (buildAll_run hint buildAll_nil)) buildCases_nil)))
  exact ofDescription_run rfl (sum_run hcases rfl)

theorem history_kinds : ∃ deriver, History [] (fun _ => sumOfKinds) (fun _ => none) false deriver
    [(.mk sumOfKinds [], kindsConverter)] :=
  ⟨_, History.start.describe (by decide) derive_kinds⟩

/-- The arguments of constructors of each kind, as they are written. -/
theorem write_arguments_kinds : ∃ deriver,
    History [] (fun _ => sumOfKinds) (fun _ => none) false deriver
      [(.mk sumOfKinds [], kindsConverter)] ∧
    ∃ label plans, kindsConverter.plan = .variant label true plans ∧
      ∀ k ∈ kinds, ∀ s : Setting, s.WritesArguments kindsConverter label k ∧
        ∀ args t, s.write kindsConverter (.variant k.tag args) = .ok t →
          k.count ≤ args.length ∧ (k.isCounted → args.length = k.count) := by
  obtain ⟨deriver, hhistory⟩ := history_kinds
  exact ⟨deriver, hhistory, hhistory.write_arguments (Catalog.admittedBy_nil _) .sum List.mem_cons_self⟩

/-- **Arguments are lost** behind a constant, a list and a record, and refused where they are
counted. -/
theorem arguments_lost :
    (Derivation.derive [] (.description 0 sumOfKinds) []).result {} = .ok kindsConverter ∧
    kinds.map Constructor.count = [0, 1, 1, 1] ∧
    ∀ deriver, let s : Setting := ⟨[], deriver, .standard⟩
      s.write kindsConverter (.variant "A" [.int 1]) = .ok (.atom "A") ∧
      s.write kindsConverter (.variant "L" [.list [.int 1], .int 2]) =
        .ok (.list [.atom "L", .atom "1"]) ∧
      s.write kindsConverter (.variant "R" [.record [("x", .int 1)], .int 2]) =
        .ok (.list [.atom "R", .list [.atom "x", .atom "1"]]) ∧
      s.write kindsConverter (.variant "P" [.int 1, .int 2]) =
        .error (.constructorArity "sexp_of_sum" "P" 1 2) :=
  ⟨congrArg Prod.fst derive_kinds, rfl, fun _ => ⟨rfl, rfl, rfl, rfl⟩⟩

end Arguments

end TypedSexp
