import TypedSexp.Proofs.Conversion.Reading
import TypedSexp.Proofs.Conversion.RoundTrip
/-!
# What is read is written

`Session.read_write`: whatever a converter of a regular type reads, in whatever spelling, it writes;
what is written reads as the same value, and writing that gives the same tree again. Only a default
can be in the way: a link that reading did not follow may stop the writing of what the default
holds.
-/

namespace TypedSexp

/-- From a memory of a session, what is read is written, reads as an equal value and is a normal
form; or a link stops the writing, if derivation does not accept all definitions that the defaults
go through. -/
theorem Session.recalled_read_write {numbering : Nat → Description} {catalog : Catalog}
    {deriver : Deriver}
    {converters : List (BoundType × Converter)} (h : Session numbering catalog deriver converters)
    {d : Description} {env : List BoundType} {c : Converter} (hc : (.mk d env, c) ∈ converters)
    {Reaches : DefinitionId → List BoundType → Prop} {Through : DefinitionId → Nat → Prop}
    (hcatalog : catalog.IsRegular Reaches Through) (hd : d.Regular catalog Reaches Through env)
    {switches : Switches}
    (hopt : ¬ (switches.writesOldOption = true ∧ switches.readsOldOption = false)) {node : Node}
    {v : Value} (hread : Setting.read ⟨catalog, deriver, switches⟩ c node = .ok v)
    (hv : v.IsSpelled) :
    Yields (catalog.Rejects Through) (Setting.write ⟨catalog, deriver, switches⟩ c v) fun t =>
      ∀ node', node'.sexp = t → ∃ w, Setting.read ⟨catalog, deriver, switches⟩ c node' = .ok w ∧
        v.Alike w ∧ Setting.write ⟨catalog, deriver, switches⟩ c w = .ok t := by
  obtain ⟨l, params, hsound, hsupplies, hbuilt⟩ := h.built hc switches
  have haccepts : ¬ catalog.Rejects Through → ∀ id count, Through id count → catalog.Accepts id count :=
    Catalog.accepts_of_not_rejects
  have hreg : Setting.Regular ⟨catalog, deriver, switches⟩ (catalog.Rejects Through) l Reaches c.plan :=
    regular_of_realises hsound hcatalog haccepts (.mk hsupplies.1 hsupplies.2 hbuilt) hd
  exact Setting.Takes.write_returns (s := ⟨catalog, deriver, switches⟩) hopt
    (hreg.takes_of_readWithin hsound hcatalog haccepts hread hv)

/-- **What has been read can be written, and means the same.** A value that a converter of a session
reads is written, if its type is regular and its integers have decimal texts. What is written reads
as an equal value, and is a normal form: that value is written as the same tree. Or a link stops the
writing, if derivation does not accept all definitions that the defaults go through. -/
theorem Session.read_write {numbering : Nat → Description} {catalog : Catalog} {deriver : Deriver}
    {converters : List (BoundType × Converter)} (h : Session numbering catalog deriver converters)
    {d : Description} {env : List BoundType} {c : Converter} (hc : (.mk d env, c) ∈ converters)
    {Reaches : DefinitionId → List BoundType → Prop} {Through : DefinitionId → Nat → Prop}
    (hcatalog : catalog.IsRegular Reaches Through) (hd : d.Regular catalog Reaches Through env)
    {switches : Switches}
    (hopt : ¬ (switches.writesOldOption = true ∧ switches.readsOldOption = false)) {node : Node}
    {v : Value} {d₁ : Deriver}
    (hread : (Setting.live ⟨catalog, deriver, switches⟩).read c node deriver = (.ok v, d₁))
    (hv : v.IsSpelled) :
    let s : Setting := ⟨catalog, deriver, switches⟩
    (∃ t d₂, s.live.write c v d₁ = (.ok t, d₂) ∧
      ∀ node', node'.sexp = t → ∃ w d₃, s.live.read c node' d₂ = (.ok w, d₃) ∧ v.Alike w ∧
        ∃ d₄, s.live.write c w d₃ = (.ok t, d₄)) ∨
    (catalog.Rejects Through ∧
      ∃ e d₂, s.live.write c v d₁ = (.error e, d₂) ∧ e.stops = true) := by
  intro s
  obtain ⟨hlinks₁, hvalue⟩ := Setting.of_live_read hread
  have hstill (m : Deriver) (hm : c.plan.Pursues catalog d₁ false m) :=
    (h.pursue hc (hlinks₁.trans hm)).recalled_read_write hc hcatalog hd hopt (hvalue m hm) hv
  rcases Setting.live_write_yields (s := s) hstill with ⟨t, d₂, hrun, hlinks₂, hback⟩ | hstop
  · refine .inl ⟨t, d₂, hrun, fun node' hnode => ?_⟩
    obtain ⟨m, -, -, hm, hread', -⟩ := (Setting.live_read s c node' d₂).exists_memory
    obtain ⟨w, hw, halike, -⟩ := hback m hm node' hnode
    have hrun' : s.live.read c node' d₂ = (.ok w, (s.live.read c node' d₂).2) :=
      Prod.ext (hread'.symm.trans hw) rfl
    refine ⟨w, _, hrun', halike, ?_⟩
    obtain ⟨hlinks₃, hvalue'⟩ := Setting.of_live_read hrun'
    obtain ⟨m', -, -, hm', hwrite, -⟩ := (Setting.live_write s c w _).exists_memory
    obtain ⟨w', hw', -, ht⟩ := hback m' (hlinks₃.trans hm') node' hnode
    obtain rfl := Except.ok.inj ((hvalue' m' hm').symm.trans hw')
    exact ⟨_, Prod.ext (hwrite.symm.trans ht) rfl⟩
  · exact .inr hstop

/-! ### Fields in any order -/

namespace Normal

/-- A number, another one that may be left out, and a flag. -/
def fields : List (Field Description) :=
  [⟨"n", some (.primitive "int"), .required, none, .never, none⟩,
   ⟨"m", some (.primitive "int"), .option, some ⟨.int 7, 0⟩, .never, none⟩,
   ⟨"on", none, .sexpBool, none, .never, none⟩]

/-- The record of these fields. -/
def settings : Description := .record fields none false

/-- The converter of that record. -/
def settingsConverter : Converter :=
  ⟨.derived 0, "record", .record ⟨"record", none, false,
    [⟨"n", .valued (Converter.ofPrimitive .int) .never, none, .never⟩,
     ⟨"m", .valued (Converter.ofPrimitive .int) .never, some (.int 7), .never⟩,
     ⟨"on", .flag, some (.bool false), .never⟩]⟩⟩

theorem session_settings : ∃ deriver,
    Session (fun _ => settings) [] deriver [(.mk settings [], settingsConverter)] := by
  have hderive : (Derivation.derive [] (.description 0 settings) [] {}).1 = .ok settingsConverter := by
    simp only [Derivation.derive, Derivation.ofTargets, Derivation.ofTarget, Derivation.ofDescription,
      settings, fields, Description.build, Description.buildRecord, Description.buildFields,
      Description.buildField]
    rfl
  have hmeans : (Target.description 0 settings).Means (fun _ => settings) [] [] (.mk settings []) :=
    .description 0 [] rfl
  have h := Session.derive .nil hmeans .start
  rw [hderive] at h
  exact ⟨_, h⟩

theorem settings_regular : settings.Regular [] (fun _ _ => False) (fun _ _ => False) [] := by
  have hint : (Description.primitive "int").Regular [] (fun _ _ => False) (fun _ _ => False) [] :=
    .primitive (by decide)
  refine .record ?_ ?_ ?_
  · decide
  · intro f hf d dflt _ hd hdflt
    simp only [fields, List.mem_cons, List.not_mem_nil, or_false] at hf
    rcases hf with rfl | rfl | rfl
    · cases hdflt
    · obtain rfl := Option.some.inj hd
      obtain rfl := Option.some.inj hdflt
      exact .primitive rfl (.int (t := "7") (by decide))
    · cases hd
  · intro f hf d _ hd
    simp only [fields, List.mem_cons, List.not_mem_nil, or_false] at hf
    rcases hf with rfl | rfl | rfl
    · exact Option.some.inj hd ▸ hint
    · exact Option.some.inj hd ▸ hint
    · cases hd

/-- A record with its fields in another order, a number in another base and a field left out is
read, and what is read is written. -/
theorem read_write_settings : ∃ deriver d₁,
    let s : Setting := ⟨[], deriver, .standard⟩
    let v : Value := .record [("n", .int 16), ("m", .int 7), ("on", .bool true)]
    s.live.read settingsConverter
      (.ofSexp (.list [.list [.atom "on"], .list [.atom "n", .atom "0x1_0"]])) deriver =
        (.ok v, d₁) ∧
    ∃ t d₂, s.live.write settingsConverter v d₁ = (.ok t, d₂) ∧
      ∀ node', node'.sexp = t →
        ∃ w d₃, s.live.read settingsConverter node' d₂ = (.ok w, d₃) ∧ v.Alike w ∧
          ∃ d₄, s.live.write settingsConverter w d₃ = (.ok t, d₄) := by
  obtain ⟨deriver, hsession⟩ := session_settings
  have hread : (Setting.live ⟨[], deriver, .standard⟩).read settingsConverter
      (.ofSexp (.list [.list [.atom "on"], .list [.atom "n", .atom "0x1_0"]])) deriver =
        (.ok (.record [("n", .int 16), ("m", .int 7), ("on", .bool true)]), deriver) := rfl
  have hregular : Catalog.IsRegular [] (fun _ _ => False) fun _ _ => False := fun _ _ _ h => h.elim
  have hspelled : (Value.record [("n", .int 16), ("m", .int 7), ("on", .bool true)]).IsSpelled := by
    unfold Value.IsSpelled
    decide
  refine ⟨deriver, deriver, hread, (hsession.read_write List.mem_cons_self hregular settings_regular
    (by decide) hread hspelled).resolve_right ?_⟩
  rintro ⟨⟨_, _, hthrough, -⟩, -⟩
  exact hthrough

end Normal

/-! ### A default behind a link without an end -/

namespace Coil

open Derivation Description

/-- What the fifth definition is for the first one, or a default. -/
def defaulted : Field Description :=
  ⟨"d", some (.recursive 4 (some [.applied 0 []])), .required, some ⟨tip, 0⟩, .never, none⟩

/-- The record of that field. -/
def defaulting : Description := .record [defaulted] none false

/-- The plan of that field. -/
def defaultedPlan : FieldPlan Plan where
  name := "d"
  form := .valued ⟨.derived 14, "b", .link 14 4 [outerAround 0]⟩ .never
  absent := some tip
  dropping := .never

/-- The converter of that record. -/
def defaultingConverter : Converter :=
  ⟨.derived 15, "record", .record ⟨"record", none, false, [defaultedPlan]⟩⟩

/-- After that was derived. -/
def afterDefaulting : Deriver :=
  ⟨16, (⟨.description 1, []⟩, defaultingConverter) :: (remembersBackward {}).cache⟩

theorem derive_defaulting : derive coil (.description 1 defaulting) [] {} =
    (.ok defaultingConverter, afterDefaulting) := by
  obtain ⟨n, hn⟩ : ∃ n, depthBound coil defaulting.size 0 = n + 5 := ⟨_, rfl⟩
  have hlink : build coil (define coil (n + 5) [⟨.description 1, []⟩]) ⟨[], none⟩
      (.recursive 4 (some [.applied 0 []])) {} =
      (.ok ⟨.derived 14, "b", .link 14 4 [outerAround 0]⟩, ⟨15, (remembersBackward {}).cache⟩) :=
    recursive_run (x := back) (buildAll_run (build_outer.trans
      (define_backward n (idle_description 1))) buildAll_nil) rfl
  have hfields : buildFields coil (define coil (depthBound coil defaulting.size 0)
      [⟨.description 1, []⟩]) ⟨[], none⟩ [defaulted] {} =
      (.ok [defaultedPlan], ⟨15, (remembersBackward {}).cache⟩) := by
    rw [hn, buildFields, defaulted, buildField_required, buildFields]
    simp only [bind_assoc, bind_run hlink]
    rfl
  exact ofDescription_run rfl (record_run rfl hfields)

theorem session_defaulting : Session (fun _ => defaulting) coil afterDefaulting
    [(.mk defaulting [], defaultingConverter)] := by
  have hmeans : (Target.description 1 defaulting).Means (fun _ => defaulting) [] []
      (.mk defaulting []) := .description 1 [] (by decide)
  have h := (session_coil _).derive .nil hmeans
  rwa [derive_defaulting] at h

theorem write_defaulting (follow : FollowBack Remembering) (switches : Switches) :
    defaultingConverter.plan.write follow switches (.record [("d", tip)]) =
      (((follow 14 4 [outerAround 0] tip >>= fun t => outcome (.ok (some (.list [.atom "d", t])))) >>=
        fun entry => (outcome (.ok []) : Remembering WriteError (List Sexp)) >>= fun rest =>
          outcome (.ok (entry.toList ++ rest))) >>= fun ts => outcome (.ok (.list ts))) := rfl

/-- **A link without an end stops the writing of a default that was read**: the default is of the
type of its field, and nothing was read through the link. -/
theorem read_not_written :
    Session (fun _ => defaulting) coil afterDefaulting [(.mk defaulting [], defaultingConverter)] ∧
    HasType coil (fun f => f.rule = .never) (fun id count => id = 4 ∧ count = 1) 0 []
      (.recursive 4 (some [.applied 0 []])) tip ∧
    ∀ switches,
      (Setting.live ⟨coil, afterDefaulting, switches⟩).read defaultingConverter (.list [] none)
        afterDefaulting = (.ok (.record [("d", tip)]), afterDefaulting) ∧
      ∃ d, (Setting.live ⟨coil, afterDefaulting, switches⟩).write defaultingConverter
        (.record [("d", tip)]) afterDefaulting = (.error .endless, d) := by
  refine ⟨session_defaulting, .recursive (tip_hasType [.mk (.applied 0 []) []]),
    fun switches => ⟨rfl, ?_⟩⟩
  obtain ⟨levels, hlevels⟩ : ∃ n, (Value.record [("d", tip)]).depth + coil.size +
      defaultingConverter.plan.size = n + 2 := ⟨_, rfl⟩
  obtain ⟨d, hlink⟩ := write_around defaultingConverter afterDefaulting switches levels
  refine ⟨d, ?_⟩
  rw [Course.write]
  show (Setting.live ⟨coil, afterDefaulting, switches⟩).writeWithin ((Value.record [("d", tip)]).depth +
    coil.size + defaultingConverter.plan.size) _ _ _ = _
  rw [hlevels, Course.writeWithin_of_isSettled rfl]
  exact (congrFun (write_defaulting _ _) _).trans
    (bind_run_error (bind_run_error (bind_run_error hlink)))

end Coil

end TypedSexp
