import TypedSexp.Proofs.Conversion.Independence
import TypedSexp.Proofs.Conversion.RoundTrip
import TypedSexp.Proofs.Derivation.Steps
/-!
# What earlier derivations leave behind

What a fresh deriver derives, every deriver derives, whatever it was asked for before, and the
converters are interchangeable; and the other way round if no derivation has been refused
(`History.recalls`). Two things are left behind that a later derivation can tell: a definition that
was complete stays remembered although one that it applies was refused (`Memory.refusal_recalled`),
and a definition that has been derived ends a chain of definitions that would otherwise have no end
(`Memory.endless_afresh`).
-/

namespace TypedSexp

open Derivation

/-- Where the first derivation succeeds, the second one is endless or gives an interchangeable
converter. -/
def Derivation.Ensures (catalog : Catalog) (x : Derivation Converter) (d : Deriver)
    (y : Derivation Converter) (d' : Deriver) : Prop :=
  ∀ c, x.result d = .ok c → y.result d' = .error .endless ∨ ∃ c', y.result d' = .ok c' ∧
    ∀ switches, Setting.Interchangeable ⟨catalog, (x d).2, switches⟩ ⟨catalog, (y d').2, switches⟩
      c c'

theorem Derivation.Ensures.interchangeable {catalog : Catalog} {x y : Derivation Converter}
    {d d' : Deriver} {c c' : Converter} (h : Ensures catalog x d y d') (hc : x.result d = .ok c)
    (hc' : y.result d' = .ok c') (switches : Switches) :
    Setting.Interchangeable ⟨catalog, (x d).2, switches⟩ ⟨catalog, (y d').2, switches⟩ c c' := by
  rcases h c hc with hendless | ⟨k, hk, hinterchangeable⟩
  · cases hendless.symm.trans hc'
  · obtain rfl := Except.ok.inj (hk.symm.trans hc')
    exact hinterchangeable switches

namespace History

variable {catalog : Catalog} {numbering : Nat → Description} {outside : Text → Option Custom}
  {failed : Bool} {d d' : Deriver} {converters : List (BoundType × Converter)} {target : Target}
  {args : List Target}

/-- What succeeds in a history in which nothing was refused succeeds in every other one. -/
theorem ensures (hcatalog : catalog.AdmittedBy (.first outside))
    (h : History catalog numbering outside false d converters)
    (h' : History catalog numbering outside failed d' converters)
    (hargs : ∀ a ∈ args, a.IsKnown (.first outside) numbering converters)
    (ht : target.IsKnown (.first outside) numbering converters) :
    Ensures catalog (derive catalog target args) d (derive catalog target args) d' := by
  intro c hc
  obtain ⟨env, t, henv, htype⟩ := denotes_of_derive hargs ht hc
  obtain ⟨-, hendures⟩ := (h.sturdy rfl).derive henv htype hc
  refine (hendures d').imp_right fun ⟨c', hc'⟩ => ⟨c', hc', ?_⟩
  exact (h.derived henv htype hc).interchangeable hcatalog (h'.derived henv htype hc')
    List.mem_cons_self List.mem_cons_self (BoundType.Twin.refl t).covers

/-- **What a derivation gives does not depend on earlier ones**: where it succeeds with a fresh
memory, it is endless or gives an interchangeable converter with any other, and the other way round
unless a derivation was refused before. -/
theorem recalls (hcatalog : catalog.AdmittedBy (.first outside))
    (h : History catalog numbering outside failed d converters)
    (hargs : ∀ a ∈ args, a.IsKnown (.first outside) numbering converters)
    (ht : target.IsKnown (.first outside) numbering converters) :
    Ensures catalog (derive catalog target args) d.clear (derive catalog target args) d ∧
      (failed = false →
        Ensures catalog (derive catalog target args) d (derive catalog target args) d.clear) := by
  refine ⟨h.clear.ensures hcatalog h hargs ht, ?_⟩
  rintro rfl
  exact h.ensures hcatalog h.clear hargs ht

end History

/-! ### Trees of integers, derived twice -/

theorem roseTree_admitted (outside : Text → Option Custom) :
    Catalog.AdmittedBy [roseTree] (.first outside) := by
  refine Catalog.isPlain.admittedBy (fun id body hb => ?_) _
  cases id with
  | zero =>
    obtain rfl := Option.some.inj hb
    simp [Description.isPlain, Description.fieldsPlain]
  | succ id => exact absurd hb (by simp [Catalog.body?])

/-- The derivation of trees of integers. -/
abbrev deriveRose : Derivation Converter :=
  derive [roseTree] (.definition 0) [.converter (.ofPrimitive .int)]

theorem deriveRose_succeeds : deriveRose.Succeeds :=
  fun d => roseTree_accepts [.ofPrimitive .int] d rfl

/-- Trees of integers are derived again where they are remembered and where they are not, and the
converters are interchangeable. -/
theorem History.recalls_rose : ∃ d k c c',
    History [roseTree] (fun _ => .sealed) (fun _ => none) false d
      [(.mk (.recursive 0 none) [.mk (.primitive "int") []], k)] ∧
    deriveRose.result d.clear = .ok c ∧ deriveRose.result d = .ok c' ∧
    ∀ switches, Setting.Interchangeable ⟨[roseTree], (deriveRose d.clear).2, switches⟩
      ⟨[roseTree], (deriveRose d).2, switches⟩ c c' := by
  obtain ⟨k, hk⟩ := deriveRose_succeeds {}
  have hint : (Target.converter (.ofPrimitive .int)).Denotes (.first fun _ => none)
      (fun _ => .sealed) [] [] (.mk (.primitive "int") []) := .builtin .int
  have hhistory := History.start.derived (.cons hint .nil) (.definition 0 _) hk
  obtain ⟨c, hc⟩ := deriveRose_succeeds (deriveRose {}).2.clear
  obtain ⟨c', hc'⟩ := deriveRose_succeeds (deriveRose {}).2
  have hknown (a : Target) (ha : a ∈ [Target.converter (.ofPrimitive .int)]) :
      a.IsKnown (.first fun _ => none) (fun _ => .sealed)
        [(.mk (.recursive 0 none) [.mk (.primitive "int") []], k)] := by
    obtain rfl := List.mem_singleton.1 ha
    exact .inl ⟨.int, rfl⟩
  have htarget : (Target.definition 0).IsKnown (.first fun _ => none) (fun _ => .sealed)
      [(.mk (.recursive 0 none) [.mk (.primitive "int") []], k)] := trivial
  have hensures := (hhistory.recalls (roseTree_admitted _) hknown htarget).1
  exact ⟨_, k, c, c', hhistory, hc, hc', hensures.interchangeable hc hc'⟩

namespace Memory

open Description

/-! ### A definition that applies one that is refused -/

/-- A definition that applies the next one, and has a field of an unknown type. -/
def knot : Definition :=
  ⟨"a", [], some (.record [.needed "f" (.applied 1 []), .needed "g" (.primitive "no_such_type")]
    none false)⟩

/-- A definition that applies the one before. -/
def loop : Definition := ⟨"b", [], some (.record [.needed "x" (.applied 0 [])] none false)⟩

/-- Both definitions. -/
def entangled : Catalog := [knot, loop]

/-- The second definition, with a link to the first. -/
def linked : Converter :=
  ⟨.derived 2, "b", .record ⟨"b", none, false, [.needed "x" ⟨.derived 0, "a", .link 0 0 []⟩]⟩⟩

/-- The memory after the first definition was refused. -/
def refused : Deriver := ⟨3, [(⟨.definition 1, []⟩, linked)]⟩

theorem depthBound_entangled : depthBound entangled 0 0 = 3 := by decide

theorem derive_entangled :
    derive entangled (.definition 0) [] {} = (.error (.unknownPrimitive "no_such_type"), refused) := by
  have hlink : define entangled 1 [requestOf 1 [], requestOf 0 []] 0 [] {} =
      (.ok ⟨.derived 0, "a", .link 0 0 []⟩, ⟨1, []⟩) :=
    define_underway (d := knot) rfl rfl rfl (by simp)
  have hb : define entangled 2 [requestOf 0 []] 1 [] {} = (.ok linked, refused) :=
    define_run (d := loop) rfl rfl rfl (by simp) (record_run rfl
      (buildFields_run ((applied_run (x := knot) buildAll_nil rfl).trans hlink) buildFields_nil))
  show define entangled (depthBound entangled 0 0) [] 0 [] {} = _
  rw [depthBound_entangled]
  refine define_run_error (d := knot) rfl rfl rfl (by simp) (record_run_error rfl ?_)
  exact buildFields_run_later ((applied_run (x := loop) buildAll_nil rfl).trans hb)
    (buildFields_run_error (primitive_run_error rfl))

theorem derive_entangled_afresh :
    (derive entangled (.definition 1) []).result refused.clear =
      .error (.unknownPrimitive "no_such_type") := by
  have hlink : define entangled 1 [requestOf 0 [], requestOf 1 []] 1 [] refused.clear =
      (.ok ⟨.derived 3, "b", .link 3 1 []⟩, ⟨4, []⟩) :=
    define_underway (d := loop) rfl rfl rfl (by simp)
  have ha : define entangled 2 [requestOf 1 []] 0 [] refused.clear =
      (.error (.unknownPrimitive "no_such_type"), ⟨4, []⟩) :=
    define_run_error (d := knot) rfl rfl rfl (by simp) (record_run_error rfl
      (buildFields_run_later ((applied_run (x := loop) buildAll_nil rfl).trans hlink)
        (buildFields_run_error (primitive_run_error rfl))))
  show (define entangled (depthBound entangled 0 0) [] 1 [] refused.clear).1 = _
  rw [depthBound_entangled, define_run_error (d := loop) rfl rfl rfl (by simp) (record_run_error rfl
    (buildFields_run_error ((applied_run (x := knot) buildAll_nil rfl).trans ha)))]

/-- A definition that applies itself through another one is refused, but not after the other one
was. -/
theorem refusal_recalled :
    (derive entangled (.definition 0) []).result {} = .error (.unknownPrimitive "no_such_type") ∧
    (derive entangled (.definition 0) [] {}).2 = refused ∧
    (derive entangled (.definition 1) []).result refused = .ok linked ∧
    (derive entangled (.definition 1) []).result refused.clear =
      .error (.unknownPrimitive "no_such_type") := by
  refine ⟨congrArg Prod.fst derive_entangled, congrArg Prod.snd derive_entangled, ?_,
    derive_entangled_afresh⟩
  show (define entangled (depthBound entangled 0 0) [] 1 [] refused).1 = _
  rw [depthBound_entangled, define_cached (d := loop) rfl rfl rfl]

/-! ### Definitions without an end -/

/-- A definition that applies itself to the next one. -/
def onward : Definition :=
  ⟨"a", ["x"], some (.record [.needed "g" (.applied 0 [.applied 1 []])] none false)⟩

/-- A definition that applies the last one. -/
def back : Definition :=
  ⟨"b", [], some (.record [.needed "h" (.applied 2 [.primitive "int"])] none false)⟩

/-- A definition that applies the first one to the second one. -/
def start : Definition :=
  ⟨"e", ["x"], some (.record [.needed "i" (.parameter 0 none), .needed "j" (.applied 0 [.applied 1 []])]
    none false)⟩

/-- These three definitions. -/
def spiral : Catalog := [onward, back, start]

section Spiral

variable {define' : DefinitionId → List Converter → Derivation Converter} {site : Site}
  {s s' : Deriver} {e : DescriptionFault} {c : Converter}

theorem build_back : build spiral define' site (.applied 1 []) s = define' 1 [] s :=
  applied_run (x := back) buildAll_nil rfl

/-- The first definition is applied to what the second one gives. -/
theorem build_onward (hb : define' 1 [] s = (.ok c, s')) :
    build spiral define' site (.applied 0 [.applied 1 []]) s = define' 0 [c] s' :=
  applied_run (x := onward) (buildAll_run (build_back.trans hb) buildAll_nil) rfl

theorem build_onward_error (hb : define' 1 [] s = (.error e, s')) :
    build spiral define' site (.applied 0 [.applied 1 []]) s = (.error e, s') :=
  applied_run_error (buildAll_run_error (build_back.trans hb))

/-- The last definition is applied to integers. -/
theorem build_start : build spiral define' site (.applied 2 [.primitive "int"]) s =
    define' 2 [.ofPrimitive .int] s :=
  applied_run (x := start) (buildAll_run (primitive_run rfl) buildAll_nil) rfl

end Spiral

/-- While the second definition is being derived, each application of it is another link, so the
first one is applied to ever new arguments: however deep derivations may nest, it has no end. -/
theorem define_onward_endless : ∀ (depth : Nat) (inProgress : List Request) (s : Deriver) (k : Nat)
    (name : Text) (plan : Plan), requestOf 1 [] ∈ inProgress → s.cache = [] → s.next = k + 1 →
    (∀ j, k ≤ j → ⟨.definition 0, [.derived j]⟩ ∉ inProgress) →
    ∃ s', define spiral depth inProgress 0 [⟨.derived k, name, plan⟩] s = (.error .endless, s')
  | 0, _, s, _, _, _, _, _, _, _ => ⟨s, define_zero⟩
  | depth + 1, inProgress, s, k, name, plan, hb, hcache, hnext, hfree => by
    have hlookup (r : Request) : s.cache.lookup r = none := by rw [hcache, List.lookup_nil]
    suffices hbuild : ∃ s', build spiral (define spiral depth
        (⟨.definition 0, [.derived k]⟩ :: inProgress)) ⟨[⟨.derived k, name, plan⟩], some "a"⟩
        (.applied 0 [.applied 1 []]) s = (.error .endless, s') by
      obtain ⟨s', hs'⟩ := hbuild
      exact ⟨s', define_run_error (d := onward) rfl rfl (hlookup _) (hfree k (Nat.le_refl k))
        (record_run_error rfl (buildFields_run_error hs'))⟩
    cases depth with
    | zero => exact ⟨s, build_onward_error define_zero⟩
    | succ depth =>
      have hlink : define spiral (depth + 1) (⟨.definition 0, [.derived k]⟩ :: inProgress) 1 [] s =
          (.ok ⟨.derived s.next, "b", .link s.next 1 []⟩, ⟨s.next + 1, s.cache⟩) :=
        define_underway (d := back) rfl rfl (hlookup _) (List.mem_cons_of_mem _ hb)
      have hnew (j : Nat) (hj : s.next ≤ j) :
          ⟨.definition 0, [.derived j]⟩ ∉ ⟨.definition 0, [.derived k]⟩ :: inProgress := by
        intro hmem
        rcases List.mem_cons.1 hmem with heq | hmem
        · simp only [Request.mk.injEq, List.cons.injEq, Identity.derived.injEq] at heq
          omega
        · exact hfree j (by omega) hmem
      obtain ⟨s', hs'⟩ := define_onward_endless (depth + 1)
        (⟨.definition 0, [.derived k]⟩ :: inProgress) ⟨s.next + 1, s.cache⟩ s.next "b" (.link s.next 1 [])
        (List.mem_cons_of_mem _ hb) hcache rfl hnew
      exact ⟨s', (build_onward hlink).trans hs'⟩

/-- The last definition has no end while the second one is being derived. -/
theorem define_start_endless (depth : Nat) {inProgress : List Request} {s : Deriver}
    (hcache : s.cache = []) (hb : requestOf 1 [] ∈ inProgress)
    (he : requestOf 2 [.ofPrimitive .int] ∉ inProgress)
    (hfree : ∀ j, ⟨.definition 0, [.derived j]⟩ ∉ inProgress) :
    ∃ s', define spiral depth inProgress 2 [.ofPrimitive .int] s = (.error .endless, s') := by
  have hlookup (r : Request) : s.cache.lookup r = none := by rw [hcache, List.lookup_nil]
  cases depth with
  | zero => exact ⟨s, define_zero⟩
  | succ depth =>
    suffices hbuild : ∃ s', build spiral (define spiral depth
        (requestOf 2 [.ofPrimitive .int] :: inProgress)) ⟨[.ofPrimitive .int], some "e"⟩
        (.applied 0 [.applied 1 []]) s = (.error .endless, s') by
      obtain ⟨s', hs'⟩ := hbuild
      exact ⟨s', define_run_error (d := start) rfl rfl (hlookup _) he (record_run_error rfl
        (buildFields_run_later parameter_run (buildFields_run_error hs')))⟩
    cases depth with
    | zero => exact ⟨s, build_onward_error define_zero⟩
    | succ depth =>
      have hlink : define spiral (depth + 1) (requestOf 2 [.ofPrimitive .int] :: inProgress) 1 [] s =
          (.ok ⟨.derived s.next, "b", .link s.next 1 []⟩, ⟨s.next + 1, s.cache⟩) :=
        define_underway (d := back) rfl rfl (hlookup _) (List.mem_cons_of_mem _ hb)
      obtain ⟨s', hs'⟩ := define_onward_endless (depth + 1)
        (requestOf 2 [.ofPrimitive .int] :: inProgress) ⟨s.next + 1, s.cache⟩ s.next "b" (.link s.next 1 [])
        (List.mem_cons_of_mem _ hb) hcache rfl
        fun j _ hmem => hfree j (by simpa [requestOf] using hmem)
      exact ⟨s', (build_onward hlink).trans hs'⟩

/-- The second definition has no end where nothing is remembered. -/
theorem define_back_endless (depth : Nat) {inProgress : List Request} {s : Deriver}
    (hcache : s.cache = []) (hb : requestOf 1 [] ∉ inProgress)
    (he : requestOf 2 [.ofPrimitive .int] ∉ inProgress)
    (hfree : ∀ j, ⟨.definition 0, [.derived j]⟩ ∉ inProgress) :
    ∃ s', define spiral depth inProgress 1 [] s = (.error .endless, s') := by
  cases depth with
  | zero => exact ⟨s, define_zero⟩
  | succ depth =>
    obtain ⟨s', hs'⟩ := define_start_endless depth (s := s) hcache
      (List.mem_cons_self (a := requestOf 1 []) (l := inProgress)) (by simp [he])
      fun j hmem => hfree j (by simpa [requestOf] using hmem)
    have hnone : s.cache.lookup (requestOf 1 []) = none := by rw [hcache, List.lookup_nil]
    exact ⟨s', define_run_error (d := back) rfl rfl hnone hb (record_run_error rfl
      (buildFields_run_error (build_start.trans hs')))⟩

/-- The converter of the second definition, with a link to the last one. -/
def backConverter : Converter :=
  ⟨.derived 2, "b", .record ⟨"b", none, false,
    [.needed "h" ⟨.derived 0, "e", .link 0 2 [Converter.ofPrimitive .int]⟩]⟩⟩

/-- The converter of the first definition, with a link to itself. -/
def onwardConverter : Converter :=
  ⟨.derived 5, "a[b]", .record ⟨"a", none, false,
    [.needed "g" ⟨.derived 3, "a", .link 3 0 [backConverter]⟩]⟩⟩

/-- The converter of the last definition. -/
def startConverter : Converter :=
  ⟨.derived 7, "e[int]", .record ⟨"e", none, false,
    [.needed "i" (.ofPrimitive .int), .needed "j" onwardConverter]⟩⟩

/-- The memory after a description of integers was derived. -/
def counted : Deriver := ⟨0, [(⟨.description 0, []⟩, .ofPrimitive .int)]⟩

/-- The memory after the last definition was derived. -/
def started : Deriver :=
  ⟨8, (requestOf 2 [.ofPrimitive .int], startConverter) ::
    (requestOf 0 [backConverter], onwardConverter) :: (requestOf 1 [], backConverter) ::
    counted.cache⟩

/-- The last definition is derived: the second one is complete when the first one is applied to
it. -/
theorem define_start (depth : Nat) :
    define spiral (depth + 3) [] 2 [.ofPrimitive .int] counted = (.ok startConverter, started) := by
  have hlink : define spiral (depth + 1) [requestOf 1 [], requestOf 2 [.ofPrimitive .int]] 2
      [.ofPrimitive .int] counted =
      (.ok ⟨.derived 0, "e", .link 0 2 [Converter.ofPrimitive .int]⟩, ⟨1, counted.cache⟩) :=
    define_underway (d := start) rfl rfl rfl (by simp)
  have hb : define spiral (depth + 2) [requestOf 2 [.ofPrimitive .int]] 1 [] counted =
      (.ok backConverter, ⟨3, (requestOf 1 [], backConverter) :: counted.cache⟩) :=
    define_run (d := back) rfl rfl rfl (by simp) (record_run rfl
      (buildFields_run (build_start.trans hlink) buildFields_nil))
  have hself : define spiral (depth + 1) [requestOf 0 [backConverter], requestOf 2 [.ofPrimitive .int]] 0
      [backConverter] ⟨3, (requestOf 1 [], backConverter) :: counted.cache⟩ =
      (.ok ⟨.derived 3, "a", .link 3 0 [backConverter]⟩,
        ⟨4, (requestOf 1 [], backConverter) :: counted.cache⟩) :=
    define_underway (d := onward) rfl rfl rfl (by simp)
  have ha : define spiral (depth + 2) [requestOf 2 [.ofPrimitive .int]] 0 [backConverter]
      ⟨3, (requestOf 1 [], backConverter) :: counted.cache⟩ =
      (.ok onwardConverter, ⟨6, (requestOf 0 [backConverter], onwardConverter) ::
        (requestOf 1 [], backConverter) :: counted.cache⟩) :=
    define_run (d := onward) rfl rfl rfl (by simp) (record_run rfl (buildFields_run
      ((build_onward (define_cached (d := back) rfl rfl rfl)).trans hself) buildFields_nil))
  exact define_run (d := start) rfl rfl rfl (by simp) (record_run rfl (buildFields_run parameter_run
    (buildFields_run ((build_onward hb).trans ha) buildFields_nil)))

theorem ofTargets_int (catalog : Catalog) :
    ofTargets catalog [.description 0 (.primitive "int")] {} = (.ok [.ofPrimitive .int], counted) := by
  have hint : ofTarget catalog [] (.description 0 (.primitive "int")) {} =
      (.ok (.ofPrimitive .int), counted) := by
    rw [ofTarget, ofDescription]
    simp only [build]
    rfl
  rw [ofTargets, bind_run hint]
  rfl

/-- A definition that is derived for integers is derived for their converter. -/
theorem derive_int (catalog : Catalog) (id : DefinitionId) :
    derive catalog (.definition id) [.description 0 (.primitive "int")] {} =
      ofDefinition catalog id [.ofPrimitive .int] counted :=
  bind_run (ofTargets_int catalog)

theorem derive_start : derive spiral (.definition 2) [.description 0 (.primitive "int")] {} =
    (.ok startConverter, started) := by
  obtain ⟨n, hn⟩ : ∃ n, depthBound spiral 0 1 = n + 3 := ⟨_, rfl⟩
  rw [derive_int]
  show define spiral (depthBound spiral 0 1) [] 2 [.ofPrimitive .int] counted = _
  rw [hn]
  exact define_start n

/-- A definition that has no end with a fresh memory is derived where another one is remembered. -/
theorem endless_afresh :
    (derive spiral (.definition 2) [.description 0 (.primitive "int")] {}).2 = started ∧
    (derive spiral (.definition 1) []).result started = .ok backConverter ∧
    (derive spiral (.definition 1) []).result started.clear = .error .endless := by
  refine ⟨congrArg Prod.snd derive_start, ?_, ?_⟩
  · obtain ⟨n, hn⟩ : ∃ n, depthBound spiral 0 0 = n + 1 := ⟨_, rfl⟩
    show (define spiral (depthBound spiral 0 0) [] 1 [] started).1 = _
    rw [hn, define_cached (d := back) rfl rfl rfl]
  · obtain ⟨s', hs'⟩ := define_back_endless (depthBound spiral 0 0)
      (s := started.clear) rfl List.not_mem_nil List.not_mem_nil fun _ => List.not_mem_nil
    exact congrArg Prod.fst hs'

end Memory

end TypedSexp
