import TypedSexp.Proofs.Conversion.Settle
import TypedSexp.Proofs.Derivation.Steps
/-!
# Definitions that wind around each other

Five definitions, of which the fifth one has an end or not, by what is remembered when it is derived
(`Coil.define_start`, `Coil.define_back_endless`). While it is being derived, each reference to it
becomes another link, so a definition that is applied to such a link is never met again; if it is
remembered for its argument, it is complete before anything is applied to it. So what is derived
first decides which links have an end: the order of two constructors (`Coil.settle_forward`,
`Coil.settle_backward`), or which of two links was followed first (`Coil.ofLink_back_first`,
`Coil.ofLink_back_second`).
-/

namespace TypedSexp

open Derivation

namespace Coil

open Description

/-- Applied inside the next definition. -/
def outer : Definition := ⟨"p", [], some (.record [.needed "u" (.applied 1 [])] none false)⟩

/-- Applies the third definition to the first one. -/
def inner : Definition :=
  ⟨"q", [], some (.record [.needed "v" (.applied 2 [.applied 0 []])] none false)⟩

/-- Applies the fourth definition to the fifth one. -/
def start : Definition :=
  ⟨"e", ["x"], some (.record [.needed "j"
    (.applied 3 [.applied 4 [.parameter 0 none], .parameter 0 none])] none false)⟩

/-- Applies itself to the fifth definition. -/
def onward : Definition :=
  ⟨"a", ["y", "x"], some (.record [.needed "g"
    (.applied 3 [.applied 4 [.parameter 1 none], .parameter 1 none])] none false)⟩

/-- Has a list of what the third definition is. -/
def back : Definition :=
  ⟨"b", ["x"], some (.record [.needed "h" (.list (.applied 2 [.parameter 0 none]))] none false)⟩

/-- These five definitions. -/
def coil : Catalog := [outer, inner, start, onward, back]

section Steps

variable {extra : Catalog} {define' : DefinitionId → List Converter → Derivation Converter}
  {site : Site} {s s' : Deriver} {e : DescriptionFault} {c x : Converter} {i : Int}

theorem build_outer : build (coil ++ extra) define' site (.applied 0 []) s = define' 0 [] s :=
  applied_run (x := outer) buildAll_nil rfl

theorem build_inner : build (coil ++ extra) define' site (.applied 1 []) s = define' 1 [] s :=
  applied_run (x := inner) buildAll_nil rfl

theorem build_start (hx : build (coil ++ extra) define' site d s = (.ok x, s')) :
    build (coil ++ extra) define' site (.applied 2 [d]) s = define' 2 [x] s' :=
  applied_run (x := start) (buildAll_run hx buildAll_nil) rfl

theorem build_back (hx : site.parameter i none = .ok x) :
    build (coil ++ extra) define' site (.applied 4 [.parameter i none]) s = define' 4 [x] s :=
  applied_run (x := back) (buildAll_run (parameter_run_of hx) buildAll_nil) rfl

theorem build_onward (hx : site.parameter i none = .ok x) (hb : define' 4 [x] s = (.ok c, s')) :
    build (coil ++ extra) define' site
        (.applied 3 [.applied 4 [.parameter i none], .parameter i none]) s =
      define' 3 [c, x] s' :=
  applied_run (x := onward) (buildAll_run ((build_back hx).trans hb)
    (buildAll_run (parameter_run_of hx) buildAll_nil)) rfl

theorem build_onward_error (hx : site.parameter i none = .ok x)
    (hb : define' 4 [x] s = (.error e, s')) :
    build (coil ++ extra) define' site
        (.applied 3 [.applied 4 [.parameter i none], .parameter i none]) s =
      (.error e, s') :=
  applied_run_error (buildAll_run_error ((build_back hx).trans hb))

end Steps

/-- Nothing with this argument is remembered or being derived. -/
structure Unseen (x : Converter) (inProgress : List Request) (s : Deriver) : Prop where
  remembered : ∀ r, x.identity ∈ r.args → s.cache.lookup r = none
  underway : ∀ r ∈ inProgress, x.identity ∉ r.args

section Unseen

variable {x : Converter} {inProgress : List Request} {s : Deriver} {id : DefinitionId}
  {args : List Converter}

theorem lookup_of_forall_not_mem (h : ∀ e ∈ s.cache, x.identity ∉ e.1.args) (r : Request)
    (hr : x.identity ∈ r.args) : s.cache.lookup r = none := by
  refine List.lookup_eq_none_iff.2 fun e he => ?_
  have hne : r ≠ e.1 := by
    rintro rfl
    exact h e he hr
  simpa using hne

theorem Unseen.lookup (h : Unseen x inProgress s) (hx : x ∈ args) :
    s.cache.lookup (requestOf id args) = none :=
  h.remembered _ (List.mem_map_of_mem hx)

theorem Unseen.not_mem (h : Unseen x inProgress s) (hx : x ∈ args) :
    requestOf id args ∉ inProgress :=
  fun hmem => h.underway _ hmem (List.mem_map_of_mem hx)

end Unseen

/-! ### Where a derivation ends -/

/-- The converter of the fifth definition for an argument, if `n` is the next number. -/
def backOf (x : Converter) (n : Nat) : Converter :=
  ⟨.derived (n + 3), definitionName back [x], .record ⟨"b", none, false,
    [.needed "h" ⟨.derived (n + 1), "e list", .list "b" ⟨.derived n, "e", .link n 2 [x]⟩⟩]⟩⟩

/-- The converter of the fourth definition for these. -/
def onwardOf (x : Converter) (n : Nat) : Converter :=
  ⟨.derived (n + 6), definitionName onward [backOf x n, x], .record ⟨"a", none, false,
    [.needed "g" ⟨.derived (n + 4), "a", .link (n + 4) 3 [backOf x n, x]⟩]⟩⟩

/-- The converter of the third definition. -/
def startOf (x : Converter) (n : Nat) : Converter :=
  ⟨.derived (n + 8), definitionName start [x], .record ⟨"e", none, false,
    [.needed "j" (onwardOf x n)]⟩⟩

/-- The memory after that. -/
def wound (x : Converter) (s : Deriver) : Deriver :=
  ⟨s.next + 9, (requestOf 2 [x], startOf x s.next) ::
    (requestOf 3 [backOf x s.next, x], onwardOf x s.next) ::
    (requestOf 4 [x], backOf x s.next) :: s.cache⟩

/-- The third definition is derived: the fifth one is complete when the fourth one is applied to
it. -/
theorem define_start (depth : Nat) {extra : Catalog} {x : Converter} {inProgress : List Request} {s : Deriver}
    (h : Unseen x inProgress s) :
    define (coil ++ extra) (depth + 3) inProgress 2 [x] s = (.ok (startOf x s.next), wound x s) := by
  have hx : x ∈ [x] := List.mem_cons_self
  have hlink : define (coil ++ extra) (depth + 1) (requestOf 4 [x] :: requestOf 2 [x] :: inProgress) 2 [x] s =
      (.ok ⟨.derived s.next, "e", .link s.next 2 [x]⟩, ⟨s.next + 1, s.cache⟩) :=
    define_underway (d := start) rfl rfl (h.lookup hx) (by simp)
  have hb : define (coil ++ extra) (depth + 2) (requestOf 2 [x] :: inProgress) 4 [x] s =
      (.ok (backOf x s.next), ⟨s.next + 4, (requestOf 4 [x], backOf x s.next) :: s.cache⟩) :=
    define_run (d := back) rfl rfl (h.lookup hx) (by simp [h.not_mem hx]) (record_run rfl
      (buildFields_run (list_run ((build_start parameter_run).trans hlink)) buildFields_nil))
  have hlookup : (⟨s.next + 4, (requestOf 4 [x], backOf x s.next) :: s.cache⟩ : Deriver).cache.lookup
      (requestOf 3 [backOf x s.next, x]) = none := by
    rw [List.lookup_cons, beq_false_of_ne (by simp)]
    exact h.lookup (by simp)
  have hself : define (coil ++ extra) (depth + 1)
      (requestOf 3 [backOf x s.next, x] :: requestOf 2 [x] :: inProgress) 3 [backOf x s.next, x]
      ⟨s.next + 4, (requestOf 4 [x], backOf x s.next) :: s.cache⟩ =
      (.ok ⟨.derived (s.next + 4), "a", .link (s.next + 4) 3 [backOf x s.next, x]⟩,
        ⟨s.next + 5, (requestOf 4 [x], backOf x s.next) :: s.cache⟩) :=
    define_underway (d := onward) rfl rfl hlookup (by simp)
  have hcached : define (coil ++ extra) (depth + 1)
      (requestOf 3 [backOf x s.next, x] :: requestOf 2 [x] :: inProgress) 4 [x]
      ⟨s.next + 4, (requestOf 4 [x], backOf x s.next) :: s.cache⟩ =
      (.ok (backOf x s.next), ⟨s.next + 4, (requestOf 4 [x], backOf x s.next) :: s.cache⟩) :=
    define_cached (d := back) rfl rfl List.lookup_cons_self
  have ha : define (coil ++ extra) (depth + 2) (requestOf 2 [x] :: inProgress) 3 [backOf x s.next, x]
      ⟨s.next + 4, (requestOf 4 [x], backOf x s.next) :: s.cache⟩ =
      (.ok (onwardOf x s.next), ⟨s.next + 7, (requestOf 3 [backOf x s.next, x], onwardOf x s.next) ::
        (requestOf 4 [x], backOf x s.next) :: s.cache⟩) :=
    define_run (d := onward) rfl rfl hlookup (by simp [h.not_mem]) (record_run rfl
      (buildFields_run ((build_onward rfl hcached).trans hself) buildFields_nil))
  exact define_run (d := start) rfl rfl (h.lookup hx) (h.not_mem hx) (record_run rfl
    (buildFields_run ((build_onward rfl hb).trans ha) buildFields_nil))

/-! ### Where it has no end -/

section Endless

variable {extra : Catalog} {x : Converter} {s : Deriver}

/-- While the fifth definition is being derived, each application of it is another link, so the
fourth one is applied to ever new arguments: however deep derivations may nest, it has no end. -/
theorem define_onward_endless : ∀ (depth : Nat) (inProgress : List Request) (s : Deriver) (k : Nat)
    (name : Text) (plan : Plan), requestOf 4 [x] ∈ inProgress →
    (∀ r, x.identity ∈ r.args → s.cache.lookup r = none) → s.next = k + 1 →
    (∀ j, k ≤ j → ⟨.definition 3, [.derived j, x.identity]⟩ ∉ inProgress) →
    ∃ s', define (coil ++ extra) depth inProgress 3 [⟨.derived k, name, plan⟩, x] s =
      (.error .endless, s')
  | 0, _, s, _, _, _, _, _, _, _ => ⟨s, define_zero⟩
  | depth + 1, inProgress, s, k, name, plan, hb, hcache, hnext, hfree => by
    suffices hbuild : ∃ s', build (coil ++ extra) (define (coil ++ extra) depth
        (⟨.definition 3, [.derived k, x.identity]⟩ :: inProgress))
        ⟨[⟨.derived k, name, plan⟩, x], some "a"⟩
        (.applied 3 [.applied 4 [.parameter 1 none], .parameter 1 none]) s = (.error .endless, s') by
      obtain ⟨s', hs'⟩ := hbuild
      exact ⟨s', define_run_error (d := onward) rfl rfl (hcache _ (by simp)) (hfree k (Nat.le_refl k))
        (record_run_error rfl (buildFields_run_error hs'))⟩
    cases depth with
    | zero => exact ⟨s, build_onward_error rfl define_zero⟩
    | succ depth =>
      have hlink : define (coil ++ extra) (depth + 1)
          (⟨.definition 3, [.derived k, x.identity]⟩ :: inProgress) 4 [x] s =
          (.ok ⟨.derived s.next, "b", .link s.next 4 [x]⟩, ⟨s.next + 1, s.cache⟩) :=
        define_underway (d := back) rfl rfl (hcache _ (by simp)) (List.mem_cons_of_mem _ hb)
      have hnew (j : Nat) (hj : s.next ≤ j) : ⟨.definition 3, [.derived j, x.identity]⟩ ∉
          ⟨.definition 3, [.derived k, x.identity]⟩ :: inProgress := by
        intro hmem
        rcases List.mem_cons.1 hmem with heq | hmem
        · simp only [Request.mk.injEq, List.cons.injEq, Identity.derived.injEq] at heq
          omega
        · exact hfree j (by omega) hmem
      obtain ⟨s', hs'⟩ := define_onward_endless (depth + 1)
        (⟨.definition 3, [.derived k, x.identity]⟩ :: inProgress) ⟨s.next + 1, s.cache⟩ s.next "b"
        (.link s.next 4 [x]) (List.mem_cons_of_mem _ hb) hcache rfl hnew
      exact ⟨s', (build_onward rfl hlink).trans hs'⟩

/-- The third definition has no end while the fifth one is being derived. -/
theorem define_start_endless (depth : Nat)
    (hcache : ∀ r, x.identity ∈ r.args → s.cache.lookup r = none) :
    ∃ s', define (coil ++ extra) depth [requestOf 4 [x]] 2 [x] s = (.error .endless, s') := by
  cases depth with
  | zero => exact ⟨s, define_zero⟩
  | succ depth =>
    suffices hbuild : ∃ s', build (coil ++ extra)
        (define (coil ++ extra) depth [requestOf 2 [x], requestOf 4 [x]])
        ⟨[x], some "e"⟩ (.applied 3 [.applied 4 [.parameter 0 none], .parameter 0 none]) s =
        (.error .endless, s') by
      obtain ⟨s', hs'⟩ := hbuild
      exact ⟨s', define_run_error (d := start) rfl rfl (hcache _ (by simp)) (by simp)
        (record_run_error rfl (buildFields_run_error hs'))⟩
    cases depth with
    | zero => exact ⟨s, build_onward_error rfl define_zero⟩
    | succ depth =>
      have hlink : define (coil ++ extra) (depth + 1) [requestOf 2 [x], requestOf 4 [x]] 4 [x] s =
          (.ok ⟨.derived s.next, "b", .link s.next 4 [x]⟩, ⟨s.next + 1, s.cache⟩) :=
        define_underway (d := back) rfl rfl (hcache _ (by simp)) (by simp)
      obtain ⟨s', hs'⟩ := define_onward_endless (depth + 1) [requestOf 2 [x], requestOf 4 [x]]
        ⟨s.next + 1, s.cache⟩ s.next "b" (.link s.next 4 [x]) (by simp) hcache rfl (by simp)
      exact ⟨s', (build_onward rfl hlink).trans hs'⟩

/-- The fifth definition has no end where nothing with its argument is remembered. -/
theorem define_back_endless (depth : Nat)
    (hcache : ∀ r, x.identity ∈ r.args → s.cache.lookup r = none) :
    ∃ s', define (coil ++ extra) depth [] 4 [x] s = (.error .endless, s') := by
  cases depth with
  | zero => exact ⟨s, define_zero⟩
  | succ depth =>
    obtain ⟨s', hs'⟩ := define_start_endless depth hcache
    exact ⟨s', define_run_error (d := back) rfl rfl (hcache _ (by simp)) (by simp)
      (record_run_error rfl (buildFields_run_error
        (list_run_error ((build_start parameter_run).trans hs'))))⟩

end Endless

/-! ### Two orders -/

/-- A constructor with what the second definition is, and one with what the fifth one is for the
first one. -/
def constructors : List (Constructor Description) :=
  [⟨"Q", [.applied 1 []], none, none, false⟩,
    ⟨"B", [.recursive 4 (some [.applied 0 []])], none, none, false⟩]

/-- The converter of the first definition inside the second one, if `n` is the next number. -/
def outerWithin (n : Nat) : Converter :=
  ⟨.derived (n + 2), "p", .record ⟨"p", none, false, [.needed "u" ⟨.derived n, "q", .link n 1 []⟩]⟩⟩

/-- The converter of the second definition around the first one. -/
def innerAround (n : Nat) : Converter :=
  ⟨.derived (n + 13), "q", .record ⟨"q", none, false,
    [.needed "v" (startOf (outerWithin n) (n + 3))]⟩⟩

/-- The variant with the second definition in front. -/
def forward : Converter :=
  ⟨.derived 15, "sum", .variant "sum" true [⟨"Q", none, .arguments [innerAround 0]⟩,
    ⟨"B", none, .arguments [⟨.derived 14, "b", .link 14 4 [outerWithin 0]⟩]⟩]⟩

/-- A link to the first definition. -/
def outerLink (n : Nat) : Converter := ⟨.derived n, "p", .link n 0 []⟩

/-- The converter of the second definition inside the first one. -/
def innerWithin (n : Nat) : Converter :=
  ⟨.derived (n + 11), "q", .record ⟨"q", none, false,
    [.needed "v" (startOf (outerLink n) (n + 1))]⟩⟩

/-- The converter of the first definition around the second one. -/
def outerAround (n : Nat) : Converter :=
  ⟨.derived (n + 13), "p", .record ⟨"p", none, false, [.needed "u" (innerWithin n)]⟩⟩

/-- The variant with the fifth definition in front. -/
def backward : Converter :=
  ⟨.derived 15, "sum", .variant "sum" true [
    ⟨"B", none, .arguments [⟨.derived 14, "b", .link 14 4 [outerAround 0]⟩]⟩,
    ⟨"Q", none, .arguments [innerWithin 0]⟩]⟩

/-- What is remembered of the definitions once the second one was derived first. -/
def remembersForward (s : Deriver) : Deriver :=
  ⟨s.next + 14, (requestOf 1 [], innerAround s.next) ::
    (wound (outerWithin s.next)
      ⟨s.next + 3, (requestOf 0 [], outerWithin s.next) :: s.cache⟩).cache⟩

/-- What is remembered of the definitions once the first one was derived first. -/
def remembersBackward (s : Deriver) : Deriver :=
  ⟨s.next + 14, (requestOf 0 [], outerAround s.next) :: (requestOf 1 [], innerWithin s.next) ::
    (wound (outerLink s.next) ⟨s.next + 1, s.cache⟩).cache⟩

/-- Nothing is remembered or being derived but requests without arguments for something else than the
five definitions. -/
structure Idle (inProgress : List Request) (s : Deriver) : Prop where
  remembered : ∀ e ∈ s.cache, e.1.args = [] ∧ ∀ id < 5, e.1.subject ≠ .definition id
  underway : ∀ r ∈ inProgress, r.args = [] ∧ ∀ id < 5, r.subject ≠ .definition id

section Idle

variable {extra : Catalog} {inProgress : List Request} {s : Deriver} {id : DefinitionId}

theorem Idle.lookup (h : Idle inProgress s) (hid : id < 5) :
    s.cache.lookup (requestOf id []) = none := by
  refine List.lookup_eq_none_iff.2 fun e he => ?_
  have hne : requestOf id [] ≠ e.1 := fun heq => (h.remembered e he).2 id hid (heq ▸ rfl)
  simpa using hne

theorem Idle.not_mem (h : Idle inProgress s) (hid : id < 5) : requestOf id [] ∉ inProgress :=
  fun hmem => (h.underway _ hmem).2 id hid rfl

/-- Nothing with any argument is remembered or being derived, also beside requests for definitions
without arguments. -/
theorem Idle.unseen (h : Idle inProgress s) (x : Converter) (n : Nat)
    (more : List (Request × Converter)) (above : List Request) (hmore : ∀ e ∈ more, e.1.args = [])
    (habove : ∀ r ∈ above, r.args = []) : Unseen x (above ++ inProgress) ⟨n, more ++ s.cache⟩ := by
  have hnone (r : Request) (hr : r.args = []) : x.identity ∉ r.args := by
    rw [hr]
    exact List.not_mem_nil
  refine ⟨lookup_of_forall_not_mem fun e he => ?_, fun r hr => ?_⟩
  · rcases List.mem_append.1 he with he | he
    · exact hnone e.1 (hmore e he)
    · exact hnone e.1 (h.remembered e he).1
  · rcases List.mem_append.1 hr with hr | hr
    · exact hnone r (habove r hr)
    · exact hnone r (h.underway r hr).1

theorem define_forward (depth : Nat) (h : Idle inProgress s) :
    define (coil ++ extra) (depth + 5) inProgress 1 [] s =
      (.ok (innerAround s.next), remembersForward s) := by
  have hlink : define (coil ++ extra) (depth + 3) (requestOf 0 [] :: requestOf 1 [] :: inProgress) 1 []
      s = (.ok ⟨.derived s.next, "q", .link s.next 1 []⟩, ⟨s.next + 1, s.cache⟩) :=
    define_underway (d := inner) rfl rfl (h.lookup (by decide)) (by simp)
  have hp : define (coil ++ extra) (depth + 4) (requestOf 1 [] :: inProgress) 0 [] s =
      (.ok (outerWithin s.next), ⟨s.next + 3, (requestOf 0 [], outerWithin s.next) :: s.cache⟩) :=
    define_run (d := outer) rfl rfl (h.lookup (by decide)) (by simp [h.not_mem]) (record_run rfl
      (buildFields_run (build_inner.trans hlink) buildFields_nil))
  have hunseen : Unseen (outerWithin s.next) (requestOf 1 [] :: inProgress)
      ⟨s.next + 3, (requestOf 0 [], outerWithin s.next) :: s.cache⟩ :=
    h.unseen _ _ [(requestOf 0 [], outerWithin s.next)] [requestOf 1 []] (by simp) (by simp)
  exact define_run (d := inner) rfl rfl (h.lookup (by decide)) (h.not_mem (by decide)) (record_run rfl
    (buildFields_run ((build_start (build_outer.trans hp)).trans (define_start (depth + 1) hunseen))
      buildFields_nil))

theorem define_backward (depth : Nat) (h : Idle inProgress s) :
    define (coil ++ extra) (depth + 5) inProgress 0 [] s =
      (.ok (outerAround s.next), remembersBackward s) := by
  have hlink : define (coil ++ extra) (depth + 3) (requestOf 1 [] :: requestOf 0 [] :: inProgress) 0 []
      s = (.ok (outerLink s.next), ⟨s.next + 1, s.cache⟩) :=
    define_underway (d := outer) rfl rfl (h.lookup (by decide)) (by simp)
  have hunseen : Unseen (outerLink s.next) (requestOf 1 [] :: requestOf 0 [] :: inProgress)
      ⟨s.next + 1, s.cache⟩ :=
    h.unseen _ _ [] [requestOf 1 [], requestOf 0 []] (by simp) (by simp)
  have hq : define (coil ++ extra) (depth + 4) (requestOf 0 [] :: inProgress) 1 [] s =
      (.ok (innerWithin s.next), ⟨s.next + 12, (requestOf 1 [], innerWithin s.next) ::
        (wound (outerLink s.next) ⟨s.next + 1, s.cache⟩).cache⟩) :=
    define_run (d := inner) rfl rfl (h.lookup (by decide)) (by simp [h.not_mem]) (record_run rfl
      (buildFields_run ((build_start (build_outer.trans hlink)).trans (define_start depth hunseen))
        buildFields_nil))
  exact define_run (d := outer) rfl rfl (h.lookup (by decide)) (h.not_mem (by decide)) (record_run rfl
    (buildFields_run (build_inner.trans hq) buildFields_nil))

/-- The constructors with the second definition in front, where nothing is remembered. -/
theorem buildCases_forward (depth : Nat) (flat : Bool) (site : Site) (h : Idle inProgress s) :
    buildCases (coil ++ extra) (define (coil ++ extra) (depth + 5) inProgress) site flat
      (constructors.map .constructor) s =
      (.ok [⟨"Q", none, .arguments [innerAround s.next]⟩, ⟨"B", none, .arguments
        [⟨.derived (s.next + 14), "b", .link (s.next + 14) 4 [outerWithin s.next]⟩]⟩],
        ⟨s.next + 15, (remembersForward s).cache⟩) := by
  have hp : define (coil ++ extra) (depth + 5) inProgress 0 [] (remembersForward s) =
      (.ok (outerWithin s.next), remembersForward s) := define_cached (d := outer) rfl rfl rfl
  exact buildCases_run
    (arguments_run (buildAll_run (build_inner.trans (define_forward depth h)) buildAll_nil))
    (buildCases_run (arguments_run (buildAll_run (recursive_run (x := back)
      (buildAll_run (build_outer.trans hp) buildAll_nil) rfl) buildAll_nil)) buildCases_nil)

/-- The same where the first two definitions are remembered. -/
theorem buildCases_cached (depth : Nat) (flat : Bool) (site : Site) {p q : Converter}
    (hp : s.cache.lookup (requestOf 0 []) = some p) (hq : s.cache.lookup (requestOf 1 []) = some q) :
    buildCases (coil ++ extra) (define (coil ++ extra) (depth + 1) inProgress) site flat
      (constructors.map .constructor) s =
      (.ok [⟨"Q", none, .arguments [q]⟩,
        ⟨"B", none, .arguments [⟨.derived s.next, "b", .link s.next 4 [p]⟩]⟩],
        ⟨s.next + 1, s.cache⟩) :=
  buildCases_run
    (arguments_run (buildAll_run (build_inner.trans (define_cached (d := inner) rfl rfl hq))
      buildAll_nil))
    (buildCases_run (arguments_run (buildAll_run (recursive_run (x := back) (buildAll_run
      (build_outer.trans (define_cached (d := outer) rfl rfl hp)) buildAll_nil) rfl) buildAll_nil))
      buildCases_nil)

end Idle

/-- The variant with its constructors in this order. -/
abbrev variantOf (cs : List (Constructor Description)) : Description := .sum (cs.map .constructor)

/-- After the variant with the second definition in front was derived. -/
def afterForward : Deriver := ⟨16, (⟨.description 0, []⟩, forward) :: (remembersForward {}).cache⟩

/-- After the variant with the fifth definition in front was derived. -/
def afterBackward : Deriver := ⟨16, (⟨.description 1, []⟩, backward) :: (remembersBackward {}).cache⟩

/-- While a description is derived with a fresh memory. -/
theorem idle_description (number : Nat) : Idle [⟨.description number, []⟩] {} :=
  ⟨fun e he => absurd he List.not_mem_nil, by simp⟩

theorem derive_forward : derive coil (.description 0 (variantOf constructors)) [] {} =
    (.ok forward, afterForward) := by
  obtain ⟨n, hn⟩ : ∃ n, depthBound coil (variantOf constructors).size 0 = n + 5 := ⟨_, rfl⟩
  have hcases : buildCases coil (define coil (n + 5) [⟨.description 0, []⟩]) ⟨[], none⟩ false
      (constructors.map .constructor) {} = _ := buildCases_forward n false _ (idle_description 0)
  rw [← hn] at hcases
  exact ofDescription_run rfl (sum_run hcases rfl)

theorem derive_backward : derive coil (.description 1 (variantOf constructors.reverse)) [] {} =
    (.ok backward, afterBackward) := by
  obtain ⟨n, hn⟩ : ∃ n, depthBound coil (variantOf constructors.reverse).size 0 = n + 5 := ⟨_, rfl⟩
  have hp : define coil (n + 5) [⟨.description 1, []⟩] 0 [] {} =
      (.ok (outerAround 0), remembersBackward {}) := define_backward n (idle_description 1)
  have hq : define coil (n + 5) [⟨.description 1, []⟩] 1 [] ⟨15, (remembersBackward {}).cache⟩ =
      (.ok (innerWithin 0), ⟨15, (remembersBackward {}).cache⟩) :=
    define_cached (d := inner) rfl rfl rfl
  have hcases : buildCases coil (define coil (depthBound coil (variantOf constructors.reverse).size 0)
      [⟨.description 1, []⟩]) ⟨[], none⟩ false (constructors.reverse.map .constructor) {} =
      (.ok [⟨"B", none, .arguments [⟨.derived 14, "b", .link 14 4 [outerAround 0]⟩]⟩,
        ⟨"Q", none, .arguments [innerWithin 0]⟩], ⟨15, (remembersBackward {}).cache⟩) := by
    rw [hn]
    exact buildCases_run (arguments_run (buildAll_run (recursive_run (x := back)
        (buildAll_run (build_outer.trans hp) buildAll_nil) rfl) buildAll_nil))
      (buildCases_run (arguments_run (buildAll_run (build_inner.trans hq) buildAll_nil))
        buildCases_nil)
  exact ofDescription_run rfl (sum_run hcases rfl)

/-- The fifth definition is remembered for the first one inside the second one. -/
theorem settle_within (c : Converter) (switches : Switches) :
    Setting.settle ⟨coil, ⟨16, (⟨.description 0, []⟩, c) :: (remembersForward {}).cache⟩, switches⟩ false
      (.link 14 4 [outerWithin 0]) = .ok (0, (backOf (outerWithin 0) 3).plan) := by
  obtain ⟨n, hn⟩ : ∃ n, depthBound coil 0 1 = n + 1 := ⟨_, rfl⟩
  have hdefine : ofDefinition coil 4 [outerWithin 0]
      ⟨numberAbove 16 [outerWithin 0], (⟨.description 0, []⟩, c) :: (remembersForward {}).cache⟩ =
      (.ok (backOf (outerWithin 0) 3), ⟨16, (⟨.description 0, []⟩, c) :: (remembersForward {}).cache⟩) := by
    show define coil (depthBound coil 0 1) [] 4 [outerWithin 0] _ = _
    rw [hn, define_cached (d := back) rfl rfl rfl]
    rfl
  have hcell : ((⟨.description 0, []⟩, c) :: (remembersForward {}).cache).lookup
      (linkRequestOf 14 4 [outerWithin 0]) = none := rfl
  have hlink := ofLink_run (s := ⟨16, (⟨.description 0, []⟩, c) :: (remembersForward {}).cache⟩) hcell
    hdefine
  refine Setting.settle_link ?_ (congrArg Prod.fst hlink) rfl
  simp [Plan.head, Catalog.heads, Catalog.headsWithin, Catalog.headsFrom, Description.head, coil,
    outer, inner, start, onward, back]

theorem settle_forward (switches : Switches) :
    Setting.settle ⟨coil, afterForward, switches⟩ false (.link 14 4 [outerWithin 0]) =
      .ok (0, (backOf (outerWithin 0) 3).plan) := settle_within forward switches

/-- The fifth definition is not remembered for the first one around the second one, and has no end.
-/
theorem ofLink_around (c : Converter) : ∃ s', ofLink coil 14 4 [outerAround 0]
    ⟨16, (⟨.description 1, []⟩, c) :: (remembersBackward {}).cache⟩ = (.error .endless, s') := by
  have hothers : ∀ e ∈ (⟨.description 1, []⟩, c) :: (remembersBackward {}).cache,
      (outerAround 0).identity ∉ e.1.args :=
    List.forall_mem_cons.2 ⟨List.not_mem_nil, by decide⟩
  have hunseen := lookup_of_forall_not_mem
    (s := ⟨16, (⟨.description 1, []⟩, c) :: (remembersBackward {}).cache⟩) hothers
  obtain ⟨s', hs'⟩ : ∃ s', define coil (depthBound coil 0 1) [] 4 [outerAround 0]
      ⟨numberAbove 16 [outerAround 0], (⟨.description 1, []⟩, c) :: (remembersBackward {}).cache⟩ =
      (.error .endless, s') := define_back_endless _ hunseen
  exact ⟨s', ofLink_run_error (hunseen (linkRequestOf 14 4 [outerAround 0]) (by simp)) hs'⟩

theorem settle_around (c : Converter) (switches : Switches) (through : Bool) :
    Setting.settle ⟨coil, ⟨16, (⟨.description 1, []⟩, c) :: (remembersBackward {}).cache⟩, switches⟩ through
      (.link 14 4 [outerAround 0]) = .error .endless := by
  obtain ⟨s', hlink⟩ := ofLink_around c
  exact Setting.settle_link_endless (congrArg Prod.fst hlink)

theorem settle_backward (switches : Switches) (through : Bool) :
    Setting.settle ⟨coil, afterBackward, switches⟩ through (.link 14 4 [outerAround 0]) =
      .error .endless := settle_around backward switches through

/-! ### Behind the fields of a record -/

/-- A word, or what the first definition is. -/
def chooser : Definition :=
  ⟨"w", [], some (variantOf [⟨"W", [], none, none, false⟩, ⟨"U", [.applied 0 []], none, none, false⟩])⟩

/-- The variant with the second definition in front. -/
def tagger : Definition := ⟨"z", [], some (variantOf constructors)⟩

/-- The definitions with these two. -/
def entwined : Catalog := coil ++ [chooser, tagger]

/-- A field behind which the first definition may be derived, and one behind which the second one
is. -/
def pairFields : List (Field Description) :=
  [.needed "f1" (.recursive 5 (some [])), .needed "f2" (.recursive 6 (some []))]

/-- A record with these fields. -/
def pair : Description := .record pairFields none false

/-- The converter of the first field. -/
def chooserLink : Converter := ⟨.derived 0, "w", .link 0 5 []⟩

/-- The converter of the second field. -/
def taggerLink : Converter := ⟨.derived 1, "z", .link 1 6 []⟩

/-- The plans of the fields. -/
def pairPlans : List (FieldPlan Plan) := [.needed "f1" chooserLink, .needed "f2" taggerLink]

/-- The converter of the record. -/
def pairConverter : Converter := ⟨.derived 2, "record", .record ⟨"record", none, false, pairPlans⟩⟩

/-- After the record was derived, neither link was followed. -/
def afterPair : Deriver := ⟨3, [(⟨.description 0, []⟩, pairConverter)]⟩

theorem derive_pair :
    derive entwined (.description 0 pair) [] {} = (.ok pairConverter, afterPair) :=
  ofDescription_run rfl (record_run rfl
    (buildFields_run (recursive_run (x := chooser) buildAll_nil rfl)
      (buildFields_run (recursive_run (x := tagger) buildAll_nil rfl) buildFields_nil)))

/-- Nothing of the five definitions is remembered then. -/
theorem idle_afterPair {id : DefinitionId} (h : 5 ≤ id) : Idle [requestOf id []] afterPair := by
  refine ⟨by simp [afterPair], fun r hr => ?_⟩
  obtain rfl := List.mem_singleton.1 hr
  refine ⟨rfl, fun k hk heq => ?_⟩
  obtain rfl := Subject.definition.inj heq
  exact absurd hk (Nat.not_lt_of_le h)

/-- What the second field comes to if its link is followed first. -/
def taggerFirst : Converter :=
  ⟨.derived 19, "z", .variant "z" true [⟨"Q", none, .arguments [innerAround 3]⟩,
    ⟨"B", none, .arguments [⟨.derived 17, "b", .link 17 4 [outerWithin 3]⟩]⟩]⟩

/-- What is remembered then. -/
def afterTaggerFirst : Deriver :=
  ⟨20, (linkRequestOf 1 6 [], taggerFirst) :: (requestOf 6 [], taggerFirst) ::
    (remembersForward afterPair).cache⟩

theorem ofLink_taggerFirst :
    ofLink entwined 1 6 [] afterPair = (.ok taggerFirst, afterTaggerFirst) := by
  obtain ⟨n, hn⟩ : ∃ n, depthBound entwined 0 0 = n + 6 := ⟨_, rfl⟩
  have hdefine : define entwined (n + 6) [] 6 [] afterPair =
      (.ok taggerFirst, ⟨20, (requestOf 6 [], taggerFirst) :: (remembersForward afterPair).cache⟩) :=
    define_run (d := tagger) rfl rfl rfl List.not_mem_nil
      (sum_run (buildCases_forward n false _ (idle_afterPair (by decide))) rfl)
  exact ofLink_run_define (s := afterPair) rfl hn hdefine

/-- The fifth definition is remembered for the first one inside the second one. -/
theorem ofLink_back_first : ∃ s', ofLink entwined 17 4 [outerWithin 3] afterTaggerFirst =
    (.ok (backOf (outerWithin 3) 6), s') := by
  obtain ⟨n, hn⟩ : ∃ n, depthBound entwined 0 1 = n + 1 := ⟨_, rfl⟩
  have hdefine : define entwined (n + 1) [] 4 [outerWithin 3] afterTaggerFirst =
      (.ok (backOf (outerWithin 3) 6), afterTaggerFirst) := define_cached (d := back) rfl rfl rfl
  exact ⟨_, ofLink_run_define rfl hn hdefine⟩

/-- What the first field comes to if its link is followed first. -/
def chooserFirst : Converter :=
  ⟨.derived 18, "w", .variant "w" true [⟨"W", none, .constant⟩,
    ⟨"U", none, .arguments [outerAround 3]⟩]⟩

/-- What is remembered then. -/
def afterChooserFirst : Deriver :=
  ⟨19, (linkRequestOf 0 5 [], chooserFirst) :: (requestOf 5 [], chooserFirst) ::
    (remembersBackward afterPair).cache⟩

theorem ofLink_chooserFirst :
    ofLink entwined 0 5 [] afterPair = (.ok chooserFirst, afterChooserFirst) := by
  obtain ⟨n, hn⟩ : ∃ n, depthBound entwined 0 0 = n + 6 := ⟨_, rfl⟩
  have hdefine : define entwined (n + 6) [] 5 [] afterPair =
      (.ok chooserFirst, ⟨19, (requestOf 5 [], chooserFirst) :: (remembersBackward afterPair).cache⟩) :=
    define_run (d := chooser) rfl rfl rfl List.not_mem_nil
      (sum_run (buildCases_run constant_run (buildCases_run (arguments_run (buildAll_run
        (build_outer.trans (define_backward n (idle_afterPair (by decide)))) buildAll_nil))
        buildCases_nil)) rfl)
  exact ofLink_run_define (s := afterPair) rfl hn hdefine

/-- What the second field comes to after that. -/
def taggerSecond : Converter :=
  ⟨.derived 21, "z", .variant "z" true [⟨"Q", none, .arguments [innerWithin 3]⟩,
    ⟨"B", none, .arguments [⟨.derived 19, "b", .link 19 4 [outerAround 3]⟩]⟩]⟩

/-- What is remembered then. -/
def afterTaggerSecond : Deriver :=
  ⟨22, (linkRequestOf 1 6 [], taggerSecond) :: (requestOf 6 [], taggerSecond) ::
    afterChooserFirst.cache⟩

theorem ofLink_taggerSecond :
    ofLink entwined 1 6 [] afterChooserFirst = (.ok taggerSecond, afterTaggerSecond) := by
  obtain ⟨n, hn⟩ : ∃ n, depthBound entwined 0 0 = n + 2 := ⟨_, rfl⟩
  have hdefine : define entwined (n + 2) [] 6 [] afterChooserFirst =
      (.ok taggerSecond, ⟨22, (requestOf 6 [], taggerSecond) :: afterChooserFirst.cache⟩) :=
    define_run (d := tagger) rfl rfl rfl List.not_mem_nil
      (sum_run (buildCases_cached n false _ rfl rfl) rfl)
  exact ofLink_run_define (s := afterChooserFirst) rfl hn hdefine

/-- The fifth definition is not remembered for the first one around the second one, and has no end.
-/
theorem ofLink_back_second :
    ∃ s', ofLink entwined 19 4 [outerAround 3] afterTaggerSecond = (.error .endless, s') := by
  have hunseen := lookup_of_forall_not_mem (x := outerAround 3) (s := afterTaggerSecond) (by decide)
  obtain ⟨s', hs'⟩ : ∃ s', define entwined (depthBound entwined 0 1) [] 4 [outerAround 3]
      ⟨numberAbove 22 [outerAround 3], afterTaggerSecond.cache⟩ = (.error .endless, s') :=
    define_back_endless _ hunseen
  exact ⟨s', ofLink_run_error (hunseen _ (by simp)) hs'⟩

/-- No definition leads back to itself without a shape between. -/
theorem head_entwined (cell : Nat) {id : DefinitionId} (args : List Converter) (h : id < 7) :
    (Plan.link cell id args).head false (entwined.heads false) ≠ .endless := by
  have hheads : entwined.heads false = List.replicate 7 .shape := by
    simp [Catalog.heads, Catalog.headsWithin, Catalog.headsFrom, Description.head, entwined, coil,
      outer, inner, start, onward, back, chooser, tagger]
  have hshape : (entwined.heads false)[id]? = some .shape := by
    rw [hheads, List.getElem?_replicate_of_lt h]
  rw [Plan.head, hshape]
  exact Head.noConfusion

end Coil

end TypedSexp
