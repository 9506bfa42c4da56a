import TypedSexp.Proofs.Conversion.Memory
/-!
# Applying a definition and putting in its arguments

A definition that is applied to descriptions is its body with these in the place of the parameters:
if the one is derived the other is never refused, and the converters are interchangeable
(`History.substitutes`). But the body may have no end where the definition has one: what applies
itself through the definition ends where the definition is just being derived
(`Substitution.body_endless`).
-/

namespace TypedSexp

open Derivation

variable {catalog : Catalog} {numbering : Nat → Description} {outside : Text → Option Custom}
  {failed : Bool} {d d' : Deriver} {converters converters' : List (BoundType × Converter)}
  {id : DefinitionId} {body : Description}

namespace Derivation

/-- The body of a reliable definition is never refused with reliable arguments in the place of its
parameters. -/
theorem reliable_replaced {ds : List Description}
    (h : catalog.Reliable (Underway []) id ds.length) (hbody : catalog.body? id = some body)
    (hseparate : body.isSeparate) (hds : ∀ x ∈ ds, NeverRefuses catalog x 0) :
    NeverRefuses catalog (body.replace (some ds)) 0 := by
  have hnone (i : DefinitionId) (n : Nat) : ¬ Underway [] i n := by simp [Underway]
  obtain ⟨Known, hclosed, hid⟩ := h.resolve_left (hnone _ _)
  have hclosed' (i : DefinitionId) (n : Nat) (hi : Known i n) : catalog.Derives Known i n :=
    (hclosed i n hi).mono fun i n h => h.resolve_left (hnone i n)
  obtain ⟨x, stated, hx, hstated, hbuild⟩ := hclosed' id ds.length hid
  obtain rfl := Option.some.inj ((body?_of_bodyOf hx hstated).symm.trans hbody)
  intro depth inProgress args hargs
  obtain rfl := List.eq_nil_of_length_eq_zero hargs
  exact hbuild _ (define_gives hclosed' depth inProgress) ⟨[], none⟩ (some ds) (.inr hseparate)
    ⟨rfl, fun x hx => hds x hx depth inProgress [] rfl⟩

/-- The targets of numbered descriptions. -/
def described (numbering : Nat → Description) (numbers : List Nat) : List Target :=
  numbers.map fun n => .description n (numbering n)

/-- Descriptions that are derived are reliable. -/
theorem described_sturdy : ∀ numbers : List Nat,
    Runs (Sturdy catalog numbering []) (ofTargets catalog (described numbering numbers))
      fun cs cache => Sturdy catalog numbering [] cache ∧ cs.length = numbers.length ∧
        ∀ n ∈ numbers, NeverRefuses catalog (numbering n) 0
  | [] => .pure fun cache h => ⟨h, rfl, by simp⟩
  | n :: numbers => by
    show Runs _ (ofDescription catalog n (numbering n) [] >>= fun c =>
      ofTargets catalog (described numbering numbers) >>= fun cs => pure (c :: cs)) _
    refine (ofDescription_sturdy n []).bind fun c => Runs.given fun hn => ?_
    refine (described_sturdy numbers).bind fun cs => Runs.given fun hcs => .pure fun cache h => ?_
    refine ⟨h, by rw [List.length_cons, List.length_cons, hcs.1], fun k hk => ?_⟩
    rcases List.mem_cons.1 hk with rfl | hk
    · exact hn
    · exact hcs.2 k hk

/-- What is known of a definition and its arguments once it is derived. -/
theorem applied_sturdy (numbers : List Nat) :
    Runs (Sturdy catalog numbering [])
      (derive catalog (.definition id) (described numbering numbers))
      fun _ _ => catalog.Reliable (Underway []) id numbers.length ∧
        ∀ n ∈ numbers, NeverRefuses catalog (numbering n) 0 := by
  show Runs _ (ofTargets catalog (described numbering numbers) >>= fun cs =>
    ofDefinition catalog id cs) _
  refine (described_sturdy numbers).bind fun cs => Runs.given fun hcs => ?_
  refine (define_sturdy _ [] id cs).weaken (fun _ h => h) fun _ _ h => ⟨?_, hcs.2⟩
  rw [← hcs.1]
  exact h.2

end Derivation

theorem described_denotes {l : Ledger} : ∀ {numbers : List Nat},
    (∀ n ∈ numbers, l.Admits (numbering n).givens) →
    List.Forall₂ (fun a t => a.Denotes l numbering converters [] t) (described numbering numbers)
      ((numbers.map numbering).map (.mk · []))
  | [], _ => .nil
  | n :: _, h => .cons (.description n [] (h n List.mem_cons_self))
      (described_denotes fun k hk => h k (List.mem_cons_of_mem _ hk))

/-- The body with arguments in the place of its parameters is a twin of the definition that is
applied to them. -/
theorem BoundType.covers_body {ds : List Description} (hbody : catalog.body? id = some body)
    (hseparate : body.isSeparate) :
    BoundType.Covers catalog (.mk (.recursive id none) (ds.map (.mk · [])))
      (.mk (body.replace (some ds)) []) := by
  intro through layers u' hu
  obtain ⟨u, hu, htwin⟩ := (BoundType.Twin.replaced ds hseparate).covers through layers u' hu
  exact ⟨u, .body hbody hu, htwin⟩

/-- **Applying a definition is putting in its arguments**: if it is derived, its body with the
arguments in the place of the parameters is not refused, whatever is remembered, and the converters
are interchangeable. -/
theorem History.substitutes (hcatalog : catalog.AdmittedBy (.first outside))
    (h : History catalog numbering outside false d converters)
    (hbody : catalog.body? id = some body) (hseparate : body.isSeparate) {numbers : List Nat}
    (hgivens : ∀ n ∈ numbers, (Ledger.first outside).Admits (numbering n).givens) {number : Nat}
    (hnumber : numbering number = body.replace (some (numbers.map numbering)))
    (h' : History catalog numbering outside failed d' converters') :
    Ensures catalog (derive catalog (.definition id) (described numbering numbers)) d
      (derive catalog (.description number (numbering number)) []) d' := by
  intro c hc
  obtain ⟨hreliable, hnever⟩ := applied_sturdy numbers d c (h.sturdy rfl) hc
  have hargs : ∀ x ∈ numbers.map numbering, NeverRefuses catalog x 0 := by simpa using hnever
  rw [← List.length_map numbering] at hreliable
  have hnumbered : NeverRefuses catalog (numbering number) 0 := by
    rw [hnumber]
    exact reliable_replaced hreliable hbody hseparate hargs
  have hgives : (ofDescription catalog number (numbering number) []).Gives (fun _ => ()) () :=
    ofDescription_gives number hnumbered
  refine (hgives d').imp_right fun ⟨c', hc', _⟩ => ⟨c', hc', ?_⟩
  have hadmits : (Ledger.first outside).Admits (numbering number).givens := by
    rw [hnumber]
    refine Description.admits_replace (fun ds hds x hx => ?_) body (hcatalog id body hbody)
    obtain rfl := Option.some.inj hds
    obtain ⟨n, hn, rfl⟩ := List.mem_map.1 hx
    exact hgivens n hn
  refine (h.derived (described_denotes hgivens) (.definition id _) hc).interchangeable hcatalog
    (h'.derived .nil (.description number [] hadmits) hc') List.mem_cons_self List.mem_cons_self ?_
  rw [hnumber]
  exact BoundType.covers_body hbody hseparate

namespace Substitution

/-! ### Trees of integers -/

/-- Integers, and the fields of a tree of them. -/
def roseNumbering : Nat → Description
  | 0 => .primitive "int"
  | _ => .record [⟨"label", some (.primitive "int"), .required, none, .never, none⟩,
      ⟨"children", some (.recursive 0 (some [.primitive "int"])), .sexpList, none, .never, none⟩]
      none false

/-- The fields of a tree of integers. -/
abbrev deriveBody : Derivation Converter :=
  derive [roseTree] (.description 1 (roseNumbering 1)) []

theorem deriveBody_succeeds : deriveBody.Succeeds := by
  have hlabel (define : DefinitionId → List Converter → Derivation Converter) :
      (Description.build [roseTree] define ⟨[], none⟩ (.primitive "int")).Succeeds :=
    fun d => ⟨.ofPrimitive .int, congrArg Prod.fst (Description.primitive_run rfl)⟩
  have hchildren (define : DefinitionId → List Converter → Derivation Converter) :
      (Description.build [roseTree] define ⟨[], none⟩
        (.recursive 0 (some [.primitive "int"]))).Succeeds := by
    intro d
    have hint : Description.build [roseTree] define ⟨[], none⟩ (.primitive "int") d =
        (.ok (.ofPrimitive .int), d) := Description.primitive_run rfl
    rw [Description.build, result, bind_run (Description.buildAll_run hint Description.buildAll_nil)]
    exact ⟨_, rfl⟩
  show (ofDescription [roseTree] 1 (roseNumbering 1) []).Succeeds
  refine .bind (.cached? _) fun found => ?_
  cases found with
  | some c => exact .pure c
  | none =>
    refine .bind (roseFields_succeeds (hlabel _) (hchildren _)) fun c => ?_
    exact .bind (.remember _ c) fun _ => .pure c

/-- Trees of integers are as the fields of a tree of integers. -/
theorem substitutes_rose : ∃ c c',
    (derive [roseTree] (.definition 0) (described roseNumbering [0])).result {} = .ok c ∧
    deriveBody.result {} = .ok c' ∧
    ∀ switches, Setting.Interchangeable
      ⟨[roseTree], (derive [roseTree] (.definition 0) (described roseNumbering [0]) {}).2, switches⟩
      ⟨[roseTree], (deriveBody {}).2, switches⟩ c c' := by
  obtain ⟨c, hc⟩ := roseTree_accepts [.ofPrimitive .int] Memory.counted rfl
  have hderive : (derive [roseTree] (.definition 0) (described roseNumbering [0])).result {} =
      .ok c := (congrArg Prod.fst (Memory.derive_int [roseTree] 0)).trans hc
  obtain ⟨c', hc'⟩ := deriveBody_succeeds {}
  have hadmits (n : Nat) (hn : n ∈ [0]) :
      (Ledger.first fun _ => none).Admits (roseNumbering n).givens := by
    obtain rfl := List.mem_singleton.1 hn
    exact fun c hc => absurd hc List.not_mem_nil
  have hensures : Ensures [roseTree] (derive [roseTree] (.definition 0) (described roseNumbering [0]))
      {} deriveBody {} :=
    History.substitutes (roseTree_admitted fun _ => none) .start rfl rfl hadmits rfl .start
  exact ⟨c, c', hderive, hc', hensures.interchangeable hderive hc'⟩

/-! ### A body without an end -/

/-- Integers, and the body of the last definition of the spiral with these for its parameter. -/
def spiralNumbering : Nat → Description
  | 0 => .primitive "int"
  | _ => .record [.needed "i" (.primitive "int"), .needed "j" (.applied 0 [.applied 1 []])] none false

/-- The definition is derived, and its body has no end. -/
theorem body_endless :
    (∃ body, Memory.spiral.body? 2 = some body ∧ body.isSeparate ∧
      spiralNumbering 1 = body.replace (some [spiralNumbering 0])) ∧
    (derive Memory.spiral (.definition 2) (described spiralNumbering [0])).result {} =
      .ok Memory.startConverter ∧
    (derive Memory.spiral (.description 1 (spiralNumbering 1)) []).result {} = .error .endless := by
  refine ⟨⟨_, rfl, rfl, rfl⟩, congrArg Prod.fst Memory.derive_start, ?_⟩
  have hback : ∃ s', define Memory.spiral (depthBound Memory.spiral (spiralNumbering 1).size 0)
      [⟨.description 1, []⟩] 1 [] {} = (.error .endless, s') :=
    Memory.define_back_endless _ rfl (by simp) (by simp) (by simp)
  obtain ⟨s', hs'⟩ := hback
  have hint : Description.build Memory.spiral
      (define Memory.spiral (depthBound Memory.spiral (spiralNumbering 1).size 0)
        [⟨.description 1, []⟩]) ⟨[], none⟩ (.primitive "int") {} =
      (.ok (.ofPrimitive .int), {}) := Description.primitive_run rfl
  have hrun : ofDescription Memory.spiral 1 (spiralNumbering 1) [] {} = (.error .endless, s') :=
    ofDescription_run_error rfl (Description.record_run_error rfl (Description.buildFields_run_later
      hint (Description.buildFields_run_error (Memory.build_onward_error hs'))))
  exact congrArg Prod.fst hrun

end Substitution

end TypedSexp
