import Mathlib.Algebra.BigOperators.Fin
import Mathlib.Algebra.Order.BigOperators.Group.Finset
import Mathlib.Data.Fintype.BigOperators
import TypedSexp.Proofs.Derivation.Define
import TypedSexp.Proofs.Derivation.Noted
import TypedSexp.Proofs.Derivation.Steps
import TypedSexp.Proofs.Number.Bases
/-!
# Derivation ends

A definition that applies itself, directly or through others, is derived in finitely many steps: there
are only so many requests, and a request is derived only where it is not underway already. The
requests are bounded because references have leaves for arguments, so the arguments keep their
identities along the way (`Catalog.requests`). `Derivation.ofDefinition_ends` says so, and that what
is underway is left as it was. A refusal has the class of a refused description, unless it has to show
a value that has no literal; then the literal's own fault comes instead (`ofDefinition_preset`).
-/

namespace TypedSexp

/-! ## Requests -/

namespace Identity

/-- The lists of a length whose items are taken from a set. -/
def lists (length : Nat) (items : Finset Identity) : Finset (List Identity) :=
  (Fintype.piFinset fun _ : Fin length => items).image List.ofFn

theorem mem_lists {items : Finset Identity} {ids : List Identity} (h : ∀ i ∈ ids, i ∈ items) :
    ids ∈ lists ids.length items :=
  Finset.mem_image.2 ⟨ids.get, Fintype.mem_piFinset.2 fun i => h _ (ids.get_mem i), List.ofFn_get ids⟩

theorem card_lists_le (length : Nat) (items : Finset Identity) :
    (lists length items).card ≤ items.card ^ length :=
  Finset.card_image_le.trans (by rw [Fintype.card_piFinset_const])

end Identity

namespace Catalog

open Derivation

variable {catalog : Catalog} {pool : Finset Identity} {args : List Converter}

/-- The identities of the arguments, of the built-in converters, and of those in definitions. -/
def identities (catalog : Catalog) (args : List Converter) : Finset Identity :=
  (args.map Keyed.identity ++ (Primitive.all.map Identity.builtin ++
    catalog.givens.map Keyed.identity)).toFinset

theorem mem_identities {i : Identity} : i ∈ catalog.identities args ↔
    (∃ c ∈ args, c.identity = i) ∨ (∃ p ∈ Primitive.all, .builtin p = i) ∨
      ∃ c ∈ catalog.givens, c.identity = i := by
  simp only [identities, List.mem_toFinset, List.mem_append, List.mem_map]

theorem card_identities_le (catalog : Catalog) (args : List Converter) :
    (catalog.identities args).card ≤ catalog.size + 0 + args.length + Primitive.all.length := by
  have hgivens := catalog.length_givens_le_size
  refine (List.toFinset_card_le _).trans ?_
  simp only [List.length_append, List.length_map]
  omega

/-- The requests for the definitions with arguments of these identities. -/
def requests (catalog : Catalog) (pool : Finset Identity) : Finset Request :=
  Finset.univ.biUnion fun id : Fin catalog.length =>
    (Identity.lists catalog[id].arity pool).image (Request.mk (.definition id))

theorem mem_requests {id : DefinitionId} {d : Definition}
    (hd : Description.lookup catalog id args.length = .ok d)
    (hargs : ∀ c ∈ args, c.identity ∈ pool) : requestOf id args ∈ catalog.requests pool := by
  obtain ⟨hid, hcount⟩ := Description.of_lookup hd
  obtain ⟨hlt, hget⟩ := List.getElem?_eq_some_iff.1 hid
  refine Finset.mem_biUnion.2 ⟨⟨id, hlt⟩, Finset.mem_univ _, Finset.mem_image.2 ⟨_, ?_, rfl⟩⟩
  have hlength : (args.map Keyed.identity).length = catalog[id].arity := by
    rw [List.length_map, hcount, hget]
  exact hlength ▸ Identity.mem_lists (by simpa using hargs)

/-- Derivation is given more depth than there are requests. -/
theorem card_requests_lt (catalog : Catalog) (args : List Converter) :
    (catalog.requests (catalog.identities args)).card < depthBound catalog 0 args.length := by
  let kinds := catalog.size + 0 + args.length + Primitive.all.length
  refine Nat.lt_succ_of_le ?_
  calc (catalog.requests (catalog.identities args)).card
      ≤ ∑ id : Fin catalog.length, kinds ^ catalog[id].arity := by
        refine Finset.card_biUnion_le.trans (Finset.sum_le_sum fun id _ => ?_)
        refine (Finset.card_image_le.trans (Identity.card_lists_le _ _)).trans ?_
        exact Nat.pow_le_pow_left (catalog.card_identities_le args) _
    _ = (catalog.map fun d => kinds ^ d.arity).sum :=
        Fin.sum_univ_fun_getElem catalog fun d => kinds ^ d.arity
    _ = catalog.foldr (fun d n => kinds ^ d.arity + n) 0 := List.foldr_map

/-- Where references have leaves for arguments, derivation is given nothing but these arguments. -/
theorem everywhere_admits (h : catalog.Everywhere Description.RefersToLeaves)
    (args : List Converter) : catalog.Everywhere (catalog.Admits (catalog.identities args)) := by
  intro id body hbody x hx
  refine ⟨h id body hbody x hx, ?_, fun hshow => hshow id body hbody x hx⟩
  rintro c rfl
  have hgiven : c ∈ catalog.givens := mem_givens hbody (hx.mem_givens (List.mem_singleton_self c))
  exact mem_identities.2 (.inr (.inr ⟨c, hgiven, rfl⟩))

end Catalog

/-! ## Definitions -/

namespace Work

open Derivation

variable {catalog : Catalog} {pool : Finset Identity} {underway : Finset Request}

/-- What is underway is looked at. -/
theorem Follows.look {α : Type} {f : Finset Request → Work α} {x : Derivation α} {Post : α → Prop}
    {Fault : DescriptionFault → Prop} (h : Follows underway Fault (f underway) x Post) :
    Follows underway Fault (Work.underway >>= f) x Post := h

theorem card_left_lt {requests : Finset Request} {r : Request} (hr : r ∈ requests)
    (hnew : r ∉ underway) : (requests \ insert r underway).card < (requests \ underway).card := by
  rw [Finset.sdiff_insert]
  exact Finset.card_erase_lt_of_mem (Finset.mem_sdiff.2 ⟨hr, hnew⟩)

/-- **A definition is derived alike, with an end**, if the depths are more than the requests that are
not underway yet. -/
theorem define_follows (hbuiltin : ∀ p, .builtin p ∈ pool)
    (hcatalog : catalog.Everywhere (catalog.Admits pool)) : ∀ (depth depth' : Nat)
    (inProgress : List Request) (id : DefinitionId) (args : List Converter),
    (catalog.requests pool \ inProgress.toFinset).card < depth →
    (catalog.requests pool \ inProgress.toFinset).card < depth' →
    (∀ c ∈ args, c.identity ∈ pool) →
    Follows inProgress.toFinset catalog.Refuses (define catalog depth id args)
      (Derivation.define catalog depth' inProgress id args) fun _ => True
  | 0, _, _, _, _, h, _, _ => absurd h (Nat.not_lt_zero _)
  | _, 0, _, _, _, _, h, _ => absurd h (Nat.not_lt_zero _)
  | depth + 1, depth' + 1, inProgress, id, args, h, h', hargs => by
    rw [define, Derivation.define]
    refine .check (fun e he => .of_className (Description.className_of_lookup he)) fun d hd => ?_
    refine .check (fun e he => .of_className (Description.className_of_bodyOf he)) fun body hb => ?_
    refine (Follows.succeeds (.cached? _)).bind fun found _ => ?_
    cases found with
    | some c => exact .pure trivial
    | none =>
      refine .look ?_
      by_cases hr : requestOf id args ∈ inProgress
      · rw [if_pos (by simpa using hr), if_pos (by simpa using hr)]
        exact .succeeds (.link _ _ _)
      · rw [if_neg (by simpa using hr), if_neg (by simpa using hr)]
        -- One more request is underway, so fewer are left.
        have hrequest := Catalog.mem_requests hd hargs
        have hnew : requestOf id args ∉ inProgress.toFinset := by simpa using hr
        have hleft := card_left_lt hrequest hnew
        rw [← List.toFinset_cons] at hleft
        have hagrees : Agrees catalog pool (requestOf id args :: inProgress).toFinset
            (define catalog depth) (Derivation.define catalog depth' (requestOf id args :: inProgress))
            ⟨args, some d.name⟩ :=
          ⟨hbuiltin, hargs, fun id' args' hargs' =>
            define_follows hbuiltin hcatalog depth depth' _ id' args' (by omega) (by omega) hargs'⟩
        have hbuild := build_follows hagrees body (hcatalog id body (body?_of_bodyOf hd hb))
        rw [List.toFinset_cons] at hbuild
        -- The note is there while the body is built and named, and away before it is remembered.
        rw [← bind_assoc]
        refine (Follows.noted hnew (hbuild.bind fun built _ =>
          .succeeds (.fresh _ _))).bind fun c _ => ?_
        exact (Follows.succeeds (.remember _ c)).bind fun _ _ => .pure trivial

end Work

namespace Derivation

/-- **Derivation ends**, with a converter or a refusal, if references have leaves for arguments: from
some depth on more depth changes nothing. What is underway is left as it was, after a refusal too. -/
theorem ofDefinition_ends {catalog : Catalog} (h : catalog.Everywhere Description.RefersToLeaves)
    (id : DefinitionId) (args : List Converter) (desk : Desk) :
    ∃ outcome deriver,
      (∀ depth, depthBound catalog 0 args.length ≤ depth →
        Work.define catalog depth id args desk = (outcome, ⟨deriver, desk.underway⟩)) ∧
      (desk.underway = ∅ → ofDefinition catalog id args desk.deriver = (outcome, deriver)) ∧
      ∀ e, outcome = .error e →
        e ≠ .endless ∧ (catalog.IsShowable → e.className = "DescriptorError") := by
  have hbuiltin (p : Primitive) : .builtin p ∈ catalog.identities args :=
    Catalog.mem_identities.2 (.inr (.inl ⟨p, by cases p <;> decide, rfl⟩))
  have hargs (c : Converter) (hc : c ∈ args) : c.identity ∈ catalog.identities args :=
    Catalog.mem_identities.2 (.inl ⟨c, hc, rfl⟩)
  have hbound (depth : Nat) (hdepth : depthBound catalog 0 args.length ≤ depth) :
      (catalog.requests (catalog.identities args) \ desk.underway.toList.toFinset).card < depth :=
    ((Finset.card_le_card Finset.sdiff_subset).trans_lt (catalog.card_requests_lt args)).trans_le hdepth
  have hfollows (depth : Nat) (hdepth : depthBound catalog 0 args.length ≤ depth) :=
    Work.define_follows hbuiltin (Catalog.everywhere_admits h args) depth
      (depthBound catalog 0 args.length) desk.underway.toList id args (hbound _ hdepth)
      (hbound _ (Nat.le_refl _)) hargs desk.deriver
  rw [Finset.toList_toFinset] at hfollows
  refine ⟨_, _, fun depth hdepth => (hfollows depth hdepth).1, fun hempty => ?_, ?_⟩
  · rw [ofDefinition, hempty, Finset.toList_empty]
    rfl
  · exact (hfollows _ (Nat.le_refl _)).2.2

/-- Nothing, or a value before an odd number of values. -/
def evens : Description :=
  .sum [.constructor ⟨"Nil", [], none, none, false⟩,
    .constructor ⟨"Cons", [.parameter 0 none, .applied 1 [.parameter 0 none]], none, none, false⟩]

/-- A value before an even number of values. -/
def odds : Description := .product [.parameter 0 none, .applied 0 [.parameter 0 none]]

/-- Definitions that apply each other to their parameter. -/
def evensAndOdds : Catalog := [⟨"evens", ["a"], some evens⟩, ⟨"odds", ["a"], some odds⟩]

theorem evensAndOdds_everywhere {P : Description → Prop} (hevens : P evens) (hodds : P odds)
    (hparameter : P (.parameter 0 none)) (happlied : ∀ id, P (.applied id [.parameter 0 none])) :
    evensAndOdds.Everywhere P := by
  have hleaf : (Description.parameter 0 none).Everywhere P :=
    .intro hparameter (by simp [Description.parts])
  have hreference (id : DefinitionId) : (Description.applied id [.parameter 0 none]).Everywhere P :=
    .intro (happlied id) (by simpa [Description.parts] using hleaf)
  intro id body hbody
  rcases id with _ | _ | id
  · obtain rfl : evens = body := Option.some.inj hbody
    exact .intro hevens (by simp [evens, Description.parts, Case.parts, hleaf, hreference])
  · obtain rfl : odds = body := Option.some.inj hbody
    exact .intro hodds (by simp [odds, Description.parts, hleaf, hreference])
  · cases hbody

theorem ofDefinition_ends_evensAndOdds :
    evensAndOdds.Everywhere Description.RefersToLeaves ∧ evensAndOdds.IsShowable ∧
    ∃ outcome deriver,
      (∀ depth, depthBound evensAndOdds 0 1 ≤ depth →
        Work.define evensAndOdds depth 0 [.ofPrimitive .int] ⟨{}, ∅⟩ = (outcome, ⟨deriver, ∅⟩)) ∧
      ofDefinition evensAndOdds 0 [.ofPrimitive .int] {} = (outcome, deriver) ∧
      ∀ e, outcome = .error e → e.className = "DescriptorError" := by
  have hleaves : evensAndOdds.Everywhere Description.RefersToLeaves :=
    evensAndOdds_everywhere nofun nofun nofun fun _ => List.forall_mem_singleton.2 trivial
  have hshow : evensAndOdds.IsShowable :=
    evensAndOdds_everywhere ⟨by simp [evens, Description.IsTyped, Case.IsTyped], trivial⟩
      ⟨trivial, trivial⟩ ⟨trivial, trivial⟩ fun _ => ⟨trivial, trivial⟩
  obtain ⟨outcome, deriver, hwork, hdefinition, hfault⟩ :=
    ofDefinition_ends hleaves 0 [.ofPrimitive .int] ⟨{}, ∅⟩
  exact ⟨hleaves, hshow, outcome, deriver, hwork, hdefinition rfl, fun e he => (hfault e he).2 hshow⟩

/-- A field that may be left out and has a default, which it may not have. -/
def presetField (v : Value) : Field Description :=
  ⟨"f", some (.primitive "int"), .sexpOption, some ⟨v, 0⟩, .never, none⟩

/-- A record with such a field. -/
def preset (v : Value) : Catalog := [⟨"a", [], some (.record [presetField v] none false)⟩]

theorem preset_refersToLeaves (v : Value) : (preset v).Everywhere Description.RefersToLeaves := by
  intro id body hbody
  rcases id with _ | id
  · obtain rfl := Option.some.inj hbody
    refine .intro nofun fun p hp => ?_
    obtain rfl : p = .primitive "int" := List.mem_singleton.1 hp
    exact .intro nofun nofun
  · cases hbody

theorem checkAbsence_preset {v : Value} {fault : ValueFault} (hv : v.literal = .error fault)
    (type : Description) :
    Description.checkAbsence (presetField v) type = .error (.value fault) := by
  cases v with
  | none => exact nomatch hv
  | _ => simp only [presetField, Description.checkAbsence, DescriptionFault.ofLiteral, hv]

/-- The refusal of a default that has no literal is the fault of the literal. -/
theorem preset_run {v : Value} {fault : ValueFault} (hv : v.literal = .error fault) :
    ofDefinition (preset v) 0 [] {} = (.error (.value fault), {}) := by
  refine define_run_error rfl rfl rfl List.not_mem_nil (Description.record_run_error rfl ?_)
  rw [Description.buildFields]
  refine bind_run_error ?_
  have hrule : Description.dropping (presetField v) = .ok .never := rfl
  have habsence := checkAbsence_preset hv (.primitive "int")
  rw [presetField] at hrule habsence ⊢
  rw [Description.buildField, check_run hrule, if_neg (by decide)]
  simp only [habsence]
  rfl

/-- **A refusal that has to show an integer with too many digits has the wrong class.** -/
theorem ofDefinition_preset : ∃ v, (preset v).Everywhere Description.RefersToLeaves ∧
    ∃ e, (ofDefinition (preset v) 0 []).result {} = .error e ∧ e.className = "ValueError" := by
  have hv : (Value.int (10 ^ Spelling.maxDigits : Nat)).literal = .error .tooManyDigits := by
    rw [Value.literal, Spelling.writeInt?_eq_none (Nat.le_refl _)]
  exact ⟨_, preset_refersToLeaves _, _, congrArg Prod.fst (preset_run hv), rfl⟩

end Derivation

end TypedSexp
