import Mathlib.Data.List.Perm.Basic
import TypedSexp.Proofs.Conversion.Choice
import TypedSexp.Proofs.Conversion.Memory
import TypedSexp.Proofs.Derivation.Coil
/-!
# The order of constructors

A variant is read by the constructor that the tag names, whatever the order of the constructors
(`History.read_variant`): with its constructors in another order a variant reads alike, unless a link
stops one of the two converters. Links can be stopped in one order alone, because the order decides
what is derived first, and what was derived first ends chains of definitions that would otherwise have
no end (`Reordering.reordered_endless`).
-/

namespace TypedSexp

open Derivation

/-! ## Errors without the order of constructors -/

/-- The cause without the name of the converter, and without the tags that there are. -/
def ConversionCause.outline : ConversionCause → ConversionCause
  | .unknownTag _ tag _ => .unknownTag [] tag []
  | cause => cause.unnamed

/-- The error without the name of the converter that refused, and without the tags that there are. -/
def ReadError.outline : ReadError → ReadError
  | .conversion e => .conversion { e with cause := e.cause.outline }
  | e => e

theorem ReadError.outline_gist (e : ReadError) : e.gist.outline = e.outline := by
  rcases e with ⟨⟨⟩, _, _⟩ | _ | _ | _ | _ | _ | _ <;> rfl

theorem Agree.outline {α : Type} {x y : Except ReadError α}
    (h : Agree ReadError.stops ReadError.gist x y) : Agree ReadError.stops ReadError.outline x y := by
  rcases h.elim with hstop | hstop | ⟨e, e', rfl, rfl, he⟩ | ⟨a, rfl, rfl⟩
  · exact .inl hstop
  · exact .inr (.inl hstop)
  · refine .inr (.inr (congrArg Except.error ?_))
    rw [← e.outline_gist, ← e'.outline_gist, he]
  · exact .refl _

theorem ReadError.stops_outline (e : ReadError) : e.outline.stops = e.stops := by
  cases e <;> rfl

/-- Readings of the same outline agree with the same readings. -/
theorem Agree.outline_right {x y z : Except ReadError Value}
    (h : Agree ReadError.stops ReadError.outline x y)
    (hyz : y.mapError ReadError.outline = z.mapError ReadError.outline) :
    Agree ReadError.stops ReadError.outline x z := by
  rcases h with hstop | ⟨e, rfl, he⟩ | heq
  · exact .inl hstop
  · cases z with
    | ok a => exact nomatch hyz
    | error e' =>
      have houtline : e.outline = e'.outline := Except.error.inj hyz
      exact .inr (.inl ⟨e', rfl, by rw [← e'.stops_outline, ← houtline, e.stops_outline, he]⟩)
  · exact .inr (.inr (heq.trans hyz))

/-! ## Plans in another order -/

/-- The order of the plans does not matter, unless a tag names no constructor: then the tags that
there are are told in another order. -/
theorem Setting.readBy_perm {s : Setting} {label : Text} {folding : Bool}
    {plans plans' : List (CasePlan Plan)} (hnodup : (plans.map CasePlan.tag).Nodup)
    (hperm : plans.Perm plans') (node : Node) :
    (s.readBy (.variant label folding plans) node).mapError ReadError.outline =
      (s.readBy (.variant label folding plans') node).mapError ReadError.outline := by
  have hresolve (t : Text) : Tags.resolve? folding (CasePlan.tags plans) t =
      Tags.resolve? folding (CasePlan.tags plans') t := Tags.resolveBy?_perm (hperm.map _)
  have hnodup' : (plans'.map CasePlan.tag).Nodup := (hperm.map _).nodup_iff.1 hnodup
  have hcase (t tag : Text) (rest : Option (List Node))
      (htag : Tags.resolve? folding (CasePlan.tags plans') t = some tag) :
      Plan.readCase s.follow s.switches (Converter.readerName label) tag node rest plans =
        Plan.readCase s.follow s.switches (Converter.readerName label) tag node rest plans' := by
    obtain ⟨p, hp, rfl⟩ := List.mem_map.1 (Tags.mem_of_resolveBy? htag)
    rw [Plan.readCase_of_mem _ _ _ _ _ hnodup (hperm.symm.subset hp),
      Plan.readCase_of_mem _ _ _ _ _ hnodup' hp]
  rw [readBy, readBy]
  rcases node with ⟨t, l⟩ | ⟨_ | ⟨⟨t, l⟩ | ⟨_, _⟩, rest⟩, _⟩
  · rw [Plan.read, Plan.read]
    simp only [hresolve]
    cases htag : Tags.resolve? folding (CasePlan.tags plans') t with
    | none => rfl
    | some tag => exact congrArg _ (hcase t tag none htag)
  · rfl
  · rw [Plan.read, Plan.read]
    simp only [hresolve]
    cases htag : Tags.resolve? folding (CasePlan.tags plans') t with
    | none => rfl
    | some tag => exact congrArg _ (hcase t tag (some rest) htag)
  · rfl

/-! ## Variants in another order -/

section

variable {catalog : Catalog} {numbering : Nat → Description} {outside : Text → Option Custom}
  {failed failed' : Bool} {d d' : Deriver} {converters converters' : List (BoundType × Converter)}
  {x x' : Description} {folding : Bool} {cs cs' : List (Constructor Description)}
  {env : List BoundType} {c c' : Converter}

/-- A variant is built from what its constructors are built from. -/
theorem Built.of_cases {Trusted : List Converter → Prop} {params : List Converter} (label : Text)
    {plans : List (CasePlan Plan)} (hx : x.IsVariant folding cs)
    (htags : (cs.map Constructor.tag).Nodup)
    (h : List.Forall₂ (BuiltCase catalog Trusted params) cs plans) :
    Built catalog Trusted params x (.variant label folding plans) := by
  obtain ⟨hlen, hzip⟩ := List.forall₂_iff_zip.1 h
  exact .variant hx htags hlen (fun _ _ hmem => (hzip hmem).1) fun _ _ x q hmem => (hzip hmem).2 x q

/-- A plan of a variant, its constructors put in another order, is one of the variant in that
order. -/
theorem Built.reordered {Trusted : List Converter → Prop} {params : List Converter} (label : Text)
    {plans : List (CasePlan Plan)} (hx : x.IsVariant folding cs) (hperm : cs.Perm cs')
    (htags : (cs'.map Constructor.tag).Nodup)
    (h : List.Forall₂ (BuiltCase catalog Trusted params) cs' plans) :
    ∃ plans', plans'.Perm plans ∧ Built catalog Trusted params x (.variant label folding plans') := by
  obtain ⟨plans', hcases, hplans⟩ := List.perm_comp_forall₂ hperm h
  exact ⟨plans', hplans, .of_cases label hx ((hperm.map _).nodup_iff.2 htags) hcases⟩

/-- Converters of variants that differ in the order of their constructors read alike, unless one of
them is stopped. -/
theorem History.read_reordered (hcatalog : catalog.AdmittedBy (.first outside))
    (h : History catalog numbering outside failed d converters)
    (h' : History catalog numbering outside failed' d' converters') (hx : x.IsVariant folding cs)
    (hx' : x'.IsVariant folding cs') (hperm : cs.Perm cs') (hc : (.mk x env, c) ∈ converters)
    (hc' : (.mk x' env, c') ∈ converters') (switches : Switches) (node : Node) :
    Agree ReadError.stops ReadError.outline (Setting.read ⟨catalog, d, switches⟩ c node)
      (Setting.read ⟨catalog, d', switches⟩ c' node) := by
  obtain ⟨l, hs, hreal⟩ := h.realises hcatalog hc switches
  obtain ⟨l', hs', hreal'⟩ := h'.realises hcatalog hc' switches
  obtain ⟨hlen, henv, hb⟩ := hreal'
  obtain ⟨label, plans', hplan', htags', hlength, hcases⟩ := hb.of_variant hx'
  have hcases' := List.forall₂_iff_zip.2 ⟨hlength, fun hmem => hcases _ _ hmem⟩
  obtain ⟨plans, hplans, hb'⟩ := Built.reordered label hx hperm htags' hcases'
  -- the second converter, its constructors in the order of the first one
  let c₂ : Converter := ⟨c'.identity, c'.name, .variant label folding plans⟩
  have hreal₂ : Realises catalog l'.Foresees (.mk x env) c₂.plan := ⟨hlen, henv, hb'⟩
  have hagree := Setting.read_agree hs hs' (BoundType.Twin.refl (.mk x env)).covers hreal hreal₂ node
  refine hagree.outline.outline_right ?_
  have hnodup : (plans.map CasePlan.tag).Nodup := by
    rw [(hplans.map _).nodup_iff]
    exact Setting.nodup_of_fits htags' (hcases'.imp fun _ _ hp => hp.1)
  rw [Setting.read_eq_readBy, Setting.read_eq_readBy, hplan']
  exact Setting.readBy_perm hnodup hplans node

/-- **A variant is read by the constructor that the tag names**, whatever the keys of tags are, and
nothing else is read. With its constructors in another order it reads alike, with errors that tell the
tags in another order, unless one of the two converters is stopped: its link is refused or has no
end. -/
theorem History.read_variant (hcatalog : catalog.AdmittedBy (.first outside))
    (h : History catalog numbering outside failed d converters)
    (h' : History catalog numbering outside failed' d' converters') (hx : x.IsVariant folding cs)
    (hx' : x'.IsVariant folding cs') (hperm : cs.Perm cs') (hc : (.mk x env, c) ∈ converters)
    (hc' : (.mk x' env, c') ∈ converters') :
    ∃ (l : Ledger) (label : Text) (plans : List (CasePlan Plan)),
      c.plan = .variant label folding plans ∧
      List.Forall₂ (fun k p => p.Fits k ∧
        ∀ d q, CasePlan.Part k p d q → Realises catalog l.Trusts (.mk d env) q) cs plans ∧
      (∀ fold t, ∀ k ∈ cs, k.IsNamed fold folding cs t ↔
        Tags.resolveBy? fold folding (cs.map Constructor.tag) t = some k.tag) ∧
      (∀ s : Setting, s.ReadsByTag c label folding cs plans) ∧
      ∀ switches node, Agree ReadError.stops ReadError.outline
        (Setting.read ⟨catalog, d, switches⟩ c node)
        (Setting.read ⟨catalog, d', switches⟩ c' node) := by
  obtain ⟨l, label, plans, hplan, htags, hcases⟩ := h.plans_of_variant hcatalog hx hc
  have hfits := hcases.imp fun _ _ hp => hp.1
  exact ⟨l, label, plans, hplan, hcases, fun _ _ _ hk => Constructor.isNamed_iff htags hk,
    fun s => Setting.readsByTag hplan htags hfits,
    h.read_reordered hcatalog h' hx hx' hperm hc hc'⟩

end

namespace Reordering

open Description Coil

/-! ### Two orders read alike -/

/-- What the fifth definition is read from where its list is empty. -/
def entries : Node := .list [.list [.atom "h" none, .list [] none] none] none

/-- These behind the tag of a constructor. -/
def tagged : Node := .list [.atom "B" none, entries] none

/-- The second constructor reads what its argument does. -/
theorem readBy_tagged {s : Setting} {label : Text} {folding : Bool} {plans : List (CasePlan Plan)}
    {x : Converter} (hnodup : (plans.map CasePlan.tag).Nodup)
    (hp : ⟨"B", none, .arguments [x]⟩ ∈ plans) :
    s.readBy (.variant label folding plans) tagged =
      (((s.readBy x.plan entries).mapError (.within (.index 0))).map fun v => [v]).mapError
        (.within (.name "B")) >>= fun args => .ok (.variant "B" args) := by
  refine (Setting.readBy_tag hnodup hp [entries] none none).trans ?_
  rw [Setting.readFormBy, Plan.readForm]
  show ((Plan.readParts (M := Except) _ _ _ _ _).mapError _ >>= _) = _
  rw [Plan.readParts]
  show ((Except.mapError _ (s.readBy x.plan entries) >>= _).mapError _ >>= _) = _
  cases s.readBy x.plan entries with
  | error e => rfl
  | ok v => rfl

/-- The variant in both orders. -/
def numbering : Nat → Description
  | 0 => variantOf constructors
  | _ => variantOf constructors.reverse

theorem coil_admitted : Catalog.AdmittedBy coil (.first fun _ => none) := by
  refine Catalog.isPlain.admittedBy (fun id body hb => ?_) _
  match id with
  | 0 | 1 | 2 | 3 | 4 =>
    obtain rfl := Option.some.inj hb
    rfl
  | id + 5 => exact absurd hb (by simp [Catalog.body?, coil])

theorem history_forward : History coil numbering (fun _ => none) false afterForward
    [(.mk (variantOf constructors) [], forward)] := by
  have hplain : (numbering 0).isPlain := by decide
  exact History.start.describe hplain derive_forward

theorem history_backward : History coil numbering (fun _ => none) false afterBackward
    [(.mk (variantOf constructors.reverse) [], backward)] := by
  have hplain : (numbering 1).isPlain := by decide
  exact History.start.describe hplain derive_backward

/-- The variant is read by its tags, and alike in both orders. -/
theorem read_variant_coil :
    History coil numbering (fun _ => none) false afterForward
      [(.mk (variantOf constructors) [], forward)] ∧
    History coil numbering (fun _ => none) false afterBackward
      [(.mk (variantOf constructors.reverse) [], backward)] ∧
    ∃ (l : Ledger) (label : Text) (plans : List (CasePlan Plan)),
      forward.plan = .variant label true plans ∧
      List.Forall₂ (fun k p => p.Fits k ∧
        ∀ d q, CasePlan.Part k p d q → Realises coil l.Trusts (.mk d []) q) constructors plans ∧
      (∀ fold t, ∀ k ∈ constructors, k.IsNamed fold true constructors t ↔
        Tags.resolveBy? fold true (constructors.map Constructor.tag) t = some k.tag) ∧
      (∀ s : Setting, s.ReadsByTag forward label true constructors plans) ∧
      ∀ switches node, Agree ReadError.stops ReadError.outline
        (Setting.read ⟨coil, afterForward, switches⟩ forward node)
        (Setting.read ⟨coil, afterBackward, switches⟩ backward node) :=
  ⟨history_forward, history_backward, history_forward.read_variant coil_admitted history_backward .sum
    .sum (List.reverse_perm _).symm List.mem_cons_self List.mem_cons_self⟩

/-! ### One order ends -/

/-- **The order of constructors decides whether a link has an end**: in one order a tree is read, and
in the other one it leads to a definition without an end. -/
theorem reordered_endless :
    constructors.Perm constructors.reverse ∧
    derive coil (.description 0 (variantOf constructors)) [] {} = (.ok forward, afterForward) ∧
    derive coil (.description 1 (variantOf constructors.reverse)) [] {} =
      (.ok backward, afterBackward) ∧
    ∀ switches, Setting.read ⟨coil, afterForward, switches⟩ forward tagged =
        .ok (.variant "B" [.record [("h", .list [])]]) ∧
      Setting.read ⟨coil, afterBackward, switches⟩ backward tagged = .error .endless := by
  have hforward : (⟨"B", none, .arguments [⟨.derived 14, "b", .link 14 4 [outerWithin 0]⟩]⟩ : CasePlan Plan) ∈
      [⟨"Q", none, .arguments [innerAround 0]⟩,
        ⟨"B", none, .arguments [⟨.derived 14, "b", .link 14 4 [outerWithin 0]⟩]⟩] := by simp
  have hbackward : (⟨"B", none, .arguments [⟨.derived 14, "b", .link 14 4 [outerAround 0]⟩]⟩ : CasePlan Plan) ∈
      [⟨"B", none, .arguments [⟨.derived 14, "b", .link 14 4 [outerAround 0]⟩]⟩,
        ⟨"Q", none, .arguments [innerWithin 0]⟩] := by simp
  refine ⟨(List.reverse_perm _).symm, derive_forward, derive_backward, fun switches => ⟨?_, ?_⟩⟩
  · rw [Setting.read_eq_readBy, forward, readBy_tagged (by decide) hforward, Setting.readBy_eq_bind,
      settle_forward]
    rfl
  · rw [Setting.read_eq_readBy, backward, readBy_tagged (by decide) hbackward,
      Setting.readBy_eq_bind, settle_backward]
    rfl

end Reordering

end TypedSexp
