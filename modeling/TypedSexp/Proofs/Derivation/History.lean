import TypedSexp.Proofs.Derivation.Reliable
import TypedSexp.Proofs.Derivation.Session
/-!
# Derivations one after another

A `History` is what one deriver was asked for while the definitions stayed as they are: derivations, and
conversions, which follow links. Some derivations may have been refused: what was complete before is
remembered all the same, and it may hold links to the definitions that were being derived then. So only
a history in which none was refused since the memory was last cleared remembers nothing unreliable
(`History.sturdy`); in every history each converter is built from its type (`History.kept`).
-/

namespace TypedSexp

/-- The ledger with no number taken, and with these converters from outside. -/
def Ledger.first (outside : Text → Option Custom) : Ledger := ⟨fun _ => .ofPrimitive .unit, 0, outside⟩

/-- A target that can be asked for: its converters are built in, from outside, or those of a
history, and a description is the one with its number. -/
def Target.IsKnown (l : Ledger) (numbering : Nat → Description)
    (converters : List (BoundType × Converter)) : Target → Prop
  | .definition _ => True
  | .description number d => d = numbering number ∧ l.Admits d.givens
  | .converter c => (∃ p, c = .ofPrimitive p) ∨ l.Admits [c] ∨ ∃ t, (t, c) ∈ converters
  | .foreign _ => True

/-- What is remembered, and the converters that were derived, with their types. `failed` tells
whether a derivation, or a link, has been refused since the memory was last cleared. -/
inductive History (catalog : Catalog) (numbering : Nat → Description) (outside : Text → Option Custom) :
    Bool → Deriver → List (BoundType × Converter) → Prop
  | start : History catalog numbering outside false {} []
  | derived {failed : Bool} {d : Deriver} {converters : List (BoundType × Converter)}
      {target : Target} {args : List Target} {env : List BoundType} {t : BoundType} {c : Converter}
      (hargs : List.Forall₂
        (fun a t => a.Denotes (.first outside) numbering converters [] t) args env)
      (ht : target.Denotes (.first outside) numbering converters env t)
      (hc : (Derivation.derive catalog target args).result d = .ok c)
      (h : History catalog numbering outside failed d converters) :
      History catalog numbering outside failed (Derivation.derive catalog target args d).2
        ((t, c) :: converters)
  | refused {failed : Bool} {d : Deriver} {converters : List (BoundType × Converter)}
      {target : Target} {args : List Target} {e : DescriptionFault}
      (hargs : ∀ a ∈ args, a.IsKnown (.first outside) numbering converters)
      (ht : target.IsKnown (.first outside) numbering converters)
      (he : (Derivation.derive catalog target args).result d = .error e)
      (h : History catalog numbering outside failed d converters) :
      History catalog numbering outside true (Derivation.derive catalog target args d).2 converters
  | pursued {failed stopped : Bool} {d m : Deriver} {converters : List (BoundType × Converter)}
      {t : BoundType} {c : Converter} (hc : (t, c) ∈ converters)
      (hlinks : c.plan.Pursues catalog d stopped m)
      (h : History catalog numbering outside failed d converters) :
      History catalog numbering outside (failed || stopped) m converters
  | clear {failed : Bool} {d : Deriver} {converters : List (BoundType × Converter)}
      (h : History catalog numbering outside failed d converters) :
      History catalog numbering outside false d.clear converters

variable {catalog : Catalog} {numbering : Nat → Description} {outside : Text → Option Custom}
  {failed : Bool} {d : Deriver} {l l' : Ledger} {converters : List (BoundType × Converter)}

/-! ## Converters are built from their types -/

theorem Target.IsKnown.later {target : Target} (h : target.IsKnown l numbering converters)
    (hl : l'.Extends l) : target.IsKnown l' numbering converters := by
  cases target with
  | definition id => trivial
  | description number x => exact ⟨h.1, h.2.later hl⟩
  | converter c => exact h.imp_right fun h => h.imp_left fun h => h.later hl
  | foreign v => trivial

namespace Derivation

theorem ofTarget_knows (hcatalog : catalog.AdmittedBy l) (hl : l.Holds catalog converters)
    {target : Target} {cs : List Converter} (ht : target.IsKnown l numbering converters)
    (hcs : l.Trusts cs) :
    Keeps catalog numbering l (ofTarget catalog cs target) fun l' c => l'.Knows c := by
  cases target with
  | definition id => exact (ofDefinition_keeps hcatalog id hcs).weaken fun _ _ _ hc => hc.1
  | description number x =>
    obtain ⟨rfl, hgivens⟩ := ht
    exact (ofDescription_keeps hcatalog number hgivens hcs).weaken fun _ _ _ hc => hc.1
  | converter c =>
    rcases ht with ⟨p, rfl⟩ | hout | ⟨t, hmem⟩
    · exact .pure (l.knows_ofPrimitive p)
    · obtain ⟨name, k, hk, rfl⟩ := hout _ List.mem_cons_self
      exact .pure (Ledger.knows_ofCustom hk)
    · exact .pure (hl _ _ hmem).1
  | foreign v => exact .throw

theorem ofTargets_knows : ∀ {l : Ledger} {targets : List Target}, catalog.AdmittedBy l →
    l.Holds catalog converters → (∀ a ∈ targets, a.IsKnown l numbering converters) →
    Keeps catalog numbering l (ofTargets catalog targets) fun l' cs => l'.Trusts cs
  | _, [], _, _, _ => .pure (by simp [Ledger.Trusts])
  | l, target :: targets, hcatalog, hl, h => by
    rw [ofTargets]
    have hnone : l.Trusts [] := by simp [Ledger.Trusts]
    refine (ofTarget_knows hcatalog hl (h _ List.mem_cons_self) hnone).bind fun l₁ c hext₁ hc => ?_
    refine (ofTargets_knows (hcatalog.later hext₁) (hl.mono (fun _ _ h => h) hext₁)
      fun a ha => (h a (List.mem_cons_of_mem _ ha)).later hext₁).bind fun l₂ cs hext₂ hcs => .pure ?_
    intro k hk
    rcases List.mem_cons.1 hk with rfl | hk
    · exact hc.mono hext₂
    · exact hcs k hk

/-- Whatever is asked for, memory stays right. -/
theorem derive_knows (hcatalog : catalog.AdmittedBy l) (hl : l.Holds catalog converters)
    {target : Target} {args : List Target}
    (hargs : ∀ a ∈ args, a.IsKnown l numbering converters)
    (ht : target.IsKnown l numbering converters) :
    Keeps catalog numbering l (derive catalog target args) fun l' c => l'.Knows c := by
  have hrun : Keeps catalog numbering l (ofTargets catalog args >>= fun cs =>
      ofTarget catalog cs target) fun l' c => l'.Knows c :=
    (ofTargets_knows hcatalog hl hargs).bind fun l' cs hext hcs =>
      ofTarget_knows (hcatalog.later hext) (hl.mono (fun _ _ h => h) hext) (ht.later hext) hcs
  unfold derive
  cases target with
  | converter c =>
    cases args with
    | nil => exact hrun
    | cons a args => exact .throw
  | _ => exact hrun

end Derivation

namespace History

/-- **Whatever a deriver was asked for, its converters are built from their types.** -/
theorem kept (hcatalog : catalog.AdmittedBy (.first outside))
    (h : History catalog numbering outside failed d converters) :
    ∃ l : Ledger, l.Extends (.first outside) ∧ d.Kept catalog numbering l ∧
      l.Holds catalog converters := by
  induction h with
  | start =>
    refine ⟨.first outside, .refl _, ⟨rfl, fun r c hc => ?_⟩, fun t c hc => ?_⟩
    · exact absurd hc List.not_mem_nil
    · exact absurd hc List.not_mem_nil
  | @derived _ d _ target args _ t c hargs ht hc _ ih =>
    obtain ⟨l, hl, hkept, hholds⟩ := ih
    obtain ⟨l', hext, hkept', hpost⟩ := Derivation.derive_keeps (hcatalog.later hl) hholds
      (hargs.imp fun _ _ h => h.mono hl) (ht.mono hl) d hkept
    refine ⟨l', hext.trans hl, hkept', fun t' c' hmem => ?_⟩
    rcases List.mem_cons.1 hmem with heq | hmem
    · obtain ⟨rfl, rfl⟩ := Prod.mk.inj heq
      exact hpost c' hc
    · exact hholds.mono (fun _ _ h => h) hext t' c' hmem
  | @refused _ d _ target args _ hargs ht _ _ ih =>
    obtain ⟨l, hl, hkept, hholds⟩ := ih
    obtain ⟨l', hext, hkept', -⟩ := Derivation.derive_knows (hcatalog.later hl) hholds
      (fun a ha => (hargs a ha).later hl) (ht.later hl) d hkept
    exact ⟨l', hext.trans hl, hkept', hholds.mono (fun _ _ h => h) hext⟩
  | pursued hc hlinks _ ih =>
    obtain ⟨l, hl, hkept, hholds⟩ := ih
    obtain ⟨l', hext, hkept'⟩ := hlinks.kept (hcatalog.later hl) hkept (hholds _ _ hc).2
    exact ⟨l', hext.trans hl, hkept', hholds.mono (fun _ _ h => h) hext⟩
  | clear _ ih =>
    obtain ⟨l, hl, hkept, hholds⟩ := ih
    exact ⟨l, hl, hkept.clear, hholds⟩

end History

/-! ## What a target stands for -/

/-- A target that is no foreign value stands for a type; a converter takes no arguments. -/
theorem Target.IsKnown.denotes {target : Target} (h : target.IsKnown l numbering converters)
    (hforeign : ∀ v, target ≠ .foreign v) {env : List BoundType}
    (hargs : ∀ c, target = .converter c → env = []) :
    ∃ t, target.Denotes l numbering converters env t := by
  cases target with
  | definition id => exact ⟨_, .definition id env⟩
  | description number x =>
    obtain ⟨rfl, hgivens⟩ := h
    exact ⟨_, .description number env hgivens⟩
  | converter c =>
    obtain rfl := hargs c rfl
    rcases h with ⟨p, rfl⟩ | hout | ⟨t, hmem⟩
    · exact ⟨_, .builtin p⟩
    · exact ⟨_, .custom hout⟩
    · exact ⟨_, .converter hmem⟩
  | foreign v => exact absurd rfl (hforeign v)

namespace Derivation

theorem ofTarget_foreign (catalog : Catalog) (cs : List Converter) (v : Value) (d : Deriver)
    (c : Converter) : (ofTarget catalog cs (.foreign v)).result d ≠ .ok c := nofun

theorem denotes_of_ofTargets : ∀ {targets : List Target} {d : Deriver} {cs : List Converter},
    (∀ a ∈ targets, a.IsKnown l numbering converters) →
    (ofTargets catalog targets).result d = .ok cs →
    ∃ env, List.Forall₂ (fun a t => a.Denotes l numbering converters [] t) targets env
  | [], _, _, _, _ => ⟨[], .nil⟩
  | target :: targets, d, cs, h, hcs => by
    rw [ofTargets] at hcs
    cases hc : (ofTarget catalog [] target).result d with
    | error e =>
      rw [bind_eq_of_error hc] at hcs
      cases hcs
    | ok c =>
      rw [result, bind_eq_of_ok hc] at hcs
      have hforeign (v : Value) (heq : target = .foreign v) : False :=
        ofTarget_foreign catalog [] v d c (heq ▸ hc)
      obtain ⟨t, ht⟩ := (h target List.mem_cons_self).denotes hforeign fun _ _ => rfl
      cases hrest : (ofTargets catalog targets).result (ofTarget catalog [] target d).2 with
      | error e =>
        have hfail := bind_eq_of_error (f := fun cs => pure (c :: cs)) hrest
        cases hfail.symm.trans hcs
      | ok rest =>
        obtain ⟨env, henv⟩ := denotes_of_ofTargets
          (fun a ha => h a (List.mem_cons_of_mem _ ha)) hrest
        exact ⟨t :: env, .cons ht henv⟩

/-- What is derived has a type. -/
theorem denotes_of_derive {target : Target} {args : List Target} {c : Converter}
    (hargs : ∀ a ∈ args, a.IsKnown l numbering converters)
    (ht : target.IsKnown l numbering converters)
    (hc : (derive catalog target args).result d = .ok c) :
    ∃ env t, List.Forall₂ (fun a t => a.Denotes l numbering converters [] t) args env ∧
      target.Denotes l numbering converters env t := by
  have hrun : (∀ k, target = .converter k → args = []) ∧
      (ofTargets catalog args >>= fun cs => ofTarget catalog cs target).result d = .ok c := by
    unfold derive at hc
    cases target with
    | converter k =>
      cases args with
      | nil => exact ⟨fun _ _ => rfl, hc⟩
      | cons a args => cases hc
    | _ => exact ⟨fun _ heq => absurd heq (by simp), hc⟩
  obtain ⟨hnone, hrun⟩ := hrun
  cases hcs : (ofTargets catalog args).result d with
  | error e =>
    rw [bind_eq_of_error hcs] at hrun
    cases hrun
  | ok cs =>
    rw [result, bind_eq_of_ok hcs] at hrun
    obtain ⟨env, henv⟩ := denotes_of_ofTargets hargs hcs
    have hforeign (v : Value) (heq : target = .foreign v) : False :=
      ofTarget_foreign catalog cs v _ c (heq ▸ hrun)
    have hempty (k : Converter) (heq : target = .converter k) : env = [] := by
      obtain rfl := hnone k heq
      cases henv
      rfl
    obtain ⟨t, htype⟩ := ht.denotes hforeign hempty
    exact ⟨env, t, henv, htype⟩

end Derivation

/-! ## What is remembered is reliable -/

theorem Target.Denotes.isNumbered {target : Target} {env : List BoundType} {t : BoundType}
    (h : target.Denotes l numbering converters env t) :
    Derivation.Target.IsNumbered numbering target := by
  intro number x heq
  cases h with
  | description => exact (Target.description.inj heq).2 ▸ (Target.description.inj heq).1 ▸ rfl
  | _ => exact absurd heq (by simp)

namespace Derivation

/-- The derivation is endless or succeeds. -/
def Endures {α : Type} (x : Derivation α) (d : Deriver) : Prop :=
  x.result d = .error .endless ∨ ∃ a, x.result d = .ok a

/-- What succeeds where only reliable things are remembered is refused nowhere, and all that is
remembered then is reliable. -/
theorem Sturdy.derive {target : Target} {args : List Target} {env : List BoundType} {t : BoundType}
    {c : Converter} (hargs : List.Forall₂ (fun a t => a.Denotes l numbering converters [] t) args env)
    (ht : target.Denotes l numbering converters env t) (h : Sturdy catalog numbering [] d.cache)
    (hc : (derive catalog target args).result d = .ok c) :
    Sturdy catalog numbering [] (derive catalog target args d).2.cache ∧
      ∀ d', (derive catalog target args).Endures d' := by
  have hnumbered (a : Target) (ha : a ∈ args) : Target.IsNumbered numbering a := by
    obtain ⟨hlen, hzip⟩ := List.forall₂_iff_zip.1 hargs
    obtain ⟨t, hmem⟩ := exists_zip_right hlen ha
    exact (hzip hmem).isNumbered
  obtain ⟨hsturdy, hgives⟩ := derive_carries ht.isNumbered hnumbered d c h hc
  exact ⟨hsturdy, fun d' => (hgives d').imp_right fun ⟨b, hb, _⟩ => ⟨b, hb⟩⟩

end Derivation

/-- **If nothing was refused, all that is remembered is reliable.** -/
theorem History.sturdy (h : History catalog numbering outside failed d converters) :
    failed = false → Derivation.Sturdy catalog numbering [] d.cache := by
  induction h with
  | start => exact fun _ r c hc => absurd hc List.not_mem_nil
  | derived hargs ht hc _ ih => exact fun hfailed => ((ih hfailed).derive hargs ht hc).1
  | refused => exact fun hfailed => absurd hfailed (by simp)
  | pursued _ hlinks _ ih =>
    intro hor
    obtain ⟨hfailed, hstopped⟩ := Bool.or_eq_false_iff.1 hor
    exact hlinks.sturdy hstopped (ih hfailed)
  | clear _ _ => exact fun _ => Derivation.sturdy_clear _

/-- Another description is derived. -/
theorem History.describe (h : History catalog numbering outside failed d converters) {number : Nat}
    (hplain : (numbering number).isPlain) {c : Converter} {d' : Deriver}
    (hrun : Derivation.derive catalog (.description number (numbering number)) [] d = (.ok c, d')) :
    History catalog numbering outside failed d' ((.mk (numbering number) [], c) :: converters) := by
  have hgivens : (Ledger.first outside).Admits (numbering number).givens :=
    Ledger.admits_of_isPlain _ hplain
  have hderived := h.derived .nil (.description number [] hgivens) (congrArg Prod.fst hrun)
  rwa [show (Derivation.derive catalog (.description number (numbering number)) [] d).2 = d' from
    congrArg Prod.snd hrun] at hderived

end TypedSexp
