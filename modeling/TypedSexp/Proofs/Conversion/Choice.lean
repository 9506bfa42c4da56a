import Mathlib.Data.List.Nodup
import TypedSexp.Proofs.Conversion.Descent
import TypedSexp.Proofs.Conversion.Tags
import TypedSexp.Proofs.Conversion.Variant
import TypedSexp.Proofs.Derivation.History
import TypedSexp.Proofs.Derivation.Inversion
/-!
# Which constructor reads a tree

A variant is read by the constructor that the tag of the tree names (`Constructor.IsNamed`): the one
with this very tag, or else, where tags are compared without case, the only one whose tag is equal to
it without case. Nothing but the constructors themselves decides which one that is, neither their
order nor the pass in which their tags are put into a table (`Constructor.isNamed_iff`). A tree whose
tag names no constructor is refused (`Setting.ReadsByTag`).
-/

namespace TypedSexp

/-! ## Constructors by their tags -/

section Named

variable {fold : Text → Text} {folding : Bool} {cs cs' : List (Constructor Description)} {t : Text}
  {k k' : Constructor Description}

/-- The constructor that a tag names: its own tag is the same, or, with `folding`, it is the only one
whose tag has the same key, if none has the same tag. -/
inductive Constructor.IsNamed (fold : Text → Text) (folding : Bool)
    (cs : List (Constructor Description)) (t : Text) : Constructor Description → Prop
  | same {k : Constructor Description} (hk : k ∈ cs) (h : k.tag = t) : IsNamed fold folding cs t k
  | only {k : Constructor Description} (hk : k ∈ cs) (hfolding : folding = true)
      (hother : ∀ j ∈ cs, j.tag ≠ t) (h : fold k.tag = fold t)
      (honly : ∀ j ∈ cs, fold j.tag = fold t → j = k) : IsNamed fold folding cs t k

theorem Constructor.IsNamed.mem (h : k.IsNamed fold folding cs t) : k ∈ cs := by
  cases h with
  | same hk _ => exact hk
  | only hk _ _ _ _ => exact hk

/-- The order of the constructors does not matter. -/
theorem Constructor.IsNamed.perm (hperm : cs.Perm cs') (h : k.IsNamed fold folding cs t) :
    k.IsNamed fold folding cs' t := by
  cases h with
  | same hk h => exact .same (hperm.subset hk) h
  | only hk hfolding hother h honly =>
    exact .only (hperm.subset hk) hfolding (fun j hj => hother j (hperm.symm.subset hj)) h
      fun j hj => honly j (hperm.symm.subset hj)

/-- **The table of tags finds the constructor that a tag names**, whatever the keys are. -/
theorem Constructor.isNamed_iff (htags : (cs.map Constructor.tag).Nodup) (hk : k ∈ cs) :
    k.IsNamed fold folding cs t ↔
      Tags.resolveBy? fold folding (cs.map Constructor.tag) t = some k.tag := by
  rw [Tags.resolveBy?_eq_some_iff]
  have hmem : k.tag ∈ cs.map Constructor.tag := List.mem_map_of_mem hk
  constructor
  · intro h
    cases h with
    | same _ h => exact .inl ⟨hmem, h⟩
    | only _ hfolding hother h honly =>
      refine .inr ⟨by simpa using hother, hfolding, List.perm_singleton.1 ?_⟩
      refine (List.perm_ext_iff_of_nodup (htags.filter _) (List.nodup_singleton _)).2 fun tag => ?_
      rw [List.mem_filter, List.mem_singleton]
      constructor
      · rintro ⟨htag, hkey⟩
        obtain ⟨j, hj, rfl⟩ := List.mem_map.1 htag
        exact congrArg Constructor.tag (honly j hj (by simpa using hkey))
      · rintro rfl
        exact ⟨hmem, by simpa using h⟩
  · rintro (⟨-, h⟩ | ⟨hnot, hfolding, hfilter⟩)
    · exact .same hk h
    · have honly (tag : Text) (htag : tag ∈ cs.map Constructor.tag) (hkey : fold tag = fold t) :
          tag = k.tag := by
        have hfound : tag ∈ (cs.map Constructor.tag).filter fun u => fold u == fold t :=
          List.mem_filter.2 ⟨htag, by simpa using hkey⟩
        simpa [hfilter] using hfound
      have hkey : k.tag ∈ (cs.map Constructor.tag).filter fun u => fold u == fold t :=
        hfilter ▸ List.mem_cons_self
      refine .only hk hfolding (by simpa using hnot) (by simpa using (List.mem_filter.1 hkey).2) ?_
      exact fun j hj hj' =>
        List.inj_on_of_nodup_map htags hj hk (honly j.tag (List.mem_map_of_mem hj) hj')

/-- A tag names one constructor. -/
theorem Constructor.IsNamed.unique (htags : (cs.map Constructor.tag).Nodup)
    (h : k.IsNamed fold folding cs t) (h' : k'.IsNamed fold folding cs t) : k = k' := by
  have hfound := (Constructor.isNamed_iff htags h.mem).1 h
  have hfound' := (Constructor.isNamed_iff htags h'.mem).1 h'
  exact List.inj_on_of_nodup_map htags h.mem h'.mem (Option.some.inj (hfound.symm.trans hfound'))

/-- A tag that names no constructor is not found. -/
theorem Constructor.resolve?_eq_none (htags : (cs.map Constructor.tag).Nodup)
    (h : ∀ k : Constructor Description, ¬ k.IsNamed fold folding cs t) :
    Tags.resolveBy? fold folding (cs.map Constructor.tag) t = none := by
  rw [Option.eq_none_iff_forall_not_mem]
  intro tag htag
  obtain ⟨k, hk, rfl⟩ := List.mem_map.1 (Tags.mem_of_resolveBy? htag)
  exact h k ((Constructor.isNamed_iff htags hk).2 htag)

end Named

/-! ## Trees with a tag -/

/-- The tag of a tree, where it stands, and what follows it; nothing follows a tag alone. -/
inductive Node.Tagged : Node → Text → Option Location → Option (List Node) → Prop
  | alone {t : Text} {l : Option Location} : Tagged (.atom t l) t l none
  | headed {t : Text} {l l' : Option Location} {rest : List Node} :
      Tagged (.list (.atom t l :: rest) l') t l (some rest)

namespace Setting

variable {s : Setting} {c : Converter} {label : Text} {folding : Bool}
  {cs : List (Constructor Description)} {plans : List (CasePlan Plan)} {node : Node} {v : Value}

/-- Reads what follows the tag of a constructor. -/
abbrev readFormBy (s : Setting) (label : Text) (node : Node) (rest : Option (List Node))
    (p : CasePlan Plan) : Except ReadError Value :=
  Plan.readForm s.follow s.switches (Converter.readerName label) p.tag node rest p.instanceOf p.form

/-- How a variant is read. -/
structure ReadsByTag (s : Setting) (c : Converter) (label : Text) (folding : Bool)
    (cs : List (Constructor Description)) (plans : List (CasePlan Plan)) : Prop where
  /-- The constructor that the tag names reads what follows the tag. -/
  named : ∀ node t l rest, node.Tagged t l rest → ∀ k p, (k, p) ∈ cs.zip plans →
    k.IsNamed Text.caseFold folding cs t → s.read c node = s.readFormBy label node rest p
  /-- A tag that names no constructor is refused where it stands. -/
  unnamed : ∀ node t l rest, node.Tagged t l rest →
    (∀ k : Constructor Description, ¬ k.IsNamed Text.caseFold folding cs t) → s.read c node =
      .error (.about (.atom t l) (.unknownTag (Converter.readerName label) t (cs.map Constructor.tag)))
  /-- Nothing else is read but a tree whose tag names a constructor. -/
  tagged : ∀ node v, s.read c node = .ok v →
    ∃ t l rest, node.Tagged t l rest ∧
      ∃ k : Constructor Description, k.IsNamed Text.caseFold folding cs t

/-- A tag is read by its constructor. -/
theorem readBy_tag {p : CasePlan Plan} (hnodup : (plans.map CasePlan.tag).Nodup) (hp : p ∈ plans)
    (rest : List Node) (l l' : Option Location) :
    s.readBy (.variant label folding plans) (.list (.atom p.tag l :: rest) l') =
      s.readFormBy label (.list (.atom p.tag l :: rest) l') (some rest) p := by
  rw [readBy, Plan.read]
  simp only [resolve?_tag hp]
  exact Plan.readCase_of_mem _ _ _ _ _ hnodup hp

section Reading

variable (hplan : c.plan = .variant label folding plans)
  (htags : (cs.map Constructor.tag).Nodup)
  (hfits : List.Forall₂ (fun k p => CasePlan.Fits k p) cs plans)

theorem tags_of_fits (hfits : List.Forall₂ (fun k p => CasePlan.Fits k p) cs plans) :
    CasePlan.tags plans = cs.map Constructor.tag := by
  induction hfits with
  | nil => rfl
  | cons hp _ ih => rw [CasePlan.tags, List.map_cons, List.map_cons, hp.tag, ← ih, CasePlan.tags]

include htags hfits in
theorem nodup_of_fits : (plans.map CasePlan.tag).Nodup := by
  have heq : plans.map CasePlan.tag = cs.map Constructor.tag := tags_of_fits hfits
  rwa [heq]

include hplan htags hfits

theorem read_of_isNamed {t : Text} {l : Option Location} {rest : Option (List Node)}
    (hnode : node.Tagged t l rest) {k : Constructor Description} {p : CasePlan Plan}
    (hmem : (k, p) ∈ cs.zip plans) (hk : k.IsNamed Text.caseFold folding cs t) :
    s.read c node = s.readFormBy label node rest p := by
  have hnodup := nodup_of_fits htags hfits
  obtain ⟨hkmem, hp⟩ := List.of_mem_zip hmem
  have htag : p.tag = k.tag := ((List.forall₂_iff_zip.1 hfits).2 hmem).tag
  have hfound : Tags.resolve? folding (CasePlan.tags plans) t = some p.tag := by
    rw [tags_of_fits hfits, htag]
    exact (Constructor.isNamed_iff htags hkmem).1 hk
  rw [read_eq_readBy, hplan, readBy]
  cases hnode with
  | alone =>
    rw [Plan.read]
    simp only [hfound]
    exact Plan.readCase_of_mem _ _ _ _ _ hnodup hp
  | headed =>
    rw [Plan.read]
    simp only [hfound]
    exact Plan.readCase_of_mem _ _ _ _ _ hnodup hp

theorem read_of_unnamed {t : Text} {l : Option Location} {rest : Option (List Node)}
    (hnode : node.Tagged t l rest) (h : ∀ k : Constructor Description, ¬ k.IsNamed Text.caseFold folding cs t) :
    s.read c node = .error (.about (.atom t l)
      (.unknownTag (Converter.readerName label) t (cs.map Constructor.tag))) := by
  have hnone : Tags.resolve? folding (cs.map Constructor.tag) t = none :=
    Constructor.resolve?_eq_none htags h
  rw [read_eq_readBy, hplan, readBy]
  cases hnode with
  | alone =>
    rw [Plan.read]
    simp only [tags_of_fits hfits, hnone, outcome_except]
  | headed =>
    rw [Plan.read]
    simp only [tags_of_fits hfits, hnone, outcome_except]

theorem tagged_of_read (h : s.read c node = .ok v) :
    ∃ t l rest, node.Tagged t l rest ∧
      ∃ k : Constructor Description, k.IsNamed Text.caseFold folding cs t := by
  obtain ⟨t, l, rest, hnode⟩ : ∃ t l rest, node.Tagged t l rest := by
    rw [read_eq_readBy, hplan, readBy] at h
    rcases node with ⟨t, l⟩ | ⟨_ | ⟨⟨t, l⟩ | ⟨_, _⟩, rest⟩, _⟩
    · exact ⟨t, l, none, .alone⟩
    · cases h
    · exact ⟨t, l, some rest, .headed⟩
    · cases h
  by_contra hnone
  have hunnamed (k : Constructor Description) : ¬ k.IsNamed Text.caseFold folding cs t :=
    fun hk => hnone ⟨t, l, rest, hnode, k, hk⟩
  rw [read_of_unnamed hplan htags hfits hnode hunnamed] at h
  cases h

theorem readsByTag : s.ReadsByTag c label folding cs plans :=
  ⟨fun _ _ _ _ hnode _ _ hmem hk => read_of_isNamed hplan htags hfits hnode hmem hk,
    fun _ _ _ _ hnode h => read_of_unnamed hplan htags hfits hnode h,
    fun _ _ h => tagged_of_read hplan htags hfits h⟩

end Reading

end Setting

/-! ## Variants that are derived -/

/-- The converter of a variant tries its constructors, whose tags are different, with a plan for each
that is built from it. -/
theorem History.plans_of_variant {catalog : Catalog} {numbering : Nat → Description}
    {outside : Text → Option Custom} {failed : Bool} {d : Deriver}
    {converters : List (BoundType × Converter)} (hcatalog : catalog.AdmittedBy (.first outside))
    (h : History catalog numbering outside failed d converters) {x : Description} {folding : Bool}
    {cs : List (Constructor Description)} (hx : x.IsVariant folding cs) {env : List BoundType}
    {c : Converter} (hc : (.mk x env, c) ∈ converters) :
    ∃ (l : Ledger) (label : Text) (plans : List (CasePlan Plan)),
      c.plan = .variant label folding plans ∧ (cs.map Constructor.tag).Nodup ∧
      List.Forall₂ (fun k p => p.Fits k ∧
        ∀ d q, CasePlan.Part k p d q → Realises catalog l.Trusts (.mk d env) q) cs plans := by
  obtain ⟨l, -, -, hholds⟩ := h.kept hcatalog
  obtain ⟨-, hreal⟩ := hholds _ _ hc
  cases hreal with
  | @mk _ _ params _ hlen henv hb =>
    obtain ⟨label, plans, hplan, htags, hlength, hcases⟩ := hb.of_variant hx
    refine ⟨l, label, plans, hplan, htags, List.forall₂_iff_zip.2 ⟨hlength, fun hmem => ?_⟩⟩
    obtain ⟨hfits, hparts⟩ := hcases _ _ hmem
    exact ⟨hfits, fun d q hpart => .mk hlen henv (hparts d q hpart)⟩

end TypedSexp
