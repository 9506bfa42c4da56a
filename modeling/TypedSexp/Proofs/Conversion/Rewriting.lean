import TypedSexp.Proofs.Conversion.Choice
import TypedSexp.Proofs.Conversion.Dropping
import TypedSexp.Proofs.Conversion.Spelled
import TypedSexp.Proofs.Derivation.Steps
/-!
# Which constructor writes what another one read

Reading goes by the tag of a tree, writing by the tag of a value or by its class. Tags are different,
so a value that is no instance is written with the tag of the constructor that read it. Classes need
not be different: an instance is written by the last constructor of its class
(`Constructor.writtenAs`), whichever one read it. So what is written leads back to the constructor
that read the value if and only if this is the last one of its class (`History.rewrite_variant`).
-/

namespace TypedSexp

/-! ## What a constructor reads -/

section

variable {p : CasePlan Plan} {v : Value}

/-- The value is one that the constructor makes: it has its tag, or is an instance of its class. -/
inductive CasePlan.Makes (p : CasePlan Plan) : Value → Prop
  | tagged {args : List Value} (h : p.instanceOf = none) : Makes p (.variant p.tag args)
  | ofClass {i : ClassInfo} {fields : List (Text × Value)} (h : p.instanceOf = some i) :
      Makes p (.object i.name fields)

theorem CasePlan.makes_of_make {args : List Value} (h : make p.tag p.instanceOf args = .ok v) :
    p.Makes v := by
  cases hclass : p.instanceOf with
  | none =>
    rw [hclass] at h
    obtain rfl := Except.ok.inj h
    exact .tagged hclass
  | some i =>
    rw [hclass, make, ClassInfo.ofOrdered] at h
    by_cases hlen : args.length = i.fields.length
    · rw [if_pos hlen] at h
      obtain rfl := Except.ok.inj h
      exact .ofClass hclass
    · rw [if_neg hlen] at h
      cases h

theorem ClassInfo.object_of_named {i : ClassInfo} {values : List (Text × Value)}
    (h : i.ofNamed values = .ok v) : ∃ fields, v = .object i.name fields := by
  rw [ofNamed] at h
  split at h
  · split at h
    · exact ⟨_, (Except.ok.inj h).symm⟩
    · cases h
  · cases h

/-- A record with a class is read as an instance of it. -/
theorem object_of_readRecord {follow : Follow Except} {switches : Switches} {r : RecordPlan Plan}
    {i : ClassInfo} (hclass : r.instanceOf = some i) {node : Node}
    (h : Plan.readRecord follow switches r node = .ok v) : ∃ fields, v = .object i.name fields := by
  obtain ⟨label, instanceOf, extra, fields⟩ := r
  obtain rfl : instanceOf = some i := hclass
  cases node with
  | atom _ _ => cases h
  | list items _ =>
    rw [Plan.readRecord] at h
    obtain ⟨present, -, h⟩ := bind_eq_ok.1 h
    dsimp only at h
    split at h
    · obtain ⟨values, -, h⟩ := bind_eq_ok.1 h
      exact ClassInfo.object_of_named h
    · cases h

/-- What is read behind the tag of a constructor is a value that it makes. -/
theorem CasePlan.makes_of_readForm {follow : Follow Except} {switches : Switches} {what : Text} {node : Node}
    {rest : Option (List Node)}
    (hrecord : ∀ r i, p.form = .record r → p.instanceOf = some i → r.instanceOf = some i)
    (h : Plan.readForm follow switches what p.tag node rest p.instanceOf p.form = .ok v) :
    p.Makes v := by
  rcases made_of_readForm h with ⟨args, h⟩ | ⟨r, i, inner, hform, hclass, h⟩
  · exact makes_of_make h
  · obtain ⟨fields, rfl⟩ := object_of_readRecord (hrecord r i hform hclass) h
    exact .ofClass hclass

end

/-! ## The constructor that writes -/

section

variable {cs : List (Constructor Description)} {k : Constructor Description}

/-- The constructor that writes what a constructor makes: itself, or the last one of its class. -/
def Constructor.writtenAs (cs : List (Constructor Description)) (k : Constructor Description) :
    Constructor Description :=
  match k.instanceOf with
  | none => k
  | some i => ((cs.filter fun c => c.instanceOf.any fun j => j.name == i.name).getLast?).getD k

/-- There is a last constructor of a class. -/
theorem Constructor.getLast?_of_class (hk : k ∈ cs) {i : ClassInfo} (hi : k.instanceOf = some i) :
    (cs.filter fun c => c.instanceOf.any fun j => j.name == i.name).getLast? =
      some (k.writtenAs cs) := by
  have hmem : k ∈ cs.filter fun c => c.instanceOf.any fun j => j.name == i.name :=
    List.mem_filter.2 ⟨hk, by simp [hi]⟩
  cases hlast : (cs.filter fun c => c.instanceOf.any fun j => j.name == i.name).getLast? with
  | none => exact absurd (List.getLast?_eq_none_iff.1 hlast ▸ hmem) List.not_mem_nil
  | some c =>
    simp only [writtenAs, hi]
    rw [hlast, Option.getD_some]

theorem Constructor.writtenAs_mem (hk : k ∈ cs) : k.writtenAs cs ∈ cs := by
  cases hi : k.instanceOf with
  | none => rwa [writtenAs, hi]
  | some i => exact (List.mem_filter.1 (List.mem_of_getLast? (getLast?_of_class hk hi))).1

theorem Constructor.writtenAs_eq_iff (hk : k ∈ cs) : k.writtenAs cs = k ↔ k.OwnsClass cs := by
  cases hi : k.instanceOf with
  | none => simp [writtenAs, OwnsClass, hi]
  | some i =>
    have hlast := getLast?_of_class hk hi
    constructor
    · intro h j hj
      obtain rfl := Option.some.inj (hi.symm.trans hj)
      rwa [h] at hlast
    · exact fun h => Option.some.inj (hlast.symm.trans (h i hi))

variable {p : CasePlan Plan} {plans : List (CasePlan Plan)} {v : Value}

/-- What a constructor makes is recognised as a value of the one that writes it. -/
theorem constructorOf_of_makes (hfits : List.Forall₂ (fun k p => CasePlan.Fits k p) cs plans)
    (hmem : (k, p) ∈ cs.zip plans) (hv : p.Makes v) (writer : Text) :
    ∃ args, constructorOf writer plans v = .ok ((k.writtenAs cs).tag, args) := by
  obtain ⟨hlen, hzip⟩ := List.forall₂_iff_zip.1 hfits
  obtain ⟨hk, hp⟩ := List.of_mem_zip hmem
  have hfit : p.Fits k := hzip hmem
  cases hv with
  | @tagged args hclass =>
    have hcontains : (CasePlan.tags plans).contains p.tag = true := by
      simpa [CasePlan.tags] using ⟨p, hp, rfl⟩
    have hself : k.writtenAs cs = k := by
      rw [Constructor.writtenAs, hfit.instanceOf.symm.trans hclass]
    rw [hself, ← hfit.tag]
    exact ⟨args, if_pos hcontains⟩
  | @ofClass i fields hclass =>
    have hfound : CasePlan.ofClass? i.name plans = some (k.writtenAs cs).tag := by
      rw [ofClass?_of_zip hlen fun _ _ h => hzip h,
        Constructor.getLast?_of_class hk (hfit.instanceOf.symm.trans hclass)]
      rfl
    exact ⟨fields.map Prod.snd, by simp only [constructorOf, hfound]⟩

end

/-! ## Trees that are written -/

/-- The tag of the tree names the constructor. -/
def Node.Names (node : Node) (folding : Bool) (cs : List (Constructor Description))
    (k : Constructor Description) : Prop :=
  ∃ t l rest, node.Tagged t l rest ∧ k.IsNamed Text.caseFold folding cs t

theorem Node.Tagged.unique {node : Node} {t t' : Text} {l l' : Option Location}
    {rest rest' : Option (List Node)} (h : node.Tagged t l rest) (h' : node.Tagged t' l' rest') :
    t = t' := by
  cases h with
  | alone => cases h'; rfl
  | headed => cases h'; rfl

/-- What a constructor writes has its tag. -/
theorem tagged_of_writeForm {followBack : FollowBack Except} {switches : Switches} {writer tag : Text}
    {v : Value} {args : List Value} {form : CaseForm Plan} {t : Sexp}
    (h : Plan.writeForm followBack switches writer tag v args form = .ok t) {node : Node}
    (hnode : node.sexp = t) : ∃ l rest, node.Tagged tag l rest := by
  have hlist {ts : List Sexp} (hts : t = .list (.atom tag :: ts)) :
      ∃ l rest, node.Tagged tag l rest := by
    obtain ⟨l, rest, l', rfl, -⟩ := Setting.eq_tagged_of_sexp (hnode.trans hts)
    exact ⟨l, some rest, .headed⟩
  cases form with
  | constant =>
    rw [Plan.writeForm] at h
    obtain rfl := Except.ok.inj h
    cases node with
    | list items l => simp [Node.sexp] at hnode
    | atom text l =>
      obtain rfl : text = tag := by simpa [Node.sexp] using hnode
      exact ⟨l, none, .alone⟩
  | arguments cs =>
    rw [Plan.writeForm] at h
    by_cases hlen : args.length = cs.length
    · rw [if_pos hlen] at h
      obtain ⟨ts, -, h⟩ := bind_eq_ok.1 h
      exact hlist (Except.ok.inj h).symm
    · rw [if_neg hlen] at h
      cases h
  | spliced c =>
    rw [Plan.writeForm] at h
    obtain ⟨items, -, h⟩ := bind_eq_ok.1 h
    obtain ⟨ts, -, h⟩ := bind_eq_ok.1 h
    exact hlist (Except.ok.inj h).symm
  | record r =>
    rw [Plan.writeForm] at h
    obtain ⟨u, -, h⟩ := bind_eq_ok.1 h
    obtain ⟨ts, -, h⟩ := bind_eq_ok.1 h
    exact hlist (Except.ok.inj h).symm

/-! ## Rewriting -/

namespace Setting

variable {s : Setting} {c : Converter} {label : Text} {folding : Bool}
  {cs : List (Constructor Description)} {plans : List (CasePlan Plan)} {k : Constructor Description}
  {v : Value}

/-- How a value is written that a constructor has read. -/
structure Rewrites (s : Setting) (c : Converter) (label : Text) (folding : Bool)
    (cs : List (Constructor Description)) (plans : List (CasePlan Plan)) (k : Constructor Description)
    (v : Value) : Prop where
  /-- The last constructor of the class writes it. -/
  written : ∃ p args levels, (k.writtenAs cs, p) ∈ cs.zip plans ∧
    s.write c v = s.writeFormAt levels (Converter.writerName label) p.tag v args p.form
  /-- What is written names this constructor and no other. -/
  named : ∀ t, s.write c v = .ok t → ∀ again, Node.sexp again = t → ∀ j : Constructor Description,
    again.Names folding cs j ↔ j = k.writtenAs cs
  /-- So it names the constructor that read the value if this is the last one of its class. -/
  kept : ∀ t, s.write c v = .ok t → ∀ again, Node.sexp again = t →
    (again.Names folding cs k ↔ k.OwnsClass cs)

theorem rewrites (hplan : c.plan = .variant label folding plans)
    (htags : (cs.map Constructor.tag).Nodup)
    (hfits : List.Forall₂ (fun k p => CasePlan.Fits k p) cs plans) {p : CasePlan Plan}
    (hmem : (k, p) ∈ cs.zip plans) (hv : p.Makes v) :
    s.Rewrites c label folding cs plans k v := by
  have hk := (List.of_mem_zip hmem).1
  obtain ⟨hlen, hzip⟩ := List.forall₂_iff_zip.1 hfits
  obtain ⟨q, hq⟩ := exists_zip_right hlen (Constructor.writtenAs_mem hk)
  have htag : q.tag = (k.writtenAs cs).tag := (hzip hq).tag
  obtain ⟨args, hargs⟩ := constructorOf_of_makes hfits hmem hv (Converter.writerName label)
  rw [← htag] at hargs
  have hnodup := nodup_of_fits htags hfits
  obtain ⟨levels, hwrite⟩ : ∃ levels, s.write c v =
      s.writeFormAt levels (Converter.writerName label) q.tag v args q.form := by
    have hwrite := write_of_settled (s := s) (c := c) (fun _ => by rw [hplan]; rfl) v
    rw [hplan, writeAt_variant hnodup (List.of_mem_zip hq).2 hargs] at hwrite
    exact ⟨_, hwrite⟩
  have hnamed (t : Sexp) (ht : s.write c v = .ok t) (again : Node) (hagain : again.sexp = t)
      (j : Constructor Description) : again.Names folding cs j ↔ j = k.writtenAs cs := by
    obtain ⟨l, rest, htagged⟩ := tagged_of_writeForm (hwrite.symm.trans ht) hagain
    have hsame : (k.writtenAs cs).IsNamed Text.caseFold folding cs q.tag :=
      .same (Constructor.writtenAs_mem hk) htag.symm
    constructor
    · rintro ⟨t', l', rest', htagged', hj⟩
      rw [← htagged.unique htagged'] at hj
      exact hj.unique htags hsame
    · rintro rfl
      exact ⟨q.tag, l, rest, htagged, hsame⟩
  refine ⟨⟨q, args, levels, hq, hwrite⟩, hnamed, fun t ht again hagain => ?_⟩
  rw [hnamed t ht again hagain, eq_comm]
  exact Constructor.writtenAs_eq_iff hk

end Setting

/-- **Rewriting keeps a constructor if and only if it is the last one of its class.** A tree is read by
the constructor that its tag names; what it reads is written by the last constructor of the same
class, or by itself if it has no class, and nothing else is named by what is written. -/
theorem History.rewrite_variant {catalog : Catalog} {numbering : Nat → Description}
    {outside : Text → Option Custom} {failed : Bool} {d : Deriver}
    {converters : List (BoundType × Converter)} (hcatalog : catalog.AdmittedBy (.first outside))
    (h : History catalog numbering outside failed d converters) {x : Description} {folding : Bool}
    {cs : List (Constructor Description)} (hx : x.IsVariant folding cs) {env : List BoundType}
    {c : Converter} (hc : (.mk x env, c) ∈ converters) :
    ∃ label plans, c.plan = .variant label folding plans ∧
      ∀ s : Setting, s.ReadsByTag c label folding cs plans ∧
        ∀ node v, s.read c node = .ok v →
          ∃ k ∈ cs, node.Names folding cs k ∧ s.Rewrites c label folding cs plans k v := by
  obtain ⟨l, label, plans, hplan, htags, hcases⟩ := h.plans_of_variant hcatalog hx hc
  have hfits : List.Forall₂ (fun k p => CasePlan.Fits k p) cs plans := hcases.imp fun _ _ hp => hp.1
  refine ⟨label, plans, hplan, fun s => ?_⟩
  have hreads : s.ReadsByTag c label folding cs plans := Setting.readsByTag hplan htags hfits
  refine ⟨hreads, fun node v hv => ?_⟩
  obtain ⟨t, loc, rest, hnode, k, hk⟩ := hreads.tagged node v hv
  obtain ⟨hlen, hzip⟩ := List.forall₂_iff_zip.1 hcases
  obtain ⟨p, hmem⟩ := exists_zip_right hlen hk.mem
  obtain ⟨hfit, hparts⟩ := hzip hmem
  rw [hreads.named node t loc rest hnode k p hmem hk] at hv
  have hrecord (r : RecordPlan Plan) (i : ClassInfo) (hform : p.form = .record r)
      (hi : p.instanceOf = some i) : r.instanceOf = some i := by
    obtain ⟨y, hy⟩ := hfit.inlineRecord hform
    obtain ⟨fields, inner, extra, rfl⟩ := Constructor.record_of_inlineRecord hy
    cases hparts _ _ (.fields hform hy) with
    | mk _ _ hbuilt =>
      obtain ⟨_, _, hplan, -⟩ := hbuilt.of_record
      obtain rfl := Plan.record.inj hplan
      simp [hfit.instanceOf.symm.trans hi]
  exact ⟨k, hk.mem, ⟨t, loc, rest, hnode, hk⟩,
    Setting.rewrites hplan htags hfits hmem (CasePlan.makes_of_readForm hrecord hv)⟩

namespace Rewriting

/-- A class with one field. -/
def box : ClassInfo := ⟨"P", ["x"]⟩

/-- Two constructors of one class, and one without a class. -/
def constructors : List (Constructor Description) :=
  [⟨"A", [.primitive "int"], some box, none, false⟩,
    ⟨"B", [.primitive "int"], some box, none, false⟩,
    ⟨"C", [.primitive "int"], none, none, false⟩]

/-- The variant with these constructors. -/
def sumOfBoxes : Description := .sum (constructors.map .constructor)

/-- The plans of the constructors. -/
def boxPlans : List (CasePlan Plan) :=
  [⟨"A", some box, .arguments [Converter.ofPrimitive .int]⟩,
    ⟨"B", some box, .arguments [Converter.ofPrimitive .int]⟩,
    ⟨"C", none, .arguments [Converter.ofPrimitive .int]⟩]

/-- The converter of the variant. -/
def boxesConverter : Converter := ⟨.derived 0, "sum", .variant "sum" true boxPlans⟩

open Derivation Description in
theorem derive_boxes : derive [] (.description 0 sumOfBoxes) [] {} =
    (.ok boxesConverter, ⟨1, [(⟨.description 0, []⟩, boxesConverter)]⟩) := by
  let define := define [] (depthBound [] sumOfBoxes.size 0) [⟨.description 0, []⟩]
  have hint : build [] define ⟨[], none⟩ (.primitive "int") {} = (.ok (.ofPrimitive .int), {}) :=
    primitive_run rfl
  have hargs : buildAll [] define ⟨[], none⟩ [.primitive "int"] {} = (.ok [.ofPrimitive .int], {}) :=
    buildAll_run hint buildAll_nil
  have hcases : buildCases [] define ⟨[], none⟩ false (constructors.map .constructor) {} =
      (.ok boxPlans, {}) :=
    buildCases_run (arguments_run hargs) (buildCases_run (arguments_run hargs)
      (buildCases_run (arguments_run hargs) buildCases_nil))
  exact ofDescription_run rfl (sum_run hcases rfl)

theorem history_boxes : ∃ deriver, History [] (fun _ => sumOfBoxes) (fun _ => none) false deriver
    [(.mk sumOfBoxes [], boxesConverter)] :=
  ⟨_, History.start.describe (by decide) derive_boxes⟩

/-- Values of the variant are written by the last constructor of their class. -/
theorem rewrite_variant_boxes : ∃ deriver,
    History [] (fun _ => sumOfBoxes) (fun _ => none) false deriver
      [(.mk sumOfBoxes [], boxesConverter)] ∧
    ∃ label plans, boxesConverter.plan = .variant label true plans ∧
      ∀ s : Setting, s.ReadsByTag boxesConverter label true constructors plans ∧
        ∀ node v, s.read boxesConverter node = .ok v → ∃ k ∈ constructors,
          node.Names true constructors k ∧
            s.Rewrites boxesConverter label true constructors plans k v := by
  obtain ⟨deriver, hhistory⟩ := history_boxes
  exact ⟨deriver, hhistory, hhistory.rewrite_variant (Catalog.admittedBy_nil _) .sum List.mem_cons_self⟩

/-- **The constructor changes** where another one of the class stands behind it: what the first one
read is written with the tag of the second one. -/
theorem constructor_changed :
    (Derivation.derive [] (.description 0 sumOfBoxes) []).result {} = .ok boxesConverter ∧
    ∀ deriver, let s : Setting := ⟨[], deriver, .standard⟩
      s.read boxesConverter (.list [.atom "A" none, .atom "1" none] none) =
        .ok (.object "P" [("x", .int 1)]) ∧
      s.write boxesConverter (.object "P" [("x", .int 1)]) = .ok (.list [.atom "B", .atom "1"]) :=
  ⟨congrArg Prod.fst derive_boxes, fun _ => ⟨rfl, rfl⟩⟩

end Rewriting

end TypedSexp
