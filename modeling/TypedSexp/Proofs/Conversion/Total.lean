import TypedSexp.Proofs.Conversion.Reach
import TypedSexp.Proofs.Conversion.RoundTrip
import TypedSexp.Proofs.Conversion.Spelled
import TypedSexp.Proofs.Number.Bases
/-!
# Reading comes to an end

If the definitions that a type involves are derived and refer to each other only inside shapes, every
link can be followed (`Setting.comes_of_realises`). Reading then ends with a value or with an error
about the tree, save in one case (`Session.read_total`): an array of machine integers names the
integer that does not fit, and an integer that is spelled in another base may have more digits than
can be written.
-/

namespace TypedSexp

/-- No decimal integer in the tree has too many digits to be read. -/
def Node.IsCountable (node : Node) : Prop :=
  ∀ t, node.Mentions t → Spelling.readInt t ≠ .error .tooManyDigits

/-- An atom of the tree is an integer with too many digits to be written. -/
def Node.HasUnspellable (node : Node) : Prop :=
  ∃ t n, node.Mentions t ∧ Spelling.readInt t = .ok n ∧ Spelling.writeInt? n = none

/-- The error is about the tree, or there is an integer in the tree that it cannot name. -/
def ReadError.IsExpected (node : Node) (e : ReadError) : Prop :=
  (∃ ce, e = .conversion ce) ∨ e = .unspellable ∧ node.HasUnspellable

theorem ReadError.IsExpected.within {node inner : Node} {e : ReadError}
    (hinner : ∀ t, inner.Mentions t → node.Mentions t) (h : e.IsExpected inner) (seg : Segment) :
    (e.within seg).IsExpected node := by
  rcases h with ⟨ce, rfl⟩ | ⟨rfl, t, n, ht, hread, hwrite⟩
  · exact .inl ⟨_, rfl⟩
  · exact .inr ⟨rfl, t, n, hinner t ht, hread, hwrite⟩

theorem ReadError.IsExpected.imp {node inner : Node} {e : ReadError}
    (hinner : ∀ t, inner.Mentions t → node.Mentions t) (h : e.IsExpected inner) :
    e.IsExpected node := by
  rcases h with hce | ⟨rfl, t, n, ht, hread, hwrite⟩
  · exact .inl hce
  · exact .inr ⟨rfl, t, n, hinner t ht, hread, hwrite⟩

theorem Node.IsCountable.imp {node inner : Node} (h : node.IsCountable)
    (hinner : ∀ t, inner.Mentions t → node.Mentions t) : inner.IsCountable :=
  fun t ht => h t (hinner t ht)

/-! ## Parts of shapes -/

theorem Description.part_of_itemAt {d x : Description} {i : Nat} (h : d.itemAt i = some x) :
    d.Part x := by
  cases d with
  | list _ =>
    obtain rfl := Option.some.inj h
    exact .list
  | array _ _ =>
    obtain rfl := Option.some.inj h
    exact .array
  | product parts => exact .product (List.mem_of_getElem? h)
  | _ => exact absurd h (by simp [Description.itemAt])

theorem Constructor.mem_of_itemAt {c : Constructor Description} {x : Description} {i : Nat}
    (h : c.itemAt i = some x) : x ∈ c.args := by
  unfold Constructor.itemAt at h
  split at h
  · exact List.mem_of_head? h
  · exact List.mem_of_getElem? h

/-! ## Links come to an end -/

namespace Setting

variable {numbering : Nat → Description} {l : Ledger} {s : Setting} {t u : BoundType} {plan : Plan}

/-- Following the links of the plan comes to an end. -/
def Comes (s : Setting) (l : Ledger) (plan : Plan) : Prop :=
  ∃ layers q steps, s.Leads l.Foresees false plan layers q steps

theorem comes_of_isSettled (h : plan.isSettled false) : s.Comes l plan := ⟨0, plan, 0, .here h⟩

/-- Plans of the definition come to an end wherever it occurs, if what it is applied to does. -/
def ComesTo (s : Setting) (l : Ledger) (t : BoundType) (id : DefinitionId) : Prop :=
  ∀ env params body plan, t.Reaches s.catalog (.mk (.recursive id none) env) →
    Realises.All s.catalog l.Foresees env params → (∀ c ∈ params, s.Comes l c.plan) →
    s.catalog.body? id = some body → Built s.catalog l.Foresees params body plan → s.Comes l plan

/-- The definitions that occur in the type are derived wherever they are applied. -/
def Derivable (catalog : Catalog) (t : BoundType) : Prop :=
  ∀ id env, t.Reaches catalog (.mk (.recursive id none) env) → catalog.Accepts id env.length

theorem comes_of_built (hs : s.Sound numbering l) (hderivable : Derivable s.catalog t)
    {params : List Converter} {d : Description} (hb : Built s.catalog l.Foresees params d plan) :
    (∀ id ∈ d.bare, s.ComesTo l t id) → ∀ env, t.Reaches s.catalog (.mk d env) →
      Realises.All s.catalog l.Foresees env params → (∀ c ∈ params, s.Comes l c.plan) →
      s.Comes l plan := by
  induction hb with
  | @parameter params index name c _ hc =>
    exact fun _ env _ _ hcomes => hcomes c (List.mem_of_getElem? hc)
  | @link params cell id ht =>
    intro hbare env hreach henv hcomes
    obtain ⟨c, hc⟩ := exists_resolve (hderivable id env hreach) cell henv.1.symm
    obtain ⟨body, hbody, hbuilt⟩ := resolve_defines hs ht hc
    obtain ⟨layers, q, steps, hleads⟩ :=
      hbare id (by simp [Description.bare]) env params body c.plan hreach henv hcomes hbody hbuilt
    exact ⟨layers, q, steps + 1, .link hc ⟨body, hbody, hbuilt⟩ hleads⟩
  | @body params id body plan hbody hbuilt _ =>
    exact fun hbare env hreach henv hcomes =>
      hbare id (by simp [Description.bare]) env params body plan hreach henv hcomes hbody hbuilt
  | @recursive params cs id args plan hlen hargs _ ihargs ih =>
    intro hbare env hreach henv hcomes
    refine ih (fun id' hid' => ?_) _ hreach.recursive (henv.args hlen hargs) fun c hc => ?_
    · obtain rfl : id' = id := by simpa [Description.bare] using hid'
      exact hbare id' (by simp [Description.bare])
    · obtain ⟨d, hmem⟩ := exists_zip_left hlen hc
      have hd := (List.of_mem_zip hmem).1
      refine ihargs d c hmem (fun id' hid' => ?_) env (hreach.of_recursive hd) henv hcomes
      exact hbare id' (by simp [Description.bare, Description.bare_subset hd hid'])
  | @applied params cs id args plan hlen hargs _ ihargs ih =>
    intro hbare env hreach henv hcomes
    refine ih (fun id' hid' => ?_) _ hreach.applied (henv.args hlen hargs) fun c hc => ?_
    · obtain rfl : id' = id := by simpa [Description.bare] using hid'
      exact hbare id' (by simp [Description.bare])
    · obtain ⟨d, hmem⟩ := exists_zip_left hlen hc
      have hd := (List.of_mem_zip hmem).1
      refine ihargs d c hmem (fun id' hid' => ?_) env (hreach.of_applied hd) henv hcomes
      exact hbare id' (by simp [Description.bare, Description.bare_subset hd hid'])
  | _ => exact fun _ _ _ _ _ => comes_of_isSettled rfl

/-- Plans of a definition come to an end if its references outside shapes do. -/
theorem comesTo_of_acc (hs : s.Sound numbering l) (hderivable : Derivable s.catalog t)
    {id : DefinitionId} (h : Acc (flip s.catalog.Refers) id) : s.ComesTo l t id := by
  induction h with
  | intro id _ ih =>
    intro env params body plan hreach henv hcomes hbody hbuilt
    refine comes_of_built hs hderivable hbuilt (fun id' hid' => ?_) env (hreach.body hbody) henv
      hcomes
    exact ih id' ⟨body, hbody, hid'⟩

/-- **Every link of a type comes to an end**, if references outside shapes do. -/
theorem comes_of_realises (hs : s.Sound numbering l) (hderivable : Derivable s.catalog t)
    (hacc : ∀ id, t.Involves s.catalog id → Acc (flip s.catalog.Refers) id)
    (hu : Realises s.catalog l.Foresees u plan) : t.Reaches s.catalog u → s.Comes l plan := by
  induction hu with
  | @mk d env params plan hlen henv hb ih =>
    intro hreach
    refine comes_of_built hs hderivable hb (fun id hid => ?_) env hreach ⟨hlen, henv⟩ fun c hc => ?_
    · exact comesTo_of_acc hs hderivable (hacc id (BoundType.involves_of_bare hreach hid))
    · obtain ⟨v, hmem⟩ := exists_zip_left hlen hc
      exact ih v c hmem (hreach.bound (List.of_mem_zip hmem).1)

end Setting

/-! ## Errors that are expected -/

namespace Setting

variable {numbering : Nat → Description} {l : Ledger} {s : Setting} {t : BoundType} {plan : Plan}
  {node : Node}

/-- What reading a type asks of it: no classes, definitions that are derived wherever they occur, and
references that run in no circle outside shapes. -/
structure Sober (catalog : Catalog) (t : BoundType) : Prop where
  classless : ∀ d env, t.Reaches catalog (.mk d env) → d.IsClassless
  derivable : Derivable catalog t
  acyclic : ∀ id, t.Involves catalog id → ¬ Relation.TransGen catalog.Refers id id

/-- Definitions that are derived are in the catalog. -/
theorem Derivable.lt_length {catalog : Catalog} (h : Derivable catalog t) {id : DefinitionId}
    (hid : t.Involves catalog id) : id < catalog.length := by
  obtain ⟨env, henv⟩ := hid
  obtain ⟨c, hc⟩ := h id env henv (List.replicate env.length (.ofPrimitive .unit)) {} (by simp)
  by_contra hle
  have hnone : catalog[id]? = none := List.getElem?_eq_none (Nat.le_of_not_lt hle)
  have hlookup : Description.lookup catalog id
      (List.replicate env.length (Converter.ofPrimitive .unit)).length = .error (.undefinedType []) := by
    unfold Description.lookup
    rw [hnone]
  unfold Derivation.ofDefinition Derivation.depthBound at hc
  rw [Derivation.define, hlookup] at hc
  cases hc

/-- **Whatever goes wrong is expected.** The induction is on how the error arises. -/
theorem isExpected_of_refuses (hs : s.Sound numbering l) (hout : l.outside = fun _ => none)
    (hsober : Sober s.catalog t) {e : ReadError} (h : s.Refuses plan node e) : ∀ u,
      t.Reaches s.catalog u → Realises s.catalog l.Foresees u plan → node.IsCountable →
      e.IsExpected node := by
  have hacc (id : DefinitionId) (hid : t.Involves s.catalog id) :=
    s.catalog.acc_of_acyclic (fun id hid => hsober.derivable.lt_length hid) hsober.acyclic hid
  induction h with
  | @builtin p node e h =>
    intro u _ _ hcount
    rcases Builtin.read_error h with ⟨cause, rfl⟩ | ⟨text, loc, rfl, hdigits, -⟩
    · exact .inl ⟨_, rfl⟩
    · exact absurd hdigits (hcount text ⟨loc, .self _⟩)
  | custom h =>
    intro u _ hu _
    obtain ⟨d, env, params, -, hd, -, hb⟩ := hu.shape rfl
    exact absurd rfl (hb.ne_custom (l.not_foresees_custom hout) hd)
  | here _ _ => exact fun _ _ _ _ => .inl ⟨_, rfl⟩
  | inside _ _ => exact fun _ _ _ _ => .inl ⟨_, rfl⟩
  | missing what names => exact fun _ _ _ _ => .inl ⟨_, rfl⟩
  | @option label inner node item e hitem _ ih =>
    intro u hreach hu hcount
    obtain ⟨d, env, params, hunfolds, hd, henv, hb⟩ := hu.shape rfl
    obtain ⟨d, rfl⟩ := hb.isOption hd rfl
    obtain ⟨label', c, hc, hinner⟩ := hb.of_option
    obtain ⟨rfl, rfl⟩ := Plan.option.inj hc
    have hmentions (text : Text) := Node.Mentions.of_presented (t := text) hitem
    exact (ih _ ((hreach.unfolds hunfolds).part .option) (henv.mk hinner)
      (hcount.imp hmentions)).imp hmentions
  | @item plan i c items loc x e hc hx _ _ ih =>
    intro u hreach hu hcount
    have hplan : plan.isSettled false := by
      cases plan <;> first | rfl | exact absurd hc (by simp [Plan.itemAt])
    obtain ⟨d, env, params, hunfolds, hd, henv, hb⟩ := hu.shape hplan
    obtain ⟨y, hy, hbuilt⟩ := hb.itemAt hd hc
    have hmentions (text : Text) :=
      Node.Mentions.of_item (l := loc) (t := text) (List.mem_of_getElem? hx)
    exact (ih _ ((hreach.unfolds hunfolds).part (Description.part_of_itemAt hy)) (henv.mk hbuilt)
      (hcount.imp hmentions)).within hmentions _
  | stored _ _ _ => exact fun _ _ _ _ => .inl ⟨_, rfl⟩
  | @unspellable label stored c items loc values i hvalues h =>
    intro u hreach hu hcount
    obtain ⟨d, env, params, hunfolds, hd, henv, hb⟩ := hu.shape rfl
    obtain ⟨y, -, hbuilt⟩ := hb.itemAt (i := i) hd rfl
    obtain ⟨v, hv, hstore⟩ := Storage.store_of_vector h
    obtain ⟨hi, rfl⟩ := List.getElem?_eq_some_iff.1 hv
    have hi' : i < items.length := by rw [hvalues.length_eq]; exact hi
    have hfrom := comesFrom_of_readBy hs hout (henv.mk hbuilt) (List.Forall₂.get hvalues hi' hi)
    obtain ⟨n, hn, hwrite⟩ := Storage.int_of_store hfrom.wrapped hstore
    obtain ⟨text, htext, hread⟩ := hfrom.int n hn
    exact .inr ⟨rfl, text, n, .of_item (List.getElem_mem _) htext, hread, hwrite⟩
  | @value r j p items loc loc' name v c omission e hp hentry _ hform _ ih =>
    intro u hreach hu hcount
    obtain ⟨d, env, params, hunfolds, hd, henv, hb⟩ := hu.shape rfl
    obtain ⟨fields, instanceOf, extra, rfl⟩ := hb.isRecord hd rfl
    obtain ⟨label, plans, hr, -, hlen, hfields⟩ := hb.of_record
    obtain rfl := Plan.record.inj hr
    obtain ⟨f, hmem⟩ := exists_zip_left hlen (List.mem_of_getElem? hp)
    have hbuilt := hfields f p hmem
    have hflag : f.presence ≠ .sexpBool := fun hb =>
      absurd ((hbuilt.1.flag hb).symm.trans hform) (by simp)
    obtain ⟨x, c', hx, hform'⟩ := hbuilt.1.valued hflag
    obtain ⟨rfl, -⟩ := FieldForm.valued.inj (hform'.symm.trans hform)
    have hmem' : Node.list [name, v] loc' ∈ items :=
      List.mem_of_mem_filter (hentry ▸ List.mem_cons_self)
    have hmentions (text : Text) (htext : v.Mentions text) : (Node.list items loc).Mentions text :=
      .of_item hmem' (.of_item (by simp) htext)
    exact (ih _ ((hreach.unfolds hunfolds).part (.field (List.of_mem_zip hmem).1 hflag hx))
      (henv.mk (hbuilt.2 _ _ (.value hx hform))) (hcount.imp hmentions)).within hmentions _
  | entry _ _ _ _ => exact fun _ _ _ _ => .inl ⟨_, rfl⟩
  | @construct r node k hk =>
    intro u hreach hu _
    obtain ⟨d, env, params, hunfolds, hd, henv, hb⟩ := hu.shape rfl
    obtain ⟨fields, instanceOf, extra, rfl⟩ := hb.isRecord hd rfl
    obtain ⟨label, plans, hr, -, -, -⟩ := hb.of_record
    obtain rfl := Plan.record.inj hr
    have hnone := (hsober.classless _ _ (hreach.unfolds hunfolds)).record _ _ _ rfl
    exact absurd (hnone.symm.trans hk) (by simp)
  | @argument label text folding cases p i c rest loc loc' x e hp _ hc hx _ _ ih =>
    intro u hreach hu hcount
    obtain ⟨d, env, params, hunfolds, hd, henv, hb⟩ := hu.shape rfl
    obtain ⟨cs, hvariant, hbuilt⟩ := hb.cases hd hp
    obtain ⟨k, hk, hbuilt⟩ := hbuilt
    obtain ⟨y, hy, hy'⟩ := hbuilt.itemAt hc
    have hmentions (text' : Text) (htext : x.Mentions text') :
        (Node.list (.atom text loc' :: rest) loc).Mentions text' :=
      .of_item (List.mem_cons_of_mem _ (List.mem_of_getElem? hx)) htext
    have hreach' := (hreach.unfolds hunfolds).part
      (.argument hvariant hk (Constructor.mem_of_itemAt hy))
    exact ((ih _ hreach' (henv.mk hy') (hcount.imp hmentions)).within hmentions _).within
      (fun _ h => h) _
  | @inline label text folding cases p r rest loc loc' e hp _ hform _ ih =>
    intro u hreach hu hcount
    obtain ⟨d, env, params, hunfolds, hd, henv, hb⟩ := hu.shape rfl
    obtain ⟨cs, hvariant, k, hk, hbuilt⟩ := hb.cases hd hp
    obtain ⟨x, hx⟩ := hbuilt.1.inlineRecord hform
    have hmentions (text' : Text) (htext : (Node.list rest loc).Mentions text') :
        (Node.list (.atom text loc' :: rest) loc).Mentions text' := htext.of_tail
    exact (ih _ ((hreach.unfolds hunfolds).part (.inline hvariant hk hx))
      (henv.mk (hbuilt.2 _ _ (.fields hform hx))) (hcount.imp hmentions)).within hmentions _
  | @make label folding cases p node k hp hk =>
    intro u hreach hu _
    obtain ⟨d, env, params, hunfolds, hd, henv, hb⟩ := hu.shape rfl
    obtain ⟨cs, hvariant, c, hc, hbuilt⟩ := hb.cases hd hp
    have hnone := (hsober.classless _ _ (hreach.unfolds hunfolds)).variant _ _ hvariant c hc
    exact absurd ((hbuilt.1.instanceOf.trans hnone).symm.trans hk) (by simp)
  | @link cell id args layers q node e hq _ ih =>
    intro u hreach hu hcount
    obtain ⟨-, v, hv, hreal⟩ := unfolds_of_settle hs hu hq
    exact ih v (hreach.unfolds hv) hreal hcount
  | @fault cell id args fault node hq =>
    intro u hreach hu _
    obtain ⟨layers, q, steps, hleads⟩ := comes_of_realises hs hsober.derivable hacc hu hreach
    exact absurd ((settle_of_leads hleads).symm.trans hq) (by simp)

end Setting

/-- **Reading is total.** What a converter of a session reads gives a value or a conversion error, if
its type involves no classes, only definitions that are derived, and no references in a circle outside
shapes, and no decimal integer in the tree has too many digits. The one exception is an array of
integers that meets an integer in another base that is too large for it and for decimal writing. -/
theorem Session.read_total {numbering : Nat → Description} {catalog : Catalog} {deriver : Deriver}
    {converters : List (BoundType × Converter)} (h : Session numbering catalog deriver converters)
    {t : BoundType} {c : Converter} (hc : (t, c) ∈ converters) (hsober : Setting.Sober catalog t)
    {switches : Switches} {node : Node} (hcount : node.IsCountable) :
    (∃ v, Setting.read ⟨catalog, deriver, switches⟩ c node = .ok v) ∨
    (∃ e, Setting.read ⟨catalog, deriver, switches⟩ c node = .error (.conversion e)) ∨
    Setting.read ⟨catalog, deriver, switches⟩ c node = .error .unspellable ∧
      node.HasUnspellable := by
  obtain ⟨l, hout, hs, ht⟩ := h.realises hc switches
  cases hr : Setting.read ⟨catalog, deriver, switches⟩ c node with
  | ok v => exact .inl ⟨v, rfl⟩
  | error e =>
    rw [Setting.read_eq_readBy] at hr
    have hrefuses := Setting.refuses_of_readBy hr
    rcases Setting.isExpected_of_refuses hs hout hsober hrefuses t .refl ht hcount with
      ⟨ce, rfl⟩ | ⟨rfl, hmentions⟩
    · exact .inr (.inl ⟨ce, rfl⟩)
    · exact .inr (.inr ⟨rfl, hmentions⟩)

/-! ### Trees of integers -/

namespace Totality

@[simp]
theorem mentions_atom {t u : Text} {l : Option Location} : (Node.atom t l).Mentions u ↔ u = t := by
  constructor
  · rintro ⟨l', h⟩
    cases h with
    | self => rfl
  · rintro rfl
    exact ⟨l, .self _⟩

@[simp]
theorem mentions_list {items : List Node} {l : Option Location} {u : Text} :
    (Node.list items l).Mentions u ↔ ∃ item ∈ items, item.Mentions u := by
  constructor
  · rintro ⟨l', h⟩
    cases h with
    | item hi h => exact ⟨_, hi, l', h⟩
  · rintro ⟨item, hi, h⟩
    exact .of_item hi h

/-- The type of integers. -/
def integers : BoundType := .mk (.primitive "int") []

/-- The type of trees of integers. -/
def rose : BoundType := .mk (.recursive 0 none) [integers]

/-- The fields of a tree. -/
def roseFields : List (Field Description) :=
  [⟨"label", some (.parameter 0 none), .required, none, .never, none⟩,
   ⟨"children", some (.recursive 0 none), .sexpList, none, .never, none⟩]

theorem of_part_record {fields : List (Field Description)} {instanceOf : Option ClassInfo}
    {extra : Bool} {x : Description} (h : (Description.record fields instanceOf extra).Part x) :
    ∃ f ∈ fields, f.valueType = some x := by
  cases h with
  | field hf _ hx => exact ⟨_, hf, hx⟩
  | argument hd _ _ => cases hd
  | inline hd _ _ => cases hd

theorem of_part_list {d x : Description} (h : (Description.list d).Part x) : x = d := by
  cases h with
  | list => rfl
  | argument hd _ _ => cases hd
  | inline hd _ _ => cases hd

/-- A description that has nothing directly inside it. -/
theorem not_part {d x : Description} (hd : (∃ id args, d = .recursive id args) ∨
    (∃ i name, d = .parameter i name) ∨ ∃ name, d = .primitive name) : ¬ d.Part x := by
  intro h
  rcases hd with ⟨id, args, rfl⟩ | ⟨i, name, rfl⟩ | ⟨name, rfl⟩ <;> cases h with
  | argument hd _ _ => cases hd
  | inline hd _ _ => cases hd

/-- What trees of integers mention, with the integers bound or not. -/
inductive InRose : Description → List BoundType → Prop
  | tree : InRose (.recursive 0 none) [integers]
  | record : InRose (.record roseFields none false) [integers]
  | label : InRose (.parameter 0 none) [integers]
  | children : InRose (.list (.recursive 0 none)) [integers]
  | int : InRose (.primitive "int") []

theorem InRose.part {d x : Description} {env : List BoundType} (h : InRose d env)
    (hx : d.Part x) : InRose x env := by
  cases h with
  | tree => exact absurd hx (not_part (.inl ⟨_, _, rfl⟩))
  | record =>
    obtain ⟨f, hf, hx⟩ := of_part_record hx
    rcases List.mem_pair.1 hf with rfl | rfl
    · obtain rfl := Option.some.inj hx
      exact .label
    · obtain rfl := Option.some.inj hx
      exact .children
  | label => exact absurd hx (not_part (.inr (.inl ⟨_, _, rfl⟩)))
  | children =>
    obtain rfl := of_part_list hx
    exact .tree
  | int => exact absurd hx (not_part (.inr (.inr ⟨_, rfl⟩)))

theorem InRose.bound {d : Description} {env : List BoundType} (h : InRose d env) :
    ∀ u ∈ env, u = integers := by
  cases h with
  | int => simp
  | _ => simp

theorem inRose {u : BoundType} (h : rose.Reaches [roseTree] u) :
    ∃ d env, u = .mk d env ∧ InRose d env := by
  induction h with
  | refl => exact ⟨_, _, rfl, .tree⟩
  | part _ hx ih =>
    obtain ⟨_, _, heq, ih⟩ := ih
    obtain ⟨rfl, rfl⟩ := BoundType.mk.inj heq
    exact ⟨_, _, rfl, ih.part hx⟩
  | bound _ hu ih =>
    obtain ⟨_, _, heq, ih⟩ := ih
    obtain ⟨rfl, rfl⟩ := BoundType.mk.inj heq
    exact ⟨_, _, ih.bound _ hu, .int⟩
  | body _ hb ih =>
    obtain ⟨_, _, heq, ih⟩ := ih
    obtain ⟨rfl, rfl⟩ := BoundType.mk.inj heq
    cases ih
    exact ⟨_, _, by rw [← Option.some.inj hb]; rfl, .record⟩
  | recursive _ ih =>
    obtain ⟨_, _, heq, ih⟩ := ih
    obtain ⟨rfl, rfl⟩ := BoundType.mk.inj heq
    cases ih
  | applied _ ih =>
    obtain ⟨_, _, heq, ih⟩ := ih
    obtain ⟨rfl, rfl⟩ := BoundType.mk.inj heq
    cases ih

theorem inRose_mk {d : Description} {env : List BoundType}
    (h : rose.Reaches [roseTree] (.mk d env)) : InRose d env := by
  obtain ⟨_, _, heq, h⟩ := inRose h
  obtain ⟨rfl, rfl⟩ := BoundType.mk.inj heq
  exact h

theorem rose_sober : Setting.Sober [roseTree] rose := by
  refine ⟨fun d env h => ⟨?_, ?_⟩, fun id env h => ?_, fun id _ hcycle => ?_⟩
  · rintro fields instanceOf extra rfl
    cases inRose_mk h
    rfl
  · intro folding cs hd
    cases inRose_mk h <;> cases hd
  · cases inRose_mk h
    exact roseTree_accepts
  · -- the only body is a record, so nothing stands outside shapes
    obtain ⟨id', ⟨body, hb, hbare⟩, -⟩ := Relation.TransGen.head'_iff.1 hcycle
    cases id with
    | zero =>
      obtain rfl := Option.some.inj hb
      exact absurd hbare (by simp [Description.bare])
    | succ id => exact absurd hb (by simp [Catalog.body?])

theorem session_rose : ∃ deriver c, Session (fun _ => .sealed) [roseTree] deriver [(rose, c)] := by
  have hderive : (Derivation.derive [roseTree] (.definition 0)
      [.converter (.ofPrimitive .int)]).Succeeds :=
    fun d => roseTree_accepts [.ofPrimitive .int] d rfl
  obtain ⟨c, hc⟩ := hderive {}
  have hstart : Session (fun _ => .sealed) [roseTree] {} [] := by
    have hdefine : Catalog.define [⟨"rose", ["a"], none⟩] 0 roseTree.body = .ok [roseTree] := rfl
    refine .define ?_ hdefine (.declare "rose" ["a"] .start)
    simp [Description.isPlain, Description.fieldsPlain]
  have hint : (Target.converter (.ofPrimitive .int)).Means (fun _ => .sealed) [] [] integers :=
    .builtin .int
  have hsession := hstart.derive (.cons hint .nil) (.definition 0 _)
  rw [show (Derivation.derive [roseTree] (.definition 0) [.converter (.ofPrimitive .int)] {}).1 =
    .ok c from hc] at hsession
  exact ⟨_, c, hsession⟩

/-- A tree whose subtree has a label that is no integer. -/
def mislabelled : Node := .ofSexp (.list [.list [.atom "label", .atom "1"],
  .list [.atom "children", .list [.list [.list [.atom "label", .atom "x"]]]]])

theorem mislabelled_isCountable : mislabelled.IsCountable := by
  intro t ht
  simp only [mislabelled, Node.ofSexp, Node.ofSexps, mentions_list, List.mem_cons, List.not_mem_nil,
    or_false, exists_eq_or_imp, exists_eq_left, mentions_atom] at ht
  rcases ht with (rfl | rfl) | rfl | rfl | rfl <;> decide

/-- The tree with a wrong label is read or refused. -/
theorem read_total_mislabelled : ∃ deriver c,
    Session (fun _ => .sealed) [roseTree] deriver [(rose, c)] ∧ mislabelled.IsCountable ∧
    ((∃ v, Setting.read ⟨[roseTree], deriver, .standard⟩ c mislabelled = .ok v) ∨
      (∃ e, Setting.read ⟨[roseTree], deriver, .standard⟩ c mislabelled = .error (.conversion e)) ∨
      Setting.read ⟨[roseTree], deriver, .standard⟩ c mislabelled = .error .unspellable ∧
        mislabelled.HasUnspellable) := by
  obtain ⟨deriver, c, hsession⟩ := session_rose
  exact ⟨deriver, c, hsession, mislabelled_isCountable,
    hsession.read_total List.mem_cons_self rose_sober mislabelled_isCountable⟩

/-! ### An integer that has no name -/

/-- Arrays of integers. -/
def row : Description := .array (.primitive "int") none

/-- The converter of such arrays. -/
def rowConverter : Converter :=
  ⟨.derived 0, "int array", .array "array" (.integer true .w64) (Converter.ofPrimitive .int)⟩

theorem session_row : ∃ deriver,
    Session (fun _ => row) [] deriver [(.mk row [], rowConverter)] := by
  have hmeans : (Target.description 0 row).Means (fun _ => row) [] [] (.mk row []) :=
    .description 0 [] rfl
  have h := Session.derive .nil hmeans .start
  have hderive : (Derivation.derive [] (.description 0 row) [] {}).1 = .ok rowConverter := by
    simp only [Derivation.derive, Derivation.ofTargets, Derivation.ofTarget,
      Derivation.ofDescription, row, Description.build]
    rfl
  rw [hderive] at h
  exact ⟨_, h⟩

theorem of_reaches_row {u : BoundType} (h : (BoundType.mk row []).Reaches [] u) :
    u = .mk row [] ∨ u = integers := by
  induction h with
  | refl => exact .inl rfl
  | part _ hx ih =>
    rcases ih with heq | heq <;> obtain ⟨rfl, rfl⟩ := BoundType.mk.inj heq
    · cases hx with
      | array => exact .inr rfl
      | argument hd _ _ => cases hd
      | inline hd _ _ => cases hd
    · exact absurd hx (not_part (.inr (.inr ⟨_, rfl⟩)))
  | bound _ hu ih =>
    rcases ih with heq | heq <;> obtain ⟨rfl, rfl⟩ := BoundType.mk.inj heq <;>
      exact absurd hu List.not_mem_nil
  | body _ hb _ => exact absurd hb (by simp [Catalog.body?])
  | recursive _ ih => rcases ih with heq | heq <;> cases heq
  | applied _ ih => rcases ih with heq | heq <;> cases heq

theorem row_sober : Setting.Sober [] (.mk row []) := by
  refine ⟨fun d env h => ⟨?_, ?_⟩, fun id env h => ?_, fun id hid _ => ?_⟩
  · rintro fields instanceOf extra rfl
    rcases of_reaches_row h with heq | heq <;> cases heq
  · intro folding cs hd
    rcases of_reaches_row h with heq | heq <;> cases heq <;> cases hd
  · rcases of_reaches_row h with heq | heq <;> cases heq
  · obtain ⟨env, h⟩ := hid
    rcases of_reaches_row h with heq | heq <;> cases heq

/-- A list of one integer, in hexadecimal. -/
def huge (n : Nat) : Node := .list [.atom (Spelling.hexadecimal n) none] none

theorem huge_isCountable (n : Nat) : (huge n).IsCountable := by
  intro t ht
  simp only [huge, mentions_list, List.mem_singleton, exists_eq_left, mentions_atom] at ht
  rw [ht, Spelling.readInt_hexadecimal]
  exact nofun

theorem store_huge {n : Nat} (hn : 10 ^ Spelling.maxDigits ≤ n) :
    Storage.store (.integer true .w64) (.int n) = .error .unspellable := by
  have hlarge : (ElementType.greatest true .w64).toNat < 10 ^ Spelling.maxDigits := by
    decide +kernel
  have hrange : Storage.inRange true .w64 n = false := by
    rw [Storage.inRange, Bool.and_eq_false_iff]
    exact .inr (decide_eq_false (by omega))
  rw [Storage.store, Storage.storeInteger, hrange, Spelling.writeInt?_eq_none hn]
  rfl

/-- An array of machine integers has no error for an integer that has no decimal text. -/
theorem read_huge {n : Nat} (hn : 10 ^ Spelling.maxDigits ≤ n) (deriver : Deriver) :
    Setting.read ⟨[], deriver, .standard⟩ rowConverter (huge n) = .error .unspellable := by
  have hatom : Builtin.read .int (.atom (Spelling.hexadecimal n) none) = .ok (.int n) := by
    simp [Builtin.read, Builtin.atomText, Spelling.readInt_hexadecimal, bind, Except.bind]
  have hitems (follow : Follow Except) : readEach (Plan.read follow .standard (.primitive .int)) 0
      [.atom (Spelling.hexadecimal n) none] = .ok [.int n] := by
    rw [readEach, Plan.read, hatom]
    rfl
  have hstored : storeEach "array" (.integer true .w64) [.atom (Spelling.hexadecimal n) none]
      [.int n] = .error .unspellable := by
    rw [storeEach, Storage.vector, Storage.storeAll, store_huge hn]
    rfl
  rw [Setting.read_eq_readBy, rowConverter, huge, Setting.readBy, Plan.read, Converter.ofPrimitive,
    hitems]
  exact hstored

/-- An array of integers that are read one by one has no value and no conversion error. -/
theorem unspellable_not_refused : ∃ deriver node,
    Session (fun _ => row) [] deriver [(.mk row [], rowConverter)] ∧
    Setting.Sober [] (.mk row []) ∧ node.IsCountable ∧
    (∀ v, Setting.read ⟨[], deriver, .standard⟩ rowConverter node ≠ .ok v) ∧
    ∀ e, Setting.read ⟨[], deriver, .standard⟩ rowConverter node ≠ .error (.conversion e) := by
  obtain ⟨deriver, hsession⟩ := session_row
  have hread := read_huge (Nat.le_refl _) deriver
  refine ⟨deriver, huge (10 ^ Spelling.maxDigits), hsession, row_sober, huge_isCountable _, ?_, ?_⟩
  · simp [hread]
  · simp [hread]

end Totality

end TypedSexp
