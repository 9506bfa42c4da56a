import Mathlib.Data.List.Nodup
import TypedSexp.Proofs.Derivation.Inversion
import TypedSexp.Proofs.Description.Typing
import TypedSexp.Proofs.Value.Comparison
import TypedSexp.Proofs.Value.Storage
/-!
# Comparing values of one type

Comparison may answer true for values of different types that are not equal; for values of one type
it does not (`HasType.equal_of_agrees`). What remains of its freedom is that nothing and an array that
holds nothing else are taken for each other, where an option holds an array.
-/

namespace TypedSexp

variable {catalog : Catalog} {Admits : Field Description → Prop}
  {Through : DefinitionId → Nat → Prop} {room room' : Nat}
  {env : List BoundType} {d : Description} {x y : Value}

/-! ## Nothing -/

namespace Value

theorem eqWith_none_of_agrees (h : x.Agrees .none) : eqWith false x .none = .ok true := by
  rcases h with h | h | h
  · cases x <;> simp [isSameNan] at h
  · cases x <;> first | exact h | simp [same] at h
  · exact h

theorem not_agrees_none_of_list {vs : List Value} : ¬ (Value.list vs).Agrees .none := by
  intro h
  have h := eqWith_none_of_agrees h
  match vs with
  | [] => simp [eqWith, isElementwise] at h
  | [_] => simp [eqWith, isElementwise] at h
  | _ :: _ :: _ => simp [eqWith, isElementwise] at h

theorem not_agrees_none_of_tuple {vs : List Value} : ¬ (Value.tuple vs).Agrees .none := by
  intro h
  have h := eqWith_none_of_agrees h
  match vs with
  | [] => simp [eqWith, isElementwise] at h
  | [_] => simp [eqWith, isElementwise] at h
  | _ :: _ :: _ => simp [eqWith, isElementwise] at h

theorem not_agrees_none_of_object {name : Text} {es : List (Text × Value)} :
    ¬ (Value.object name es).Agrees .none := by
  intro h
  have h := eqWith_none_of_agrees h
  simp [eqWith, content, content?, bind, Except.bind] at h

theorem not_agrees_none_of_variant {tag : Text} {vs : List Value} :
    ¬ (Value.variant tag vs).Agrees .none := by
  intro h
  have h := eqWith_none_of_agrees h
  simp [eqWith, content, content?, bind, Except.bind] at h

theorem content_of_array_agrees_none {e : ElementType} {s : Shape} {vs : List Value}
    (h : (Value.array e s vs).Agrees .none) : ∃ v, vs = [v] ∧ v.Agrees .none := by
  have h := eqWith_none_of_agrees h
  match vs with
  | [] => simp [eqWith] at h
  | _ :: _ :: _ => simp [eqWith] at h
  | [v] =>
    refine ⟨v, rfl, .inr (.inr ?_)⟩
    simpa [eqWith, meeting, isPlainNumber, leaf?, elementType] using h

end Value

/-- What is found equal to nothing holds nothing else. -/
theorem HasType.content_of_agrees_none (h : HasType catalog Admits Through room env d x)
    (hx : x.Agrees .none) : x.content? = some .none := by
  induction h with
  | primitive _ hv =>
    have hx := Value.eqWith_none_of_agrees hx
    cases hv with
    | unit => rfl
    | _ => simp [Value.eqWith, Value.eqNumber, Value.numeral?, Value.eqText, Value.eqBytes,
        Value.eqSexp, Value.isElementwise, Value.content, Value.content?, bind, Except.bind] at hx
  | product _ _ _ => exact absurd hx Value.not_agrees_none_of_tuple
  | list _ _ => exact absurd hx Value.not_agrees_none_of_list
  | array _ _ ih =>
    obtain ⟨v, rfl, hv⟩ := Value.content_of_array_agrees_none hx
    exact ih v (by simp) hv
  | nothing => rfl
  | something _ _ ih => exact ih hx
  | @record _ _ _ _ instanceOf _ _ _ _ _ _ _ _ _ _ _ _ _ _ _ =>
    cases instanceOf with
    | none =>
      have hx := Value.eqWith_none_of_agrees hx
      simp [Value.ofFields, Value.eqWith, Value.content, Value.content?, bind, Except.bind] at hx
    | some k => exact absurd hx Value.not_agrees_none_of_object
  | @variant _ _ _ _ _ c _ _ _ _ _ _ _ _ _ _ _ =>
    cases hc : c.instanceOf with
    | none => exact absurd (hc ▸ hx) Value.not_agrees_none_of_variant
    | some k => exact absurd (hc ▸ hx) Value.not_agrees_none_of_object
  | @spliced _ _ _ _ _ _ c _ _ _ _ _ _ _ _ _ _ =>
    cases hc : c.instanceOf with
    | none => exact absurd (hc ▸ hx) Value.not_agrees_none_of_variant
    | some k => exact absurd (hc ▸ hx) Value.not_agrees_none_of_object
  | @inline _ _ _ _ _ _ c _ _ _ _ _ _ _ ih =>
    cases hc : c.instanceOf with
    | none => exact absurd (hc ▸ hx) Value.not_agrees_none_of_variant
    | some k =>
      rw [hc] at hx
      exact ih hx
  | parameter _ _ _ ih => exact ih hx
  | definition _ _ _ ih => exact ih hx
  | recursive _ ih => exact ih hx
  | applied _ ih => exact ih hx

/-! ## Constructors -/

/-- The value is one of the constructor: it has its tag, or is an instance of its class. -/
def Constructor.Makes (c : Constructor Description) (v : Value) : Prop :=
  match c.instanceOf with
  | none => ∃ vs, v = .variant c.tag vs
  | some k => ∃ es, v = .object k.name es

theorem Constructor.makes_ofArguments (c : Constructor Description) (vs : List Value) :
    c.Makes (.ofArguments c.tag c.instanceOf vs) := by
  unfold Constructor.Makes
  cases c.instanceOf with
  | none => exact ⟨vs, rfl⟩
  | some k => exact ⟨_, rfl⟩

/-- The record of an instance is an instance itself. -/
theorem HasType.instance_of_inline {r : Description} {c : Constructor Description}
    (h : HasType catalog Admits Through room env r x) (hr : c.inlineRecord = some r) {k : ClassInfo}
    (hk : c.instanceOf = some k) : ∃ es, x = .object k.name es := by
  obtain ⟨tag, args, instanceOf, record, spliced⟩ := c
  obtain rfl : instanceOf = some k := hk
  cases record with
  | none => exact absurd hr (by simp [Constructor.inlineRecord])
  | some r' =>
    cases r' with
    | record fields inner extra =>
      obtain rfl : .record fields (some k) extra = r := Option.some.inj hr
      cases h with
      | record _ _ _ _ _ _ _ _ _ _ _ => exact ⟨_, rfl⟩
      | variant hd _ _ _ _ _ _ _ _ => cases hd
      | spliced hd _ _ _ _ _ _ _ _ => cases hd
      | inline hd _ _ _ _ _ => cases hd
    | _ => exact absurd hr (by simp [Constructor.inlineRecord])

theorem Constructor.makes_ofInline {c : Constructor Description} {r : Description}
    (h : HasType catalog Admits Through room env r x) (hr : c.inlineRecord = some r) :
    c.Makes (.ofInline c.tag c.instanceOf x) := by
  unfold Constructor.Makes
  cases hk : c.instanceOf with
  | none => exact ⟨[x], rfl⟩
  | some k => exact h.instance_of_inline hr hk

/-- How a value is made by a constructor: of arguments, of one list, or of a record. `P` says which
values a description has. -/
inductive Constructor.MadeOf (P : Description → Value → Prop) (c : Constructor Description) :
    Value → Prop
  | arguments {vs : List Value} (hfields : ∀ k, c.instanceOf = some k → k.fields.length = vs.length)
      (hr : c.record = none) (hs : c.spliced = false) (hlen : c.args.length = vs.length)
      (h : ∀ d v, (d, v) ∈ c.args.zip vs → P d v) :
      MadeOf P c (.ofArguments c.tag c.instanceOf vs)
  | spliced {d : Description} {vs : List Value}
      (hfields : ∀ k, c.instanceOf = some k → k.fields.length = 1) (hr : c.record = none)
      (hs : c.spliced = true) (ha : c.args = [d]) (h : ∀ v ∈ vs, P d v) :
      MadeOf P c (.ofArguments c.tag c.instanceOf [.list vs])
  | inline {r : Description} {v : Value} (hr : c.inlineRecord = some r) (h : P r v) :
      MadeOf P c (.ofInline c.tag c.instanceOf v)

/-- A value of a variant is made by one of its constructors. -/
theorem HasType.of_variant {folding : Bool} {cs : List (Constructor Description)}
    (hd : d.IsVariant folding cs) (h : HasType catalog Admits Through room env d x) :
    (cs.map Constructor.tag).Nodup ∧ ∃ c ∈ cs, c.OwnsClass cs ∧
      c.MadeOf (HasType catalog Admits Through room env) x := by
  cases h with
  | variant hd' htags hc hclass hfields hr hs hlen h =>
    obtain ⟨rfl, rfl⟩ := hd.eq hd'
    exact ⟨htags, _, hc, hclass, .arguments hfields hr hs hlen h⟩
  | spliced hd' htags hc hclass hfields hr hs ha h =>
    obtain ⟨rfl, rfl⟩ := hd.eq hd'
    exact ⟨htags, _, hc, hclass, .spliced hfields hr hs ha h⟩
  | inline hd' htags hc hclass hr h =>
    obtain ⟨rfl, rfl⟩ := hd.eq hd'
    exact ⟨htags, _, hc, hclass, .inline hr h⟩
  | _ => cases hd

theorem Constructor.MadeOf.makes {c : Constructor Description}
    (h : c.MadeOf (HasType catalog Admits Through room env) x) : c.Makes x := by
  cases h with
  | arguments => exact c.makes_ofArguments _
  | spliced => exact c.makes_ofArguments _
  | inline hr h => exact Constructor.makes_ofInline h hr

/-- Values that are found equal are of one constructor. -/
theorem Constructor.eq_of_agrees {cs : List (Constructor Description)} {c c' : Constructor Description}
    (htags : (cs.map Constructor.tag).Nodup) (hc : c ∈ cs) (hc' : c' ∈ cs)
    (hclass : c.OwnsClass cs) (hclass' : c'.OwnsClass cs) (hx : c.Makes x) (hy : c'.Makes y)
    (h : x.Agrees y) : c = c' := by
  unfold Constructor.Makes at hx hy
  cases hk : c.instanceOf with
  | none =>
    rw [hk] at hx
    obtain ⟨vs, rfl⟩ := hx
    cases hk' : c'.instanceOf with
    | none =>
      rw [hk'] at hy
      obtain ⟨ws, rfl⟩ := hy
      exact List.inj_on_of_nodup_map htags hc hc' (Value.agrees_of_variant h).1
    | some k' =>
      rw [hk'] at hy
      obtain ⟨fs, rfl⟩ := hy
      have h := h.eqWith (by simp) (by simp)
      simp [Value.eqWith, Value.content, Value.content?, bind, Except.bind] at h
  | some k =>
    rw [hk] at hx
    obtain ⟨es, rfl⟩ := hx
    cases hk' : c'.instanceOf with
    | none =>
      rw [hk'] at hy
      obtain ⟨ws, rfl⟩ := hy
      have h := h.eqWith (by simp) (by simp)
      simp [Value.eqWith, Value.content, Value.content?, bind, Except.bind] at h
    | some k' =>
      rw [hk'] at hy
      obtain ⟨fs, rfl⟩ := hy
      have hname := (Value.agrees_of_object h).1
      exact Option.some.inj ((hclass k hk).symm.trans (hname ▸ hclass' k' hk'))

/-- The arguments of two values of one constructor are found equal one by one. -/
theorem agrees_of_ofArguments {tag : Text} {instanceOf : Option ClassInfo} {vs ws : List Value}
    (hlen : vs.length = ws.length)
    (hfields : ∀ k, instanceOf = some k → k.fields.length = vs.length)
    (h : (Value.ofArguments tag instanceOf vs).Agrees (.ofArguments tag instanceOf ws)) :
    ∀ v w, (v, w) ∈ vs.zip ws → v.Agrees w := by
  cases instanceOf with
  | none => exact (Value.agrees_of_variant h).2.2
  | some k =>
    have hk := hfields k rfl
    have hitems := (Value.agrees_of_object h).2
    rw [List.map_snd_zip (Nat.le_of_eq hk.symm),
      List.map_snd_zip (Nat.le_of_eq (hk.trans hlen).symm)] at hitems
    exact hitems

/-! ## Values of one type -/

/-- Numbers that are stored as they are and found equal. -/
theorem equal_of_elementsAgree {e : ElementType} (hx : Storage.store e x = .ok x)
    (hy : Storage.store e y = .ok y) (h : Value.ElementsAgree e x y) (hany : x.Agrees y → x.Equal y) :
    x.Equal y := by
  unfold Value.ElementsAgree at h
  by_cases he : e = .any
  · exact hany (by rwa [if_pos he] at h)
  · rw [if_neg he] at h
    obtain ⟨m, n, hm, hn, heq⟩ := h
    rcases Storage.store_fixed hx with rfl | ⟨signed, width, i, rfl, rfl⟩ | ⟨hfloat, u, rfl⟩ |
      ⟨rfl, b, rfl⟩
    · exact absurd rfl he
    · obtain ⟨j, rfl⟩ := Storage.storeInteger_int hy
      obtain rfl := Option.some.inj hm
      obtain rfl := Option.some.inj hn
      obtain rfl : i = j := by simpa [Numeral.eq] using heq
      exact .refl _
    · rcases Storage.store_fixed hy with rfl | ⟨_, _, _, rfl, _⟩ | ⟨_, w, rfl⟩ | ⟨rfl, _⟩
      · exact absurd rfl he
      · exact absurd hfloat (by simp [ElementType.isFloat])
      · obtain rfl := Option.some.inj hm
        obtain rfl := Option.some.inj hn
        exact .float heq
      · exact absurd hfloat (by simp [ElementType.isFloat])
    · rcases Storage.store_fixed hy with h | ⟨_, _, _, h, _⟩ | ⟨h, _⟩ | ⟨_, b', rfl⟩
      · exact absurd h (by simp)
      · exact absurd h (by simp)
      · exact absurd h (by simp [ElementType.isFloat])
      · obtain rfl := Option.some.inj hm
        obtain rfl := Option.some.inj hn
        cases b <;> cases b' <;> first | exact .refl _ | simp [Numeral.eq] at heq

/-- Values of a built-in type that are found equal. -/
theorem Primitive.Holds.equal_of_agrees {p : Primitive} (hx : p.Holds x) (hy : p.Holds y)
    (h : x.Agrees y) : x.Equal y := by
  cases hx with
  | float _ =>
    cases hy
    rename_i u _ w _
    rcases h with h | h | h
    · cases u <;> cases w <;> simp [Value.isSameNan, Binary64.isSameNan] at h
      exact .nan _ _
    · exact .float (by simpa [Value.same, Value.eq, Value.eqWith, Value.eqNumber, Value.numeral?,
        Numeral.eq] using h)
    · exact .float (by simpa [Value.eqWith, Value.eqNumber, Value.numeral?, Numeral.eq] using h)
  | bool b =>
    cases hy with
    | bool b' =>
      have h := h.eqWith (by simp) (by simp)
      cases b <;> cases b' <;>
        first | exact .refl _ | simp [Value.eqWith, Value.eqNumber, Value.numeral?, Numeral.eq] at h
  | unit => cases hy; exact .refl _
  | _ =>
    cases hy
    have h := h.eqWith (by simp) (by simp)
    simp [Value.eqWith, Value.eqNumber, Value.numeral?, Numeral.eq, Value.eqText, Value.eqBytes,
      Value.eqSexp, Value.isElementwise, Value.isArray, Value.content, Value.content?, bind,
      Except.bind] at h
    subst h
    exact .refl _

/-- Two values of one field are equal if they are found equal and those of its description are. -/
theorem Field.Holds.equal_of_agrees {f : Field Description}
    (hx : f.Holds (HasType catalog Admits Through room env) x)
    (hy : f.Holds (HasType catalog Admits Through room' env) y)
    (hf : f.presence ≠ .sexpBool → f.type ≠ none)
    (ih : ∀ d, f.presence ≠ .sexpBool → f.valueType = some d → (f.presence = .sexpOption → x ≠ .none) →
      HasType catalog Admits Through room' env d y → x.Equal y)
    (h : x.Agrees y) : x.Equal y := by
  by_cases hb : f.presence = .sexpBool
  · obtain ⟨b, rfl⟩ := hx.flag hb
    obtain ⟨b', rfl⟩ := hy.flag hb
    exact (Primitive.Holds.bool b).equal_of_agrees (.bool b') h
  · obtain ⟨t, ht⟩ := Option.ne_none_iff_exists'.1 (hf hb)
    have hd : f.valueType = some (f.presence.valueType t) := by rw [Field.valueType, ht]; rfl
    by_cases hnone : f.presence = .sexpOption ∧ x = .none
    · obtain ⟨-, rfl⟩ := hnone
      exact .nothing trivial rfl (Value.content_of_agrees_none h)
    · have hxne : f.presence = .sexpOption → x ≠ .none := fun hp hx => hnone ⟨hp, hx⟩
      by_cases hnone' : f.presence = .sexpOption ∧ y = .none
      · obtain ⟨-, rfl⟩ := hnone'
        exact .nothing trivial ((hx.value _ hb hd hxne).content_of_agrees_none h) rfl
      · have hyne : f.presence = .sexpOption → y ≠ .none := fun hp hy => hnone' ⟨hp, hy⟩
        exact ih _ hb hd hxne (hy.value _ hb hd hyne)

/-- Two values made by one constructor are equal if they are found equal and so are those that they
are made of. -/
theorem Constructor.MadeOf.equal_of_agrees {c : Constructor Description}
    {Q : Description → Value → Prop}
    (hx : c.MadeOf (fun d v => ∀ {w}, Q d w → v.Agrees w → v.Equal w) x) (hy : c.MadeOf Q y)
    (h : x.Agrees y) : x.Equal y := by
  cases hx with
  | @arguments vs hfields hr hs hlen ih =>
    cases hy with
    | @arguments ws _ _ _ hlen' hws =>
      have hcount : vs.length = ws.length := hlen.symm.trans hlen'
      have hitems := agrees_of_ofArguments hcount hfields h
      refine Value.like_ofArguments c.tag hfields hcount fun v w hmem => ?_
      obtain ⟨t, ht, ht'⟩ := exists_zip_middle hlen hlen' hmem
      exact ih t v ht (hws t w ht') (hitems v w hmem)
    | spliced _ _ hs' _ _ => exact absurd (hs.symm.trans hs') (by simp)
    | inline hr' _ => exact absurd hr' (by simp [Constructor.inlineRecord, hr])
  | @spliced _ vs hfields hr hs ha ih =>
    cases hy with
    | arguments _ _ hs' _ _ => exact absurd (hs.symm.trans hs') (by simp)
    | @spliced _ ws _ _ _ ha' hws =>
      obtain rfl := (List.cons.inj (ha.symm.trans ha')).1
      have hone : [Value.list vs].length = [Value.list ws].length := rfl
      have hlists : (Value.list vs).Agrees (.list ws) :=
        agrees_of_ofArguments hone hfields h _ _ (List.mem_singleton_self _)
      obtain ⟨hcount, hitems⟩ := Value.agrees_of_list hlists
      refine Value.like_ofArguments c.tag hfields rfl fun v w hmem => ?_
      obtain ⟨rfl, rfl⟩ : v = .list vs ∧ w = .list ws := by simpa using hmem
      refine .list hcount fun v w hmem => ?_
      obtain ⟨hv, hw⟩ := List.of_mem_zip hmem
      exact ih v hv (hws w hw) (hitems v w hmem)
    | inline hr' _ => exact absurd hr' (by simp [Constructor.inlineRecord, hr])
  | @inline _ v hr ih =>
    cases hy with
    | arguments _ hr' _ _ _ => exact absurd hr (by simp [Constructor.inlineRecord, hr'])
    | spliced _ hr' _ _ _ => exact absurd hr (by simp [Constructor.inlineRecord, hr'])
    | @inline _ w hr' hw =>
      obtain rfl := Option.some.inj (hr.symm.trans hr')
      refine Value.like_ofInline c.tag c.instanceOf (ih hw ?_)
      cases hk : c.instanceOf with
      | none =>
        rw [hk] at h
        exact (Value.agrees_of_variant h).2.2 v w (List.mem_singleton_self _)
      | some k =>
        rw [hk] at h
        exact h

/-- Two values of a variant are equal if they are found equal and those that they are made of are. -/
theorem HasType.equal_of_madeOf {folding : Bool} {cs : List (Constructor Description)}
    {c : Constructor Description} (hd : d.IsVariant folding cs) (hc : c ∈ cs)
    (hclass : c.OwnsClass cs) (hmakes : c.Makes x)
    (hx : c.MadeOf (fun d v => ∀ {w}, HasType catalog Admits Through room' env d w → v.Agrees w → v.Equal w) x)
    (hy : HasType catalog Admits Through room' env d y) (h : x.Agrees y) : x.Equal y := by
  obtain ⟨htags, c', hc', hclass', hmade⟩ := hy.of_variant hd
  obtain rfl := Constructor.eq_of_agrees htags hc hc' hclass hclass' hmakes hmade.makes h
  exact hx.equal_of_agrees hmade h

/-- **Values of one type that are found equal are equal.** -/
theorem HasType.equal_of_agrees (hx : HasType catalog Admits Through room env d x)
    (hy : HasType catalog Admits Through room' env d y) (h : x.Agrees y) : x.Equal y := by
  induction hx generalizing y with
  | primitive hp hv =>
    obtain ⟨p, hp', hv'⟩ := hy.of_primitive
    obtain rfl := Option.some.inj (hp.symm.trans hp')
    exact hv.equal_of_agrees hv' h
  | product hlen _ ih =>
    obtain ⟨ws, rfl, hlen', hws⟩ := hy.of_product
    obtain ⟨hcount, hitems⟩ := Value.agrees_of_tuple h
    refine .tuple hcount fun v w hmem => ?_
    obtain ⟨t, ht, ht'⟩ := exists_zip_middle hlen hlen' hmem
    exact ih t v ht (hws t w ht') (hitems v w hmem)
  | list _ ih =>
    obtain ⟨ws, rfl, hws⟩ := hy.of_list
    obtain ⟨hcount, hitems⟩ := Value.agrees_of_list h
    refine .list hcount fun v w hmem => ?_
    obtain ⟨hv, hw⟩ := List.of_mem_zip hmem
    exact ih v hv (hws w hw) (hitems v w hmem)
  | @array _ _ _ _ vs hstored _ ih =>
    obtain ⟨ws, rfl, hstored', hws⟩ := hy.of_array
    obtain ⟨hshape, hitems⟩ := Value.agrees_of_array h
    have hcount : vs.length = ws.length := by
      rcases hshape with hshape | ⟨hv, hw⟩
      · simpa using hshape
      · rw [hv, hw]
    rw [Value.vector, Value.vector, hcount]
    refine .array hcount fun v w hmem => ?_
    obtain ⟨hv, hw⟩ := List.of_mem_zip hmem
    exact equal_of_elementsAgree (hstored v hv) (hstored' w hw) (hitems v w hmem) (ih v hv (hws w hw))
  | nothing =>
    rcases hy.of_option with rfl | _
    · exact .refl _
    · exact .nothing trivial rfl (Value.content_of_agrees_none h)
  | something _ hx ih =>
    rcases hy.of_option with rfl | ⟨_, hy⟩
    · exact .nothing trivial (hx.content_of_agrees_none h) rfl
    · exact ih hy h
  | @record _ _ _ _ instanceOf _ es _ _ hnodup hnames hclass htyped hflag hvalue _ _ _
      ihvalue _ =>
    obtain ⟨fs, rfl, -, -, hfs⟩ := hy.of_record
    have hperm : (es.map Prod.fst).Perm (fs.map Prod.fst) := by
      rw [List.perm_ext_iff_of_nodup hnodup hfs.nodup]
      exact fun name => (hnames name).trans (hfs.names name).symm
    have hagrees : ∀ name x y, es.lookup name = some x → fs.lookup name = some y → x.Agrees y := by
      cases instanceOf with
      | none => exact Value.agrees_of_record h
      | some k =>
        intro name x y hx hy
        have horder := (hclass k rfl).trans (hfs.ordered k rfl).symm
        exact (Value.agrees_of_object h).2 x y (mem_zip_snd_of_lookup horder hx hy)
    refine Value.like_ofFields hperm (fun k hk => ⟨hclass k hk, hfs.ordered k hk⟩) ?_
    intro name x y hx hy
    obtain ⟨f, hf, rfl⟩ := List.mem_map.1 ((hnames name).1 (mem_names_of_lookup hx))
    have hxs : f.Holds (HasType catalog Admits Through _ _) x :=
      ⟨fun hb => hflag f hf x hb hx, fun d hb hd => hvalue f hf d x hb hd hx⟩
    have hxy := hagrees _ x y hx hy
    refine hxs.equal_of_agrees (hfs.each f hf y hy).holds (htyped f hf) ?_ hxy
    intro d hb hd hne hyt
    exact ihvalue f hf d x hb hd hx hne hyt hxy
  | @variant _ _ _ _ _ c vs hd _ hc hclass hfields hr hs hlen _ ih =>
    exact hy.equal_of_madeOf hd hc hclass (c.makes_ofArguments vs) (.arguments hfields hr hs hlen ih) h
  | @spliced _ _ _ _ _ _ c vs hd _ hc hclass hfields hr hs ha _ ih =>
    exact hy.equal_of_madeOf hd hc hclass (c.makes_ofArguments _) (.spliced hfields hr hs ha ih) h
  | inline hd _ hc hclass hr hx ih =>
    exact hy.equal_of_madeOf hd hc hclass (Constructor.makes_ofInline hx hr) (.inline hr ih) h
  | parameter _ ht _ ih =>
    obtain ⟨d', env', ht', hy⟩ := hy.of_parameter
    obtain ⟨rfl, rfl⟩ := BoundType.mk.inj (Option.some.inj (ht.symm.trans ht'))
    exact ih hy h
  | definition hb _ _ ih =>
    obtain ⟨body, hb', hy⟩ := hy.of_definition
    obtain rfl := Option.some.inj (hb.symm.trans hb')
    exact ih hy h
  | recursive _ ih => exact ih hy.of_recursive h
  | applied _ ih => exact ih hy.of_applied h

end TypedSexp
