import TypedSexp.Proofs.Conversion.Refused
import TypedSexp.Proofs.Conversion.Unfolding
/-!
# Where errors point

The path of a conversion error leads from the whole tree to what was refused. `Setting.Walk` follows
a path in a tree along a type: an index selects an item, the name of a field the one entry with that
name, a tag stays on the form, and an index after it selects the item one past the tag; options and
references are entered without a step. Everything that is passed on the way was read: a walk exists
only past items, arguments and fields that the converter reads.

`Session.walk_of_error`: the path of every error can be walked, and ends at the tree that the error
is about, or next to it.
-/

namespace TypedSexp

/-! ## Walks -/

/-- Where a walk stands: at a value of a type, at a form of a constructor, or at the entry of a
field. -/
inductive Guide where
  | type (t : BoundType) (plan : Plan)
  | constructor (c : Constructor Description) (p : CasePlan Plan) (env : List BoundType)
  | entry (f : Field Description) (p : FieldPlan Plan) (env : List BoundType)

/-- The description of an item: lists and arrays have one for all, products one for each. -/
def Description.itemAt (i : Nat) : Description → Option Description
  | .list d => some d
  | .array d _ => some d
  | .product parts => parts[i]?
  | _ => none

/-- The description of what follows the tag: one for all spliced items, or one for each argument. -/
def Constructor.itemAt (c : Constructor Description) (i : Nat) : Option Description :=
  if c.spliced then c.args.head? else c.args[i]?

/-- Fields and their plans, and the items among which their entries are: those of a record, or those
behind a tag. -/
inductive Guide.AtFields : Guide → Node → List (Field Description) → List (FieldPlan Plan) →
    List BoundType → List Node → Prop
  | record {fields : List (Field Description)} {instanceOf : Option ClassInfo} {extra : Bool}
      {env : List BoundType} {r : RecordPlan Plan} {items : List Node} {l : Option Location} :
      AtFields (.type (.mk (.record fields instanceOf extra) env) (.record r)) (.list items l)
        fields r.fields env items
  | inline {c : Constructor Description} {p : CasePlan Plan} {fields : List (Field Description)}
      {instanceOf : Option ClassInfo} {extra : Bool} {env : List BoundType} {r : RecordPlan Plan}
      {head : Node} {items : List Node} {l : Option Location}
      (hc : c.inlineRecord = some (.record fields instanceOf extra)) (hp : p.form = .record r) :
      AtFields (.constructor c p env) (.list (head :: items) l) fields r.fields env items

namespace Setting

/-- One move of a walk, with the segment of the path that it uses up, if any. -/
inductive Moves (s : Setting) : Guide → Node → List Segment → Guide → Node → Prop
  | enter {t u : BoundType} {plan q : Plan} {node : Node}
      (ht : BoundType.Unfolds s.catalog false t 0 u) (hq : s.settle false plan = .ok (0, q)) :
      Moves s (.type t plan) node [] (.type u q) node
  | option {d : Description} {env : List BoundType} {label : Text} {c : Converter}
      {node item : Node} (hitem : Presented s.switches node item) :
      Moves s (.type (.mk (.option d) env) (.option label c)) node []
        (.type (.mk d env) c.plan) item
  | item {d x : Description} {env : List BoundType} {plan : Plan} {c : Converter} {i : Nat}
      {items : List Node} {l : Option Location} {item : Node} (hd : d.itemAt i = some x)
      (hc : plan.itemAt i = some c) (hitem : items[i]? = some item)
      (hbefore : ∀ j < i, ∀ c y, plan.itemAt j = some c → items[j]? = some y → s.Reads c y) :
      Moves s (.type (.mk d env) plan) (.list items l) [.index i] (.type (.mk x env) c.plan) item
  | field {g : Guide} {node : Node} {fields : List (Field Description)}
      {plans : List (FieldPlan Plan)} {env : List BoundType} {items : List Node} {j : Nat}
      {f : Field Description} {p : FieldPlan Plan} {entry : Node}
      (hg : g.AtFields node fields plans env items) (hf : fields[j]? = some f)
      (hp : plans[j]? = some p) (hentry : items.filter (Entries.isNamed f.name) = [entry])
      (hbefore : ∀ k < j, ∀ p entry, plans[k]? = some p →
        items.filter (Entries.isNamed p.name) = [entry] → s.ReadsEntry p.form entry) :
      Moves s g node [.name f.name] (.entry f p env) entry
  | value {f : Field Description} {p : FieldPlan Plan} {env : List BoundType} {d : Description}
      {c : Converter} {omission : Omission} {name v : Node} {l : Option Location}
      (hd : f.valueType = some d) (hp : p.form = .valued c omission) :
      Moves s (.entry f p env) (.list [name, v] l) [] (.type (.mk d env) c.plan) v
  | tag {d : Description} {env : List BoundType} {label t : Text} {folding : Bool}
      {cs : List (Constructor Description)} {plans : List (CasePlan Plan)}
      {c : Constructor Description} {p : CasePlan Plan} {rest : List Node} {l l' : Option Location}
      (hd : d.IsVariant folding cs) (hc : (c, p) ∈ cs.zip plans)
      (htag : Tags.resolve? folding (cs.map Constructor.tag) t = some c.tag) :
      Moves s (.type (.mk d env) (.variant label folding plans)) (.list (.atom t l' :: rest) l)
        [.name c.tag] (.constructor c p env) (.list (.atom t l' :: rest) l)
  | argument {c : Constructor Description} {p : CasePlan Plan} {env : List BoundType}
      {x : Description} {k : Converter} {i : Nat} {head item : Node} {rest : List Node}
      {l : Option Location} (hc : c.itemAt i = some x) (hk : p.form.itemAt i = some k)
      (hitem : rest[i]? = some item)
      (hbefore : ∀ j < i, ∀ c y, p.form.itemAt j = some c → rest[j]? = some y → s.Reads c y) :
      Moves s (.constructor c p env) (.list (head :: rest) l) [.index i] (.type (.mk x env) k.plan)
        item

/-- A walk along a path. -/
inductive Walk (s : Setting) : Guide → Node → List Segment → Guide → Node → Prop
  | stay (g : Guide) (node : Node) : Walk s g node [] g node
  | move {g g' g'' : Guide} {node node' node'' : Node} {segments path : List Segment}
      (h : s.Moves g node segments g' node') (hw : Walk s g' node' path g'' node'') :
      Walk s g node (segments ++ path) g'' node''

end Setting

/-- The end of a walk shows what was refused: the tree that was reached, or one of its items; where
fields are missing behind a tag, the form without the tag. -/
inductive Guide.Shows : Guide → Node → Node → ConversionCause → Prop
  | here {g : Guide} {node : Node} {cause : ConversionCause}
      (hg : ∀ c p env, g ≠ .constructor c p env) : Shows g node node cause
  | item {g : Guide} {items : List Node} {l : Option Location} {x : Node} {cause : ConversionCause}
      (hx : x ∈ items) (hcause : cause.isMissing = false) : Shows g (.list items l) x cause
  | untagged {c : Constructor Description} {p : CasePlan Plan} {env : List BoundType}
      {r : RecordPlan Plan} {head : Node} {items : List Node} {l : Option Location} {what : Text}
      {names : List Text} (hp : p.form = .record r) :
      Shows (.constructor c p env) (.list (head :: items) l) (.list items l)
        (.missingFields what names)

/-! ## Plans along types -/

section Plans

variable {catalog : Catalog} {Trusted : List Converter → Prop} {params : List Converter}
  {env : List BoundType} {d : Description} {t : BoundType} {plan : Plan} {i : Nat}

/-- A plan that is no link is one of the shape that its type comes to. -/
theorem Realises.shape (h : Realises catalog Trusted t plan) (hplan : plan.isSettled false) :
    ∃ d env params, BoundType.Unfolds catalog false t 0 (.mk d env) ∧ d.isShape false ∧
      Realises.All catalog Trusted env params ∧ Built catalog Trusted params d plan := by
  obtain ⟨d, env, params, hunfolds, henv, hb, hfront⟩ := h.fronts
  rcases hfront with hd | ⟨cell, id, -, rfl, -⟩
  · exact ⟨d, env, params, hunfolds _ _ _ (.here hd), hd, henv, hb⟩
  · exact absurd hplan (by simp [Plan.isSettled])

theorem Built.itemAt {c : Converter} (h : Built catalog Trusted params d plan)
    (hd : d.isShape false) (hc : plan.itemAt i = some c) :
    ∃ x, d.itemAt i = some x ∧ Built catalog Trusted params x c.plan := by
  cases h with
  | list h =>
    obtain rfl := Option.some.inj hc
    exact ⟨_, rfl, h⟩
  | array h =>
    obtain rfl := Option.some.inj hc
    exact ⟨_, rfl, h⟩
  | @product _ cs parts _ hlen hparts =>
    obtain ⟨hi, rfl⟩ := List.getElem?_eq_some_iff.1 hc
    have hi' : i < parts.length := by omega
    exact ⟨parts[i], List.getElem?_eq_getElem hi', hparts _ _ (mem_zip_getElem hi' hi)⟩
  | parameter _ _ => exact absurd hd (by simp [Description.isShape])
  | body _ _ => exact absurd hd (by simp [Description.isShape])
  | recursive _ _ _ => exact absurd hd (by simp [Description.isShape])
  | applied _ _ _ => exact absurd hd (by simp [Description.isShape])
  | _ => exact absurd hc (by simp [Plan.itemAt])

theorem Built.isRecord {r : RecordPlan Plan} (h : Built catalog Trusted params d plan)
    (hd : d.isShape false) (hplan : plan = .record r) :
    ∃ fields instanceOf extra, d = .record fields instanceOf extra := by
  cases h with
  | record _ _ _ _ => exact ⟨_, _, _, rfl⟩
  | parameter _ _ => exact absurd hd (by simp [Description.isShape])
  | body _ _ => exact absurd hd (by simp [Description.isShape])
  | recursive _ _ _ => exact absurd hd (by simp [Description.isShape])
  | applied _ _ _ => exact absurd hd (by simp [Description.isShape])
  | _ => exact absurd hplan (by simp)

theorem Built.isOption {label : Text} {c : Converter} (h : Built catalog Trusted params d plan)
    (hd : d.isShape false) (hplan : plan = .option label c) : ∃ inner, d = .option inner := by
  cases h with
  | option _ _ => exact ⟨_, rfl⟩
  | parameter _ _ => exact absurd hd (by simp [Description.isShape])
  | body _ _ => exact absurd hd (by simp [Description.isShape])
  | recursive _ _ _ => exact absurd hd (by simp [Description.isShape])
  | applied _ _ _ => exact absurd hd (by simp [Description.isShape])
  | _ => exact absurd hplan (by simp)

theorem Built.isVariant {label : Text} {folding : Bool} {plans : List (CasePlan Plan)}
    (h : Built catalog Trusted params d plan) (hd : d.isShape false)
    (hplan : plan = .variant label folding plans) : ∃ cs, d.IsVariant folding cs := by
  cases h with
  | variant hvariant _ _ _ _ =>
    obtain ⟨-, rfl, -⟩ := Plan.variant.inj hplan
    exact ⟨_, hvariant⟩
  | parameter _ _ => exact absurd hd (by simp [Description.isShape])
  | body _ _ => exact absurd hd (by simp [Description.isShape])
  | recursive _ _ _ => exact absurd hd (by simp [Description.isShape])
  | applied _ _ _ => exact absurd hd (by simp [Description.isShape])
  | _ => exact absurd hplan (by simp)

/-- A plan is no converter from outside if none of these is trusted. -/
theorem Built.ne_custom (hout : ∀ name k, ¬ Trusted [.ofCustom name k]) {c : Custom}
    (h : Built catalog Trusted params d plan) (hd : d.isShape false) : plan ≠ .custom c := by
  intro hplan
  cases h with
  | custom h => exact hout _ _ h
  | parameter _ _ => exact absurd hd (by simp [Description.isShape])
  | body _ _ => exact absurd hd (by simp [Description.isShape])
  | recursive _ _ _ => exact absurd hd (by simp [Description.isShape])
  | applied _ _ _ => exact absurd hd (by simp [Description.isShape])
  | _ => exact absurd hplan (by simp)

/-- Each constructor of a variant's plan is one of the description. -/
theorem Built.cases {label : Text} {folding : Bool} {plans : List (CasePlan Plan)}
    {p : CasePlan Plan} (h : Built catalog Trusted params d (.variant label folding plans))
    (hd : d.isShape false) (hp : p ∈ plans) : ∃ cs, d.IsVariant folding cs ∧
      ∃ c ∈ cs, BuiltCase catalog Trusted params c p := by
  obtain ⟨cs, hvariant⟩ := h.isVariant hd rfl
  obtain ⟨label', plans', heq, -, hlen, hcases⟩ := h.of_variant hvariant
  obtain ⟨-, -, rfl⟩ := Plan.variant.inj heq
  obtain ⟨c, hmem⟩ := exists_zip_left hlen hp
  exact ⟨cs, hvariant, c, (List.of_mem_zip hmem).1, hcases c p hmem⟩

theorem BuiltCase.itemAt {c : Constructor Description} {p : CasePlan Plan} {k : Converter}
    (h : BuiltCase catalog Trusted params c p) (hk : p.form.itemAt i = some k) :
    ∃ x, c.itemAt i = some x ∧ Built catalog Trusted params x k.plan := by
  have hrecord : c.record = none := by
    by_contra hne
    obtain ⟨-, -, d, r, -, hform⟩ := h.1.inline hne
    exact absurd hk (by simp [hform, CaseForm.itemAt])
  cases hs : c.spliced with
  | true =>
    obtain ⟨d, k', hargs, hform⟩ := h.1.splice hrecord hs
    obtain rfl : k' = k := by simpa [hform, CaseForm.itemAt] using hk
    exact ⟨d, by simp [Constructor.itemAt, hs, hargs], h.2 _ _ (.element hform hargs)⟩
  | false =>
    by_cases hargs : c.args = []
    · exact absurd hk (by simp [h.1.constant hrecord hs hargs, CaseForm.itemAt])
    · obtain ⟨cs, hform, hlen⟩ := h.1.arguments hrecord hs hargs
      obtain ⟨hi, rfl⟩ : ∃ hi : i < cs.length, cs[i] = k := by
        simpa [hform, CaseForm.itemAt, List.getElem?_eq_some_iff] using hk
      have hi' : i < c.args.length := by omega
      refine ⟨c.args[i], by simp [Constructor.itemAt, hs, hi'], ?_⟩
      exact h.2 _ _ (.argument hform (mem_zip_getElem hi' hi))

end Plans

/-! ## Walks to errors -/

namespace Setting

variable {numbering : Nat → Description} {l : Ledger} {s : Setting} {g g' : Guide}
  {form form' x : Node} {e : ReadError} {seg : Segment} {cause : ConversionCause}

/-- If the error is about the tree, a walk along its path shows what was refused. -/
def WalksTo (s : Setting) (g : Guide) (form : Node) (e : ReadError) : Prop :=
  ∀ ce, e = .conversion ce → ∃ g' node x, s.Walk g form ce.path g' node ∧ ce.node = some x ∧
    g'.Shows node x ce.cause

theorem WalksTo.of_shows (h : g.Shows form x cause) : s.WalksTo g form (.about x cause) := by
  intro ce hce
  obtain rfl := ReadError.conversion.inj hce
  exact ⟨g, form, x, .stay g form, rfl, h⟩

theorem WalksTo.enter (hm : s.Moves g form [] g' form') (h : s.WalksTo g' form' e) :
    s.WalksTo g form e := by
  intro ce hce
  obtain ⟨g'', node, x, hwalk, hx, hshows⟩ := h ce hce
  exact ⟨g'', node, x, .move hm hwalk, hx, hshows⟩

theorem WalksTo.within (hm : s.Moves g form [seg] g' form') (h : s.WalksTo g' form' e) :
    s.WalksTo g form (e.within seg) := by
  intro ce hce
  cases e with
  | conversion inner =>
    obtain rfl := ReadError.conversion.inj hce
    obtain ⟨g'', node, x, hwalk, hx, hshows⟩ := h inner rfl
    exact ⟨g'', node, x, .move hm hwalk, hx, hshows⟩
  | _ => exact absurd hce (by simp [ReadError.within])

/-- An error that is not about the tree. -/
theorem WalksTo.of_ne (h : ∀ ce, e ≠ .conversion ce) : s.WalksTo g form e :=
  fun ce hce => absurd hce (h ce)

/-- A walk from a shape is one from every type that comes to it. -/
theorem walksTo_of_shape {t : BoundType} {plan : Plan}
    (ht : Realises s.catalog l.Foresees t plan) (hplan : plan.isSettled false)
    (h : ∀ d env params, d.isShape false → Realises.All s.catalog l.Foresees env params →
      Built s.catalog l.Foresees params d plan → s.WalksTo (.type (.mk d env) plan) form e) :
    s.WalksTo (.type t plan) form e := by
  obtain ⟨d, env, params, hunfolds, hd, henv, hb⟩ := ht.shape hplan
  exact (h d env params hd henv hb).enter (.enter hunfolds (settle_of_isSettled hplan))

/-- The guide stands where the plan reads the tree: a record may stand behind a tag. -/
inductive Covers (s : Setting) (l : Ledger) : Guide → Node → Plan → Node → Prop
  | type {t : BoundType} {plan : Plan} {node : Node}
      (ht : Realises s.catalog l.Foresees t plan) : Covers s l (.type t plan) node plan node
  | inline {c : Constructor Description} {p : CasePlan Plan} {env : List BoundType}
      {params : List Converter} {r : RecordPlan Plan} {head : Node} {items : List Node}
      {loc : Option Location} (henv : Realises.All s.catalog l.Foresees env params)
      (hc : BuiltCase s.catalog l.Foresees params c p) (hp : p.form = .record r) :
      Covers s l (.constructor c p env) (.list (head :: items) loc) (.record r) (.list items loc)

/-- A walk from fields is one from every guide that stands at them. -/
theorem walksTo_of_fields {r : RecordPlan Plan} {items : List Node} {loc : Option Location}
    (hg : s.Covers l g form (.record r) (.list items loc))
    (h : ∀ g fields env params, g.AtFields form fields r.fields env items →
      Realises.All s.catalog l.Foresees env params → fields.length = r.fields.length →
      (∀ f p, (f, p) ∈ fields.zip r.fields → BuiltField s.catalog l.Foresees params f p) →
      s.WalksTo g form e) : s.WalksTo g form e := by
  cases hg with
  | type ht =>
    refine walksTo_of_shape ht rfl fun d env params hd henv hb => ?_
    obtain ⟨fields, instanceOf, extra, rfl⟩ := hb.isRecord hd rfl
    obtain ⟨label, plans, hr, -, hlen, hfields⟩ := hb.of_record
    obtain rfl := Plan.record.inj hr
    exact h _ _ env params .record henv hlen hfields
  | @inline c p env params _ head _ _ henv hc hp =>
    obtain ⟨d, hd⟩ := hc.1.inlineRecord hp
    obtain ⟨fields, inner, extra, rfl⟩ := Constructor.record_of_inlineRecord hd
    obtain ⟨label, plans, hr, -, hlen, hfields⟩ := (hc.2 _ _ (.fields hp hd)).of_record
    obtain rfl := Plan.record.inj hr
    exact h _ _ env params (.inline hd hp) henv hlen hfields

/-- The move to the entry of a field. -/
theorem exists_moves_field {fields : List (Field Description)} {plans : List (FieldPlan Plan)}
    {env : List BoundType} {params : List Converter} {items : List Node} {j : Nat}
    {p : FieldPlan Plan} {entry : Node} (hat : g.AtFields form fields plans env items)
    (hlen : fields.length = plans.length)
    (hfields : ∀ f p, (f, p) ∈ fields.zip plans → BuiltField s.catalog l.Foresees params f p)
    (hp : plans[j]? = some p) (hentry : items.filter (Entries.isNamed p.name) = [entry])
    (hbefore : ∀ k < j, ∀ p entry, plans[k]? = some p →
      items.filter (Entries.isNamed p.name) = [entry] → s.ReadsEntry p.form entry) :
    ∃ f, BuiltField s.catalog l.Foresees params f p ∧
      s.Moves g form [.name p.name] (.entry f p env) entry := by
  obtain ⟨hj, rfl⟩ := List.getElem?_eq_some_iff.1 hp
  have hj' : j < fields.length := by omega
  have hbuilt := hfields _ _ (mem_zip_getElem hj' hj)
  have hname := hbuilt.1.name
  refine ⟨fields[j], hbuilt, ?_⟩
  rw [hname] at hentry ⊢
  exact .field hat (List.getElem?_eq_getElem hj') hp hentry hbefore

/-- The move to a form of a constructor. -/
theorem exists_moves_tag {d : Description} (env : List BoundType) {params : List Converter}
    {label t : Text} {folding : Bool} {plans : List (CasePlan Plan)} {p : CasePlan Plan}
    (hd : d.isShape false)
    (hb : Built s.catalog l.Foresees params d (.variant label folding plans)) (hp : p ∈ plans)
    (htag : Tags.resolve? folding (CasePlan.tags plans) t = some p.tag) (rest : List Node)
    (loc loc' : Option Location) :
    ∃ c, BuiltCase s.catalog l.Foresees params c p ∧
      s.Moves (.type (.mk d env) (.variant label folding plans)) (.list (.atom t loc' :: rest) loc)
        [.name p.tag] (.constructor c p env) (.list (.atom t loc' :: rest) loc) := by
  obtain ⟨cs, hvariant⟩ := hb.isVariant hd rfl
  obtain ⟨label', plans', heq, -, hlen, hcases⟩ := hb.of_variant hvariant
  obtain ⟨-, -, rfl⟩ := Plan.variant.inj heq
  obtain ⟨c, hmem⟩ := exists_zip_left hlen hp
  have hbuilt := hcases c p hmem
  have htags : CasePlan.tags plans = cs.map Constructor.tag :=
    map_eq_map_of_zip hlen fun c p hmem => (hcases c p hmem).1.tag
  refine ⟨c, hbuilt, ?_⟩
  rw [htags, hbuilt.1.tag] at htag
  rw [hbuilt.1.tag]
  exact .tag hvariant hmem htag

/-- **The path of an error can be walked.** The induction is on how the error arises: each step that
it has gained on its way out is a move of the walk. -/
theorem walksTo_of_refuses (hs : s.Sound numbering l) (hout : l.outside = fun _ => none) {plan : Plan}
    {node : Node} {e : ReadError} (h : s.Refuses plan node e) : ∀ g form,
      s.Covers l g form plan node → s.WalksTo g form e := by
  induction h with
  | @builtin p node e h =>
    rintro g form ⟨⟩
    rcases Builtin.read_error h with ⟨cause, rfl⟩ | ⟨_, _, -, -, rfl⟩
    · exact .of_shows (.here fun _ _ _ => by simp)
    · exact .of_ne (by simp)
  | @custom c node e h =>
    rintro g form ⟨ht⟩
    refine walksTo_of_shape ht rfl fun d env params hd _ hb => ?_
    exact absurd rfl (hb.ne_custom (l.not_foresees_custom hout) hd)
  | @here plan node cause hcause hplan =>
    intro g form hg
    cases hg with
    | type ht => exact .of_shows (.here fun _ _ _ => by simp)
    | inline _ _ _ => exact absurd rfl (hplan _ _ _ rfl)
  | @inside plan items loc x cause hcause hx =>
    intro g form hg
    cases hg with
    | type ht => exact .of_shows (.item hx hcause)
    | inline _ _ _ => exact .of_shows (.item (List.mem_cons_of_mem _ hx) hcause)
  | @missing r items loc what names =>
    intro g form hg
    cases hg with
    | type ht => exact .of_shows (.here fun _ _ _ => by simp)
    | inline _ _ hp => exact .of_shows (.untagged hp)
  | @option label inner node item e hitem _ ih =>
    rintro g form ⟨ht⟩
    refine walksTo_of_shape ht rfl fun d env params hd henv hb => ?_
    obtain ⟨d, rfl⟩ := hb.isOption hd rfl
    obtain ⟨label', c, hc, hinner⟩ := hb.of_option
    obtain ⟨rfl, rfl⟩ := Plan.option.inj hc
    exact (ih _ _ (.type (henv.mk hinner))).enter (.option hitem)
  | @item plan i c items loc x e hc hx hbefore _ ih =>
    intro g form hg
    cases hg with
    | inline _ _ _ => exact absurd hc (by simp [Plan.itemAt])
    | type ht =>
      have hplan : plan.isSettled false := by
        cases plan <;> first | rfl | exact absurd hc (by simp [Plan.itemAt])
      refine walksTo_of_shape ht hplan fun d env params hd henv hb => ?_
      obtain ⟨y, hy, hbuilt⟩ := hb.itemAt hd hc
      exact (ih _ _ (.type (henv.mk hbuilt))).within (.item hy hc hx hbefore)
  | @stored label stored c items loc i x cause hcause hall hx =>
    rintro g form ⟨ht⟩
    refine walksTo_of_shape ht rfl fun d env params hd henv hb => ?_
    obtain ⟨y, hy, hbuilt⟩ := hb.itemAt (i := i) hd rfl
    refine WalksTo.within (.item hy rfl hx fun j _ c' z hc hz => ?_)
      (.of_shows (.here fun _ _ _ => by simp))
    obtain rfl := Option.some.inj hc
    exact hall z (List.mem_of_getElem? hz)
  | unspellable _ _ => exact fun g form _ => .of_ne (by simp)
  | construct _ => exact fun g form _ => .of_ne (by simp)
  | make _ _ => exact fun g form _ => .of_ne (by simp)
  | @value r j p items loc loc' name v c omission e hp hentry hbefore hform _ ih =>
    intro g form hg
    refine walksTo_of_fields hg fun g fields env params hat henv hlen hfields => ?_
    obtain ⟨f, hbuilt, hmove⟩ := exists_moves_field hat hlen hfields hp hentry hbefore
    have hflag : f.presence ≠ .sexpBool := fun hb =>
      absurd ((hbuilt.1.flag hb).symm.trans hform) (by simp)
    obtain ⟨d, c', hd, hform'⟩ := hbuilt.1.valued hflag
    obtain ⟨rfl, -⟩ := FieldForm.valued.inj (hform'.symm.trans hform)
    refine WalksTo.within hmove (WalksTo.enter (.value hd hform) (ih _ _ (.type ?_)))
    exact henv.mk (hbuilt.2 _ _ (.value hd hform))
  | @entry r j p items loc entry cause hp hentry hbefore hcause =>
    intro g form hg
    refine walksTo_of_fields hg fun g fields env params hat henv hlen hfields => ?_
    obtain ⟨f, hbuilt, hmove⟩ := exists_moves_field hat hlen hfields hp hentry hbefore
    exact .within hmove (.of_shows (.here fun _ _ _ => by simp))
  | @argument label t folding cases p i c rest loc loc' x e hp htag hc hx hbefore _ ih =>
    rintro g form ⟨ht⟩
    refine walksTo_of_shape ht rfl fun d env params hd henv hb => ?_
    obtain ⟨k, hbuilt, hmove⟩ := exists_moves_tag env hd hb hp htag rest loc loc'
    obtain ⟨y, hy, hy'⟩ := hbuilt.itemAt hc
    refine WalksTo.within hmove (WalksTo.within (.argument hy hc hx hbefore) (ih _ _ (.type ?_)))
    exact henv.mk hy'
  | @inline label t folding cases p r rest loc loc' e hp htag hform _ ih =>
    rintro g form ⟨ht⟩
    refine walksTo_of_shape ht rfl fun d env params hd henv hb => ?_
    obtain ⟨k, hbuilt, hmove⟩ := exists_moves_tag env hd hb hp htag rest loc loc'
    exact .within hmove (ih _ _ (.inline henv hbuilt hform))
  | @link cell id args layers q node e hq _ ih =>
    rintro g form ⟨ht⟩
    obtain ⟨hsettled, u, hu, hreal⟩ := unfolds_of_settle hs ht hq
    obtain rfl := hu.layers_eq
    exact (ih _ _ (.type hreal)).enter (.enter hu hq)
  | @fault cell id args fault node hq =>
    exact fun g form _ => .of_ne (by cases fault <;> simp [readFault])

end Setting

/-- **A conversion error points at the failure.** The path of the error can be walked from the whole
tree, guided by the type of the converter, past nothing but what is read; it ends at the tree that
the error is about, or at the one that has it among its items. -/
theorem Session.walk_of_error {numbering : Nat → Description} {catalog : Catalog}
    {deriver : Deriver} {converters : List (BoundType × Converter)}
    (h : Session numbering catalog deriver converters) {t : BoundType} {c : Converter}
    (hc : (t, c) ∈ converters) {switches : Switches} {node : Node} {e : ConversionError}
    (he : Setting.read ⟨catalog, deriver, switches⟩ c node = .error (.conversion e)) :
    ∃ g reached x, Setting.Walk ⟨catalog, deriver, switches⟩ (.type t c.plan) node e.path g reached ∧
      e.node = some x ∧ g.Shows reached x e.cause := by
  obtain ⟨l, hout, hs, ht⟩ := h.realises hc switches
  rw [Setting.read_eq_readBy] at he
  exact Setting.walksTo_of_refuses hs hout (Setting.refuses_of_readBy he) _ _ (.type ht) e rfl

/-! ### An error behind a tag -/

namespace Walking

/-- Rows that may hold a point. -/
def points : Description := .list (.record
  [⟨"at", some (.option (.sum [.constructor
      ⟨"P", [.primitive "int", .primitive "int"], none, none, false⟩])), .required, none, .never,
    none⟩] none false)

/-- The converter of such rows. -/
def pointsConverter : Converter :=
  ⟨.derived 3, "record list", .list "list" ⟨.derived 2, "record", .record ⟨"record", none, false,
    [⟨"at", .valued ⟨.derived 1, "sum option", .option "option" ⟨.derived 0, "sum",
      .variant "sum" true [⟨"P", none, .arguments
        [Converter.ofPrimitive .int, Converter.ofPrimitive .int]⟩]⟩⟩ .never, none, .never⟩]⟩⟩⟩

theorem derive_points :
    (Derivation.derive [] (.description 0 points) [] {}).1 = .ok pointsConverter := by
  simp only [Derivation.derive, Derivation.ofTargets, Derivation.ofTarget, Derivation.ofDescription,
    points, Description.build, Description.buildRecord, Description.buildFields,
    Description.buildField, Description.buildCases, Description.buildConstructor,
    Description.buildAll]
  rfl

theorem session_points : ∃ deriver,
    Session (fun _ => points) [] deriver [(.mk points [], pointsConverter)] := by
  have hmeans : (Target.description 0 points).Means (fun _ => points) [] [] (.mk points []) :=
    .description 0 [] rfl
  have h := Session.derive .nil hmeans .start
  rw [derive_points] at h
  exact ⟨_, h⟩

/-- A point whose second coordinate is no integer. -/
def misplaced : Sexp := .list [.list [.list [.atom "at",
  .list [.atom "some", .list [.atom "P", .atom "1", .atom "x"]]]]]

/-- The error is walked to through the list, the field, the option and the tag. -/
theorem walk_of_error_points : ∃ deriver e,
    Session (fun _ => points) [] deriver [(.mk points [], pointsConverter)] ∧
    Setting.read ⟨[], deriver, .standard⟩ pointsConverter (.ofSexp misplaced) =
      .error (.conversion e) ∧
    e.path = [.index 0, .name "at", .name "P", .index 1] ∧
    ∃ g reached x, Setting.Walk ⟨[], deriver, .standard⟩ (.type (.mk points []) pointsConverter.plan)
      (.ofSexp misplaced) e.path g reached ∧ e.node = some x ∧ g.Shows reached x e.cause := by
  obtain ⟨deriver, hsession⟩ := session_points
  obtain ⟨e, he, hpath⟩ : ∃ e, Setting.read ⟨[], deriver, .standard⟩ pointsConverter
      (.ofSexp misplaced) = .error (.conversion e) ∧
      e.path = [.index 0, .name "at", .name "P", .index 1] := ⟨_, rfl, rfl⟩
  exact ⟨deriver, e, hsession, he, hpath, hsession.walk_of_error List.mem_cons_self he⟩

end Walking

end TypedSexp
