import TypedSexp.Proofs.Conversion.Record
import TypedSexp.Proofs.Conversion.Tags
/-!
# Variants

A value of a constructor is written as its tag and what follows it; tags are different, so reading
finds the constructor again (`writeCase_of_mem`, `readCase_of_mem`). An instance of a class is a value
of the last constructor for the class (`CasePlan.OwnsClass`). If what a constructor holds makes the
round trip, so does the value: arguments, the items of a list, or the fields of a record.
-/

namespace TypedSexp

namespace Plan

variable (follow : Follow Except) (followBack : FollowBack Except) (switches : Switches)

theorem writeCase_of_mem (writer : Text) (v : Value) (args : List Value) {p : CasePlan Plan} :
    ∀ {plans : List (CasePlan Plan)}, (plans.map CasePlan.tag).Nodup → p ∈ plans →
      writeCase followBack switches writer p.tag v args plans =
        writeForm followBack switches writer p.tag v args p.form
  | [], _, hp => absurd hp List.not_mem_nil
  | ⟨tag, instanceOf, form⟩ :: plans, hnodup, hp => by
    obtain ⟨hhead, htail⟩ := List.nodup_cons.1 hnodup
    rw [writeCase]
    rcases List.mem_cons.1 hp with rfl | hp
    · rw [if_pos rfl]
    · have hmem : p.tag ∈ plans.map CasePlan.tag := List.mem_map_of_mem hp
      have hne : tag ≠ p.tag := fun heq => hhead (heq ▸ hmem)
      rw [if_neg hne]
      exact writeCase_of_mem writer v args htail hp

theorem readCase_of_mem (what : Text) (node : Node) (rest : Option (List Node)) {p : CasePlan Plan} :
    ∀ {plans : List (CasePlan Plan)}, (plans.map CasePlan.tag).Nodup → p ∈ plans →
      readCase follow switches what p.tag node rest plans =
        readForm follow switches what p.tag node rest p.instanceOf p.form
  | [], _, hp => absurd hp List.not_mem_nil
  | ⟨tag, instanceOf, form⟩ :: plans, hnodup, hp => by
    obtain ⟨hhead, htail⟩ := List.nodup_cons.1 hnodup
    rw [readCase]
    rcases List.mem_cons.1 hp with rfl | hp
    · rw [if_pos rfl]
    · have hmem : p.tag ∈ plans.map CasePlan.tag := List.mem_map_of_mem hp
      have hne : tag ≠ p.tag := fun heq => hhead (heq ▸ hmem)
      rw [if_neg hne]
      exact readCase_of_mem what node rest htail hp

end Plan

/-! ## Values of constructors -/

/-- The constructor is the last one of its class, which therefore decides the tag. -/
def CasePlan.OwnsClass (plans : List (CasePlan Plan)) (p : CasePlan Plan) : Prop :=
  ∀ k, p.instanceOf = some k → CasePlan.ofClass? k.name plans = some p.tag

section

variable {p : CasePlan Plan} {plans : List (CasePlan Plan)} {args : List Value}

theorem constructorOf_ofArguments (writer : Text) (hp : p ∈ plans) (howns : p.OwnsClass plans)
    (hfields : ∀ k, p.instanceOf = some k → k.fields.length = args.length) :
    constructorOf writer plans (.ofArguments p.tag p.instanceOf args) = .ok (p.tag, args) := by
  obtain ⟨tag, instanceOf, form⟩ := p
  cases instanceOf with
  | none =>
    have hcontains : (CasePlan.tags plans).contains tag = true := by
      simpa [CasePlan.tags] using ⟨_, hp, rfl⟩
    exact if_pos hcontains
  | some k =>
    simp only [constructorOf, Value.ofArguments, howns k rfl]
    rw [List.map_snd_zip (Nat.le_of_eq (hfields k rfl).symm)]

/-- A value that holds a record: the record itself, if it is an instance of the constructor's
class. -/
theorem constructorOf_ofInline (writer : Text) (hp : p ∈ plans) (howns : p.OwnsClass plans)
    {v : Value} (hv : ∀ k, p.instanceOf = some k → ∃ fields, v = .object k.name fields) :
    ∃ args, constructorOf writer plans (.ofInline p.tag p.instanceOf v) = .ok (p.tag, args) ∧
      recordOf (.ofInline p.tag p.instanceOf v) args = .ok v := by
  obtain ⟨tag, instanceOf, form⟩ := p
  cases instanceOf with
  | none =>
    have hcontains : (CasePlan.tags plans).contains tag = true := by
      simpa [CasePlan.tags] using ⟨_, hp, rfl⟩
    exact ⟨[v], if_pos hcontains, rfl⟩
  | some k =>
    obtain ⟨fields, rfl⟩ := hv k rfl
    refine ⟨fields.map Prod.snd, ?_, rfl⟩
    simp only [constructorOf, Value.ofInline, howns k rfl]

theorem make_ofArguments {tag : Text} {instanceOf : Option ClassInfo}
    (hfields : ∀ k, instanceOf = some k → k.fields.length = args.length) :
    CasePlan.make tag instanceOf args = .ok (.ofArguments tag instanceOf args) := by
  cases instanceOf with
  | none => rfl
  | some k => exact if_pos (hfields k rfl).symm

end

namespace Setting

variable {s : Setting} {lone halts : Prop} {p : CasePlan Plan} {plans : List (CasePlan Plan)}
  {label : Text} {folding : Bool} {args vs : List Value} {need levels : Nat}

/-- Writes what follows a tag, with so many levels for the links inside. -/
abbrev writeFormAt (s : Setting) (levels : Nat) (writer tag : Text) (v : Value) (args : List Value)
    (form : CaseForm Plan) : Except WriteError Sexp :=
  Plan.writeForm (fun cell id args v => s.writeWithin levels (.link cell id args) v) s.switches writer tag v
    args form

/-- Reads what follows a tag, with so many levels for the links inside. -/
abbrev readFormAt (s : Setting) (levels : Nat) (what tag : Text) (node : Node)
    (rest : Option (List Node)) (instanceOf : Option ClassInfo) (form : CaseForm Plan) :
    Except ReadError Value :=
  Plan.readForm (fun cell id args node => s.readWithin levels (.link cell id args) node) s.switches what tag
    node rest instanceOf form

/-- A value of a constructor is written as its form says. -/
theorem writeAt_variant (hnodup : (plans.map CasePlan.tag).Nodup) (hp : p ∈ plans) {v : Value}
    (hv : constructorOf (Converter.writerName label) plans v = .ok (p.tag, args)) :
    s.writeAt levels (.variant label folding plans) v =
      s.writeFormAt levels (Converter.writerName label) p.tag v args p.form := by
  rw [writeAt, Plan.write]
  show (constructorOf (Converter.writerName label) plans v >>= _) = _
  rw [hv]
  exact Plan.writeCase_of_mem _ _ _ _ _ hnodup hp

theorem resolve?_tag (hp : p ∈ plans) : Tags.resolve? folding (CasePlan.tags plans) p.tag = some p.tag :=
  Tags.resolve?_of_mem (List.mem_map_of_mem hp)

/-- A tag alone is read as the form of its constructor says. -/
theorem readAt_variant_atom (hnodup : (plans.map CasePlan.tag).Nodup) (hp : p ∈ plans)
    (l : Option Location) :
    s.readAt levels (.variant label folding plans) (.atom p.tag l) =
      s.readFormAt levels (Converter.readerName label) p.tag (.atom p.tag l) none p.instanceOf
        p.form := by
  rw [readAt, Plan.read]
  simp only [resolve?_tag hp]
  exact Plan.readCase_of_mem _ _ _ _ _ hnodup hp

/-- A tag with something behind it is read as the form of its constructor says. -/
theorem readAt_variant_list (hnodup : (plans.map CasePlan.tag).Nodup) (hp : p ∈ plans)
    (rest : List Node) (l l' : Option Location) :
    s.readAt levels (.variant label folding plans) (.list (.atom p.tag l :: rest) l') =
      s.readFormAt levels (Converter.readerName label) p.tag (.list (.atom p.tag l :: rest) l')
        (some rest) p.instanceOf p.form := by
  rw [readAt, Plan.read]
  simp only [resolve?_tag hp]
  exact Plan.readCase_of_mem _ _ _ _ _ hnodup hp

/-- A tree with a tag in front is read from nodes behind the tag. -/
theorem eq_tagged_of_sexp {node : Node} {tag : Text} {ts : List Sexp}
    (h : node.sexp = .list (.atom tag :: ts)) :
    ∃ l rest l', node = .list (.atom tag l :: rest) l' ∧ rest.map Node.sexp = ts := by
  obtain ⟨items, l', rfl, hitems⟩ := Node.eq_list_of_sexp h
  obtain ⟨head, rest, rfl, hhead, hrest⟩ := List.map_eq_cons_iff.1 hitems
  cases head with
  | list items l => simp [Node.sexp] at hhead
  | atom text l =>
    obtain rfl : text = tag := by simpa [Node.sexp] using hhead
    exact ⟨l, rest, l', rfl, hrest⟩

/-- A constructor without arguments. -/
theorem roundTrips_constant (hnodup : (plans.map CasePlan.tag).Nodup) (hp : p ∈ plans)
    (howns : p.OwnsClass plans) (hfields : ∀ k, p.instanceOf = some k → k.fields.length = 0)
    (hform : p.form = .constant) :
    s.RoundTrips lone halts 1 0 (.variant label folding plans)
      (.ofArguments p.tag p.instanceOf []) := by
  intro levels _
  have hconstructor : constructorOf (Converter.writerName label) plans
      (.ofArguments p.tag p.instanceOf []) = .ok (p.tag, []) :=
    constructorOf_ofArguments _ hp howns hfields
  refine .of_eq (a := .atom p.tag) ?_ fun levels node hnode _ =>
    ⟨.ofArguments p.tag p.instanceOf [], ?_, .refl _⟩
  · rw [writeAt_variant hnodup hp hconstructor, hform, writeFormAt, Plan.writeForm, outcome_except]
  · cases node with
    | list items l => simp [Node.sexp] at hnode
    | atom text l =>
      obtain rfl : text = p.tag := by simpa [Node.sexp] using hnode
      rw [readAt_variant_atom hnodup hp, hform]
      exact make_ofArguments hfields

/-- A constructor with arguments. -/
theorem roundTrips_arguments (hnodup : (plans.map CasePlan.tag).Nodup) (hp : p ∈ plans)
    (howns : p.OwnsClass plans)
    (hfields : ∀ k, p.instanceOf = some k → k.fields.length = args.length)
    {cs : List Converter} (hform : p.form = .arguments cs)
    (h : List.Forall₂ (fun c v => s.RoundTrips lone halts 0 need c.plan v) cs args) :
    s.RoundTrips lone halts 1 need (.variant label folding plans)
      (.ofArguments p.tag p.instanceOf args) := by
  intro levels hle
  have hlen := h.length_eq
  rw [writeAt_variant hnodup hp (constructorOf_ofArguments _ hp howns hfields), hform, writeFormAt,
    Plan.writeForm, if_pos hlen.symm]
  refine (parts_roundTrip h hle).bind fun ts _ ⟨hcount, hback⟩ => .pure ?_
  intro levels node hnode hle
  obtain ⟨l, rest, l', rfl, hrest⟩ := eq_tagged_of_sexp hnode
  obtain ⟨ws, hws, hlike⟩ := hback levels 0 rest hrest fun t ht =>
    Sexp.depth_of_mem (List.mem_cons_of_mem _ ht) hle
  have hrestCount : rest.length = cs.length := by
    rw [← hcount, ← hrest, List.length_map]
  obtain ⟨hlikeLen, hlikes⟩ := List.forall₂_iff_zip.1 hlike
  refine ⟨.ofArguments p.tag p.instanceOf ws, ?_,
    Value.like_ofArguments p.tag hfields hlikeLen fun x y hmem => hlikes hmem⟩
  rw [readAt_variant_list hnodup hp, hform, readFormAt, Plan.readForm]
  show (if rest.length = cs.length then _ else _) = _
  rw [if_pos hrestCount]
  show ((s.readPartsAt levels 0 cs rest).mapError _ >>= _) = _
  rw [hws]
  exact make_ofArguments fun k hk => (hfields k hk).trans hlikeLen

/-- A constructor whose list of items follows the tag. -/
theorem roundTrips_spliced (hnodup : (plans.map CasePlan.tag).Nodup) (hp : p ∈ plans)
    (howns : p.OwnsClass plans) (hfields : ∀ k, p.instanceOf = some k → k.fields.length = 1)
    {c : Converter} (hform : p.form = .spliced c)
    (h : ∀ v ∈ vs, s.RoundTrips lone halts 0 need c.plan v) :
    s.RoundTrips lone halts 1 need (.variant label folding plans)
      (.ofArguments p.tag p.instanceOf [.list vs]) := by
  intro levels hle
  have hconstructor : constructorOf (Converter.writerName label) plans
      (.ofArguments p.tag p.instanceOf [.list vs]) = .ok (p.tag, [.list vs]) :=
    constructorOf_ofArguments _ hp howns hfields
  rw [writeAt_variant hnodup hp hconstructor, hform, writeFormAt, Plan.writeForm]
  refine (items_roundTrip h hle).bind fun ts _ hback => .pure ?_
  intro levels node hnode hle
  obtain ⟨l, rest, l', rfl, hrest⟩ := eq_tagged_of_sexp hnode
  obtain ⟨ws, hws, hlike⟩ := hback levels 0 rest hrest fun t ht =>
    Sexp.depth_of_mem (List.mem_cons_of_mem _ ht) hle
  obtain ⟨hlikeLen, hlikes⟩ := List.forall₂_iff_zip.1 hlike
  refine ⟨.ofArguments p.tag p.instanceOf [.list ws], ?_,
    Value.like_ofArguments p.tag hfields rfl fun x y hmem => ?_⟩
  · rw [readAt_variant_list hnodup hp, hform, readFormAt, Plan.readForm]
    show ((readEach (s.readAt levels c.plan) 0 rest).mapError _ >>= _) = _
    rw [hws]
    exact make_ofArguments hfields
  · obtain ⟨rfl, rfl⟩ : x = .list vs ∧ y = .list ws := by simpa using hmem
    exact .list hlikeLen fun x y hmem => hlikes hmem

/-- A constructor whose record's entries follow the tag. -/
theorem roundTrips_inline (hnodup : (plans.map CasePlan.tag).Nodup) (hp : p ∈ plans)
    (howns : p.OwnsClass plans) {r : RecordPlan Plan} (hform : p.form = .record r) {v : Value}
    (hv : ∀ k, p.instanceOf = some k → ∃ fields, v = .object k.name fields)
    (h : s.RoundTrips lone halts 1 need (.record r) v) :
    s.RoundTrips lone halts 1 need (.variant label folding plans)
      (.ofInline p.tag p.instanceOf v) := by
  intro levels hle
  obtain ⟨args, hargs, hrecordOf⟩ := constructorOf_ofInline (Converter.writerName label) hp howns hv
  rw [writeAt_variant hnodup hp hargs, hform, writeFormAt, Plan.writeForm, hrecordOf]
  -- the entries are the same, whether they are a list or follow the tag
  have hentries : Yields halts (Plan.writeRecord (fun cell id args v => s.writeWithin levels (.link cell id args) v)
      s.switches r v) fun ts => s.ReadsBack lone 1 (.record r) v (.list ts) := by
    have hrecord := h levels hle
    rw [writeAt, Plan.write] at hrecord
    exact hrecord.of_bind_pure
  refine hentries.bind fun ts _ hback => .pure ?_
  intro levels node hnode hle
  obtain ⟨l, rest, l', rfl, hrest⟩ := eq_tagged_of_sexp hnode
  have hdepth : (Sexp.list ts).census.depth ≤ levels + 1 := by
    refine Nat.le_trans ?_ hle
    show (Sexp.censusAll ts).depth + 1 ≤ max 1 (Sexp.censusAll ts).depth + 1
    omega
  have hsexp : (Node.list rest l').sexp = .list ts := by
    rw [Node.sexp, Node.sexps_eq_map, hrest]
  obtain ⟨w, hw, hlike⟩ := hback levels (.list rest l') hsexp hdepth
  refine ⟨.ofInline p.tag p.instanceOf w, ?_, Value.like_ofInline p.tag p.instanceOf hlike⟩
  rw [readAt_variant_list hnodup hp, hform, readFormAt, Plan.readForm]
  show ((s.readAt levels (.record r) (.list rest l')).mapError _ >>= _) = _
  rw [hw]
  cases p.instanceOf <;> rfl

end Setting

end TypedSexp
