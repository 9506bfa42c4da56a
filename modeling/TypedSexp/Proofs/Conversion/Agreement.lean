import Mathlib.Data.List.Forall2
import TypedSexp.Proofs.Conversion.Concord
import TypedSexp.Proofs.Conversion.Sequence
import TypedSexp.Proofs.Derivation.Parts
/-!
# Conversions that agree

Two plans of one type differ in their labels, and in where one has a link and the other what stands
behind it. `Plan.Matches` says that two plans have the same shape, with parts that are related in
turn. Plans that match read and write alike if their parts do (`Plan.read_alike`,
`Plan.write_alike`), whatever counts as alike: a `Concord`. A plan matches itself, so it reads and
writes alike with links that are followed alike (`Plan.read_congr`, `Plan.write_congr`).

A part of a plan is read from a tree inside the tree, except where fields stand directly behind a
tag: they are read from the form without its tag, which may be as deep. `Plan.ReadAlike` therefore
asks less of a link than of a shape.
-/

namespace TypedSexp

/-! ## Trees inside trees -/

/-- How deep a tree is. -/
abbrev Node.depth (node : Node) : Nat := node.sexp.census.depth

theorem Node.depth_pos (node : Node) : 0 < node.depth := Setting.census_depth_pos node.sexp

theorem Node.depth_lt_of_mem {item : Node} {items : List Node} (h : item ∈ items)
    (location : Option Location) : item.depth < (Node.list items location).depth := by
  have hmem : item.sexp ∈ Node.sexps items := by
    rw [Node.sexps_eq_map]
    exact List.mem_map_of_mem h
  have hpos := Node.depth_pos (.list items location)
  refine Nat.lt_of_le_of_lt (Sexp.depth_of_mem hmem (n := (Node.list items location).depth - 1) ?_) ?_
  · show (Node.list items location).depth ≤ _
    omega
  · omega

/-- A list is as deep as one that has its items and more. -/
theorem Node.depth_tail_le (head : Node) (items : List Node) (l l' : Option Location) :
    (Node.list items l).depth ≤ (Node.list (head :: items) l').depth := by
  show (Sexp.censusAll (Node.sexps items)).depth + 1 ≤
    max head.depth (Sexp.censusAll (Node.sexps items)).depth + 1
  exact Nat.succ_le_succ (Nat.le_max_right ..)

/-! ## Entries -/

namespace Entries

variable {what name : Text} {names : List Text} {tolerant : Bool} {entry v : Node}

/-- The node is an entry with this name. -/
def isNamed (name : Text) (node : Node) : Bool := name? node == some name

/-- The entries that are found are the only ones with their names. -/
theorem spec_of_gather : ∀ {nodes : List Node} {present found : List (Text × Node)},
    gather what names tolerant present nodes = .ok found →
    (∃ new, found = present.reverse ++ new ∧ ∀ e ∈ new, e.1 ∈ names ∧
      present.lookup e.1 = none ∧ nodes.filter (isNamed e.1) = [e.2]) ∧
    ∀ n ∈ names, present.lookup n ≠ none → nodes.filter (isNamed n) = []
  | [], present, found, h => by
    rw [gather] at h
    obtain rfl := Except.ok.inj h
    exact ⟨⟨[], by simp, by simp⟩, by simp⟩
  | node :: nodes, present, found, h => by
    rw [gather] at h
    cases hname : name? node with
    | none => simp [hname] at h
    | some n =>
      have hfilter (m : Text) (hne : m ≠ n) :
          (node :: nodes).filter (isNamed m) = nodes.filter (isNamed m) := by
        refine List.filter_cons_of_neg ?_
        simpa [isNamed, hname] using Ne.symm hne
      by_cases hn : n ∈ names
      · cases htwice : present.lookup n with
        | some e => simp [hname, hn, htwice] at h
        | none =>
          replace h : gather what names tolerant ((n, node) :: present) nodes = .ok found := by
            simpa [hname, hn, htwice] using h
          obtain ⟨⟨new, rfl, hnew⟩, hnone⟩ := spec_of_gather h
          have hlookup (m : Text) (hne : m ≠ n) :
              ((n, node) :: present).lookup m = present.lookup m := by
            rw [List.lookup_cons, beq_false_of_ne hne]
          refine ⟨⟨(n, node) :: new, by simp, fun e he => ?_⟩, fun m hm hsome => ?_⟩
          · rcases List.mem_cons.1 he with rfl | he
            · refine ⟨hn, htwice, ?_⟩
              rw [List.filter_cons_of_pos (by simp [isNamed, hname]), hnone n hn (by simp)]
            · obtain ⟨hmem, hlook, hone⟩ := hnew e he
              have hne : e.1 ≠ n := by
                intro heq
                rw [heq, List.lookup_cons_self] at hlook
                exact nomatch hlook
              exact ⟨hmem, hlookup _ hne ▸ hlook, (hfilter _ hne).trans hone⟩
          · have hne : m ≠ n := by
              rintro rfl
              exact hsome htwice
            rw [hfilter m hne]
            exact hnone m hm (by rwa [hlookup m hne])
      · have ht : tolerant = true := by
          by_contra hf
          simp [hname, hn, hf] at h
        replace h : gather what names tolerant present nodes = .ok found := by
          simpa [hname, hn, ht] using h
        obtain ⟨⟨new, rfl, hnew⟩, hnone⟩ := spec_of_gather h
        refine ⟨⟨new, rfl, fun e he => ?_⟩, fun m hm hsome => ?_⟩
        · obtain ⟨hmem, hlook, hone⟩ := hnew e he
          have hne : e.1 ≠ n := fun heq => hn (heq ▸ hmem)
          exact ⟨hmem, hlook, (hfilter _ hne).trans hone⟩
        · have hne : m ≠ n := fun heq => hn (heq ▸ hm)
          exact (hfilter m hne).trans (hnone m hm hsome)

/-- An entry that is found under a name is the only one with the name. -/
theorem filter_of_gather {nodes : List Node} {found : List (Text × Node)}
    (h : gather what names tolerant [] nodes = .ok found) (hfound : found.lookup name = some entry) :
    nodes.filter (isNamed name) = [entry] := by
  obtain ⟨⟨new, rfl, hnew⟩, -⟩ := spec_of_gather h
  exact (hnew (name, entry) (mem_of_lookup hfound)).2.2

theorem mem_of_gather {nodes : List Node} {found : List (Text × Node)}
    (h : gather what names tolerant [] nodes = .ok found) (hfound : found.lookup name = some entry) :
    entry ∈ nodes := by
  have hone := filter_of_gather h hfound
  exact List.mem_of_mem_filter (hone ▸ List.mem_cons_self)

/-- Entries with a declared name are found. -/
theorem mem_names_of_gather (hname : name ∈ names) : ∀ {nodes : List Node}
    {present found : List (Text × Node)}, gather what names tolerant present nodes = .ok found →
    name ∈ present.map Prod.fst ∨ (∃ node ∈ nodes, isNamed name node) → name ∈ found.map Prod.fst
  | [], present, found, h, hor => by
    rw [gather] at h
    obtain rfl := Except.ok.inj h
    simpa using hor
  | node :: nodes, present, found, h, hor => by
    rw [gather] at h
    cases hnode : name? node with
    | none => simp [hnode] at h
    | some n =>
      have hrest : n = name ∨ name ∈ present.map Prod.fst ∨ ∃ node ∈ nodes, isNamed name node := by
        rcases hor with hmem | ⟨x, hx, hxname⟩
        · exact .inr (.inl hmem)
        · rcases List.mem_cons.1 hx with rfl | hx
          · exact .inl (by simpa [isNamed, hnode] using hxname)
          · exact .inr (.inr ⟨x, hx, hxname⟩)
      by_cases hn : n ∈ names
      · cases htwice : present.lookup n with
        | some e => simp [hnode, hn, htwice] at h
        | none =>
          have hmore : gather what names tolerant ((n, node) :: present) nodes = .ok found := by
            simpa [hnode, hn, htwice] using h
          refine mem_names_of_gather hname hmore ?_
          rcases hrest with rfl | hmem | hlater
          · exact .inl List.mem_cons_self
          · exact .inl (List.mem_cons_of_mem _ hmem)
          · exact .inr hlater
      · have hne : n ≠ name := fun heq => hn (heq ▸ hname)
        have ht : tolerant = true := by
          by_contra hf
          simp [hnode, hn, hf] at h
        exact mem_names_of_gather hname (by simpa [hnode, hn, ht] using h)
          (hrest.resolve_left hne)

/-- The only entry with a declared name is the one that is found. -/
theorem lookup_of_gather {nodes : List Node} {found : List (Text × Node)}
    (h : gather what names tolerant [] nodes = .ok found) (hname : name ∈ names)
    (hone : nodes.filter (isNamed name) = [entry]) : found.lookup name = some entry := by
  have hentry : entry ∈ nodes.filter (isNamed name) := hone ▸ List.mem_cons_self
  obtain ⟨hmem, hnamed⟩ := List.mem_filter.1 hentry
  obtain ⟨e, he⟩ := exists_lookup_of_mem (mem_names_of_gather hname h (.inr ⟨entry, hmem, hnamed⟩))
  have hsame := (filter_of_gather h he).symm.trans hone
  rw [he, (List.cons.inj hsame).1]

/-- The value of an entry is inside it. -/
theorem eq_of_value (h : value what name entry = .ok v) :
    ∃ head location, entry = .list [head, v] location := by
  unfold value at h
  split at h
  · obtain rfl := Except.ok.inj h
    exact ⟨_, _, rfl⟩
  · exact nomatch h
  · exact nomatch h

theorem depth_lt_of_value (h : value what name entry = .ok v) : v.depth < entry.depth := by
  obtain ⟨head, location, rfl⟩ := eq_of_value h
  exact Node.depth_lt_of_mem (by simp) location

end Entries

/-! ## Plans of the same shape -/

section Matches

variable (exact : Prop) (R : Plan → Plan → Prop)

/-- Converters whose plans are related. -/
abbrev Keyed.Related (c c' : Converter) : Prop := R c.plan c'.plan

/-- Fields that are written the same way. -/
inductive FieldForm.Matches : FieldForm Plan → FieldForm Plan → Prop
  | flag : Matches .flag .flag
  | valued {c c' : Converter} (omission : Omission) (h : Keyed.Related R c c') :
      Matches (.valued c omission) (.valued c' omission)

/-- The same field, with related converters. -/
structure FieldPlan.Matches (p p' : FieldPlan Plan) : Prop where
  name : p.name = p'.name
  absent : p.absent = p'.absent
  dropping : p.dropping = p'.dropping
  form : FieldForm.Matches R p.form p'.form

/-- Records of the same fields. -/
structure RecordPlan.Matches (r r' : RecordPlan Plan) : Prop where
  label : exact → r.label = r'.label
  instanceOf : r.instanceOf = r'.instanceOf
  extra : r.extra = r'.extra
  fields : List.Forall₂ (FieldPlan.Matches R) r.fields r'.fields

/-- The same follows a tag. -/
inductive CaseForm.Matches : CaseForm Plan → CaseForm Plan → Prop
  | constant : Matches .constant .constant
  | arguments {cs cs' : List Converter} (h : List.Forall₂ (Keyed.Related R) cs cs') :
      Matches (.arguments cs) (.arguments cs')
  | spliced {c c' : Converter} (h : Keyed.Related R c c') : Matches (.spliced c) (.spliced c')
  | record {r r' : RecordPlan Plan} (h : R (.record r) (.record r')) :
      Matches (.record r) (.record r')

/-- The same constructor, with related converters. -/
structure CasePlan.Matches (p p' : CasePlan Plan) : Prop where
  tag : p.tag = p'.tag
  instanceOf : p.instanceOf = p'.instanceOf
  form : CaseForm.Matches R p.form p'.form

/-- Plans of the same shape with related parts; labels may differ, unless the comparison is
`exact`. -/
inductive Plan.Matches : Plan → Plan → Prop
  | primitive (p : Primitive) : Matches (.primitive p) (.primitive p)
  | custom (c : Custom) : Matches (.custom c) (.custom c)
  | sealed {label label' : Text} (hlabel : exact → label = label') :
      Matches (.sealed label) (.sealed label')
  | option {label label' : Text} {c c' : Converter} (hlabel : exact → label = label')
      (h : Keyed.Related R c c') : Matches (.option label c) (.option label' c')
  | list {label label' : Text} {c c' : Converter} (hlabel : exact → label = label')
      (h : Keyed.Related R c c') : Matches (.list label c) (.list label' c')
  | array {label label' : Text} {c c' : Converter} (stored : ElementType)
      (hlabel : exact → label = label') (h : Keyed.Related R c c') :
      Matches (.array label stored c) (.array label' stored c')
  | tuple {label label' : Text} {cs cs' : List Converter} (hlabel : exact → label = label')
      (h : List.Forall₂ (Keyed.Related R) cs cs') : Matches (.tuple label cs) (.tuple label' cs')
  | record {r r' : RecordPlan Plan} (h : RecordPlan.Matches exact R r r') :
      Matches (.record r) (.record r')
  | variant {label label' : Text} {cases cases' : List (CasePlan Plan)} (folding : Bool)
      (hlabel : exact → label = label') (h : List.Forall₂ (CasePlan.Matches R) cases cases') :
      Matches (.variant label folding cases) (.variant label' folding cases')

end Matches

section Relations

variable {exact exact' : Prop} {R R' : Plan → Plan → Prop}

theorem FieldPlan.Matches.imp (hR : ∀ p p', R p p' → R' p p') {p p' : FieldPlan Plan}
    (h : FieldPlan.Matches R p p') : FieldPlan.Matches R' p p' := by
  obtain ⟨name, form, absent, dropping⟩ := p
  obtain ⟨name', form', absent', dropping'⟩ := p'
  obtain ⟨hname, habsent, hdropping, hform⟩ := h
  refine ⟨hname, habsent, hdropping, ?_⟩
  cases hform with
  | flag => exact .flag
  | valued omission hc => exact .valued omission (hR _ _ hc)

theorem RecordPlan.Matches.imp (hexact : exact' → exact) (hR : ∀ p p', R p p' → R' p p')
    {r r' : RecordPlan Plan} (h : RecordPlan.Matches exact R r r') :
    RecordPlan.Matches exact' R' r r' :=
  ⟨fun he => h.label (hexact he), h.instanceOf, h.extra, h.fields.imp fun _ _ hp => hp.imp hR⟩

theorem CasePlan.Matches.imp (hR : ∀ p p', R p p' → R' p p') {p p' : CasePlan Plan}
    (h : CasePlan.Matches R p p') : CasePlan.Matches R' p p' := by
  obtain ⟨tag, instanceOf, form⟩ := p
  obtain ⟨tag', instanceOf', form'⟩ := p'
  obtain ⟨htag, hclass, hform⟩ := h
  refine ⟨htag, hclass, ?_⟩
  cases hform with
  | constant => exact .constant
  | arguments hcs => exact .arguments (hcs.imp fun _ _ hc => hR _ _ hc)
  | spliced hc => exact .spliced (hR _ _ hc)
  | record hr => exact .record (hR _ _ hr)

theorem Plan.Matches.imp (hexact : exact' → exact) (hR : ∀ p p', R p p' → R' p p') {p p' : Plan}
    (h : Plan.Matches exact R p p') : Plan.Matches exact' R' p p' := by
  cases h with
  | primitive p => exact .primitive p
  | custom c => exact .custom c
  | sealed hlabel => exact .sealed fun he => hlabel (hexact he)
  | option hlabel hc => exact .option (fun he => hlabel (hexact he)) (hR _ _ hc)
  | list hlabel hc => exact .list (fun he => hlabel (hexact he)) (hR _ _ hc)
  | array stored hlabel hc => exact .array stored (fun he => hlabel (hexact he)) (hR _ _ hc)
  | tuple hlabel hcs =>
    exact .tuple (fun he => hlabel (hexact he)) (hcs.imp fun _ _ hc => hR _ _ hc)
  | record hr => exact .record (hr.imp hexact hR)
  | variant folding hlabel hcases =>
    exact .variant folding (fun he => hlabel (hexact he)) (hcases.imp fun _ _ hp => hp.imp hR)

theorem FieldPlan.Matches.names {ps ps' : List (FieldPlan Plan)}
    (h : List.Forall₂ (FieldPlan.Matches R) ps ps') :
    ps.map FieldPlan.name = ps'.map FieldPlan.name := by
  induction h with
  | nil => rfl
  | cons hp _ ih => rw [List.map_cons, List.map_cons, hp.name, ih]

theorem CasePlan.Matches.tags {ps ps' : List (CasePlan Plan)}
    (h : List.Forall₂ (CasePlan.Matches R) ps ps') : CasePlan.tags ps = CasePlan.tags ps' := by
  induction h with
  | nil => rfl
  | @cons p p' ps ps' hp _ ih =>
    show p.tag :: CasePlan.tags ps = p'.tag :: CasePlan.tags ps'
    rw [hp.tag, ih]

theorem CasePlan.Matches.ofClass? {className : Text} {ps ps' : List (CasePlan Plan)}
    (h : List.Forall₂ (CasePlan.Matches R) ps ps') :
    CasePlan.ofClass? className ps = CasePlan.ofClass? className ps' := by
  have hfilter : List.Forall₂ (CasePlan.Matches R)
      (ps.filter fun c => c.instanceOf.any fun i => i.name == className)
      (ps'.filter fun c => c.instanceOf.any fun i => i.name == className) := by
    induction h with
    | nil => exact .nil
    | cons hp _ ih =>
      simp only [List.filter_cons, hp.instanceOf]
      split
      · exact .cons hp ih
      · exact ih
  unfold CasePlan.ofClass?
  rw [← List.getLast?_map, ← List.getLast?_map]
  exact congrArg List.getLast? (CasePlan.Matches.tags hfilter)

theorem RecordPlan.Matches.missing {r r' : RecordPlan Plan} (h : RecordPlan.Matches exact R r r')
    (present : List (Text × Node)) : r.missing present = r'.missing present := by
  unfold RecordPlan.missing
  have hfields := h.fields
  generalize r.fields = fields at hfields ⊢
  generalize r'.fields = fields' at hfields ⊢
  induction hfields with
  | nil => rfl
  | cons hp _ ih =>
    simp only [List.filter_cons, hp.absent, hp.name]
    split
    · rw [List.map_cons, List.map_cons, hp.name, ih]
    · exact ih

end Relations

/-! ## A plan and itself -/

section Self

variable {exact : Prop} {R : Plan → Plan → Prop}

theorem RecordPlan.Matches.self {r : RecordPlan Plan}
    (h : ∀ p ∈ r.fields, ∀ c omission, p.form = .valued c omission → R c.plan c.plan) :
    RecordPlan.Matches exact R r r := by
  refine ⟨fun _ => rfl, rfl, rfl, List.forall₂_same.2 fun p hp => ⟨rfl, rfl, rfl, ?_⟩⟩
  cases hform : p.form with
  | flag => exact .flag
  | valued c omission => exact .valued omission (h p hp c omission hform)

theorem CasePlan.Matches.self {p : CasePlan Plan} (h : ∀ q, p.form.Inside q → R q q) :
    CasePlan.Matches R p p := by
  refine ⟨rfl, rfl, ?_⟩
  cases hform : p.form with
  | constant => exact .constant
  | arguments cs => exact .arguments (List.forall₂_same.2 fun c hc => h _ (hform ▸ .argument hc))
  | spliced c => exact .spliced (h _ (hform ▸ .element))
  | record r => exact .record (h _ (hform ▸ .fields))

/-- A plan that is no link matches itself, if its parts are related to themselves. -/
theorem Plan.Matches.self {p : Plan} (hp : p.isSettled false) (h : ∀ q, p.HasPart q → R q q) :
    Plan.Matches exact R p p := by
  cases p with
  | primitive p => exact .primitive p
  | custom c => exact .custom c
  | sealed label => exact .sealed fun _ => rfl
  | option label c => exact .option (fun _ => rfl) (h _ .option)
  | list label c => exact .list (fun _ => rfl) (h _ .list)
  | array label stored c => exact .array stored (fun _ => rfl) (h _ .array)
  | tuple label cs =>
    exact .tuple (fun _ => rfl) (List.forall₂_same.2 fun c hc => h _ (.tuple hc))
  | record r => exact .record (.self fun p hp c omission hform => h _ (.field hp hform))
  | variant label folding cases =>
    exact .variant folding (fun _ => rfl)
      (List.forall₂_same.2 fun p hp => .self fun q hq => h q (.case hp hq))
  | link cell id args => exact nomatch hp

end Self

/-! ## Reading -/

variable {M N : Type → Type → Type} [∀ ε, Monad (M ε)] [Carrier M] [LawfulCarrier M]
  [∀ ε, Monad (N ε)] [Carrier N] [LawfulCarrier N]

section Reading

variable {H : ReadConcord M N} {what what' : Text}

theorem gather_alike (hwhat : H.exact → what = what') (names : List Text) {tolerant tolerant' : Bool}
    (ht : tolerant = tolerant' ∨ tolerant = false ∧ H.lenient) :
    ∀ (present : List (Text × Node)) (nodes : List Node),
      H.rel (outcome (Entries.gather what names tolerant present nodes))
        (outcome (Entries.gather what' names tolerant' present nodes))
  | present, [] => by
    rw [Entries.gather, Entries.gather]
    exact H.refl _
  | present, node :: nodes => by
    rw [Entries.gather, Entries.gather]
    cases Entries.name? node with
    | none => exact H.errors (fun h => by rw [hwhat h]) rfl
    | some name =>
      by_cases hname : (!names.contains name) = true
      · simp only [hname, if_true]
        have hrest := gather_alike hwhat names ht present nodes
        rw [apply_ite outcome, apply_ite outcome]
        exact H.widen ht hrest (H.errors (fun h => by rw [hwhat h]) rfl)
      · simp only [hname, if_false, Bool.false_eq_true]
        by_cases htwice : (present.lookup name).isSome = true
        · simp only [htwice, if_true]
          exact H.errors (fun h => by rw [hwhat h]) rfl
        · simp only [htwice, if_false, Bool.false_eq_true]
          exact gather_alike hwhat names ht _ nodes

theorem value_alike (hwhat : H.exact → what = what') (name : Text) (entry : Node) :
    H.rel (outcome (Entries.value what name entry)) (outcome (Entries.value what' name entry)) := by
  unfold Entries.value
  split
  · exact H.refl _
  · exact H.errors (fun h => by rw [hwhat h]) rfl
  · exact H.errors (fun h => by rw [hwhat h]) rfl

theorem checkFlag_alike (hwhat : H.exact → what = what') (name : Text) (entry : Node) :
    H.rel (outcome (Entries.checkFlag what name entry))
      (outcome (Entries.checkFlag what' name entry)) := by
  unfold Entries.checkFlag
  split
  · exact H.refl _
  · exact H.errors (fun h => by rw [hwhat h]) rfl

theorem storeEach_alike {label label' : Text} (hlabel : H.exact → label = label')
    (stored : ElementType) (items : List Node) (values : List Value) :
    H.rel (outcome (storeEach label stored items values))
      (outcome (storeEach label' stored items values)) := by
  unfold storeEach
  split
  · exact H.refl _
  · exact H.refl _
  · exact H.errors (fun h => by rw [hlabel h]) rfl

theorem readEach_alike {read : Node → M ReadError Value} {read' : Node → N ReadError Value} :
    ∀ (i : Nat) (nodes : List Node), (∀ node ∈ nodes, H.rel (read node) (read' node)) →
      H.rel (readEach read i nodes) (readEach read' i nodes)
  | _, [], _ => H.refl _
  | i, node :: nodes, h => by
    rw [readEach, readEach]
    refine H.bind (H.within _ (h node List.mem_cons_self)) fun v _ _ => ?_
    refine H.bind (readEach_alike (i + 1) nodes fun n hn => ?_) fun vs _ _ => H.refl _
    exact h n (List.mem_cons_of_mem _ hn)

namespace Plan

variable {follow : Follow M} {follow' : Follow N} {switches switches' : Switches} {k : Nat}

/-- Plans that read alike what is no deeper than `k`; links, what is less deep. -/
def ReadAlike (H : ReadConcord M N) (follow : Follow M) (follow' : Follow N)
    (switches switches' : Switches) (k : Nat) (p p' : Plan) : Prop :=
  ∀ node : Node, node.depth ≤ k → (p.isSettled false = false → node.depth < k) →
    H.rel (p.read follow switches node) (p'.read follow' switches' node)

/-- Inside a tree there is no difference. -/
theorem ReadAlike.inside {p p' : Plan} (h : ReadAlike H follow follow' switches switches' k p p')
    {node : Node} (hk : node.depth < k) :
    H.rel (p.read follow switches node) (p'.read follow' switches' node) :=
  h node (Nat.le_of_lt hk) fun _ => hk

theorem readParts_alike {cs cs' : List Converter}
    (h : List.Forall₂ (Keyed.Related (ReadAlike H follow follow' switches switches' k)) cs cs') :
    ∀ (i : Nat) (nodes : List Node), (∀ node ∈ nodes, node.depth < k) →
      H.rel (readParts follow switches i cs nodes) (readParts follow' switches' i cs' nodes) := by
  induction h with
  | nil =>
    intro i nodes _
    rw [readParts, readParts] <;> first | exact H.refl _ | simp
  | cons hc _ ih =>
    intro i nodes hk
    cases nodes with
    | nil => rw [readParts, readParts] <;> first | exact H.refl _ | simp
    | cons node nodes =>
      rw [readParts, readParts]
      refine H.bind (H.within _ (hc.inside (hk node List.mem_cons_self))) fun v _ _ => ?_
      refine H.bind (ih (i + 1) nodes fun n hn => ?_) fun vs _ _ => H.refl _
      exact hk n (List.mem_cons_of_mem _ hn)

theorem readField_alike (hwhat : H.exact → what = what') (name : Text) {entry : Node}
    (hk : entry.depth < k) {form form' : FieldForm Plan}
    (h : FieldForm.Matches (ReadAlike H follow follow' switches switches' k) form form') :
    H.rel (readField follow switches what name entry form)
      (readField follow' switches' what' name entry form') := by
  cases h with
  | flag =>
    rw [readField, readField]
    exact H.bind (checkFlag_alike hwhat name entry) fun _ _ _ => H.refl _
  | valued omission hc =>
    rw [readField, readField]
    refine H.known (value_alike hwhat name entry) fun v hv _ => ?_
    exact hc.inside (Nat.lt_trans (Entries.depth_lt_of_value hv) hk)

theorem readFields_alike (hwhat : H.exact → what = what') {present : List (Text × Node)}
    (hk : ∀ name entry, present.lookup name = some entry → entry.depth < k)
    {ps ps' : List (FieldPlan Plan)}
    (h : List.Forall₂ (FieldPlan.Matches (ReadAlike H follow follow' switches switches' k)) ps ps') :
    H.rel (readFields follow switches what present ps)
      (readFields follow' switches' what' present ps') := by
  induction h with
  | nil =>
    rw [readFields, readFields]
    exact H.refl _
  | @cons p p' ps ps' hp _ ih =>
    obtain ⟨name, form, absent, dropping⟩ := p
    obtain ⟨name', form', absent', dropping'⟩ := p'
    obtain ⟨rfl, rfl, rfl, hform⟩ := hp
    rw [readFields, readFields]
    cases hentry : present.lookup name with
    | none => exact H.bind (H.refl _) fun v _ _ => H.bind ih fun vs _ _ => H.refl _
    | some entry =>
      have hfield := readField_alike hwhat name (hk name entry hentry) hform
      exact H.bind (H.within _ hfield) fun v _ _ => H.bind ih fun vs _ _ => H.refl _

theorem readRecord_alike (hsw : H.Allows switches switches') {r r' : RecordPlan Plan}
    (h : RecordPlan.Matches H.exact (ReadAlike H follow follow' switches switches' k) r r')
    {node : Node} (hk : node.depth ≤ k) :
    H.rel (readRecord follow switches r node) (readRecord follow' switches' r' node) := by
  have hmissing := h.missing
  obtain ⟨label, instanceOf, extra, fields⟩ := r
  obtain ⟨label', instanceOf', extra', fields'⟩ := r'
  obtain ⟨hlabel, rfl, rfl, hfields⟩ := h
  have hnames : fields.map FieldPlan.name = fields'.map FieldPlan.name :=
    FieldPlan.Matches.names hfields
  have hwhat (h : H.exact) : Converter.readerName label = Converter.readerName label' :=
    congrArg Converter.readerName (hlabel h)
  have htolerant : (extra || !switches.checksExtra) = (extra || !switches'.checksExtra) ∨
      (extra || !switches.checksExtra) = false ∧ H.lenient := by
    cases extra with
    | true => exact .inl rfl
    | false => exact hsw.fields
  cases node with
  | atom text l =>
    rw [readRecord, readRecord]
    exact H.errors (fun h => by rw [hwhat h]) rfl
  | list items l =>
    rw [readRecord, readRecord]
    simp only [RecordPlan.names, hnames, hmissing]
    refine H.known (gather_alike hwhat _ htolerant _ _) fun present hpresent _ => ?_
    refine H.ite ?_ (H.errors (fun h => by rw [hwhat h]) rfl)
    have hinside (name : Text) (entry : Node) (hentry : present.lookup name = some entry) :
        entry.depth < k :=
      Nat.lt_of_lt_of_le (Node.depth_lt_of_mem (Entries.mem_of_gather hpresent hentry) l) hk
    exact H.bind (readFields_alike hwhat hinside hfields) fun values _ _ => H.refl _

theorem readForm_alike (hwhat : H.exact → what = what') (tag : Text) {node : Node}
    {rest : Option (List Node)}
    (hk : ∀ items, rest = some items → (Node.list items node.location).depth ≤ k)
    (instanceOf : Option ClassInfo) {form form' : CaseForm Plan}
    (h : CaseForm.Matches (ReadAlike H follow follow' switches switches' k) form form') :
    H.rel (readForm follow switches what tag node rest instanceOf form)
      (readForm follow' switches' what' tag node rest instanceOf form') := by
  cases rest with
  | none =>
    cases h with
    | constant =>
      rw [readForm, readForm]
      exact H.refl _
    | _ =>
      rw [readForm, readForm]
      exact H.errors (fun h => by rw [hwhat h]) rfl
  | some items =>
    have hlist := hk items rfl
    have hinside (item : Node) (hitem : item ∈ items) : item.depth < k :=
      Nat.lt_of_lt_of_le (Node.depth_lt_of_mem hitem node.location) hlist
    cases h with
    | constant =>
      rw [readForm, readForm]
      exact H.errors (fun h => by rw [hwhat h]) rfl
    | arguments hcs =>
      rw [readForm, readForm, hcs.length_eq]
      refine H.ite ?_ (H.errors (fun h => by rw [hwhat h]) rfl)
      exact H.bind (H.within _ (readParts_alike hcs 0 items hinside)) fun args _ _ => H.refl _
    | spliced hc =>
      rw [readForm, readForm]
      have heach := readEach_alike 0 items fun item hitem => hc.inside (hinside item hitem)
      exact H.bind (H.within _ heach) fun values _ _ => H.refl _
    | @record r r' hr =>
      have hfields : H.rel (readRecord follow switches r (.list items node.location))
          (readRecord follow' switches' r' (.list items node.location)) := by
        have h := hr (.list items node.location) hlist fun hlink => nomatch hlink
        rwa [read, read] at h
      rw [readForm, readForm]
      refine H.bind (H.within _ hfields) fun v _ _ => ?_
      cases instanceOf with
      | some k => exact H.refl _
      | none => exact H.refl _

theorem readCase_alike (hwhat : H.exact → what = what') (tag : Text) {node : Node}
    {rest : Option (List Node)}
    (hk : ∀ items, rest = some items → (Node.list items node.location).depth ≤ k)
    {ps ps' : List (CasePlan Plan)}
    (h : List.Forall₂ (CasePlan.Matches (ReadAlike H follow follow' switches switches' k)) ps ps') :
    H.rel (readCase follow switches what tag node rest ps)
      (readCase follow' switches' what' tag node rest ps') := by
  induction h with
  | nil =>
    rw [readCase, readCase]
    exact H.errors (fun h => by rw [hwhat h]) rfl
  | @cons p p' ps ps' hp _ ih =>
    obtain ⟨t, instanceOf, form⟩ := p
    obtain ⟨t', instanceOf', form'⟩ := p'
    obtain ⟨rfl, rfl, hform⟩ := hp
    rw [readCase, readCase]
    exact H.ite (readForm_alike hwhat tag hk instanceOf hform) ih

theorem readOption_alike (hsw : H.Allows switches switches') {label label' : Text}
    (hlabel : H.exact → label = label') {c c' : Converter}
    (h : Keyed.Related (ReadAlike H follow follow' switches switches' k) c c') {node : Node}
    (hk : node.depth ≤ k) :
    H.rel ((Plan.option label c).read follow switches node)
      ((Plan.option label' c').read follow' switches' node) := by
  rcases node with ⟨t, loc⟩ | ⟨_ | ⟨head, _ | ⟨item, _ | ⟨_, _⟩⟩⟩, loc⟩
  · rw [read, read]
    exact H.ite (H.refl _) (H.errors (fun h => by rw [hlabel h]) rfl)
  · rw [read, read]
    exact H.widen hsw.options (H.refl _) (H.errors (fun h => by rw [hlabel h]) rfl)
  · rw [read, read]
    refine H.widen hsw.options ?_ (H.errors (fun h => by rw [hlabel h]) rfl)
    exact h.inside (Nat.lt_of_lt_of_le (Node.depth_lt_of_mem (by simp) loc) hk)
  · cases head with
    | list _ _ =>
      rw [read, read]
      · exact H.errors (fun h => by rw [hlabel h]) rfl
      all_goals simp
    | atom t _ =>
      rw [read, read]
      refine H.ite ?_ (H.errors (fun h => by rw [hlabel h]) rfl)
      exact h.inside (Nat.lt_of_lt_of_le (Node.depth_lt_of_mem (by simp) loc) hk)
  · rw [read, read]
    · exact H.errors (fun h => by rw [hlabel h]) rfl
    all_goals simp

theorem readVariant_alike {label label' : Text} (hlabel : H.exact → label = label')
    (folding : Bool) {ps ps' : List (CasePlan Plan)}
    (h : List.Forall₂ (CasePlan.Matches (ReadAlike H follow follow' switches switches' k)) ps ps')
    {node : Node} (hk : node.depth ≤ k) :
    H.rel ((Plan.variant label folding ps).read follow switches node)
      ((Plan.variant label' folding ps').read follow' switches' node) := by
  have htags := CasePlan.Matches.tags h
  have hwhat (h : H.exact) : Converter.readerName label = Converter.readerName label' :=
    congrArg Converter.readerName (hlabel h)
  cases node with
  | atom t loc =>
    rw [read, read, htags]
    cases Tags.resolve? folding (CasePlan.tags ps') t with
    | none => exact H.errors (fun h => by rw [hwhat h]) rfl
    | some tag =>
      refine readCase_alike hwhat tag (fun items hitems => ?_) h
      exact absurd hitems (by simp)
  | list items loc =>
    cases items with
    | nil =>
      rw [read, read]
      exact H.errors (fun h => by rw [hwhat h]) rfl
    | cons head rest =>
      cases head with
      | list _ _ =>
        rw [read, read]
        · exact H.errors (fun h => by rw [hwhat h]) rfl
        all_goals simp
      | atom t loc' =>
        rw [read, read, htags]
        cases Tags.resolve? folding (CasePlan.tags ps') t with
        | none => exact H.errors (fun h => by rw [hwhat h]) rfl
        | some tag =>
          refine readCase_alike hwhat tag (fun items hitems => ?_) h
          obtain rfl := Option.some.inj hitems
          exact Nat.le_trans (Node.depth_tail_le (.atom t loc') rest loc loc) hk

/-- **Plans that match read alike**, if their parts do. -/
theorem read_alike (hsw : H.Allows switches switches') {p p' : Plan}
    (h : Plan.Matches H.exact (ReadAlike H follow follow' switches switches' k) p p') {node : Node}
    (hk : node.depth ≤ k) :
    H.rel (p.read follow switches node) (p'.read follow' switches' node) := by
  have inside {items : List Node} {l : Option Location} (hk : (Node.list items l).depth ≤ k)
      (item : Node) (hitem : item ∈ items) : item.depth < k :=
    Nat.lt_of_lt_of_le (Node.depth_lt_of_mem hitem l) hk
  cases h with
  | primitive p =>
    rw [read, read]
    exact H.refl _
  | custom c =>
    rw [read, read]
    exact H.refl _
  | sealed hlabel =>
    rw [read, read]
    exact H.errors (fun h => by rw [hlabel h]) rfl
  | option hlabel hc => exact readOption_alike hsw hlabel hc hk
  | list hlabel hc =>
    cases node with
    | atom text l =>
      rw [read, read]
      exact H.errors (fun h => by rw [hlabel h]) rfl
    | list items l =>
      rw [read, read]
      have heach := readEach_alike 0 items fun item hitem => hc.inside (inside hk item hitem)
      exact H.bind heach fun vs _ _ => H.refl _
  | array stored hlabel hc =>
    cases node with
    | atom text l =>
      rw [read, read]
      exact H.errors (fun h => by rw [hlabel h]) rfl
    | list items l =>
      rw [read, read]
      have heach := readEach_alike 0 items fun item hitem => hc.inside (inside hk item hitem)
      exact H.bind heach fun vs _ _ => storeEach_alike hlabel _ _ _
  | tuple hlabel hcs =>
    cases node with
    | atom text l =>
      rw [read, read]
      exact H.errors (fun h => by rw [hlabel h, (hcs.length_eq)]) (by rw [hcs.length_eq]; rfl)
    | list items l =>
      rw [read, read, hcs.length_eq]
      refine H.ite ?_ (H.errors (fun h => by rw [hlabel h]) rfl)
      exact H.bind (readParts_alike hcs 0 items (inside hk)) fun vs _ _ => H.refl _
  | record hr =>
    rw [read, read]
    exact readRecord_alike hsw hr hk
  | variant folding hlabel hcases => exact readVariant_alike hlabel folding hcases hk

/-- A plan reads alike with links that are followed alike inside the tree, where they stand in the
plan. -/
theorem read_congr (hsw : H.Allows switches switches') : ∀ p : Plan,
    (∀ cell id args, p.Holds cell id args → ∀ node : Node, node.depth < k →
      H.rel (follow cell id args node) (follow' cell id args node)) →
    ReadAlike H follow follow' switches switches' k p p := by
  refine Plan.induct fun p hparts hfollow node hk hlt => ?_
  by_cases hp : p.isSettled false
  · refine read_alike hsw (.self hp fun q hq => hparts q hq fun cell id args hlink => ?_) hk
    exact hfollow cell id args (.part hq hlink)
  · cases p with
    | link cell id args =>
      rw [read, read]
      exact hfollow cell id args .here node (hlt rfl)
    | _ => exact absurd rfl hp

end Plan

end Reading

/-! ## Writing -/

section Writing

variable {H : Concord M N WriteError.gist} {writer writer' : Text}

theorem checkVector_alike (hwriter : H.exact → writer = writer') (v : Value) :
    H.rel (outcome (checkVector writer v)) (outcome (checkVector writer' v)) := by
  unfold checkVector
  split
  · rw [apply_ite outcome, apply_ite outcome]
    exact H.ite (H.refl _) (H.errors (fun h => by rw [hwriter h]) rfl)
  · exact H.refl _

theorem fieldValue_alike (hwriter : H.exact → writer = writer') (instanceOf : Option ClassInfo)
    (name : Text) (absent : Option Value) (v : Value) :
    H.rel (outcome (fieldValue writer instanceOf name absent v))
      (outcome (fieldValue writer' instanceOf name absent v)) := by
  unfold fieldValue
  cases instanceOf with
  | some k => exact H.refl _
  | none =>
    cases Builtin.ofValue (v.contains name) with
    | error e => exact H.refl _
    | ok found =>
      cases found with
      | true => exact H.refl _
      | false =>
        cases absent with
        | none => exact H.errors (fun h => by rw [hwriter h]) rfl
        | some x => exact H.refl _

theorem noConstructor_alike (α : Type) (hwriter : H.exact → writer = writer') (v : Value) :
    H.rel (outcome (Builtin.spelled v >>= fun t => (.error (.noConstructor writer t) : Except _ α)))
      (outcome (Builtin.spelled v >>= fun t => .error (.noConstructor writer' t))) := by
  cases Builtin.spelled v with
  | error e => exact H.refl _
  | ok t => exact H.errors (fun h => by rw [hwriter h]) rfl

theorem writeEach_alike {write : Value → M WriteError Sexp} {write' : Value → N WriteError Sexp}
    (h : ∀ v, H.rel (write v) (write' v)) :
    ∀ vs : List Value, H.rel (writeEach write vs) (writeEach write' vs)
  | [] => H.refl _
  | v :: vs => by
    rw [writeEach, writeEach]
    exact H.bind (h v) fun t _ _ => H.bind (writeEach_alike h vs) fun ts _ _ => H.refl _

theorem constructorOf_alike {R : Plan → Plan → Prop} (hwriter : H.exact → writer = writer')
    {ps ps' : List (CasePlan Plan)} (h : List.Forall₂ (CasePlan.Matches R) ps ps') (v : Value) :
    H.rel (outcome (constructorOf writer ps v)) (outcome (constructorOf writer' ps' v)) := by
  have hunknown := noConstructor_alike (Text × List Value) hwriter v
  unfold constructorOf
  cases v with
  | variant tag args =>
    simp only [CasePlan.Matches.tags h, apply_ite outcome]
    exact H.ite (H.refl _) hunknown
  | object className fields =>
    simp only [CasePlan.Matches.ofClass? h]
    cases CasePlan.ofClass? className ps' with
    | none => exact hunknown
    | some tag => exact H.refl _
  | _ => exact hunknown

namespace Plan

variable {follow : FollowBack M} {follow' : FollowBack N} {switches switches' : Switches}

/-- Plans that write alike. -/
def WriteAlike (H : Concord M N WriteError.gist) (follow : FollowBack M) (follow' : FollowBack N)
    (switches switches' : Switches) (p p' : Plan) : Prop :=
  ∀ v, H.rel (p.write follow switches v) (p'.write follow' switches' v)

theorem writeParts_alike {cs cs' : List Converter}
    (h : List.Forall₂ (Keyed.Related (WriteAlike H follow follow' switches switches')) cs cs') :
    ∀ vs : List Value,
      H.rel (writeParts follow switches cs vs) (writeParts follow' switches' cs' vs) := by
  induction h with
  | nil =>
    intro vs
    rw [writeParts, writeParts] <;> first | exact H.refl _ | simp
  | cons hc _ ih =>
    intro vs
    cases vs with
    | nil => rw [writeParts, writeParts] <;> first | exact H.refl _ | simp
    | cons v vs =>
      rw [writeParts, writeParts]
      exact H.bind (hc v) fun t _ _ => H.bind (ih vs) fun ts _ _ => H.refl _

theorem isDropped_alike (dropping : Dropping) (v : Value) {form form' : FieldForm Plan}
    (h : FieldForm.Matches (WriteAlike H follow follow' switches switches') form form') :
    H.rel (isDropped follow switches form dropping v)
      (isDropped follow' switches' form' dropping v) := by
  cases dropping with
  | ifWrittenEqual default =>
    cases h with
    | flag =>
      rw [isDropped, isDropped]
      exact H.refl _
    | valued omission hc =>
      rw [isDropped, isDropped]
      exact H.bind (hc v) fun t _ _ => H.bind (hc default) fun u _ _ => H.refl _
  | _ =>
    rw [isDropped, isDropped]
    exact H.refl _

theorem writeField_alike (name : Text) (v : Value) {form form' : FieldForm Plan}
    (h : FieldForm.Matches (WriteAlike H follow follow' switches switches') form form') :
    H.rel (writeField follow switches name v form)
      (writeField follow' switches' name v form') := by
  cases h with
  | flag =>
    rw [writeField, writeField]
    exact H.bind (H.refl _) fun b _ _ => H.ite (H.refl _) (H.refl _)
  | valued omission hc =>
    rw [writeField, writeField]
    refine H.bind (H.refl _) fun omitted _ _ => H.ite (H.refl _) ?_
    exact H.bind (hc v) fun t _ _ => H.refl _

theorem writeFields_alike (hwriter : H.exact → writer = writer') (instanceOf : Option ClassInfo)
    (v : Value) {ps ps' : List (FieldPlan Plan)}
    (h : List.Forall₂ (FieldPlan.Matches (WriteAlike H follow follow' switches switches')) ps ps') :
    H.rel (writeFields follow switches writer instanceOf v ps)
      (writeFields follow' switches' writer' instanceOf v ps') := by
  induction h with
  | nil =>
    rw [writeFields, writeFields]
    exact H.refl _
  | @cons p p' ps ps' hp _ ih =>
    obtain ⟨name, form, absent, dropping⟩ := p
    obtain ⟨name', form', absent', dropping'⟩ := p'
    obtain ⟨rfl, rfl, rfl, hform⟩ := hp
    rw [writeFields, writeFields]
    refine H.bind (fieldValue_alike hwriter instanceOf name absent v) fun x _ _ => ?_
    refine H.bind (isDropped_alike dropping x hform) fun dropped _ _ => ?_
    cases dropped with
    | true => exact H.bind (H.refl _) fun entry _ _ => H.bind ih fun ts _ _ => H.refl _
    | false =>
      exact H.bind (writeField_alike name x hform) fun entry _ _ => H.bind ih fun ts _ _ => H.refl _

theorem writeRecord_alike {r r' : RecordPlan Plan}
    (h : RecordPlan.Matches H.exact (WriteAlike H follow follow' switches switches') r r')
    (v : Value) :
    H.rel (writeRecord follow switches r v) (writeRecord follow' switches' r' v) := by
  obtain ⟨label, instanceOf, extra, fields⟩ := r
  obtain ⟨label', instanceOf', extra', fields'⟩ := r'
  obtain ⟨hlabel, rfl, rfl, hfields⟩ := h
  rw [writeRecord, writeRecord]
  exact writeFields_alike (fun h => congrArg _ (hlabel h)) instanceOf v hfields

/-- A list with one more item in front. -/
def prepend (head : Sexp) : Sexp → Sexp
  | .list items => .list (head :: items)
  | t => t

theorem writeRecord_prepend (head : Sexp) (r : RecordPlan Plan) (v : Value) :
    (writeRecord follow switches r v >>= fun ts => outcome (.ok (.list (head :: ts)))) =
      ((Plan.record r).write follow switches v >>= fun t => outcome (.ok (prepend head t))) := by
  have := LawfulCarrier.lawful (M := M) WriteError
  rw [write, bind_assoc]
  simp only [LawfulCarrier.outcome_ok, pure_bind, prepend]

theorem writeForm_alike (hwriter : H.exact → writer = writer') (tag : Text) (v : Value)
    (args : List Value) {form form' : CaseForm Plan}
    (h : CaseForm.Matches (WriteAlike H follow follow' switches switches') form form') :
    H.rel (writeForm follow switches writer tag v args form)
      (writeForm follow' switches' writer' tag v args form') := by
  cases h with
  | constant =>
    rw [writeForm, writeForm]
    exact H.refl _
  | arguments hcs =>
    rw [writeForm, writeForm, hcs.length_eq]
    refine H.ite ?_ (H.errors (fun h => by rw [hwriter h]) rfl)
    exact H.bind (writeParts_alike hcs args) fun ts _ _ => H.refl _
  | spliced hc =>
    rw [writeForm, writeForm]
    refine H.bind (H.refl _) fun items _ _ => ?_
    exact H.bind (writeEach_alike hc items) fun ts _ _ => H.refl _
  | record hr =>
    rw [writeForm, writeForm]
    refine H.bind (H.refl _) fun v _ _ => ?_
    rw [writeRecord_prepend, writeRecord_prepend]
    exact H.bind (hr v) fun t _ _ => H.refl _

theorem writeCase_alike (hwriter : H.exact → writer = writer') (tag : Text) (v : Value)
    (args : List Value) {ps ps' : List (CasePlan Plan)}
    (h : List.Forall₂ (CasePlan.Matches (WriteAlike H follow follow' switches switches')) ps ps') :
    H.rel (writeCase follow switches writer tag v args ps)
      (writeCase follow' switches' writer' tag v args ps') := by
  induction h with
  | nil =>
    rw [writeCase, writeCase]
    exact H.bind (H.refl _) fun t _ _ => H.errors (fun h => by rw [hwriter h]) rfl
  | @cons p p' ps ps' hp _ ih =>
    obtain ⟨t, instanceOf, form⟩ := p
    obtain ⟨t', instanceOf', form'⟩ := p'
    obtain ⟨rfl, rfl, hform⟩ := hp
    rw [writeCase, writeCase]
    exact H.ite (writeForm_alike hwriter tag v args hform) ih

theorem presentSexp_congr (hsw : switches.writesOldOption = switches'.writesOldOption) (t : Sexp) :
    presentSexp switches t = presentSexp switches' t := by
  unfold presentSexp
  rw [hsw]

theorem writeOption_alike (hsw : switches.writesOldOption = switches'.writesOldOption)
    (label label' : Text) {c c' : Converter}
    (h : Keyed.Related (WriteAlike H follow follow' switches switches') c c') :
    WriteAlike H follow follow' switches switches' (.option label c) (.option label' c') := by
  intro v
  by_cases hv : v = .none
  · subst hv
    rw [write, write, hsw]
    exact H.refl _
  · rw [write, write]
    · refine H.bind (h v) fun t _ _ => ?_
      rw [presentSexp_congr hsw]
      exact H.refl _
    all_goals exact hv

/-- **Plans that match write alike**, if their parts do. -/
theorem write_alike (hsw : switches.writesOldOption = switches'.writesOldOption) {p p' : Plan}
    (h : Plan.Matches H.exact (WriteAlike H follow follow' switches switches') p p') :
    WriteAlike H follow follow' switches switches' p p' := by
  intro v
  cases h with
  | option _ hc => exact writeOption_alike hsw _ _ hc v
  | primitive p =>
    rw [write, write]
    exact H.refl _
  | custom c =>
    rw [write, write]
    exact H.refl _
  | sealed _ =>
    rw [write, write]
    exact H.refl _
  | list _ hc =>
    rw [write, write]
    refine H.bind (H.refl _) fun items _ _ => ?_
    exact H.bind (writeEach_alike hc items) fun ts _ _ => H.refl _
  | array stored hlabel hc =>
    rw [write, write]
    refine H.bind (checkVector_alike (fun h => congrArg _ (hlabel h)) v) fun _ _ _ => ?_
    refine H.bind (H.refl _) fun items _ _ => ?_
    exact H.bind (writeEach_alike hc items) fun ts _ _ => H.refl _
  | tuple hlabel hcs =>
    rw [write, write, hcs.length_eq]
    refine H.bind (H.refl _) fun count _ _ => ?_
    refine H.ite ?_ (H.errors (fun h => by rw [hlabel h]) rfl)
    refine H.bind (H.refl _) fun items _ _ => ?_
    exact H.bind (writeParts_alike hcs items) fun ts _ _ => H.refl _
  | record hr =>
    rw [write, write]
    exact H.bind (writeRecord_alike hr v) fun ts _ _ => H.refl _
  | variant folding hlabel hcases =>
    have hwriter (h : H.exact) := congrArg Converter.writerName (hlabel h)
    rw [write, write]
    refine H.bind (constructorOf_alike hwriter hcases v) fun parts _ _ => ?_
    exact writeCase_alike hwriter parts.1 v parts.2 hcases

/-- A plan writes alike with links that are followed alike, where they stand in the plan. -/
theorem write_congr (hsw : switches.writesOldOption = switches'.writesOldOption) : ∀ p : Plan,
    (∀ cell id args, p.Holds cell id args → ∀ v,
      H.rel (follow cell id args v) (follow' cell id args v)) →
    WriteAlike H follow follow' switches switches' p p := by
  refine Plan.induct fun p hparts hfollow => ?_
  by_cases hp : p.isSettled false
  · refine write_alike hsw (.self hp fun q hq => hparts q hq fun cell id args hlink => ?_)
    exact hfollow cell id args (.part hq hlink)
  · cases p with
    | link cell id args =>
      intro v
      rw [write, write]
      exact hfollow cell id args .here v
    | _ => exact absurd rfl hp

end Plan

end Writing

end TypedSexp
