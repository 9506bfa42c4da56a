import TypedSexp.Proofs.Conversion.Regular
import TypedSexp.Proofs.Results
/-!
# What is read

A plan that is regular reads only values of it, whatever the spelling: the parts of a tuple are read
one by one, fields from their entries or as their absent values, and a tag names one of the
constructors. So what is read can be written again (`Regular.takes_of_readWithin`).
-/

namespace TypedSexp

/-! ## Integers -/

namespace Value

mutual

/-- The integers in a value. -/
def integers : Value → List Int
  | .int n => [n]
  | .list items => integersOf items
  | .tuple items => integersOf items
  | .record entries => integersOfEntries entries
  | .object _ fields => integersOfEntries fields
  | .variant _ args => integersOf args
  | .array _ _ items => integersOf items
  | .cell _ v => integers v
  | _ => []

/-- The integers in several values. -/
def integersOf : List Value → List Int
  | [] => []
  | v :: vs => integers v ++ integersOf vs

/-- The integers in several named values. -/
def integersOfEntries : List (Text × Value) → List Int
  | [] => []
  | (_, v) :: vs => integers v ++ integersOfEntries vs

end

/-- Every integer in the value has a decimal text. -/
def IsSpelled (v : Value) : Prop := ∀ n ∈ v.integers, (Spelling.writeInt? n).isSome

theorem integers_subset {v : Value} : ∀ {vs : List Value}, v ∈ vs → v.integers ⊆ integersOf vs
  | [], h => absurd h List.not_mem_nil
  | u :: vs, h => by
    rw [integersOf]
    rcases List.mem_cons.1 h with rfl | h
    · exact List.subset_append_left _ _
    · exact List.Subset.trans (integers_subset h) (List.subset_append_right _ _)

theorem integers_subset_entries {name : Text} {v : Value} : ∀ {entries : List (Text × Value)},
    (name, v) ∈ entries → v.integers ⊆ integersOfEntries entries
  | [], h => absurd h List.not_mem_nil
  | (n, u) :: entries, h => by
    rw [integersOfEntries]
    rcases List.mem_cons.1 h with heq | h
    · obtain ⟨rfl, rfl⟩ := Prod.mk.inj heq
      exact List.subset_append_left _ _
    · exact List.Subset.trans (integers_subset_entries h) (List.subset_append_right _ _)

end Value

/-! ## Built-in types -/

/-- What is read for a built-in type is a value of it. -/
theorem Primitive.holds_of_read {p : Primitive} {node : Node} {v : Value} (hp : p ≠ .float)
    (h : Builtin.read p node = .ok v) (hv : v.IsSpelled) : p.Holds v := by
  cases p with
  | unit =>
    cases node with
    | atom t loc => cases h
    | list items loc =>
      cases items with
      | nil =>
        obtain rfl := Except.ok.inj h
        exact .unit
      | cons _ _ => cases h
  | bool =>
    obtain ⟨t, -, h⟩ := bind_eq_ok.1 h
    cases hb : Builtin.readBool? t with
    | none => simp [hb] at h
    | some b =>
      obtain rfl : Value.bool b = v := by simpa [hb] using h
      exact .bool b
  | int =>
    obtain ⟨t, -, h⟩ := bind_eq_ok.1 h
    cases hn : Spelling.readInt t with
    | error e => cases e <;> simp [hn] at h
    | ok n =>
      obtain rfl : Value.int n = v := by simpa [hn] using h
      obtain ⟨digits, hdigits⟩ := Option.isSome_iff_exists.1 (hv n List.mem_cons_self)
      exact .int hdigits
  | float => exact absurd rfl hp
  | string =>
    obtain ⟨t, -, h⟩ := bind_eq_ok.1 h
    obtain rfl := Except.ok.inj h
    exact .string t
  | char =>
    obtain ⟨t, -, h⟩ := bind_eq_ok.1 h
    by_cases hlen : t.length = 1
    · obtain ⟨c, rfl⟩ := List.length_eq_one_iff.1 hlen
      obtain rfl := Except.ok.inj h
      exact .char c
    · simp [hlen] at h
  | bytes =>
    obtain ⟨t, -, h⟩ := bind_eq_ok.1 h
    cases hb : t.mapM Builtin.readByte? with
    | none => simp [hb] at h
    | some b =>
      obtain rfl : Value.bytes b = v := by simpa [hb] using h
      exact .bytes b
  | sexp =>
    obtain rfl := Except.ok.inj h
    exact .sexp _

/-- What is read for a built-in type is stored as it is. -/
theorem Primitive.store_of_read {p : Primitive} {node : Node} {v u : Value} (hp : p ≠ .float)
    (h : Builtin.read p node = .ok v) (hu : Storage.store p.element v = .ok u) : u = v := by
  cases p with
  | bool =>
    obtain ⟨t, -, h⟩ := bind_eq_ok.1 h
    cases hb : Builtin.readBool? t with
    | none => simp [hb] at h
    | some b =>
      obtain rfl : Value.bool b = v := by simpa [hb] using h
      exact (Except.ok.inj hu).symm
  | int =>
    obtain ⟨t, -, h⟩ := bind_eq_ok.1 h
    cases hn : Spelling.readInt t with
    | error e => cases e <;> simp [hn] at h
    | ok n =>
      obtain rfl : Value.int n = v := by simpa [hn] using h
      replace hu : Storage.storeInteger true .w64 (.int n) = .ok u := hu
      rw [Storage.storeInteger] at hu
      by_cases hrange : Storage.inRange true .w64 n = true
      · rw [if_pos hrange] at hu
        exact (Except.ok.inj hu).symm
      · rw [if_neg hrange] at hu
        cases ht : Spelling.writeInt? n <;> simp [ht] at hu
  | float => exact absurd rfl hp
  | _ => exact (Except.ok.inj hu).symm

namespace Setting

variable {s : Setting} {halts : Prop} {l : Ledger} {levels : Nat} {v : Value}

/-! ## Shapes -/

theorem parts_of_readParts {cs : List Converter} : ∀ {i : Nat} {nodes : List Node} {vs : List Value},
    s.readPartsAt levels i cs nodes = .ok vs → nodes.length = cs.length → cs.length = vs.length ∧
      ∀ (c : Converter) v, (c, v) ∈ cs.zip vs → ∃ node, s.readAt levels c.plan node = .ok v := by
  induction cs with
  | nil =>
    intro i nodes vs h hlen
    obtain rfl := List.length_eq_zero_iff.1 hlen
    rw [readPartsAt, Plan.readParts] at h
    · obtain rfl := Except.ok.inj h
      exact ⟨rfl, by simp⟩
    · simp
  | cons c cs ih =>
    intro i nodes vs h hlen
    obtain ⟨node, nodes, rfl⟩ := List.exists_cons_of_length_eq_add_one hlen
    replace h : ((s.readAt levels c.plan node).mapError (.within (.index i)) >>= fun v =>
      s.readPartsAt levels (i + 1) cs nodes >>= fun vs => .ok (v :: vs)) = .ok vs := h
    obtain ⟨v, hv, h⟩ := bind_eq_ok.1 h
    obtain ⟨vs', hvs, h⟩ := bind_eq_ok.1 h
    obtain rfl := Except.ok.inj h
    obtain ⟨hcount, hparts⟩ := ih hvs (Nat.succ.inj hlen)
    refine ⟨congrArg Nat.succ hcount, fun c' v' hmem => ?_⟩
    rcases List.mem_cons.1 hmem with heq | hmem
    · obtain ⟨rfl, rfl⟩ := Prod.mk.inj heq
      exact ⟨node, mapError_eq_ok.1 hv⟩
    · exact hparts c' v' hmem

theorem items_of_readEach {read : Node → Except ReadError Value} : ∀ {nodes : List Node} {i : Nat}
    {vs : List Value}, readEach read i nodes = .ok vs → ∀ v ∈ vs, ∃ node, read node = .ok v
  | [], _, _, h => by
    obtain rfl := Except.ok.inj h
    simp
  | node :: nodes, i, vs, h => by
    rw [readEach] at h
    obtain ⟨v, hv, h⟩ := bind_eq_ok.1 h
    obtain ⟨vs', hvs, h⟩ := bind_eq_ok.1 h
    obtain rfl := Except.ok.inj h
    intro u hu
    rcases List.mem_cons.1 hu with rfl | hu
    · exact ⟨node, mapError_eq_ok.1 hv⟩
    · exact items_of_readEach hvs u hu

theorem storeAll_fixed {e : ElementType} : ∀ {vs us : List Value},
    (∀ v ∈ vs, ∀ u, Storage.store e v = .ok u → u = v) → Storage.storeAll e vs = .ok us →
    us = vs ∧ ∀ v ∈ vs, Storage.store e v = .ok v
  | [], us, _, h => by
    obtain rfl := Except.ok.inj h
    simp
  | v :: vs, us, hstore, h => by
    rw [Storage.storeAll] at h
    cases hv : Storage.store e v with
    | error reason => simp [hv] at h
    | ok u =>
      cases hvs : Storage.storeAll e vs with
      | error fault => simp [hv, hvs] at h
      | ok us' =>
        obtain rfl := hstore v List.mem_cons_self u hv
        obtain ⟨rfl, hstored⟩ := storeAll_fixed (fun v hv => hstore v (List.mem_cons_of_mem _ hv)) hvs
        exact ⟨by simpa [hv, hvs] using h.symm, List.forall_mem_cons.2 ⟨hv, hstored⟩⟩

/-- An array that stores what is read, if it stores it as it is. -/
theorem values_of_storeEach {label : Text} {e : ElementType} {nodes : List Node} {vs : List Value}
    (hstore : ∀ v ∈ vs, ∀ u, Storage.store e v = .ok u → u = v)
    (h : storeEach label e nodes vs = .ok v) :
    v = .vector e vs ∧ ∀ v ∈ vs, Storage.store e v = .ok v := by
  rw [storeEach, Storage.vector] at h
  cases hus : Storage.storeAll e vs with
  | error fault =>
    obtain ⟨i, reason⟩ := fault
    rw [hus] at h
    cases reason <;> exact absurd h (by simp [Except.map])
  | ok us =>
    obtain ⟨rfl, hstored⟩ := storeAll_fixed hstore hus
    rw [hus] at h
    exact ⟨(Except.ok.inj h).symm, hstored⟩

/-! ## Records -/

theorem fields_of_readFields {what : Text} {present : List (Text × Node)} :
    ∀ {plans : List (FieldPlan Plan)} {ws : List (Text × Value)},
    (plans.map FieldPlan.name).Nodup →
    Plan.readFields (fun cell id args node => s.readWithin levels (.link cell id args) node) s.switches what
      present plans = .ok ws →
    ws.map Prod.fst = plans.map FieldPlan.name ∧
      ∀ p ∈ plans, ∃ w, ws.lookup p.name = some w ∧ s.readPresentAt levels what present p = .ok w
  | [], ws, _, h => by
    rw [Plan.readFields] at h
    obtain rfl := Except.ok.inj h
    simp
  | p :: plans, ws, hnodup, h => by
    obtain ⟨hhead, htail⟩ := List.nodup_cons.1 hnodup
    rw [readFields_cons] at h
    obtain ⟨v, hv, h⟩ := bind_eq_ok.1 h
    obtain ⟨ws', hws, h⟩ := bind_eq_ok.1 h
    obtain rfl := Except.ok.inj h
    obtain ⟨hnames, hfields⟩ := fields_of_readFields htail hws
    refine ⟨by rw [List.map_cons, hnames, List.map_cons], fun q hq => ?_⟩
    rcases List.mem_cons.1 hq with rfl | hq
    · exact ⟨v, List.lookup_cons_self, hv⟩
    · have hne : q.name ≠ p.name := fun heq => hhead (heq ▸ List.mem_map_of_mem hq)
      obtain ⟨w, hw, hread⟩ := hfields q hq
      exact ⟨w, by rw [List.lookup_cons, beq_false_of_ne hne]; exact hw, hread⟩

/-- What an entry is read as. -/
theorem fieldGives_of_readEntry {what : Text} {p : FieldPlan Plan} {entry : Node} {x : Value}
    (h : s.readEntryAt levels what p entry = .ok x)
    (htakes : ∀ c omission node, p.form = .valued c omission →
      s.readAt levels c.plan node = .ok x → s.Takes halts l c.plan x) : s.FieldGives halts l p x := by
  obtain ⟨name, form, absent, dropping⟩ := p
  cases form with
  | flag =>
    obtain ⟨_, -, h⟩ := bind_eq_ok.1 h
    obtain rfl := Except.ok.inj h
    exact .flag rfl
  | valued c omission =>
    obtain ⟨node, -, h⟩ := bind_eq_ok.1 h
    exact .valued rfl (htakes c omission node rfl h)

/-- What a record is read as: the values of its fields, each from an entry or absent. -/
theorem entries_of_readRecord {r : RecordPlan Plan} {node : Node} (hclass : r.instanceOf = none)
    (hnodup : (r.fields.map FieldPlan.name).Nodup) (h : s.readAt levels (.record r) node = .ok v) :
    ∃ ws, v = .record ws ∧ ws.map Prod.fst = r.fields.map FieldPlan.name ∧
      ∀ p ∈ r.fields, ∃ x, ws.lookup p.name = some x ∧ (p.absent = some x ∨
        ∃ what entry, s.readEntryAt levels what p entry = .ok x) := by
  obtain ⟨label, instanceOf, extra, plans⟩ := r
  obtain rfl : instanceOf = none := hclass
  rw [readAt, Plan.read] at h
  cases node with
  | atom t loc =>
    rw [Plan.readRecord] at h
    cases h
  | list items loc =>
    rw [Plan.readRecord] at h
    obtain ⟨present, -, h⟩ := bind_eq_ok.1 h
    by_cases hmissing :
        (RecordPlan.missing (⟨label, none, extra, plans⟩ : RecordPlan Plan) present).isEmpty = true
    · rw [if_pos hmissing] at h
      obtain ⟨ws, hws, h⟩ := bind_eq_ok.1 h
      obtain rfl := Except.ok.inj h
      obtain ⟨hnames, hfields⟩ := fields_of_readFields hnodup hws
      refine ⟨ws, rfl, hnames, fun p hp => ?_⟩
      obtain ⟨x, hx, hread⟩ := hfields p hp
      refine ⟨x, hx, ?_⟩
      rw [readPresentAt] at hread
      cases hentry : present.lookup p.name with
      | some entry =>
        rw [hentry] at hread
        exact .inr ⟨_, entry, mapError_eq_ok.1 hread⟩
      | none =>
        rw [hentry] at hread
        rw [List.isEmpty_iff, RecordPlan.missing, List.map_eq_nil_iff,
          List.filter_eq_nil_iff] at hmissing
        have hsome := hmissing p hp
        cases habsent : p.absent with
        | none => simp [hentry, habsent] at hsome
        | some a =>
          rw [habsent] at hread
          exact .inl (congrArg some (Except.ok.inj hread))
    · rw [if_neg hmissing] at h
      cases h

/-! ## Variants -/

/-- A variant is read as one of its constructors. -/
theorem case_of_readVariant {label : Text} {folding : Bool} {plans : List (CasePlan Plan)}
    {node : Node} (hnodup : (plans.map CasePlan.tag).Nodup)
    (h : s.readAt levels (.variant label folding plans) node = .ok v) :
    ∃ p ∈ plans, ∃ rest, s.readFormAt levels (Converter.readerName label) p.tag node rest p.instanceOf
      p.form = .ok v := by
  have hcase : ∀ {t tag : Text} {rest : Option (List Node)},
      Tags.resolve? folding (CasePlan.tags plans) t = some tag →
      Plan.readCase (fun cell id args node => s.readWithin levels (.link cell id args) node) s.switches
        (Converter.readerName label) tag node rest plans = .ok v →
      ∃ p ∈ plans, ∃ rest, s.readFormAt levels (Converter.readerName label) p.tag node rest
        p.instanceOf p.form = .ok v := by
    intro t tag rest htag h
    obtain ⟨p, hp, rfl⟩ := List.mem_map.1 (Tags.mem_of_resolveBy? htag)
    rw [Plan.readCase_of_mem _ _ _ _ _ hnodup hp] at h
    exact ⟨p, hp, rest, h⟩
  cases node with
  | atom t loc =>
    rw [readAt, Plan.read] at h
    cases htag : Tags.resolve? folding (CasePlan.tags plans) t with
    | none => simp [htag] at h
    | some tag =>
      simp only [htag] at h
      exact hcase htag h
  | list items loc =>
    cases items with
    | nil => cases h
    | cons head rest =>
      cases head with
      | list _ _ => cases h
      | atom t loc' =>
        rw [readAt, Plan.read] at h
        cases htag : Tags.resolve? folding (CasePlan.tags plans) t with
        | none => simp [htag] at h
        | some tag =>
          simp only [htag] at h
          exact hcase htag h

/-! ## Options -/

/-- An option is read as nothing, or as what stands inside it. -/
theorem value_of_readOption {label : Text} {c : Converter} {node : Node}
    (h : s.readAt levels (.option label c) node = .ok v) :
    v = .none ∨ ∃ item, s.readAt levels c.plan item = .ok v := by
  have hite : ∀ {p : Prop} [Decidable p] {x y : Except ReadError Value}, (if p then x else y) = .ok v →
      (∀ u, y ≠ .ok u) → x = .ok v := by
    intro p _ x y h hy
    by_cases hp : p
    · rwa [if_pos hp] at h
    · rw [if_neg hp] at h
      exact absurd h (hy v)
  unfold readAt at h
  rcases node with ⟨t, loc⟩ | ⟨_ | ⟨head, _ | ⟨item, _ | ⟨_, _⟩⟩⟩, loc⟩
  · rw [Plan.read] at h
    exact .inl (Except.ok.inj (hite h (by simp))).symm
  · rw [Plan.read] at h
    exact .inl (Except.ok.inj (hite h (by simp))).symm
  · rw [Plan.read] at h
    exact .inr ⟨head, hite h (by simp)⟩
  · cases head with
    | list _ _ =>
      rw [Plan.read] at h
      · simp at h
      all_goals simp
    | atom t _ =>
      rw [Plan.read] at h
      exact .inr ⟨item, hite h (by simp)⟩
  · rw [Plan.read] at h
    · cases head <;> simp at h
    all_goals simp

/-! ## Links -/

variable {numbering : Nat → Description} {Reaches : DefinitionId → List BoundType → Prop}
  {Through : DefinitionId → Nat → Prop}

/-- A regular plan comes to a regular shape. -/
theorem Regular.settles (hsound : s.Sound numbering l) (hcatalog : s.catalog.IsRegular Reaches Through)
    (haccepts : ¬ halts → ∀ id count, Through id count → s.catalog.Accepts id count) :
    ∀ {steps : Nat} {plan q : Plan} {layers : Nat}, s.Regular halts l Reaches plan →
    s.settleWithin false steps plan = .ok (layers, q) →
    s.Regular halts l Reaches q ∧ ∃ k, s.Leads l.Foresees false plan layers q k
  | 0, _, _, _, _, h => by cases h
  | steps + 1, plan, q, layers, hreg, h => by
    cases plan with
    | link cell id args =>
      rw [settleWithin] at h
      obtain ⟨c, hc, h⟩ := bind_eq_ok.1 h
      obtain ⟨hdefines, hplan⟩ := hreg.resolve hsound hcatalog haccepts hc
      obtain ⟨hq, k, hleads⟩ := Regular.settles hsound hcatalog haccepts hplan h
      exact ⟨hq, k + 1, .link hc hdefines hleads⟩
    | _ =>
      obtain ⟨rfl, rfl⟩ := Prod.mk.inj (Except.ok.inj h)
      exact ⟨hreg, 0, .here rfl⟩

/-! ## All plans -/

variable {plan : Plan} {node : Node}

/-- A value of a constructor is read as the form of the constructor says. -/
theorem takes_of_readForm {label : Text} {folding : Bool} {plans : List (CasePlan Plan)}
    {p : CasePlan Plan} {what : Text} {rest : Option (List Node)}
    (hnodup : (plans.map CasePlan.tag).Nodup) (hp : p ∈ plans) (hclass : p.instanceOf = none)
    (ih : ∀ q, p.form.Inside q → ∀ {node v}, s.readAt levels q node = .ok v → v.IsSpelled →
      s.Takes halts l q v)
    (h : s.readFormAt levels what p.tag node rest p.instanceOf p.form = .ok v) (hv : v.IsSpelled) :
    s.Takes halts l (.variant label folding plans) v := by
  rw [hclass] at h
  cases hform : p.form with
  | constant =>
    rw [hform] at h
    cases rest with
    | some items => cases h
    | none =>
      rw [readFormAt, Plan.readForm] at h
      obtain rfl := Except.ok.inj h
      exact .constant hnodup hp hclass hform
  | arguments cs =>
    rw [hform] at h
    cases rest with
    | none => cases h
    | some items =>
      rw [readFormAt, Plan.readForm] at h
      by_cases hlen : items.length = cs.length
      · simp only [hlen, if_true] at h
        obtain ⟨vs, hvs, h⟩ := bind_eq_ok.1 h
        obtain rfl := Except.ok.inj h
        obtain ⟨hcount, hparts⟩ := parts_of_readParts (mapError_eq_ok.1 hvs) hlen
        refine .arguments hnodup hp hclass hform hcount fun c u hmem => ?_
        obtain ⟨item, hread⟩ := hparts c u hmem
        obtain ⟨hc, hu⟩ := List.of_mem_zip hmem
        exact ih _ (hform ▸ .argument hc) hread fun n hn => hv n (Value.integers_subset hu hn)
      · simp only [hlen, if_false] at h
        cases h
  | spliced c =>
    rw [hform] at h
    cases rest with
    | none => cases h
    | some items =>
      rw [readFormAt, Plan.readForm] at h
      obtain ⟨vs, hvs, h⟩ := bind_eq_ok.1 h
      obtain rfl := Except.ok.inj h
      refine .spliced hnodup hp hclass hform fun u hu => ?_
      obtain ⟨item, hread⟩ := items_of_readEach (mapError_eq_ok.1 hvs) u hu
      refine ih _ (hform ▸ .element) hread fun n hn => hv n ?_
      simpa [Value.integers, Value.integersOf] using Value.integers_subset hu hn
  | record r =>
    rw [hform] at h
    cases rest with
    | none => cases h
    | some items =>
      rw [readFormAt, Plan.readForm] at h
      obtain ⟨u, hu, h⟩ := bind_eq_ok.1 h
      obtain rfl := Except.ok.inj h
      have hread : s.readAt levels (.record r) (.list items node.location) = .ok u := by
        rw [readAt, Plan.read]
        exact mapError_eq_ok.1 hu
      refine .inline hnodup hp hclass hform (ih _ (hform ▸ .fields) hread fun n hn => hv n ?_)
      simpa [Value.integers, Value.integersOf] using hn

/-- What a regular plan reads is a value of it, if that is so for the links inside. -/
theorem Regular.takes_of_links {Reaches : DefinitionId → List BoundType → Prop}
    (hlinks : ∀ cell id args node v, s.Regular halts l Reaches (.link cell id args) →
      s.readWithin levels (.link cell id args) node = .ok v → v.IsSpelled →
      s.Takes halts l (.link cell id args) v)
    (h : s.Regular halts l Reaches plan) :
    ∀ {node : Node} {v : Value}, s.readAt levels plan node = .ok v → v.IsSpelled →
      s.Takes halts l plan v := by
  induction h with
  | primitive hp =>
    intro node v hread hv
    rw [readAt, Plan.read] at hread
    exact .primitive hp (Primitive.holds_of_read hp hread hv)
  | @tuple label cs _ ih =>
    intro node v hread hv
    cases node with
    | atom t loc => cases hread
    | list items loc =>
      rw [readAt, Plan.read] at hread
      by_cases hlen : items.length = cs.length
      · rw [if_pos hlen] at hread
        obtain ⟨vs, hvs, hread⟩ := bind_eq_ok.1 hread
        obtain rfl := Except.ok.inj hread
        obtain ⟨hcount, hparts⟩ := parts_of_readParts hvs hlen
        refine .tuple hcount fun c u hmem => ?_
        obtain ⟨item, hread⟩ := hparts c u hmem
        obtain ⟨hc, hu⟩ := List.of_mem_zip hmem
        exact ih c hc hread fun n hn => hv n (Value.integers_subset hu hn)
      · rw [if_neg hlen] at hread
        cases hread
  | list _ ih =>
    intro node v hread hv
    cases node with
    | atom t loc => cases hread
    | list items loc =>
      rw [readAt, Plan.read] at hread
      obtain ⟨vs, hvs, hread⟩ := bind_eq_ok.1 hread
      obtain rfl := Except.ok.inj hread
      refine .list fun u hu => ?_
      obtain ⟨item, hread⟩ := items_of_readEach hvs u hu
      exact ih hread fun n hn => hv n (Value.integers_subset hu hn)
  | @array label e c he _ ih =>
    intro node v hread hv
    cases node with
    | atom t loc => cases hread
    | list items loc =>
      rw [readAt, Plan.read] at hread
      obtain ⟨vs, hvs, hread⟩ := bind_eq_ok.1 hread
      have hitems := items_of_readEach hvs
      have hstore : ∀ v ∈ vs, ∀ u, Storage.store e v = .ok u → u = v := by
        intro v hv u hu
        rcases he with rfl | ⟨p, hplan, hp, rfl⟩
        · exact (Except.ok.inj hu).symm
        · obtain ⟨item, hread⟩ := hitems v hv
          rw [hplan, Plan.read] at hread
          exact Primitive.store_of_read hp hread hu
      obtain ⟨rfl, hstored⟩ := values_of_storeEach hstore hread
      refine .array ?_ hstored fun u hu => ?_
      · rcases he with rfl | ⟨p, -, hp, rfl⟩
        · rfl
        · cases p <;> first | rfl | exact absurd rfl hp
      · obtain ⟨item, hread⟩ := hitems u hu
        exact ih hread fun n hn => hv n (Value.integers_subset hu hn)
  | option _ ih =>
    intro node v hread hv
    rcases value_of_readOption hread with rfl | ⟨item, hread⟩
    · exact .nothing
    · by_cases hne : v = .none
      · exact hne ▸ .nothing
      · exact .something hne (ih hread hv)
  | @record r hclass hnodup hkeeps habsent _ ih =>
    intro node v hread hv
    obtain ⟨ws, rfl, hnames, hfields⟩ := entries_of_readRecord hclass hnodup hread
    have hspelled : ∀ name x, ws.lookup name = some x → x.IsSpelled := fun name x hx n hn =>
      hv n (Value.integers_subset_entries (mem_of_lookup hx) hn)
    have hgives : ∀ p ∈ r.fields, ∀ x, ws.lookup p.name = some x → s.FieldGives halts l p x := by
      intro p hp x hx
      obtain ⟨x', hx', hread⟩ := hfields p hp
      obtain rfl := Option.some.inj (hx.symm.trans hx')
      rcases hread with habsent | ⟨what, entry, hread⟩
      · exact .absent habsent
      · exact fieldGives_of_readEntry hread fun c omission node hform hread =>
          ih p hp c omission hform hread (hspelled p.name x hx)
    refine .record hclass hnodup (hnames ▸ .refl _) (fun p hp x hx => hkeeps p hp x (hgives p hp x hx))
      fun p hp x c omission hx hform homit => ?_
    cases hgives p hp x hx with
    | flag hform' => exact absurd (hform.symm.trans hform') (by simp)
    | valued hform' hx =>
      obtain ⟨rfl, -⟩ := FieldForm.valued.inj (hform.symm.trans hform')
      exact hx
    | absent habs => exact habsent p hp c omission x hform habs homit
  | variant hnodup hclass _ ih =>
    intro node v hread hv
    obtain ⟨p, hp, rest, hread⟩ := case_of_readVariant hnodup hread
    exact takes_of_readForm hnodup hp (hclass p hp) (ih p hp) hread hv
  | link henv hargs hreaches =>
    intro node v hread hv
    exact hlinks _ _ _ node v (.link henv hargs hreaches) hread hv

/-- **What a regular plan reads is a value of it.** -/
theorem Regular.takes_of_readWithin (hsound : s.Sound numbering l)
    (hcatalog : s.catalog.IsRegular Reaches Through)
    (haccepts : ¬ halts → ∀ id count, Through id count → s.catalog.Accepts id count) :
    ∀ {levels : Nat} {plan : Plan} {node : Node} {v : Value}, s.Regular halts l Reaches plan →
    s.readWithin levels plan node = .ok v → v.IsSpelled → s.Takes halts l plan v
  | 0, _, _, _, _, hread, _ => by cases hread
  | levels + 1, plan, node, v, hreg, hread, hv => by
    rw [readWithin_succ] at hread
    obtain ⟨⟨layers, q⟩, hsettle, hread⟩ := bind_eq_ok.1 hread
    replace hsettle := mapError_eq_ok.1 hsettle
    rw [settle_eq] at hsettle
    by_cases hendless : plan.head false (s.catalog.heads false) = .endless
    · rw [if_pos hendless] at hsettle
      cases hsettle
    · rw [if_neg hendless] at hsettle
      obtain ⟨hq, k, hleads⟩ := Regular.settles hsound hcatalog haccepts hreg hsettle
      refine .of_leads hleads
        (Regular.takes_of_links (fun cell id args node v hreg hread hv => ?_) hq hread hv)
      exact Regular.takes_of_readWithin hsound hcatalog haccepts hreg hread hv

end Setting

end TypedSexp
