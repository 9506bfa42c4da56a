import TypedSexp.Proofs.Conversion.Levels
/-!
# Tuples, lists and arrays

If what a sequence holds makes the round trip, so does the sequence. The parts of a tuple and the
arguments of a constructor are converted one by one (`parts_roundTrip`); the items of a list are
parts that share a converter. Items of an array are written as elements of it, and what is read must
be stored as it is.
-/

namespace TypedSexp

theorem Sexp.depth_le_censusAll {t : Sexp} : ∀ {ts : List Sexp}, t ∈ ts →
    t.census.depth ≤ (censusAll ts).depth
  | [], h => absurd h List.not_mem_nil
  | u :: ts, h => by
    rw [censusAll]
    rcases List.mem_cons.1 h with rfl | h
    · exact Nat.le_max_left ..
    · exact Nat.le_trans (depth_le_censusAll h) (Nat.le_max_right ..)

/-- The items of a list are less deep. -/
theorem Sexp.depth_of_mem {t : Sexp} {ts : List Sexp} (ht : t ∈ ts) {n : Nat}
    (h : (Sexp.list ts).census.depth ≤ n + 1) : t.census.depth ≤ n :=
  Nat.le_trans (depth_le_censusAll ht) (Nat.le_of_succ_le_succ h)

/-- A tree that is a list is read from a node with nodes for the items. -/
theorem Node.eq_list_of_sexp {node : Node} {ts : List Sexp} (h : node.sexp = .list ts) :
    ∃ items l, node = .list items l ∧ items.map Node.sexp = ts := by
  cases node with
  | atom text l => simp [Node.sexp] at h
  | list items l =>
    rw [Node.sexp, Node.sexps_eq_map, Sexp.list.injEq] at h
    exact ⟨items, l, rfl, h⟩

namespace Setting

variable {s : Setting} {lone halts : Prop} {c : Converter} {cs : List Converter} {vs : List Value}

/-- Writes parts with so many levels for the links inside. -/
abbrev writePartsAt (s : Setting) (levels : Nat) (cs : List Converter) (vs : List Value) :
    Except WriteError (List Sexp) :=
  Plan.writeParts (fun cell id args v => s.writeWithin levels (.link cell id args) v) s.switches cs vs

/-- Reads parts with so many levels for the links inside. -/
abbrev readPartsAt (s : Setting) (levels i : Nat) (cs : List Converter) (nodes : List Node) :
    Except ReadError (List Value) :=
  Plan.readParts (fun cell id args node => s.readWithin levels (.link cell id args) node) s.switches i cs nodes

/-- The trees read as the values, if none is deeper than the levels. -/
def PartsReadBack (s : Setting) (lone : Prop) (cs : List Converter) (vs : List Value) (ts : List Sexp) : Prop :=
  ∀ levels i nodes, nodes.map Node.sexp = ts → (∀ t ∈ ts, t.census.depth ≤ levels) →
    ∃ ws, s.readPartsAt levels i cs nodes = .ok ws ∧ List.Forall₂ (Value.Like lone) vs ws

/-- **Parts that make the round trip one by one make it together.** -/
theorem parts_roundTrip {need levels : Nat}
    (h : List.Forall₂ (fun c v => s.RoundTrips lone halts 0 need c.plan v) cs vs)
    (hle : need ≤ levels) :
    Yields halts (s.writePartsAt levels cs vs) fun ts =>
      ts.length = cs.length ∧ s.PartsReadBack lone cs vs ts := by
  induction h with
  | nil =>
    refine .of_eq rfl ⟨rfl, fun levels i nodes hnodes _ => ⟨[], ?_, .nil⟩⟩
    rw [readPartsAt, Plan.readParts] <;> simp
  | @cons c v cs vs hc _ ih =>
    refine (hc levels hle).bind fun t _ hback => ih.bind fun ts _ ⟨hlen, hbacks⟩ => ?_
    refine .pure ⟨congrArg Nat.succ hlen, fun levels i nodes hnodes hle => ?_⟩
    obtain ⟨node, nodes, rfl, hnode, hnodes⟩ := List.map_eq_cons_iff.1 hnodes
    obtain ⟨w, hw, hlike⟩ := hback levels node hnode (hle t List.mem_cons_self)
    obtain ⟨ws, hws, hlikes⟩ :=
      hbacks levels (i + 1) nodes hnodes fun t ht => hle t (List.mem_cons_of_mem _ ht)
    refine ⟨w :: ws, ?_, .cons hlike hlikes⟩
    show ((s.readAt levels c.plan node).mapError (.within (.index i)) >>= fun v =>
      s.readPartsAt levels (i + 1) cs nodes >>= fun vs => .ok (v :: vs)) = _
    rw [hw, hws]
    rfl

/-! ## Items share a converter -/

theorem writeEach_eq_writeParts (s : Setting) (levels : Nat) (c : Converter) (vs : List Value) :
    writeEach (s.writeAt levels c.plan) vs =
      s.writePartsAt levels (List.replicate vs.length c) vs := by
  induction vs with
  | nil => rfl
  | cons v vs ih =>
    rw [writeEach, ih]
    rfl

theorem readEach_eq_readParts (s : Setting) (levels : Nat) (c : Converter) (nodes : List Node) :
    ∀ i, readEach (s.readAt levels c.plan) i nodes =
      s.readPartsAt levels i (List.replicate nodes.length c) nodes := by
  induction nodes with
  | nil => intro i; rfl
  | cons node nodes ih =>
    intro i
    rw [readEach, ih]
    rfl

/-- The trees read as the items, if none is deeper than the levels. -/
def ItemsReadBack (s : Setting) (lone : Prop) (c : Converter) (vs : List Value) (ts : List Sexp) : Prop :=
  ∀ levels i nodes, nodes.map Node.sexp = ts → (∀ t ∈ ts, t.census.depth ≤ levels) →
    ∃ ws, readEach (s.readAt levels c.plan) i nodes = .ok ws ∧ List.Forall₂ (Value.Like lone) vs ws

theorem items_roundTrip {need levels : Nat} (h : ∀ v ∈ vs, s.RoundTrips lone halts 0 need c.plan v)
    (hle : need ≤ levels) :
    Yields halts (writeEach (s.writeAt levels c.plan) vs) (s.ItemsReadBack lone c vs) := by
  have hparts : List.Forall₂ (fun c v => s.RoundTrips lone halts 0 need c.plan v)
      (List.replicate vs.length c) vs := by
    induction vs with
    | nil => exact .nil
    | cons v vs ih =>
      exact .cons (h v List.mem_cons_self) (ih fun v hv => h v (List.mem_cons_of_mem _ hv))
  rw [writeEach_eq_writeParts]
  refine (parts_roundTrip hparts hle).imp fun ts ⟨hlen, hback⟩ levels i nodes hnodes hle => ?_
  obtain ⟨ws, hws, hlike⟩ := hback levels i nodes hnodes hle
  refine ⟨ws, ?_, hlike⟩
  have hcount : nodes.length = vs.length := by
    rw [← List.length_map (f := Node.sexp), hnodes, hlen, List.length_replicate]
  rw [readEach_eq_readParts, hcount, hws]

/-! ## Sequences -/

theorem roundTrips_tuple (label : Text) {need : Nat}
    (h : List.Forall₂ (fun c v => s.RoundTrips lone halts 0 need c.plan v) cs vs) :
    s.RoundTrips lone halts 1 need (.tuple label cs) (.tuple vs) := by
  intro levels hle
  have hlen := h.length_eq
  show Yields halts (if vs.length = cs.length then
      s.writePartsAt levels cs vs >>= fun ss => .ok (Sexp.list ss)
    else .error (.tupleLength (Converter.writerName label) cs.length vs.length)) _
  rw [if_pos hlen.symm]
  refine (parts_roundTrip h hle).bind fun ts _ ⟨hcount, hback⟩ => .pure ?_
  intro levels node hnode hle
  obtain ⟨items, l, rfl, hitems⟩ := Node.eq_list_of_sexp hnode
  obtain ⟨ws, hws, hlike⟩ := hback levels 0 items hitems fun t ht => Sexp.depth_of_mem ht hle
  have hitemCount : items.length = cs.length := by
    rw [← hcount, ← hitems, List.length_map]
  obtain ⟨hlikeLen, hlikes⟩ := List.forall₂_iff_zip.1 hlike
  refine ⟨.tuple ws, ?_, .tuple hlikeLen fun x y hmem => hlikes hmem⟩
  rw [readAt, Plan.read, if_pos hitemCount]
  show (s.readPartsAt levels 0 cs items >>= fun ws => .ok (Value.tuple ws)) = _
  rw [hws]
  rfl

theorem roundTrips_list (label : Text) {need : Nat}
    (h : ∀ v ∈ vs, s.RoundTrips lone halts 0 need c.plan v) :
    s.RoundTrips lone halts 1 need (.list label c) (.list vs) := by
  intro levels hle
  show Yields halts (writeEach (s.writeAt levels c.plan) vs >>= fun ss => .ok (Sexp.list ss)) _
  refine (items_roundTrip h hle).bind fun ts _ hback => .pure ?_
  intro levels node hnode hle
  obtain ⟨items, l, rfl, hitems⟩ := Node.eq_list_of_sexp hnode
  obtain ⟨ws, hws, hlike⟩ := hback levels 0 items hitems fun t ht => Sexp.depth_of_mem ht hle
  obtain ⟨hlikeLen, hlikes⟩ := List.forall₂_iff_zip.1 hlike
  refine ⟨.list ws, ?_, .list hlikeLen fun x y hmem => hlikes hmem⟩
  show (readEach (s.readAt levels c.plan) 0 items >>= fun ws => .ok (Value.list ws)) = _
  rw [hws]
  rfl

/-- What is read for the elements of an array is stored. -/
theorem storeAll_like {e : ElementType} {ws : List Value}
    (h : List.Forall₂ (Value.Like lone) vs ws)
    (hstore : ∀ v ∈ vs, ∀ w, v.Like lone w → ∃ u, Storage.store e w = .ok u ∧ v.Like lone u) :
    ∃ us, Storage.storeAll e ws = .ok us ∧ List.Forall₂ (Value.Like lone) vs us := by
  induction h with
  | nil => exact ⟨[], rfl, .nil⟩
  | @cons v w vs ws hlike _ ih =>
    obtain ⟨u, hu, hlike⟩ := hstore v List.mem_cons_self w hlike
    obtain ⟨us, hus, hlikes⟩ := ih fun v hv => hstore v (List.mem_cons_of_mem _ hv)
    exact ⟨u :: us, by rw [Storage.storeAll, hu, hus], .cons hlike hlikes⟩

theorem writeEach_congr {f g : Value → Except WriteError Sexp} (h : ∀ v ∈ vs, f v = g v) :
    writeEach f vs = writeEach g vs := by
  induction vs with
  | nil => rfl
  | cons v vs ih =>
    rw [writeEach, writeEach, h v List.mem_cons_self, ih fun v hv => h v (List.mem_cons_of_mem _ hv)]

theorem writeEach_map (f : Value → Except WriteError Sexp) (g : Value → Value) (vs : List Value) :
    writeEach f (vs.map g) = writeEach (fun v => f (g v)) vs := by
  induction vs with
  | nil => rfl
  | cons v vs ih =>
    rw [List.map_cons, writeEach, writeEach, ih]

/-- An array whose elements are written as the values that they hold, and stored as they are
read. -/
theorem roundTrips_array (label : Text) {e : ElementType} {need : Nat}
    (hwrite : ∀ v ∈ vs, ∀ levels,
      s.writeAt levels c.plan (.ofElement e v) = s.writeAt levels c.plan v)
    (hstore : ∀ v ∈ vs, ∀ w, v.Like lone w → ∃ u, Storage.store e w = .ok u ∧ v.Like lone u)
    (h : ∀ v ∈ vs, s.RoundTrips lone halts 0 need c.plan v) :
    s.RoundTrips lone halts 1 need (.array label e c) (.vector e vs) := by
  intro levels hle
  show Yields halts (writeEach (s.writeAt levels c.plan) (vs.map (.ofElement e)) >>= fun ss =>
    .ok (Sexp.list ss)) _
  rw [writeEach_map, writeEach_congr fun v hv => hwrite v hv levels]
  refine (items_roundTrip h hle).bind fun ts _ hback => .pure ?_
  intro levels node hnode hle
  obtain ⟨items, l, rfl, hitems⟩ := Node.eq_list_of_sexp hnode
  obtain ⟨ws, hws, hlike⟩ := hback levels 0 items hitems fun t ht => Sexp.depth_of_mem ht hle
  obtain ⟨us, hus, hlike⟩ := storeAll_like hlike hstore
  obtain ⟨hlikeLen, hlikes⟩ := List.forall₂_iff_zip.1 hlike
  refine ⟨.vector e us, ?_, ?_⟩
  · show (readEach (s.readAt levels c.plan) 0 items >>= storeEach label e items) = _
    rw [hws]
    show storeEach label e items ws = _
    rw [storeEach, Storage.vector, hus]
    rfl
  · rw [Value.vector, Value.vector, hlikeLen]
    exact .array hlikeLen fun x y hmem => hlikes hmem

end Setting

end TypedSexp
