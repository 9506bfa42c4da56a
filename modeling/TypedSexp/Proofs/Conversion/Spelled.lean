import TypedSexp.Proofs.Conversion.Walk
/-!
# Where integers come from

An integer that is read is spelled by an atom of the tree (`Setting.comesFrom_of_readBy`), and only
such an integer can be a value that an array neither stores nor names (`Storage.int_of_store`).
-/

namespace TypedSexp

/-- The atom stands in the tree. -/
def Node.Mentions (node : Node) (t : Text) : Prop := ∃ l, node.Contains (.atom t l)

theorem Node.Mentions.of_item {items : List Node} {l : Option Location} {item : Node} {t : Text}
    (hi : item ∈ items) (h : item.Mentions t) : (Node.list items l).Mentions t := by
  obtain ⟨l', h⟩ := h
  exact ⟨l', .item hi h⟩

theorem Node.Mentions.of_tail {items : List Node} {head : Node} {l l' : Option Location} {t : Text}
    (h : (Node.list items l).Mentions t) : (Node.list (head :: items) l').Mentions t := by
  obtain ⟨l'', h⟩ := h
  cases h with
  | item hi h => exact ⟨l'', .item (List.mem_cons_of_mem _ hi) h⟩

theorem Node.Mentions.of_presented {switches : Switches} {node item : Node} {t : Text}
    (hitem : Presented switches node item) (h : item.Mentions t) : node.Mentions t := by
  cases hitem with
  | old _ => exact .of_item List.mem_cons_self h
  | new _ => exact .of_item (by simp) h

/-! ## Integers that are read -/

namespace Value

/-- The value holds several others, or is an instance. -/
def isComposite : Value → Bool
  | .list _ => true
  | .tuple _ => true
  | .record _ => true
  | .object .. => true
  | .variant .. => true
  | .array _ (_ :: _) _ => true
  | _ => false

/-- The value holds a single one, which arrays take instead of it. -/
def isWrapped : Value → Bool
  | .cell .. => true
  | .array _ [] _ => true
  | _ => false

/-- If the value is an integer, an atom of the tree spells it. -/
structure ComesFrom (node : Node) (v : Value) : Prop where
  wrapped : v.isWrapped = false
  int : ∀ n, v = .int n → ∃ t, node.Mentions t ∧ Spelling.readInt t = .ok n

theorem ComesFrom.imp {node inner : Node} {v : Value}
    (hinner : ∀ t, inner.Mentions t → node.Mentions t) (h : v.ComesFrom inner) :
    v.ComesFrom node := by
  refine ⟨h.wrapped, fun n hn => ?_⟩
  obtain ⟨t, ht, hread⟩ := h.int n hn
  exact ⟨t, hinner t ht, hread⟩

theorem comesFrom_of_isComposite {node : Node} {v : Value} (h : v.isComposite) :
    v.ComesFrom node := by
  refine ⟨?_, fun n hn => absurd h (by simp [hn, isComposite])⟩
  cases v with
  | array e shape items =>
    cases shape with
    | nil => exact absurd h (by simp [isComposite])
    | cons _ _ => rfl
  | cell _ _ => exact absurd h (by simp [isComposite])
  | _ => rfl

end Value

/-- What is read for a built-in type comes from the atom. -/
theorem Builtin.comesFrom_of_read {p : Primitive} {node : Node} {v : Value}
    (h : read p node = .ok v) : v.ComesFrom node := by
  cases p with
  | int =>
    obtain ⟨t, ht, h⟩ := bind_eq_ok.1 h
    cases node with
    | list items l => cases ht
    | atom u l =>
      obtain rfl : u = t := Except.ok.inj ht
      cases hn : Spelling.readInt u with
      | error fault => cases fault <;> simp [hn] at h
      | ok n =>
        obtain rfl : Value.int n = v := by simpa [hn] using h
        exact ⟨rfl, fun m hm => ⟨u, ⟨l, .self _⟩, Value.int.inj hm ▸ hn⟩⟩
  | unit =>
    rcases node with ⟨t, l⟩ | ⟨_ | ⟨item, items⟩, l⟩
    · cases h
    · obtain rfl := Except.ok.inj h
      exact ⟨rfl, by simp⟩
    · cases h
  | string =>
    obtain ⟨t, -, h⟩ := bind_eq_ok.1 h
    obtain rfl := Except.ok.inj h
    exact ⟨rfl, by simp⟩
  | sexp =>
    obtain rfl := Except.ok.inj h
    exact ⟨rfl, by simp⟩
  | _ =>
    obtain ⟨t, -, h⟩ := bind_eq_ok.1 h
    split at h
    · obtain rfl := Except.ok.inj h
      exact ⟨rfl, by simp⟩
    · cases h

namespace Storage

theorem storeWord_ne_unspellable (signed : Bool) (width : Width) (n : Int) :
    storeWord signed width n ≠ .error .unspellable := by
  unfold storeWord
  split
  · simp
  · split
    · simp
    · split <;> simp

theorem storeRead_ne_unspellable (signed : Bool) (width : Width) (literal : Text)
    (x : Except Spelling.LooseFault Int) : storeRead signed width literal x ≠ .error .unspellable := by
  rcases x with (_ | _) | n
  · simp [storeRead]
  · simp [storeRead]
  · exact storeWord_ne_unspellable signed width n

theorem storeFloat_ne_unspellable (fit : Binary64 → Binary64) {v : Value}
    (hv : v.isWrapped = false) : storeFloat fit v ≠ .error .unspellable := by
  intro h
  cases v with
  | int n =>
    rw [storeFloat] at h
    split at h <;> simp at h
  | text t =>
    rw [storeFloat] at h
    split at h <;> simp at h
  | bytes b =>
    rw [storeFloat] at h
    split at h <;> simp at h
  | cell _ _ => exact absurd hv (by simp [Value.isWrapped])
  | array e shape items =>
    cases shape with
    | nil => exact absurd hv (by simp [Value.isWrapped])
    | cons _ _ => simp [storeFloat, refusedFloat] at h
  | sexp t => cases t <;> simp [storeFloat, refusedFloat] at h
  | _ => simp [storeFloat, refusedFloat] at h

/-- An integer type only fails to name an integer without a decimal text. -/
theorem int_of_storeInteger {signed : Bool} {width : Width} {v : Value} (hv : v.isWrapped = false)
    (h : storeInteger signed width v = .error .unspellable) :
    ∃ n, v = .int n ∧ Spelling.writeInt? n = none := by
  cases v with
  | int n =>
    rw [storeInteger] at h
    split at h
    · cases h
    · cases hn : Spelling.writeInt? n with
      | none => exact ⟨n, rfl, hn⟩
      | some t => simp [hn] at h
  | float x =>
    cases x with
    | nan _ => simp [storeInteger] at h
    | _ =>
      simp only [storeInteger] at h
      split at h
      · exact absurd h (storeWord_ne_unspellable _ _ _)
      · cases h
  | text t =>
    rw [storeInteger] at h
    exact absurd h (storeRead_ne_unspellable _ _ _ _)
  | bytes b =>
    rw [storeInteger] at h
    exact absurd h (storeRead_ne_unspellable _ _ _ _)
  | cell _ _ => exact absurd hv (by simp [Value.isWrapped])
  | array e shape items =>
    cases shape with
    | nil => exact absurd hv (by simp [Value.isWrapped])
    | cons _ _ => simp [storeInteger, refusedInteger] at h
  | _ => simp [storeInteger, refusedInteger] at h

/-- A value that is not stored and cannot be named is an integer without a decimal text. -/
theorem int_of_store {e : ElementType} {v : Value} (hv : v.isWrapped = false)
    (h : store e v = .error .unspellable) : ∃ n, v = .int n ∧ Spelling.writeInt? n = none := by
  cases e with
  | integer signed width => exact int_of_storeInteger hv h
  | single => exact absurd h (storeFloat_ne_unspellable _ hv)
  | double => exact absurd h (storeFloat_ne_unspellable _ hv)
  | boolean =>
    rw [store, storeBoolean] at h
    split at h <;> simp at h
  | any => exact absurd h (by simp [store])

end Storage

/-! ## Values that are read -/

section Composite

variable {follow : Follow Except} {switches : Switches} {what tag : Text} {v : Value}

theorem isComposite_of_ofNamed {c : ClassInfo} {values : List (Text × Value)}
    (h : c.ofNamed values = .ok v) : v.isComposite := by
  unfold ClassInfo.ofNamed at h
  split at h
  · split at h
    · obtain rfl := Except.ok.inj h
      rfl
    · cases h
  · cases h

theorem isComposite_of_make {instanceOf : Option ClassInfo} {args : List Value}
    (h : CasePlan.make tag instanceOf args = .ok v) : v.isComposite := by
  cases instanceOf with
  | none =>
    obtain rfl := Except.ok.inj h
    rfl
  | some c =>
    replace h : c.ofOrdered args = .ok v := h
    unfold ClassInfo.ofOrdered at h
    split at h
    · obtain rfl := Except.ok.inj h
      rfl
    · cases h

theorem isComposite_of_readRecord {r : RecordPlan Plan} {node : Node}
    (h : Plan.readRecord follow switches r node = .ok v) : v.isComposite := by
  obtain ⟨label, instanceOf, extra, fields⟩ := r
  cases node with
  | atom t l =>
    rw [Plan.readRecord] at h
    cases h
  | list items l =>
    rw [Plan.readRecord] at h
    obtain ⟨present, -, h⟩ := bind_eq_ok.1 h
    dsimp only at h
    split at h
    · obtain ⟨values, -, h⟩ := bind_eq_ok.1 h
      cases instanceOf with
      | none =>
        obtain rfl := Except.ok.inj h
        rfl
      | some c => exact isComposite_of_ofNamed h
    · cases h

/-- What is read behind a tag is made from arguments, or it is the record itself if the constructor
has a class. -/
theorem made_of_readForm {node : Node} {rest : Option (List Node)} {instanceOf : Option ClassInfo}
    {form : CaseForm Plan}
    (h : Plan.readForm follow switches what tag node rest instanceOf form = .ok v) :
    (∃ args, CasePlan.make tag instanceOf args = .ok v) ∨
      ∃ r k inner, form = .record r ∧ instanceOf = some k ∧
        Plan.readRecord follow switches r inner = .ok v := by
  cases rest with
  | none =>
    cases form with
    | constant =>
      rw [Plan.readForm] at h
      exact .inl ⟨_, h⟩
    | _ =>
      rw [Plan.readForm] at h
      cases h
  | some items =>
    cases form with
    | constant =>
      rw [Plan.readForm] at h
      cases h
    | arguments cs =>
      rw [Plan.readForm] at h
      split at h
      · obtain ⟨args, -, h⟩ := bind_eq_ok.1 h
        exact .inl ⟨args, h⟩
      · cases h
    | spliced c =>
      rw [Plan.readForm] at h
      obtain ⟨values, -, h⟩ := bind_eq_ok.1 h
      exact .inl ⟨_, h⟩
    | record r =>
      rw [Plan.readForm] at h
      obtain ⟨w, hw, h⟩ := bind_eq_ok.1 h
      cases instanceOf with
      | none => exact .inl ⟨[w], h⟩
      | some k =>
        obtain rfl := Except.ok.inj h
        exact .inr ⟨r, k, _, rfl, rfl, mapError_eq_ok.1 hw⟩

theorem isComposite_of_readForm {node : Node} {rest : Option (List Node)}
    {instanceOf : Option ClassInfo} {form : CaseForm Plan}
    (h : Plan.readForm follow switches what tag node rest instanceOf form = .ok v) :
    v.isComposite := by
  rcases made_of_readForm h with ⟨args, h⟩ | ⟨r, k, inner, -, -, h⟩
  · exact isComposite_of_make h
  · exact isComposite_of_readRecord h

theorem isComposite_of_readCase {node : Node} {rest : Option (List Node)} :
    ∀ {ps : List (CasePlan Plan)}, Plan.readCase follow switches what tag node rest ps = .ok v →
      v.isComposite
  | [], h => by
    rw [Plan.readCase] at h
    cases h
  | ⟨t, instanceOf, form⟩ :: ps, h => by
    rw [Plan.readCase] at h
    split at h
    · exact isComposite_of_readForm h
    · exact isComposite_of_readCase h

theorem isComposite_of_readVariant {label : Text} {folding : Bool} {cases : List (CasePlan Plan)}
    {node : Node} (h : (Plan.variant label folding cases).read follow switches node = .ok v) :
    v.isComposite := by
  rcases node with ⟨t, l⟩ | ⟨_ | ⟨⟨t, l'⟩ | ⟨_, _⟩, rest⟩, l⟩
  · rw [Plan.read] at h
    split at h
    · exact isComposite_of_readCase h
    · cases h
  · rw [Plan.read] at h
    cases h
  · rw [Plan.read] at h
    split at h
    · exact isComposite_of_readCase h
    · cases h
  · rw [Plan.read] at h
    · cases h
    all_goals simp

end Composite

/-! ## What a plan reads -/

namespace Setting

variable {numbering : Nat → Description} {l : Ledger} {s : Setting} {t u : BoundType} {plan : Plan}
  {node : Node} {v : Value}

/-- What an option holds is read from a part of the tree. -/
theorem presented_of_readOption {label : Text} {c : Converter}
    (h : s.readBy (.option label c) node = .ok v) :
    v = .none ∨ ∃ item, Presented s.switches node item ∧ s.readBy c.plan item = .ok v := by
  rcases node with ⟨t, loc⟩ | ⟨_ | ⟨head, _ | ⟨item, _ | ⟨_, _⟩⟩⟩, loc⟩
  · rw [readBy, Plan.read] at h
    split at h
    · exact .inl (Except.ok.inj h).symm
    · cases h
  · rw [readBy, Plan.read] at h
    split at h
    · exact .inl (Except.ok.inj h).symm
    · cases h
  · rw [readBy, Plan.read] at h
    split at h
    · next hold => exact .inr ⟨head, .old hold, h⟩
    · cases h
  · cases head with
    | list _ _ =>
      rw [readBy, Plan.read] at h
      · cases h
      all_goals simp
    | atom t _ =>
      rw [readBy, Plan.read] at h
      split at h
      · next htag => exact .inr ⟨item, .new (by simpa using htag), h⟩
      · cases h
  · rw [readBy, Plan.read] at h
    · cases h
    all_goals simp

theorem depth_of_presented {switches : Switches} {item : Node}
    (h : Presented switches node item) : item.depth < node.depth := by
  cases h with
  | old _ => exact Node.depth_lt_of_mem List.mem_cons_self _
  | new _ => exact Node.depth_lt_of_mem (by simp) _

/-- What is read for a shape is composite, unless the shape is a built-in type, an option or a
converter from outside. -/
theorem isComposite_of_readBy (hplan : plan.isSettled false) (hprimitive : ∀ p, plan ≠ .primitive p)
    (hcustom : ∀ k, plan ≠ .custom k) (hoption : ∀ label c, plan ≠ .option label c)
    (h : s.readBy plan node = .ok v) : v.isComposite := by
  rw [readBy] at h
  cases plan with
  | primitive p => exact absurd rfl (hprimitive p)
  | custom k => exact absurd rfl (hcustom k)
  | option label c => exact absurd rfl (hoption label c)
  | link cell id args => exact absurd hplan (by simp [Plan.isSettled])
  | sealed label =>
    rw [Plan.read] at h
    cases h
  | list label c =>
    cases node with
    | atom t loc =>
      rw [Plan.read] at h
      cases h
    | list items loc =>
      rw [Plan.read] at h
      obtain ⟨vs, -, h⟩ := bind_eq_ok.1 h
      obtain rfl := Except.ok.inj h
      rfl
  | array label stored c =>
    cases node with
    | atom t loc =>
      rw [Plan.read] at h
      cases h
    | list items loc =>
      rw [Plan.read] at h
      obtain ⟨vs, -, h⟩ := bind_eq_ok.1 h
      unfold storeEach Storage.vector at h
      cases hall : Storage.storeAll stored vs with
      | ok us =>
        rw [hall] at h
        obtain rfl := Except.ok.inj h
        rfl
      | error fault =>
        obtain ⟨i, reason⟩ := fault
        rw [hall] at h
        cases reason <;> exact absurd h (by simp [Except.map])
  | tuple label cs =>
    cases node with
    | atom t loc =>
      rw [Plan.read] at h
      cases h
    | list items loc =>
      rw [Plan.read] at h
      split at h
      · obtain ⟨vs, -, h⟩ := bind_eq_ok.1 h
        obtain rfl := Except.ok.inj h
        rfl
      · cases h
  | record r =>
    rw [Plan.read] at h
    exact isComposite_of_readRecord h
  | variant label folding cases => exact isComposite_of_readVariant h

/-- An integer that is read comes from an atom of the tree. -/
theorem comesFrom_of_readBy (hs : s.Sound numbering l) (hout : l.outside = fun _ => none)
    (ht : Realises s.catalog l.Foresees t plan) (h : s.readBy plan node = .ok v) :
    v.ComesFrom node := by
  induction hk : node.depth using Nat.strongRecOn generalizing t plan node v with
  | ind k ih =>
    -- a link reads as the shape that it comes to
    rw [readBy_eq_bind] at h
    obtain ⟨⟨layers, q⟩, hq, h⟩ := bind_eq_ok.1 h
    obtain ⟨hplan, u, -, hu⟩ := unfolds_of_settle hs ht (mapError_eq_ok.1 hq)
    replace h : s.readBy q node = .ok v := h
    cases q with
    | primitive p =>
      rw [readBy, Plan.read] at h
      exact Builtin.comesFrom_of_read h
    | custom c =>
      obtain ⟨d, env, params, -, hd, -, hb⟩ := hu.shape hplan
      exact absurd rfl (hb.ne_custom (l.not_foresees_custom hout) hd)
    | option label c =>
      rcases presented_of_readOption h with rfl | ⟨item, hitem, h⟩
      · exact ⟨rfl, by simp⟩
      · obtain ⟨d, env, params, -, hd, henv, hb⟩ := hu.shape hplan
        obtain ⟨inner, rfl⟩ := hb.isOption hd rfl
        obtain ⟨label', c', hc, hinner⟩ := hb.of_option
        obtain ⟨-, rfl⟩ := Plan.option.inj hc
        have hlt : item.depth < k := hk ▸ depth_of_presented hitem
        exact (ih item.depth hlt (henv.mk hinner) h rfl).imp fun t => .of_presented hitem
    | link cell id args => exact absurd hplan (by simp [Plan.isSettled])
    | _ =>
      refine Value.comesFrom_of_isComposite (isComposite_of_readBy hplan ?_ ?_ ?_ h) <;> simp

end Setting

end TypedSexp
