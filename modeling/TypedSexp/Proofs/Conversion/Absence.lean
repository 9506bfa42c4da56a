import TypedSexp.Proofs.Conversion.Trips
/-!
# Fields that are left out

The value of a field is left out by the rule, if it equals the default, or in any case, by the
presence of the field. What is left out in any case is what the field reads as (`omission_of_typed`);
what the rule leaves out equals the default (`isDroppedAt_of_typed`). So a field makes the trip if
the absent value will do for the default (`fieldTrips`).
-/

namespace TypedSexp

namespace FieldPlan.Fits

variable {f : Field Description} {p : FieldPlan Plan} {dflt : Default}

theorem dropping_never (h : p.Fits f) (hr : f.rule = .never) : p.dropping = .never := by
  have hdropping := h.dropping
  unfold Description.dropping at hdropping
  rw [hr] at hdropping
  exact (Except.ok.inj hdropping).symm

theorem dropping_ifDefault (h : p.Fits f) (hr : f.rule = .ifDefault) :
    ∃ dflt, f.default = some dflt ∧ p.dropping = .ifEqual dflt.value := by
  have hdropping := h.dropping
  unfold Description.dropping at hdropping
  rw [hr] at hdropping
  cases hd : f.default with
  | none => simp [hd] at hdropping
  | some dflt =>
    rw [hd] at hdropping
    exact ⟨dflt, rfl, (Except.ok.inj hdropping).symm⟩

theorem dropping_ifDefaultSexp (h : p.Fits f) (hr : f.rule = .ifDefaultSexp) :
    ∃ dflt, f.default = some dflt ∧ f.presence ≠ .sexpBool ∧
      p.dropping = .ifWrittenEqual dflt.value := by
  have hdropping := h.dropping
  unfold Description.dropping at hdropping
  rw [hr] at hdropping
  cases hd : f.default with
  | none => simp [hd] at hdropping
  | some dflt =>
    simp only [hd] at hdropping
    by_cases hb : f.presence = .sexpBool
    · rw [if_pos hb] at hdropping
      exact absurd hdropping (by simp)
    · rw [if_neg hb] at hdropping
      exact ⟨dflt, rfl, hb, (Except.ok.inj hdropping).symm⟩

theorem dropping_ifPredicate (h : p.Fits f) (hr : f.rule = .ifPredicate) :
    ∃ q, f.predicate = some q ∧ p.dropping = .ifHolds q := by
  have hdropping := h.dropping
  unfold Description.dropping at hdropping
  rw [hr] at hdropping
  cases hq : f.predicate with
  | none => simp [hq] at hdropping
  | some q =>
    rw [hq] at hdropping
    exact ⟨q, rfl, (Except.ok.inj hdropping).symm⟩

/-- A field with a default reads as something where it is left out. -/
theorem exists_absent (h : p.Fits f) (hd : f.default = some dflt) : ∃ a, p.absent = some a := by
  rw [h.absent]
  unfold Description.absentValue
  cases f.presence <;> simp [hd]

/-- Nothing is the only default of a field that leaves nothing out. -/
theorem default_of_sexpOption (h : p.Fits f) (hf : f.presence = .sexpOption) (ht : f.type ≠ none)
    (hd : f.default = some dflt) : dflt.value = .none := by
  obtain ⟨d, hd'⟩ := Option.ne_none_iff_exists'.1 ht
  have hcheck := h.absence d (by simp [hf]) hd'
  unfold Description.checkAbsence at hcheck
  rw [hf, hd] at hcheck
  obtain ⟨v, number⟩ := dflt
  cases v with
  | none => rfl
  | _ => exact absurd hcheck (by simp)

end FieldPlan.Fits

namespace Setting

variable {s : Setting} {lone halts : Prop} {l : Ledger} {room : Nat} {env : List BoundType}
  {params : List Converter} {Admits : Field Description → Prop}
  {Through : DefinitionId → Nat → Prop} {f : Field Description} {p : FieldPlan Plan} {x : Value}
  {R : Option Sexp → Value → Prop}

/-- The value is one of the description, and it makes the round trip through its plans. -/
def TypedTrips (s : Setting) (lone halts : Prop) (l : Ledger) (Admits : Field Description → Prop)
    (Through : DefinitionId → Nat → Prop) (env : List BoundType) (room : Nat) (d : Description)
    (v : Value) : Prop :=
  HasType s.catalog Admits Through room env d v ∧ TripsAs s lone halts l env room d v

theorem isOmitted_list {d : Description} (h : HasType s.catalog Admits Through room env (.list d) x) :
    ∃ b, isOmitted .empty x = .ok b ∧ (b = true → x = .list []) := by
  obtain ⟨vs, rfl, _⟩ := h.of_list
  refine ⟨vs.length == 0, rfl, fun hempty => ?_⟩
  obtain rfl : vs = [] := by simpa using hempty
  rfl

theorem isOmitted_array {d : Description}
    (h : HasType s.catalog Admits Through room env (.array d none) x) :
    ∃ b, isOmitted .empty x = .ok b ∧ (b = true → x = .vector (Description.storedAs d none) []) := by
  obtain ⟨vs, rfl, _, _⟩ := h.of_array
  refine ⟨vs.length == 0, rfl, fun hempty => ?_⟩
  obtain rfl : vs = [] := by simpa using hempty
  rfl

/-- What is left out in any case is what the field reads as. -/
theorem omission_of_typed (hp : p.Fits f) (hb : f.presence ≠ .sexpBool) {d : Description}
    (hd : f.valueType = some d) (hx : f.Holds (HasType s.catalog Admits Through room env) x) :
    ∃ b, isOmitted f.presence.omission x = .ok b ∧
      (b = true → f.presence.Omits x ∧ p.absent = some x) ∧
      (b = false → f.presence = .sexpOption → x ≠ .none) := by
  have habsent := hp.absent
  have hvalue := hx.value d hb hd
  obtain ⟨name, type, presence, default, statedRule, predicate⟩ := f
  obtain ⟨t, rfl, rfl⟩ : ∃ t, type = some t ∧ presence.valueType t = d :=
    Option.map_eq_some_iff.1 hd
  cases presence with
  | required => exact ⟨false, rfl, by simp, by simp⟩
  | option => exact ⟨false, rfl, by simp, by simp⟩
  | sexpBool => exact absurd rfl hb
  | sexpOption =>
    by_cases hnone : x = .none
    · subst hnone
      exact ⟨true, rfl, fun _ => ⟨rfl, habsent⟩, by simp⟩
    · refine ⟨false, ?_, by simp, fun _ _ => hnone⟩
      cases x with
      | none => exact absurd rfl hnone
      | _ => rfl
  | sexpList =>
    obtain ⟨b, homit, hempty⟩ := isOmitted_list (hvalue (by simp))
    refine ⟨b, homit, fun hb => ?_, by simp⟩
    obtain rfl := hempty hb
    exact ⟨rfl, habsent⟩
  | sexpArray =>
    obtain ⟨b, homit, hempty⟩ := isOmitted_array (hvalue (by simp))
    refine ⟨b, homit, fun hb => ?_, by simp⟩
    obtain rfl := hempty hb
    exact ⟨⟨_, rfl⟩, habsent⟩

/-- The converter of a field's value. -/
theorem roundTrips_of_part (hopt : s.ReadsOptions) (henv : Supplies s l env params)
    (hp : BuiltField s.catalog l.Foresees params f p) {d : Description} {c : Converter}
    (hd : f.valueType = some d) (hform : p.form = .valued c f.presence.omission)
    (hx : s.TypedTrips lone halts l Admits Through env room d x) :
    s.RoundTrips lone halts 0 (x.depth + room) c.plan x :=
  (hx.2 henv (hp.2 d _ (.value hd hform))).roundTrips hopt

/-- The value of a field is written, unless it is left out in any case. -/
theorem fieldWrites (hopt : s.ReadsOptions) (henv : Supplies s l env params)
    (hp : BuiltField s.catalog l.Foresees params f p)
    (hx : f.Holds (s.TypedTrips lone halts l Admits Through env room) x)
    (hwritten : ∀ t w, x.Like lone w → R (some t) w) (homitted : f.presence.Omits x → R none x) :
    s.FieldWrites halts R (x.depth + room) p x := by
  by_cases hb : f.presence = .sexpBool
  · obtain ⟨b, rfl⟩ := hx.flag hb
    have habsent : p.absent = some (.bool false) := by
      rw [hp.1.absent, Description.absentValue, hb]
    refine (FieldWrites.of_flag (hp.1.flag hb) habsent ?_ ?_).mono (Nat.zero_le _)
    · rintro rfl
      exact homitted (by rw [hb]; rfl)
    · rintro rfl t
      exact hwritten t _ (.refl _)
  · obtain ⟨d, c, hd, hform⟩ := hp.1.valued hb
    obtain ⟨b, homit, habsent, hpresent⟩ :=
      omission_of_typed hp.1 hb hd (hx.mono fun _ _ h => h.1)
    refine FieldWrites.of_valued hform homit (fun htrue => ?_) hwritten fun hfalse => ?_
    · obtain ⟨homits, habsent⟩ := habsent htrue
      exact ⟨x, habsent, homitted homits⟩
    · exact roundTrips_of_part hopt henv hp hd hform (hx.value d hb hd (hpresent hfalse))

/-- What the rule leaves out equals the default. -/
theorem isDroppedAt_of_typed (hopt : s.ReadsOptions) (henv : Supplies s l env params)
    (hp : BuiltField s.catalog l.Foresees params f p)
    (hx : f.Each (s.TypedTrips lone halts l Admits Through env) room x) (hrule : f.rule ≠ .ifPredicate)
    (htyped : f.presence ≠ .sexpBool → f.type ≠ none) (hlone : f.rule = .never ∨ lone)
    (hcomparable : ∀ dflt, f.rule = .ifDefault → f.default = some dflt →
      ∃ b, x.same dflt.value = .ok b)
    {levels : Nat} (hle : x.depth + room ≤ levels) :
    Yields halts (s.isDroppedAt levels p x) fun b => b = true →
      ∃ dflt, f.Compares ∧ f.default = some dflt ∧ x.Like lone dflt.value := by
  obtain ⟨below, hdefault, hwritten⟩ := hx.default
  cases hr : f.rule with
  | never => exact .of_eq (isDroppedAt_never (hp.1.dropping_never hr) levels) (by simp)
  | ifPredicate => exact absurd hr hrule
  | ifDefault =>
    obtain rfl : lone = True := eq_true (hlone.resolve_left (by simp [hr]))
    obtain ⟨dflt, hdflt, hdropping⟩ := hp.1.dropping_ifDefault hr
    obtain ⟨b, hb⟩ := hcomparable dflt hr hdflt
    refine .of_eq (a := b) ?_ ?_
    · rw [isDroppedAt_ifEqual hdropping, hb]
      rfl
    · rintro rfl
      have hxt := hx.holds.mono fun _ _ h => h.1
      have hdt := (hdefault dflt (.inl hr) hdflt).mono fun _ _ h => h.1
      refine ⟨dflt, .inl hr, hdflt, hxt.equal_of_agrees hdt htyped ?_ (.inr (.inl hb))⟩
      intro d hflag hd hne hdt
      exact (hxt.value d hflag hd hne).equal_of_agrees hdt (.inr (.inl hb))
  | ifDefaultSexp =>
    obtain ⟨dflt, hdflt, hflag, hdropping⟩ := hp.1.dropping_ifDefaultSexp hr
    obtain ⟨d, c, hd, hform⟩ := hp.1.valued hflag
    obtain ⟨hdt, hroom⟩ := hwritten d dflt hr hflag hd hdflt
    have hback := roundTrips_of_part hopt henv hp hd hform hdt
    -- nothing has the type of the field only where it is the default
    have hxback : s.RoundTrips lone halts 0 (x.depth + room) c.plan x := by
      by_cases hnone : f.presence = .sexpOption ∧ x = .none
      · obtain ⟨hopt, rfl⟩ := hnone
        rw [hp.1.default_of_sexpOption hopt (htyped hflag) hdflt] at hback hroom
        exact hback.mono (by omega)
      · exact roundTrips_of_part hopt henv hp hd hform
          (hx.holds.value d hflag hd fun hf hx => hnone ⟨hf, hx⟩)
    exact (isDroppedAt_ifWrittenEqual hform hdropping hxback (hback.mono (by omega)) hle).imp
      fun b hlike htrue => ⟨dflt, .inr hr, hdflt, hlike htrue⟩

/-- **A field makes the trip if the absent value will do where it is left out.** -/
theorem fieldTrips (hopt : s.ReadsOptions) (henv : Supplies s l env params)
    (hp : BuiltField s.catalog l.Foresees params f p)
    (hx : f.Each (s.TypedTrips lone halts l Admits Through env) room x) (hrule : f.rule ≠ .ifPredicate)
    (htyped : f.presence ≠ .sexpBool → f.type ≠ none) (hlone : f.rule = .never ∨ lone)
    (hcomparable : ∀ dflt, f.rule = .ifDefault → f.default = some dflt →
      ∃ b, x.same dflt.value = .ok b)
    (hwritten : ∀ t w, x.Like lone w → R (some t) w) (homitted : f.presence.Omits x → R none x)
    (hdropped : ∀ dflt a, f.Compares → f.default = some dflt → x.Like lone dflt.value →
      p.absent = some a → R none a) : s.FieldTrips halts R (x.depth + room) p x := by
  refine .of_rule (fieldWrites hopt henv hp hx.holds hwritten homitted) fun levels hle => ?_
  refine (isDroppedAt_of_typed hopt henv hp hx hrule htyped hlone hcomparable hle).imp
    fun b hdefault htrue => ?_
  obtain ⟨dflt, hc, hdflt, hlike⟩ := hdefault htrue
  obtain ⟨a, ha⟩ := hp.1.exists_absent hdflt
  exact ⟨a, ha, hdropped dflt a hc hdflt hlike ha⟩

end Setting

end TypedSexp
