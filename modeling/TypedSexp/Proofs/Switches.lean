import TypedSexp.Switches
/-!
# Override blocks unwind

Steps are run one after another and inside override blocks, up to the first that fails. `Reaches`
finds every step that is run in this way, however deep, with the switches that it finds. If all
switches have positions at first they have them always, and so a block that is left, by its end or by
a failure, leaves the switches as it found them (`unwinds_of_reaches`): what is restored has a
position for each. A switch without a position could not be restored, because no position means no
change.
-/

namespace TypedSexp.Panel

variable {α : Type} {s t u : Panel α} {changes : Changes α}

/-! ## Positions -/

/-- The position of a switch. -/
def position? (s : Panel α) : Name → Option α
  | .readOldOption => s.readOldOption
  | .writeOldOption => s.writeOldOption
  | .checkExtra => s.checkExtra

/-- Switches are known by their positions. -/
theorem eq_of_position? (h : ∀ name, s.position? name = t.position? name) : s = t := by
  obtain ⟨a, b, c⟩ := s
  obtain ⟨a', b', c'⟩ := t
  obtain rfl : a = a' := h .readOldOption
  obtain rfl : b = b' := h .writeOldOption
  obtain rfl : c = c' := h .checkExtra
  rfl

theorem position?_unset (name : Name) : (unset : Panel α).position? name = none := by
  cases name <;> rfl

theorem position?_put (s : Panel α) (name : Name) (position : Option α) (other : Name) :
    (s.put name position).position? other = if name = other then position else s.position? other := by
  cases name <;> cases other <;> rfl

theorem position?_updatedBy (s t : Panel α) (name : Name) :
    (s.updatedBy t).position? name = (t.position? name <|> s.position? name) := by
  cases name <;> rfl

/-- Every switch has a position. -/
def IsSet (s : Panel α) : Prop := ∀ name, (s.position? name).isSome

/-- Where every switch has a position, nothing of what was before is left. -/
theorem updatedBy_of_isSet (hs : s.IsSet) (t : Panel α) : t.updatedBy s = s := by
  refine eq_of_position? fun name => ?_
  obtain ⟨position, hposition⟩ := Option.isSome_iff_exists.1 (hs name)
  rw [position?_updatedBy, hposition]
  rfl

/-! ## Changes -/

/-- Every name is that of a switch. -/
def Changes.AreKnown (changes : Changes α) : Prop := ∀ c ∈ changes, (Name.ofText? c.1).isSome

/-- What is stated for a switch; the last statement counts. -/
def Changes.stated? (changes : Changes α) (name : Name) : Option (Option α) :=
  (changes.filter fun c => Name.ofText? c.1 = some name).getLast?.map Prod.snd

/-- The position that a switch is given, if any. -/
def Changes.given? (changes : Changes α) (name : Name) : Option α := (changes.stated? name).join

/-- The switches after changes: those that are given a position have it, and the others are as they
were. -/
def Follows (s : Panel α) (changes : Changes α) (t : Panel α) : Prop :=
  ∀ name, t.position? name = (changes.given? name <|> s.position? name)

theorem stated?_cons (c : Text × Option α) (changes : Changes α) (name : Name) :
    Changes.stated? (c :: changes) name =
      if Name.ofText? c.1 = some name then some ((changes.stated? name).getD c.2)
      else changes.stated? name := by
  unfold Changes.stated?
  by_cases hc : Name.ofText? c.1 = some name
  · rw [List.filter_cons_of_pos (by simpa using hc), List.getLast?_cons, if_pos hc]
    cases (changes.filter fun c => Name.ofText? c.1 = some name).getLast? <;> rfl
  · rw [List.filter_cons_of_neg (by simpa using hc), if_neg hc]

theorem areKnown_cons {c : Text × Option α} :
    Changes.AreKnown (c :: changes) ↔ (Name.ofText? c.1).isSome ∧ changes.AreKnown :=
  List.forall_mem_cons

/-- Statements are made one after another, unless a name is unknown. -/
theorem state?_eq : ∀ (changes : Changes α) (s : Panel α),
    (changes.AreKnown → ∃ t, s.state? changes = some t ∧
      ∀ name, t.position? name = (changes.stated? name).getD (s.position? name)) ∧
    (¬ changes.AreKnown → s.state? changes = none)
  | [], s => ⟨fun _ => ⟨s, rfl, fun _ => rfl⟩, fun h => absurd (fun _ hc => nomatch hc) h⟩
  | (text, position) :: changes, s => by
    rw [areKnown_cons, state?]
    cases hname : Name.ofText? text with
    | none => simp
    | some name =>
      obtain ⟨hknown, hunknown⟩ := state?_eq changes (s.put name position)
      refine ⟨fun h => ?_, fun h => hunknown fun hchanges => h ⟨rfl, hchanges⟩⟩
      obtain ⟨t, ht, hpositions⟩ := hknown h.2
      refine ⟨t, ht, fun other => ?_⟩
      rw [hpositions, stated?_cons, position?_put]
      simp only [hname, Option.some.injEq]
      by_cases hother : name = other
      · rw [if_pos hother, if_pos hother, Option.getD_some]
      · rw [if_neg hother, if_neg hother]

/-- A change is made in full or rejected for an unknown name. -/
theorem change?_eq (s : Panel α) (changes : Changes α) :
    (changes.AreKnown → ∃ t, s.change? changes = some t ∧ s.Follows changes t) ∧
    (¬ changes.AreKnown → s.change? changes = none) := by
  obtain ⟨hknown, hunknown⟩ := state?_eq changes (unset : Panel α)
  refine ⟨fun h => ?_, fun h => by rw [change?, hunknown h]; rfl⟩
  obtain ⟨t, ht, hpositions⟩ := hknown h
  refine ⟨s.updatedBy t, by rw [change?, ht]; rfl, fun name => ?_⟩
  rw [position?_updatedBy, hpositions, position?_unset, Changes.given?]
  cases changes.stated? name <;> rfl

theorem Follows.isSet (hs : s.IsSet) (h : s.Follows changes t) : t.IsSet := by
  intro name
  rw [h name]
  cases changes.given? name with
  | none => exact hs name
  | some position => rfl

theorem change?_isSet (hs : s.IsSet) (h : s.change? changes = some t) : t.IsSet := by
  by_cases hknown : changes.AreKnown
  · obtain ⟨t', ht', hfollows⟩ := (change?_eq s changes).1 hknown
    obtain rfl : t' = t := Option.some.inj (ht'.symm.trans h)
    exact hfollows.isSet hs
  · rw [(change?_eq s changes).2 hknown] at h
    exact nomatch h

/-! ## Steps -/

/-- How a step leaves the switches that it finds. A change that is not rejected is made. A block that
is not rejected shows the switches with its changes made before its first step, and then leaves all
as it found it, whatever its steps did and whether they failed. What is rejected changes nothing. -/
def Step.Unwinds (s : Panel α) : Step α → Prop
  | .set changes =>
    (changes.AreKnown → ∃ t, s.Follows changes t ∧ Step.run s (.set changes) = (t, .changed t, true)) ∧
    (¬ changes.AreKnown → Step.run s (.set changes) = (s, .failed, false))
  | .override changes steps =>
    (changes.AreKnown → ∃ entry inside last ok, s.Follows changes entry ∧
      Step.runAll entry steps = (last, inside, ok) ∧
      Step.run s (.override changes steps) = (s, .block entry inside s, ok)) ∧
    (¬ changes.AreKnown → Step.run s (.override changes steps) = (s, .failed, false))
  | .fail => Step.run s .fail = (s, .failed, false)

theorem Step.unwinds (hs : s.IsSet) (step : Step α) : step.Unwinds s := by
  cases step with
  | set changes =>
    obtain ⟨hknown, hunknown⟩ := change?_eq s changes
    refine ⟨fun h => ?_, fun h => by rw [Step.run, hunknown h]⟩
    obtain ⟨t, ht, hfollows⟩ := hknown h
    exact ⟨t, hfollows, by rw [Step.run, ht]⟩
  | override changes steps =>
    obtain ⟨hknown, hunknown⟩ := change?_eq s changes
    refine ⟨fun h => ?_, fun h => by rw [Step.run, hunknown h]⟩
    obtain ⟨entry, hentry, hfollows⟩ := hknown h
    rcases hrun : Step.runAll entry steps with ⟨last, inside, ok⟩
    refine ⟨entry, inside, last, ok, hfollows, hrun, ?_⟩
    rw [Step.run, hentry]
    simp only [hrun, updatedBy_of_isSet hs]
  | fail => rw [Step.Unwinds, Step.run]

/-- A step leaves every switch with a position. -/
theorem Step.run_isSet (hs : s.IsSet) (step : Step α) : (Step.run s step).1.IsSet := by
  cases step with
  | set changes =>
    rw [Step.run]
    cases h : s.change? changes with
    | none => exact hs
    | some t => exact change?_isSet hs h
  | override changes steps =>
    rw [Step.run]
    cases s.change? changes with
    | none => exact hs
    | some entry =>
      show ((Step.runAll entry steps).1.updatedBy s).IsSet
      rw [updatedBy_of_isSet hs]
      exact hs
  | fail =>
    rw [Step.run]
    exact hs

/-! ## Whole runs -/

/-- The steps that are run when a list of steps is, inside blocks too, with the switches that each of
them finds. -/
inductive Reaches : Panel α → List (Step α) → Panel α → Step α → Prop
  | first {s : Panel α} {step : Step α} {rest : List (Step α)} : Reaches s (step :: rest) s step
  | later {s t u : Panel α} {first step : Step α} {trace : Trace α} {rest : List (Step α)}
      (hrun : Step.run s first = (t, trace, true)) (h : Reaches t rest u step) :
      Reaches s (first :: rest) u step
  | inside {s entry u : Panel α} {changes : Changes α} {steps rest : List (Step α)} {step : Step α}
      (hentry : s.change? changes = some entry) (h : Reaches entry steps u step) :
      Reaches s (.override changes steps :: rest) u step

theorem Reaches.isSet {steps : List (Step α)} {step : Step α} (h : Reaches s steps u step) :
    s.IsSet → u.IsSet := by
  induction h with
  | first => exact fun hs => hs
  | @later s t u first step trace rest hrun _ ih =>
    intro hs
    have ht := Step.run_isSet hs first
    rw [hrun] at ht
    exact ih ht
  | inside hentry _ ih => exact fun hs => ih (change?_isSet hs hentry)

/-- **Override blocks unwind.** Where every switch has a position at first, each step of a run, in
blocks of any depth and also where a step fails, leaves the switches as `Step.Unwinds` says: a block
that is left leaves them as it found them, with its changes made before its first step, and what is
rejected changes nothing. -/
theorem unwinds_of_reaches {steps : List (Step α)} {step : Step α} (hs : s.IsSet)
    (h : Reaches s steps u step) : step.Unwinds u := step.unwinds (h.isSet hs)

/-- A block inside a block, behind a change that the outer one undoes; the inner one is left by a
failure. -/
theorem unwinds_of_reaches_nested :
    let inner : Step Bool := .override [("write_old_option_format", some true)]
      [.set [("read_old_option_format", some false)], .override [("unknown", some true)] []]
    let steps : List (Step Bool) :=
      [.override [("check_extra_fields", some false)]
        [.set [("read_old_option_format", some false)], inner]]
    let found : Switches := ⟨some false, some false, some false⟩
    Switches.standard.IsSet ∧ Reaches Switches.standard steps found inner ∧ inner.Unwinds found := by
  intro inner steps found
  have hset : Switches.standard.IsSet := by
    intro name
    cases name <;> rfl
  let entry : Switches := ⟨some true, some false, some false⟩
  have hentry : Switches.standard.change? [("check_extra_fields", some false)] = some entry := by
    decide
  have hrun : Step.run entry (.set [("read_old_option_format", some false)]) =
      (found, .changed found, true) := rfl
  have hreaches : Reaches Switches.standard steps found inner := .inside hentry (.later hrun .first)
  exact ⟨hset, hreaches, unwinds_of_reaches hset hreaches⟩

/-- A switch without a position is not restored. -/
example : (Step.run unset (.override [] [.set [("check_extra_fields", some true)]])).1 =
    (⟨none, none, some true⟩ : Switches) := by decide

end TypedSexp.Panel
