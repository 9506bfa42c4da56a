import TypedSexp.Proofs.Conversion.Descent
/-!
# What the switches change

The switches for old options and unknown fields make reading accept more or less, and nothing else:
what is accepted with stricter switches is accepted with laxer ones, with the same value, because the
new form of an option is tried first in any case (`Setting.switches_widen`). Reading does not look at
the switch for writing, and writing only at that.
-/

namespace TypedSexp

namespace Setting

variable {s : Setting} {switches : Switches}

/-- Laxer switches accept at least as much. -/
theorem allows_accepting
    (hold : s.switches.readsOldOption = true → switches.readsOldOption = true)
    (hextra : switches.checksExtra = true → s.switches.checksExtra = true) :
    ReadConcord.accepting.Allows s.switches switches := by
  constructor
  · cases h : s.switches.readsOldOption with
    | false => exact .inr ⟨rfl, trivial⟩
    | true => exact .inl (hold h).symm
  · cases h : s.switches.checksExtra with
    | true => exact .inr ⟨rfl, trivial⟩
    | false =>
      refine .inl (congrArg not ?_)
      cases h' : switches.checksExtra with
      | false => rfl
      | true => exact absurd (hextra h') (by simp [h])

theorem allows_same (hold : switches.readsOldOption = s.switches.readsOldOption)
    (hextra : switches.checksExtra = s.switches.checksExtra) :
    (ReadConcord.same Except).Allows s.switches switches :=
  ⟨.inl hold.symm, .inl (congrArg not hextra.symm)⟩

theorem writeWithin_switching (hsw : switches.writesOldOption = s.switches.writesOldOption) :
    ∀ (levels : Nat) (plan : Plan) (v : Value),
      (s.switching switches).writeWithin levels plan v = s.writeWithin levels plan v := by
  intro levels
  induction levels with
  | zero => exact fun _ _ => rfl
  | succ levels ih =>
    intro plan v
    have hshape (shape : Plan) := Plan.write_congr (H := .same Except _) hsw shape
      (fun cell id args _ v => ih (.link cell id args) v) v
    rw [writeWithin_succ, writeWithin_succ, settle_switching switches]
    refine congrArg (_ >>= ·) (funext fun found => ?_)
    obtain ⟨layers, shape⟩ := found
    have hpresent : presentSexp switches = presentSexp s.switches :=
      funext (Plan.presentSexp_congr hsw)
    show (shape.write (M := Except) _ switches v >>= fun t => .ok (layers.repeat (presentSexp switches) t)) = _
    rw [hpresent]
    exact congrArg (· >>= fun t => .ok (layers.repeat (presentSexp s.switches) t)) (hshape shape)

/-- **Switches of reading only accept more.** What a converter reads it reads as the same value where
old options are allowed and unknown fields passed over; reading depends on these two switches alone,
and writing on the third. -/
theorem switches_widen (s : Setting) (switches : Switches) (c : Converter) :
    (∀ node v, (s.switches.readsOldOption = true → switches.readsOldOption = true) →
      (switches.checksExtra = true → s.switches.checksExtra = true) →
      s.read c node = .ok v → (s.switching switches).read c node = .ok v) ∧
    (∀ node, switches.readsOldOption = s.switches.readsOldOption →
      switches.checksExtra = s.switches.checksExtra →
      (s.switching switches).read c node = s.read c node) ∧
    ∀ v, switches.writesOldOption = s.switches.writesOldOption →
      (s.switching switches).write c v = s.write c v := by
  refine ⟨fun node v hold hextra => ?_, fun node hold hextra => ?_, fun v hsw => ?_⟩
  · exact readWithin_congr (allows_accepting hold hextra) _ _ c.plan node (Nat.le_refl _)
      (Nat.le_refl _) v
  · exact (readWithin_congr (allows_same hold hextra) _ _ c.plan node (Nat.le_refl _)
      (Nat.le_refl _)).symm
  · exact writeWithin_switching hsw _ c.plan v

end Setting

/-! ### A field that may be an old option -/

namespace Leniency

/-- Rows with an optional number. -/
def rows : Converter :=
  ⟨.derived 2, "record list", .list "list" ⟨.derived 1, "record", .record ⟨"record", none, false,
    [⟨"n", .valued ⟨.derived 0, "int option", .option "option" (Converter.ofPrimitive .int)⟩ .never,
      none, .never⟩]⟩⟩⟩

/-- Only new options and known fields. -/
def strict : Setting := ⟨[], {}, ⟨some false, some false, some true⟩⟩

/-- Old options too, in writing as well, and unknown fields. -/
def lax : Switches := ⟨some true, some true, some false⟩

/-- What is read strictly is read in any case; a row with an old option and an unknown field only
with lax switches. -/
theorem switches_widen_rows :
    strict.read rows (.ofSexp (.list [.list [.list [.atom "n", .list [.atom "some", .atom "5"]]]])) =
      .ok (.list [.record [("n", .int 5)]]) ∧
    (strict.switching lax).read rows
        (.ofSexp (.list [.list [.list [.atom "n", .list [.atom "some", .atom "5"]]]])) =
      .ok (.list [.record [("n", .int 5)]]) ∧
    (strict.switching { lax with writeOldOption := none }).write rows (.list []) =
      strict.write rows (.list []) ∧
    (∃ e, strict.read rows (.ofSexp (.list [.list [.list [.atom "n", .list [.atom "5"]],
      .list [.atom "m"]]])) = .error e) ∧
    (strict.switching lax).read rows (.ofSexp (.list [.list [.list [.atom "n", .list [.atom "5"]],
      .list [.atom "m"]]])) = .ok (.list [.record [("n", .int 5)]]) := by
  have hstrict : strict.read rows
      (.ofSexp (.list [.list [.list [.atom "n", .list [.atom "some", .atom "5"]]]])) =
        .ok (.list [.record [("n", .int 5)]]) := rfl
  refine ⟨hstrict, ?_, ?_, ⟨_, rfl⟩, rfl⟩
  · exact (strict.switches_widen lax rows).1 _ _ (by decide) (by decide) hstrict
  · exact (strict.switches_widen { lax with writeOldOption := none } rows).2.2 _ rfl

end Leniency

end TypedSexp
