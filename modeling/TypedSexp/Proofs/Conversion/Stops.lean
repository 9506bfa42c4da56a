import TypedSexp.Conversion.Basic
/-!
# Conversions that a link stops

Where a link is followed its definition is derived, and that may be refused or have no end. Such a
fault stops the conversion: it goes through everything that is underway as it is. `Yields` says what
a writing gives unless it is stopped; what the steps of a sequence give, the sequence gives
(`Yields.bind`).
-/

namespace TypedSexp

/-- A refused description, or one that only leads back to itself, stops a reading. -/
def ReadError.stops : ReadError → Bool
  | .description _ => true
  | .endless => true
  | _ => false

/-- A refused description, or one that only leads back to itself, stops a writing. -/
def WriteError.stops : WriteError → Bool
  | .description _ => true
  | .endless => true
  | _ => false

theorem ReadError.stops_within (seg : Segment) (e : ReadError) (h : e.stops = true) :
    (e.within seg).stops = true := by
  cases e <;> exact h

theorem Setting.stops_readFault (e : DescriptionFault) : (readFault e).stops = true := by
  cases e <;> rfl

theorem Setting.stops_writeFault (e : DescriptionFault) : (writeFault e).stops = true := by
  cases e <;> rfl

/-! ## What a writing gives unless it is stopped -/

/-- The writing gives something of which `P` holds; or it is stopped, if that may be. -/
def Yields {α : Type} (halts : Prop) (x : Except WriteError α) (P : α → Prop) : Prop :=
  (halts ∧ ∃ e, x = .error e ∧ e.stops = true) ∨ ∃ a, x = .ok a ∧ P a

namespace Yields

variable {α β : Type} {halts : Prop} {x : Except WriteError α} {f : α → Except WriteError β}
  {P P' : α → Prop} {Q : β → Prop} {a : α}

theorem pure (h : P a) : Yields halts (.ok a) P := .inr ⟨a, rfl, h⟩

theorem of_eq (hx : x = .ok a) (h : P a) : Yields halts x P := .inr ⟨a, hx, h⟩

/-- A stop in the first step is one of both. -/
theorem bind (hx : Yields halts x P) (hf : ∀ a, x = .ok a → P a → Yields halts (f a) Q) :
    Yields halts (x >>= f) Q := by
  rcases hx with ⟨hhalts, e, rfl, he⟩ | ⟨a, rfl, ha⟩
  · exact .inl ⟨hhalts, e, rfl, he⟩
  · exact hf a rfl ha

theorem imp (h : Yields halts x P) (himp : ∀ a, P a → P' a) : Yields halts x P' :=
  h.imp_right fun ⟨a, hx, ha⟩ => ⟨a, hx, himp a ha⟩

theorem map {g : α → β} (h : Yields halts x P) (hg : ∀ a, P a → Q (g a)) :
    Yields halts (x.map g) Q := by
  rcases h with ⟨hhalts, e, rfl, he⟩ | ⟨a, rfl, ha⟩
  · exact .inl ⟨hhalts, e, rfl, he⟩
  · exact .inr ⟨g a, rfl, hg a ha⟩

/-- What is given is as was said. -/
theorem of_ok (h : Yields halts x P) (hx : x = .ok a) : P a := by
  rcases h with ⟨-, e, he, -⟩ | ⟨b, hb, hP⟩
  · cases hx.symm.trans he
  · obtain rfl := Except.ok.inj (hx.symm.trans hb)
    exact hP

/-- What is given before a last step that always succeeds. -/
theorem of_bind_pure {g : α → β} (h : Yields halts (x >>= fun a => .ok (g a)) Q) :
    Yields halts x fun a => Q (g a) := by
  cases x with
  | error e =>
    obtain ⟨hhalts, e', he, hstops⟩ | ⟨b, hb, -⟩ := h
    · obtain rfl : e = e' := Except.error.inj he
      exact .inl ⟨hhalts, e, rfl, hstops⟩
    · cases hb
  | ok a => exact .pure (h.of_ok rfl)

/-- What may not be stopped gives something. -/
theorem exists_ok (h : Yields halts x P) (hhalts : ¬ halts) : ∃ a, x = .ok a ∧ P a :=
  h.resolve_left fun hstop => hhalts hstop.1

end Yields

end TypedSexp
