import TypedSexp.Conversion.Read
import TypedSexp.Conversion.Write
import TypedSexp.Proofs.Conversion.Carrier
/-!
# Conversions that are taken for alike

Two conversions are compared in several ways: they may have to give exactly the same, or the same as
long as neither is stopped, or the second only has to accept what the first accepts. A `Concord` is
such a way. It goes through sequences of steps (`Concord.bind`), and it may overlook the names of
converters in errors: two errors with the same `gist` differ in nothing else.
-/

namespace TypedSexp

/-! ## Errors without the names of converters -/

/-- The cause without the name of the converter. -/
def ConversionCause.unnamed : ConversionCause → ConversionCause
  | .arity _ expected got => .arity [] expected got
  | .unknownTag _ tag candidates => .unknownTag [] tag candidates
  | .missingFields _ fields => .missingFields [] fields
  | .duplicateField _ field => .duplicateField [] field
  | .unknownField _ field known => .unknownField [] field known
  | .unexpectedShape _ expected detail => .unexpectedShape [] expected detail
  | .sealedValue _ => .sealedValue []
  | .other message => .other message

/-- The error without the name of the converter that refused. -/
def ReadError.gist : ReadError → ReadError
  | .conversion e => .conversion { e with cause := e.cause.unnamed }
  | e => e

/-- The error without the name of the converter that refused. -/
def WriteError.gist : WriteError → WriteError
  | .wrongType _ expected got => .wrongType [] expected got
  | .tupleLength _ expected got => .tupleLength [] expected got
  | .arrayShape _ shape => .arrayShape [] shape
  | .missingField _ field => .missingField [] field
  | .noConstructor _ literal => .noConstructor [] literal
  | .constructorArity _ tag expected got => .constructorArity [] tag expected got
  | e => e

theorem ReadError.className_gist (e : ReadError) : e.gist.className = e.className := by
  rcases e with ⟨⟨⟩, _, _⟩ | _ | _ | _ | _ | _ | _ <;> rfl

theorem WriteError.className_gist (e : WriteError) : e.gist.className = e.className := by
  cases e <;> rfl

theorem ReadError.gist_within (seg : Segment) (e : ReadError) :
    (e.within seg).gist = e.gist.within seg := by
  cases e <;> rfl

/-! ## Concords -/

variable {M N : Type → Type → Type} [∀ ε, Monad (M ε)] [Carrier M] [LawfulCarrier M]
  [∀ ε, Monad (N ε)] [Carrier N] [LawfulCarrier N]

/-- A way to compare results. If it is `exact`, errors have to be the same in full, otherwise in
their gist; if it is `lenient`, nothing is asked where the first result is an error. -/
structure Concord (M N : Type → Type → Type) [∀ ε, Monad (M ε)] [Carrier M] [LawfulCarrier M]
    [∀ ε, Monad (N ε)] [Carrier N] [LawfulCarrier N] {ε : Type} (gist : ε → ε) where
  rel : {α : Type} → M ε α → N ε α → Prop
  exact : Prop
  lenient : Prop
  refl : ∀ {α : Type} (x : Except ε α), rel (outcome x) (outcome x)
  errors : ∀ {α : Type} {e e' : ε}, (exact → e = e') → gist e = gist e' →
    rel (outcome (.error e : Except ε α)) (outcome (.error e'))
  anything : ∀ {α : Type} (e : ε) (y : N ε α), lenient → rel (outcome (.error e)) y
  bind : ∀ {α β : Type} {x : M ε α} {y : N ε α} {f : α → M ε β} {g : α → N ε β}, rel x y →
    (∀ a, gives x a → gives y a → rel (f a) (g a)) → rel (x >>= f) (y >>= g)

namespace Concord

variable {ε : Type} {gist : ε → ε} {α : Type}

theorem ite (H : Concord M N gist) {c : Prop} [Decidable c] {x x' : M ε α} {y y' : N ε α}
    (h : H.rel x y) (h' : H.rel x' y') :
    H.rel (if c then x else x') (if c then y else y') := by
  by_cases hc : c
  · rw [if_pos hc, if_pos hc]
    exact h
  · rw [if_neg hc, if_neg hc]
    exact h'

/-- What is accepted under a condition, and under a weaker one. -/
theorem widen (H : Concord M N gist) {b b' : Bool} (hb : b = b' ∨ b = false ∧ H.lenient)
    {x : M ε α} {y : N ε α} {e e' : ε} (h : H.rel x y)
    (he : H.rel (outcome (.error e : Except ε α)) (outcome (.error e'))) :
    H.rel (if b then x else outcome (.error e)) (if b' then y else outcome (.error e')) := by
  rcases hb with rfl | ⟨rfl, hlenient⟩
  · exact H.ite h he
  · rw [if_neg Bool.false_ne_true]
    exact H.anything e _ hlenient

/-- Where the first step is known, only what it gives goes on. -/
theorem known (H : Concord M N gist) {β : Type} {x y : Except ε α} {f : α → M ε β} {g : α → N ε β}
    (h : H.rel (outcome x) (outcome y)) (hf : ∀ a, x = .ok a → y = .ok a → H.rel (f a) (g a)) :
    H.rel (outcome x >>= f) (outcome y >>= g) :=
  H.bind h fun a ha hb => hf a (LawfulCarrier.of_outcome ha) (LawfulCarrier.of_outcome hb)

/-- Exactly the same. -/
def same (M : Type → Type → Type) [∀ ε, Monad (M ε)] [Carrier M] [LawfulCarrier M]
    (gist : ε → ε) : Concord M M gist where
  rel x y := x = y
  exact := True
  lenient := False
  refl _ := rfl
  errors he _ := by rw [he trivial]
  anything _ _ h := h.elim
  bind := by
    rintro α β x _ f g rfl h
    exact LawfulCarrier.bind_congr fun a ha => h a ha ha

/-- The same is accepted, and maybe more. -/
def accepting (gist : ε → ε) : Concord Except Except gist where
  rel x y := ∀ a, x = .ok a → y = .ok a
  exact := True
  lenient := True
  refl _ _ h := h
  errors _ _ _ h := nomatch h
  anything _ _ _ _ h := nomatch h
  bind := by
    intro α β x y f g hxy h b hb
    cases x with
    | error e => exact nomatch hb
    | ok a =>
      obtain rfl := hxy a rfl
      exact h a rfl rfl b hb

end Concord

/-! ## Agreement unless stopped -/

/-- The same result on both sides, or errors of the same gist, unless one of them is stopped. -/
def Agree {ε α : Type} (stops : ε → Bool) (gist : ε → ε) (x y : Except ε α) : Prop :=
  (∃ e, x = .error e ∧ stops e) ∨ (∃ e, y = .error e ∧ stops e) ∨ x.mapError gist = y.mapError gist

section Agree

variable {ε α β : Type} {stops : ε → Bool} {gist : ε → ε} {x y : Except ε α}

theorem Agree.refl (x : Except ε α) : Agree stops gist x x := .inr (.inr rfl)

/-- Unless one is stopped, both fail in the same way or both give the same. -/
theorem Agree.elim (h : Agree stops gist x y) :
    (∃ e, x = .error e ∧ stops e) ∨ (∃ e, y = .error e ∧ stops e) ∨
      (∃ e e', x = .error e ∧ y = .error e' ∧ gist e = gist e') ∨ ∃ a, x = .ok a ∧ y = .ok a := by
  refine h.imp_right fun h => h.imp_right fun h => ?_
  cases x with
  | error e =>
    cases y with
    | error e' => exact .inl ⟨e, e', rfl, rfl, Except.error.inj h⟩
    | ok b => exact nomatch h
  | ok a =>
    cases y with
    | error e' => exact nomatch h
    | ok b =>
      obtain rfl := Except.ok.inj h
      exact .inr ⟨a, rfl, rfl⟩

/-- What the first gives the second gives too, unless it is stopped. -/
theorem Agree.ok_or_stops {a : α} (h : Agree stops gist x y) (hx : x = .ok a) :
    y = .ok a ∨ ∃ e, y = .error e ∧ stops e := by
  rcases h.elim with ⟨e, he, -⟩ | hstop | ⟨e, _, he, -⟩ | ⟨b, hb, hy⟩
  · cases hx.symm.trans he
  · exact .inr hstop
  · cases hx.symm.trans he
  · obtain rfl := Except.ok.inj (hx.symm.trans hb)
    exact .inl hy

theorem Agree.bind {f g : α → Except ε β} (h : Agree stops gist x y)
    (hf : ∀ a, x = .ok a → y = .ok a → Agree stops gist (f a) (g a)) :
    Agree stops gist (x >>= f) (y >>= g) := by
  rcases h.elim with ⟨e, rfl, he⟩ | ⟨e, rfl, he⟩ | ⟨e, e', rfl, rfl, he⟩ | ⟨a, rfl, rfl⟩
  · exact .inl ⟨e, rfl, he⟩
  · exact .inr (.inl ⟨e, rfl, he⟩)
  · exact .inr (.inr (congrArg Except.error he))
  · exact hf a rfl rfl

theorem Agree.map {f : α → β} (h : Agree stops gist x y) : Agree stops gist (x.map f) (y.map f) := by
  rcases h.elim with ⟨e, rfl, he⟩ | ⟨e, rfl, he⟩ | ⟨e, e', rfl, rfl, he⟩ | ⟨a, rfl, rfl⟩
  · exact .inl ⟨e, rfl, he⟩
  · exact .inr (.inl ⟨e, rfl, he⟩)
  · exact .inr (.inr (congrArg Except.error he))
  · exact .refl _

/-- The same unless one is stopped; names of converters are overlooked. -/
def Concord.unstopped (stops : ε → Bool) (gist : ε → ε) : Concord Except Except gist where
  rel x y := Agree stops gist x y
  exact := False
  lenient := False
  refl := .refl
  errors _ he := .inr (.inr (congrArg Except.error he))
  anything _ _ h := h.elim
  bind := Agree.bind

end Agree

/-! ## Reading -/

/-- A way to compare readings: also from one step further out. -/
structure ReadConcord (M N : Type → Type → Type) [∀ ε, Monad (M ε)] [Carrier M] [LawfulCarrier M]
    [∀ ε, Monad (N ε)] [Carrier N] [LawfulCarrier N] extends Concord M N ReadError.gist where
  within : ∀ {α : Type} {x : M ReadError α} {y : N ReadError α} (seg : Segment), rel x y →
    rel (Carrier.mapError (.within seg) x) (Carrier.mapError (.within seg) y)

namespace ReadConcord

/-- Exactly the same. -/
def same (M : Type → Type → Type) [∀ ε, Monad (M ε)] [Carrier M] [LawfulCarrier M] :
    ReadConcord M M where
  toConcord := .same M _
  within _ h := congrArg _ h

/-- The same is accepted, and maybe more. -/
def accepting : ReadConcord Except Except where
  toConcord := .accepting _
  within := by
    intro α x y seg h a ha
    cases x with
    | error e => exact nomatch ha
    | ok b =>
      obtain rfl : b = a := Except.ok.inj ha
      rw [h b rfl]
      rfl

/-- The same unless one is stopped; names of converters are overlooked. -/
def unstopped (stops : ReadError → Bool)
    (hwithin : ∀ seg e, stops e = true → stops (e.within seg) = true) :
    ReadConcord Except Except where
  toConcord := .unstopped stops _
  within := by
    intro α x y seg h
    rcases h.elim with ⟨e, rfl, he⟩ | ⟨e, rfl, he⟩ | ⟨e, e', rfl, rfl, he⟩ | ⟨a, rfl, rfl⟩
    · exact .inl ⟨e.within seg, rfl, hwithin seg e he⟩
    · exact .inr (.inl ⟨e.within seg, rfl, hwithin seg e he⟩)
    · refine .inr (.inr (congrArg Except.error ?_))
      rw [ReadError.gist_within, ReadError.gist_within, he]
    · exact .refl _

/-- The second switches allow no less; unless the comparison is lenient, they allow the same. -/
structure Allows (H : ReadConcord M N) (switches switches' : Switches) : Prop where
  options : switches.readsOldOption = switches'.readsOldOption ∨
    switches.readsOldOption = false ∧ H.lenient
  fields : (!switches.checksExtra) = (!switches'.checksExtra) ∨
    (!switches.checksExtra) = false ∧ H.lenient

theorem Allows.refl (H : ReadConcord M N) (switches : Switches) : H.Allows switches switches :=
  ⟨.inl rfl, .inl rfl⟩

end ReadConcord

end TypedSexp
