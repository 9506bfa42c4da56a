import TypedSexp.Conversion.Carrier
import TypedSexp.Proofs.Derivation.Refusal
import TypedSexp.Proofs.Results
/-!
# What is relied on in a carrier

Conversions in one carrier are compared with conversions in another one. Both go on from what a step
gives, so a comparison has to know which values those may be (`gives`).
-/

namespace TypedSexp

/-- What is relied on in a carrier. `gives` tells which values a computation may give, from whatever
is remembered; only these matter to what follows. -/
class LawfulCarrier (M : Type → Type → Type) [∀ ε, Monad (M ε)] [Carrier M] where
  lawful : ∀ ε, LawfulMonad (M ε)
  gives : {ε α : Type} → M ε α → α → Prop
  outcome_ok : ∀ {ε α : Type} (a : α), (outcome (.ok a) : M ε α) = pure a
  mapError_ok : ∀ {ε ε' α : Type} (f : ε → ε') (a : α),
    Carrier.mapError f (outcome (.ok a) : M ε α) = pure a
  of_outcome : ∀ {ε α : Type} {x : Except ε α} {a : α}, gives (outcome x : M ε α) a → x = .ok a
  of_bind : ∀ {ε α β : Type} {x : M ε α} {f : α → M ε β} {b : β}, gives (x >>= f) b →
    ∃ a, gives x a ∧ gives (f a) b
  of_mapError : ∀ {ε ε' α : Type} {x : M ε α} {f : ε → ε'} {a : α},
    gives (Carrier.mapError f x) a → gives x a
  bind_congr : ∀ {ε α β : Type} {x : M ε α} {f g : α → M ε β},
    (∀ a, gives x a → f a = g a) → x >>= f = x >>= g

export LawfulCarrier (gives)

instance : LawfulCarrier Except where
  lawful _ := inferInstance
  gives x a := x = .ok a
  outcome_ok _ := rfl
  mapError_ok _ _ := rfl
  of_outcome h := h
  of_bind := bind_eq_ok.1
  of_mapError := mapError_eq_ok.1
  bind_congr {ε α β x f g} h := by
    cases x with
    | error e => rfl
    | ok a => exact h a rfl

instance : LawfulCarrier Remembering where
  lawful _ := inferInstance
  gives x a := ∃ d, (x d).1 = .ok a
  outcome_ok _ := rfl
  mapError_ok _ _ := rfl
  of_outcome := fun ⟨_, h⟩ => h
  of_bind {ε α β x f b} := by
    rintro ⟨d, h⟩
    rw [Derivation.run_bind] at h
    cases hx : x d with
    | mk r d' =>
      rw [hx] at h
      cases r with
      | error e => exact nomatch h
      | ok a => exact ⟨a, ⟨d, by rw [hx]⟩, d', h⟩
  of_mapError := fun ⟨d, h⟩ => ⟨d, mapError_eq_ok.1 h⟩
  bind_congr {ε α β x f g} h := by
    funext d
    rw [Derivation.run_bind, Derivation.run_bind]
    cases hx : x d with
    | mk r d' =>
      cases r with
      | error e => rfl
      | ok a =>
        show f a d' = g a d'
        rw [h a ⟨d, by rw [hx]⟩]

end TypedSexp
