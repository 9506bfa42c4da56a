import Mathlib.Data.List.Forall2
import TypedSexp.Text.Basic
/-!
# Lists side by side and lists by name

Facts about `List.zip`, `List.Forall₂` and `List.lookup` that derivation and conversion share.
-/

namespace TypedSexp

section Zip

variable {α β γ : Type} {as : List α} {bs : List β} {cs : List γ}

theorem mem_zip_getElem {i : Nat} (ha : i < as.length)
    (hb : i < bs.length) : (as[i], bs[i]) ∈ as.zip bs := by
  rw [← List.getElem_zip (h := by rw [List.length_zip]; omega)]
  exact List.getElem_mem _

theorem exists_zip_right (h : as.length = bs.length) {a : α} (ha : a ∈ as) :
    ∃ b, (a, b) ∈ as.zip bs := by
  obtain ⟨i, hi, rfl⟩ := List.mem_iff_getElem.1 ha
  exact ⟨bs[i], mem_zip_getElem hi (by omega)⟩

theorem exists_zip_left (h : as.length = bs.length) {b : β} (hb : b ∈ bs) :
    ∃ a, (a, b) ∈ as.zip bs := by
  obtain ⟨i, hi, rfl⟩ := List.mem_iff_getElem.1 hb
  exact ⟨as[i], mem_zip_getElem (by omega) hi⟩

/-- What stands side by side stands at the side of the same thing. -/
theorem exists_zip_middle (hb : as.length = bs.length) (hc : as.length = cs.length) {b : β} {c : γ}
    (h : (b, c) ∈ bs.zip cs) : ∃ a, (a, b) ∈ as.zip bs ∧ (a, c) ∈ as.zip cs := by
  obtain ⟨i, hi, heq⟩ := List.mem_iff_getElem.1 h
  rw [List.length_zip] at hi
  rw [List.getElem_zip] at heq
  obtain ⟨rfl, rfl⟩ := Prod.mk.inj heq
  exact ⟨as[i], mem_zip_getElem (by omega) (by omega), mem_zip_getElem (by omega) (by omega)⟩

theorem mem_zip_swap {a : α} {b : β} (h : (a, b) ∈ as.zip bs) : (b, a) ∈ bs.zip as := by
  obtain ⟨i, hi, heq⟩ := List.mem_iff_getElem.1 h
  rw [List.length_zip] at hi
  rw [List.getElem_zip] at heq
  obtain ⟨rfl, rfl⟩ := Prod.mk.inj heq
  exact mem_zip_getElem (by omega) (by omega)

theorem exists_of_mem_zip_map {f : α → γ} {c : γ} {b : β} (h : (c, b) ∈ (as.map f).zip bs) :
    ∃ a, c = f a ∧ (a, b) ∈ as.zip bs := by
  rw [List.zip_map_left] at h
  obtain ⟨⟨a, b'⟩, hzip, heq⟩ := List.mem_map.1 h
  obtain ⟨rfl, rfl⟩ := Prod.mk.inj heq
  exact ⟨a, rfl, hzip⟩

theorem eq_of_mem_zip_self {a a' : α} (h : (a, a') ∈ as.zip as) : a = a' := by
  obtain ⟨i, hi, heq⟩ := List.mem_iff_getElem.1 h
  rw [List.getElem_zip] at heq
  obtain ⟨rfl, rfl⟩ := Prod.mk.inj heq
  rfl

theorem map_eq_map_of_zip {f : α → γ} {g : β → γ} (hlen : as.length = bs.length)
    (h : ∀ a b, (a, b) ∈ as.zip bs → g b = f a) : bs.map g = as.map f := by
  refine List.ext_getElem (by simp [hlen]) fun i hi hi' => ?_
  rw [List.getElem_map, List.getElem_map]
  exact h _ _ (mem_zip_getElem (by simpa using hi') (by simpa using hi))

end Zip

section Forall₂

variable {α β : Type} {R S : α → β → Prop} {as : List α} {bs : List β}

theorem forall₂_congr_of_mem (h : ∀ a ∈ as, ∀ b, R a b ↔ S a b) :
    List.Forall₂ R as bs ↔ List.Forall₂ S as bs := by
  have hmem : ∀ {T : α → β → Prop}, List.Forall₂ T as bs →
      List.Forall₂ (fun a b => a ∈ as ∧ T a b) as bs := fun hT =>
    (List.forall₂_and_left _ _).2 ⟨fun _ ha => ha, hT⟩
  constructor
  · intro hR
    exact (hmem hR).imp fun a b hab => (h a hab.1 b).1 hab.2
  · intro hS
    exact (hmem hS).imp fun a b hab => (h a hab.1 b).2 hab.2

theorem forall_exists_of_forall₂ (h : List.Forall₂ R as bs) : ∀ a ∈ as, ∃ b, R a b := by
  induction h with
  | nil => simp
  | @cons a b as bs hab _ ih => exact List.forall_mem_cons.2 ⟨⟨b, hab⟩, ih⟩

theorem exists_forall₂_iff : (∃ bs, List.Forall₂ R as bs) ↔ ∀ a ∈ as, ∃ b, R a b := by
  constructor
  · rintro ⟨bs, h⟩
    exact forall_exists_of_forall₂ h
  · intro h
    induction as with
    | nil => exact ⟨[], .nil⟩
    | cons a as ih =>
      obtain ⟨⟨b, hab⟩, hrest⟩ := List.forall_mem_cons.1 h
      obtain ⟨bs, hbs⟩ := ih hrest
      exact ⟨b :: bs, .cons hab hbs⟩

end Forall₂

/-! ## Named things -/

theorem lookup_map {α β : Type} (f : α → β) (name : Text) : ∀ (es : List (Text × α)),
    (es.map fun e => (e.1, f e.2)).lookup name = (es.lookup name).map f
  | [] => rfl
  | (n, a) :: es => by
    rw [List.map_cons, List.lookup_cons, List.lookup_cons]
    cases name == n with
    | true => rfl
    | false => exact lookup_map f name es

theorem lookup_eq_none_of_not_mem {α : Type} {name : Text} {es : List (Text × α)}
    (h : name ∉ es.map Prod.fst) : es.lookup name = none := by
  rw [List.lookup_eq_none_iff]
  intro e he
  have hne : name ≠ e.1 := fun heq => h (heq ▸ List.mem_map_of_mem he)
  simpa using hne

theorem exists_lookup_of_mem {α : Type} {name : Text} {es : List (Text × α)}
    (h : name ∈ es.map Prod.fst) : ∃ a, es.lookup name = some a := by
  rw [← Option.isSome_iff_exists, ← Option.ne_none_iff_isSome]
  intro hnone
  obtain ⟨e, he, rfl⟩ := List.mem_map.1 h
  exact absurd (List.lookup_eq_none_iff.1 hnone e he) (by simp)

theorem mem_of_lookup {α : Type} {name : Text} {a : α} {es : List (Text × α)}
    (h : es.lookup name = some a) : (name, a) ∈ es := by
  obtain ⟨front, back, rfl, _⟩ := List.lookup_eq_some_iff.1 h
  simp

theorem lookup_of_mem {α : Type} {name : Text} {a : α} : ∀ {es : List (Text × α)},
    (es.map Prod.fst).Nodup → (name, a) ∈ es → es.lookup name = some a
  | (n, b) :: es, hnodup, hmem => by
    rw [List.map_cons, List.nodup_cons] at hnodup
    rcases List.mem_cons.1 hmem with heq | hmem
    · obtain ⟨rfl, rfl⟩ := Prod.mk.inj heq
      exact List.lookup_cons_self
    · have hname : name ∈ es.map Prod.fst := List.mem_map_of_mem hmem
      have hne : name ≠ n := fun heq => hnodup.1 (heq ▸ hname)
      rw [List.lookup_cons, beq_eq_false_iff_ne.2 hne]
      exact lookup_of_mem hnodup.2 hmem

theorem mem_names_of_lookup {α : Type} {name : Text} {a : α} {es : List (Text × α)}
    (h : es.lookup name = some a) : name ∈ es.map Prod.fst :=
  List.mem_map_of_mem (mem_of_lookup h)

/-- What stands under a name in two lists of the same names stands side by side. -/
theorem mem_zip_of_lookup {α : Type} {name : Text} {v w : α} : ∀ {names : List Text}
    {vs ws : List α}, (names.zip vs).lookup name = some v → (names.zip ws).lookup name = some w →
    (v, w) ∈ vs.zip ws
  | [], _, _, hv, _ => absurd hv (by simp)
  | _ :: _, [], _, hv, _ => absurd hv (by simp)
  | _ :: _, _ :: _, [], _, hw => absurd hw (by simp)
  | n :: names, v' :: vs, w' :: ws, hv, hw => by
    rw [List.zip_cons_cons, List.lookup_cons] at hv hw
    cases hn : name == n with
    | true =>
      rw [hn] at hv hw
      obtain rfl := Option.some.inj hv
      obtain rfl := Option.some.inj hw
      exact List.mem_cons_self
    | false =>
      rw [hn] at hv hw
      exact List.mem_cons_of_mem _ (mem_zip_of_lookup hv hw)

/-- What stands under a name in lists of the same names, the names aside. -/
theorem mem_zip_snd_of_lookup {α : Type} {name : Text} {v w : α} {es fs : List (Text × α)}
    (hnames : es.map Prod.fst = fs.map Prod.fst) (hv : es.lookup name = some v)
    (hw : fs.lookup name = some w) : (v, w) ∈ (es.map Prod.snd).zip (fs.map Prod.snd) := by
  have hzip : ∀ es : List (Text × α), (es.map Prod.fst).zip (es.map Prod.snd) = es := fun es => by
    rw [← List.unzip_fst, ← List.unzip_snd, List.zip_unzip]
  rw [← hzip es] at hv
  rw [← hzip fs, ← hnames] at hw
  exact mem_zip_of_lookup hv hw

end TypedSexp
