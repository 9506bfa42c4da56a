import Mathlib.Data.Fintype.EquivFin
import TypedSexp.Proofs.Conversion.Unfolding
/-!
# Types inside types

`BoundType.Reaches` finds every type that a type mentions: its parts, what it is applied to, and the
bodies of its definitions. A definition refers to another one if its body names it where no shape
stands around it (`Catalog.Refers`); where these references run in no circle, following them comes to
an end (`Catalog.acc_of_acyclic`).
-/

namespace TypedSexp

/-! ## Parts -/

/-- The descriptions directly inside a shape. -/
inductive Description.Part : Description → Description → Prop
  | product {parts : List Description} {x : Description} (hx : x ∈ parts) : Part (.product parts) x
  | list {x : Description} : Part (.list x) x
  | array {x : Description} {stated : Option ElementType} : Part (.array x stated) x
  | option {x : Description} : Part (.option x) x
  | field {fields : List (Field Description)} {instanceOf : Option ClassInfo} {extra : Bool}
      {f : Field Description} {x : Description} (hf : f ∈ fields) (hb : f.presence ≠ .sexpBool)
      (hx : f.valueType = some x) : Part (.record fields instanceOf extra) x
  | argument {d x : Description} {folding : Bool} {cs : List (Constructor Description)}
      {c : Constructor Description} (hd : d.IsVariant folding cs) (hc : c ∈ cs) (hx : x ∈ c.args) :
      Part d x
  | inline {d x : Description} {folding : Bool} {cs : List (Constructor Description)}
      {c : Constructor Description} (hd : d.IsVariant folding cs) (hc : c ∈ cs)
      (hx : c.inlineRecord = some x) : Part d x

/-- No values of the description are instances of classes, except inside its parts. -/
structure Description.IsClassless (d : Description) : Prop where
  record : ∀ fields instanceOf extra, d = .record fields instanceOf extra → instanceOf = none
  variant : ∀ folding cs, d.IsVariant folding cs → ∀ c ∈ cs, c.instanceOf = none

/-- The types that a type mentions, itself included. -/
inductive BoundType.Reaches (catalog : Catalog) (t : BoundType) : BoundType → Prop
  | refl : Reaches catalog t t
  | part {d x : Description} {env : List BoundType} (h : Reaches catalog t (.mk d env))
      (hx : d.Part x) : Reaches catalog t (.mk x env)
  | bound {d : Description} {env : List BoundType} {u : BoundType}
      (h : Reaches catalog t (.mk d env)) (hu : u ∈ env) : Reaches catalog t u
  | body {id : DefinitionId} {body : Description} {env : List BoundType}
      (h : Reaches catalog t (.mk (.recursive id none) env)) (hb : catalog.body? id = some body) :
      Reaches catalog t (.mk body env)
  | recursive {id : DefinitionId} {args : List Description} {env : List BoundType}
      (h : Reaches catalog t (.mk (.recursive id (some args)) env)) :
      Reaches catalog t (.mk (.recursive id none) (args.map (.mk · env)))
  | applied {id : DefinitionId} {args : List Description} {env : List BoundType}
      (h : Reaches catalog t (.mk (.applied id args) env)) :
      Reaches catalog t (.mk (.recursive id none) (args.map (.mk · env)))

namespace BoundType

variable {catalog : Catalog} {t u v : BoundType} {d : Description} {env : List BoundType}

theorem Reaches.unfolds {through : Bool} {layers : Nat} (h : Unfolds catalog through u layers v) :
    Reaches catalog t u → Reaches catalog t v := by
  induction h with
  | here _ => exact fun hu => hu
  | parameter _ ht _ ih => exact fun hu => ih (hu.bound (List.mem_of_getElem? ht))
  | body hb _ ih => exact fun hu => ih (hu.body hb)
  | recursive _ ih => exact fun hu => ih hu.recursive
  | applied _ ih => exact fun hu => ih hu.applied
  | option _ _ ih => exact fun hu => ih (hu.part .option)

/-- What a reference is applied to is reached. -/
theorem Reaches.of_recursive {id : DefinitionId} {args : List Description} {x : Description}
    (h : Reaches catalog t (.mk (.recursive id (some args)) env)) (hx : x ∈ args) :
    Reaches catalog t (.mk x env) := h.recursive.bound (List.mem_map_of_mem hx)

theorem Reaches.of_applied {id : DefinitionId} {args : List Description} {x : Description}
    (h : Reaches catalog t (.mk (.applied id args) env)) (hx : x ∈ args) :
    Reaches catalog t (.mk x env) := h.applied.bound (List.mem_map_of_mem hx)

end BoundType

/-! ## References outside shapes -/

namespace Description

mutual

/-- The definitions that a description names, except inside shapes. -/
def bare : Description → List DefinitionId
  | .recursive id none => [id]
  | .recursive id (some args) => id :: bareAll args
  | .applied id args => id :: bareAll args
  | _ => []

/-- The definitions that descriptions name, except inside shapes. -/
def bareAll : List Description → List DefinitionId
  | [] => []
  | d :: ds => bare d ++ bareAll ds

end

theorem bare_subset {d : Description} : ∀ {ds : List Description}, d ∈ ds → d.bare ⊆ bareAll ds
  | [], h => absurd h List.not_mem_nil
  | e :: ds, h => by
    rw [bareAll]
    rcases List.mem_cons.1 h with rfl | h
    · exact List.subset_append_left _ _
    · exact fun id hid => List.mem_append_right _ (bare_subset h hid)

end Description

/-- The body of a definition names another one, and no shape stands around it. -/
def Catalog.Refers (catalog : Catalog) (id id' : DefinitionId) : Prop :=
  ∃ body, catalog.body? id = some body ∧ id' ∈ body.bare

/-- The definition occurs in the type. -/
def BoundType.Involves (catalog : Catalog) (t : BoundType) (id : DefinitionId) : Prop :=
  ∃ env, t.Reaches catalog (.mk (.recursive id none) env)

namespace BoundType

variable {catalog : Catalog} {t : BoundType} {id : DefinitionId}

mutual

theorem involves_of_bare : ∀ {d : Description} {env : List BoundType},
    Reaches catalog t (.mk d env) → id ∈ d.bare → t.Involves catalog id
  | .recursive id' none, env, h, hid => by
    obtain rfl : id = id' := by simpa [Description.bare] using hid
    exact ⟨env, h⟩
  | .recursive id' (some args), env, h, hid => by
    rw [Description.bare] at hid
    rcases List.mem_cons.1 hid with rfl | hid
    · exact ⟨_, h.recursive⟩
    · exact involves_of_bareAll (fun x hx => h.of_recursive hx) hid
  | .applied id' args, env, h, hid => by
    rw [Description.bare] at hid
    rcases List.mem_cons.1 hid with rfl | hid
    · exact ⟨_, h.applied⟩
    · exact involves_of_bareAll (fun x hx => h.of_applied hx) hid
  | .primitive _, _, _, hid => absurd hid (by simp [Description.bare])
  | .product _, _, _, hid => absurd hid (by simp [Description.bare])
  | .record .., _, _, hid => absurd hid (by simp [Description.bare])
  | .sum _, _, _, hid => absurd hid (by simp [Description.bare])
  | .polyVariant _, _, _, hid => absurd hid (by simp [Description.bare])
  | .list _, _, _, hid => absurd hid (by simp [Description.bare])
  | .array .., _, _, hid => absurd hid (by simp [Description.bare])
  | .option _, _, _, hid => absurd hid (by simp [Description.bare])
  | .sealed, _, _, hid => absurd hid (by simp [Description.bare])
  | .parameter .., _, _, hid => absurd hid (by simp [Description.bare])
  | .given _, _, _, hid => absurd hid (by simp [Description.bare])
  | .notConverter _, _, _, hid => absurd hid (by simp [Description.bare])
  | .foreign _, _, _, hid => absurd hid (by simp [Description.bare])

theorem involves_of_bareAll : ∀ {ds : List Description} {env : List BoundType},
    (∀ x ∈ ds, Reaches catalog t (.mk x env)) → id ∈ Description.bareAll ds → t.Involves catalog id
  | [], _, _, hid => absurd hid (by simp [Description.bareAll])
  | d :: ds, env, h, hid => by
    rw [Description.bareAll] at hid
    rcases List.mem_append.1 hid with hid | hid
    · exact involves_of_bare (h d List.mem_cons_self) hid
    · exact involves_of_bareAll (fun x hx => h x (List.mem_cons_of_mem _ hx)) hid

end

/-- What an involved definition refers to is involved. -/
theorem Involves.refers {id' : DefinitionId} (h : t.Involves catalog id)
    (hid : catalog.Refers id id') : t.Involves catalog id' := by
  obtain ⟨env, henv⟩ := h
  obtain ⟨body, hb, hbare⟩ := hid
  exact involves_of_bare (henv.body hb) hbare

end BoundType

/-- **Where references run in no circle they come to an end**, since there are only so many
definitions. -/
theorem Catalog.acc_of_acyclic {catalog : Catalog} {t : BoundType}
    (hdefined : ∀ id, t.Involves catalog id → id < catalog.length)
    (hcycles : ∀ id, t.Involves catalog id → ¬ Relation.TransGen catalog.Refers id id)
    {id : DefinitionId} (hid : t.Involves catalog id) : Acc (flip catalog.Refers) id := by
  -- the definitions that occur, with the references among them
  let Occurring := {id : DefinitionId // t.Involves catalog id}
  let r : Occurring → Occurring → Prop := fun a b => Relation.TransGen catalog.Refers b.1 a.1
  have hfinite : Finite Occurring := by
    refine Finite.of_injective
      (fun a => (⟨a.1, hdefined a.1 a.2⟩ : Fin catalog.length)) fun a b hab => ?_
    exact Subtype.ext (Fin.mk.inj hab)
  have htrans : IsTrans Occurring r := ⟨fun _ _ _ hab hbc => hbc.trans hab⟩
  have hirrefl : Std.Irrefl r := ⟨fun a => hcycles a.1 a.2⟩
  have hwf : WellFounded r := Finite.wellFounded_of_trans_of_irrefl r
  suffices h : ∀ a : Occurring, Acc (flip catalog.Refers) a.1 from h ⟨id, hid⟩
  intro a
  induction a using hwf.induction with
  | h a ih =>
    refine Acc.intro _ fun id' hrefers => ?_
    exact ih ⟨id', a.2.refers hrefers⟩ (.single hrefers)

end TypedSexp
