import TypedSexp.Proofs.Derivation.Refusal
/-!
# Reliable definitions

A definition that is derived once is derived whatever is remembered. Since definitions may apply each
other, this is shown for sets of them (`Catalog.Derives`): a definition is reliable, apart from those
that are just being derived, if it belongs to a set each member of which is built from the others.
When a definition is complete, nothing has to be excepted for it any more
(`Catalog.Reliable.discharge`), and when none is left, the reliable ones are never refused
(`Derivation.ofDefinition_carries`).
-/

namespace TypedSexp

open Derivation

namespace Catalog

/-- The definition has a body that is derived with as many arguments, whatever they are and also
with arguments in the place of its parameters, if the definitions in a set are derived. -/
def Derives (catalog : Catalog) (Known : DefinitionId → Nat → Prop) (id : DefinitionId)
    (count : Nat) : Prop :=
  ∃ d body, Description.lookup catalog id count = .ok d ∧ bodyOf d = .ok body ∧
    ∀ define : DefinitionId → List Converter → Derivation Converter,
      (∀ id args, Known id args.length → (define id args).Gives (fun _ => ()) ()) →
      ∀ (site : Site) (r : Replacement), body.Allows r → Description.Fills catalog define site r count →
        (Description.build catalog define site (body.replace r)).Gives (fun _ => ()) ()

/-- Each definition of a set is derived from the set and from the exceptions. -/
def ClosedBut (catalog : Catalog) (Excepted Known : DefinitionId → Nat → Prop) : Prop :=
  ∀ id count, Known id count →
    catalog.Derives (fun id count => Excepted id count ∨ Known id count) id count

/-- The definition is one of the exceptions, or derived from them. -/
def Reliable (catalog : Catalog) (Excepted : DefinitionId → Nat → Prop) (id : DefinitionId)
    (count : Nat) : Prop :=
  Excepted id count ∨ ∃ Known, catalog.ClosedBut Excepted Known ∧ Known id count

variable {catalog : Catalog} {Excepted Known Known' : DefinitionId → Nat → Prop} {id : DefinitionId}
  {count : Nat}

theorem Derives.mono (hsub : ∀ id count, Known id count → Known' id count)
    (h : catalog.Derives Known id count) : catalog.Derives Known' id count := by
  obtain ⟨d, body, hd, hbody, hbuild⟩ := h
  exact ⟨d, body, hd, hbody, fun define hdefine =>
    hbuild define fun id args hknown => hdefine id args (hsub _ _ hknown)⟩

theorem Reliable.mono {Excepted' : DefinitionId → Nat → Prop}
    (hsub : ∀ id count, Excepted id count → Excepted' id count)
    (h : catalog.Reliable Excepted id count) : catalog.Reliable Excepted' id count := by
  refine h.imp (hsub id count) fun hknown => ?_
  obtain ⟨Known, hclosed, hid⟩ := hknown
  refine ⟨Known, fun i n hi => (hclosed i n hi).mono fun i n hor => ?_, hid⟩
  exact hor.imp_left (hsub i n)

theorem ClosedBut.derives (h : catalog.ClosedBut Excepted Known) (hid : Known id count) :
    catalog.Derives (catalog.Reliable Excepted) id count := by
  refine (h id count hid).mono fun id count hor => ?_
  exact hor.imp_right fun hknown => ⟨Known, h, hknown⟩

/-- **A definition that is derived from reliable ones and itself is reliable itself**, and whatever
was reliable except for it is reliable. -/
theorem Reliable.discharge
    (h : catalog.Derives (catalog.Reliable fun i n => (i = id ∧ n = count) ∨ Excepted i n) id count)
    {i : DefinitionId} {n : Nat}
    (hi : catalog.Reliable (fun i n => (i = id ∧ n = count) ∨ Excepted i n) i n) :
    catalog.Reliable Excepted i n := by
  -- the definition, and all that is derived from it and the exceptions
  let Known : DefinitionId → Nat → Prop := fun i n => (i = id ∧ n = count) ∨
    ∃ K, catalog.ClosedBut (fun i n => (i = id ∧ n = count) ∨ Excepted i n) K ∧ K i n
  have hsub : ∀ i n, catalog.Reliable (fun i n => (i = id ∧ n = count) ∨ Excepted i n) i n →
      Excepted i n ∨ Known i n := by
    rintro i n ((hid | hexcept) | hknown)
    · exact .inr (.inl hid)
    · exact .inl hexcept
    · exact .inr (.inr hknown)
  have hclosed : catalog.ClosedBut Excepted Known := by
    rintro i n (⟨rfl, rfl⟩ | ⟨K, hK, hi⟩)
    · exact h.mono hsub
    · exact (hK.derives hi).mono hsub
  exact (hsub i n hi).imp_right fun hknown => ⟨Known, hclosed, hknown⟩

end Catalog

namespace Derivation

variable {catalog : Catalog} {numbering : Nat → Description}

/-- A definition that is derived from such definitions is never refused. -/
theorem define_gives {Known : DefinitionId → Nat → Prop}
    (hclosed : ∀ id count, Known id count → catalog.Derives Known id count) :
    ∀ (depth : Nat) (inProgress : List Request) (id : DefinitionId) (args : List Converter),
      Known id args.length → (define catalog depth inProgress id args).Gives (fun _ => ()) ()
  | 0, _, _, _, _ => by
    rw [define]
    exact fun _ => .inl rfl
  | depth + 1, inProgress, id, args, hid => by
    obtain ⟨d, body, hd, hbody, hbuild⟩ := hclosed id _ hid
    rw [define]
    refine .check hd (.check hbody ((Gives.cached? _).bind fun found _ => ?_))
    cases found with
    | some c => exact .pure rfl
    | none =>
      by_cases hprogress : inProgress.contains ⟨.definition id, args.map Keyed.identity⟩
      · simp only [hprogress, if_true]
        exact .link _ _ _
      · simp only [hprogress, if_false, Bool.false_eq_true]
        have hbuilt := hbuild _ (define_gives hclosed depth
          (⟨.definition id, args.map Keyed.identity⟩ :: inProgress)) ⟨args, some d.name⟩ none
          (.inl rfl) rfl
        rw [Description.replace_none] at hbuilt
        refine hbuilt.bind fun built _ => ?_
        refine (Gives.fresh _ _).bind fun c _ => ?_
        exact (Gives.remember _ c).bind fun _ _ => .pure rfl

/-! ## What is remembered -/

/-- The definition is being derived with as many arguments. -/
def Underway (inProgress : List Request) (id : DefinitionId) (count : Nat) : Prop :=
  ∃ r ∈ inProgress, r.subject = .definition id ∧ r.args.length = count

/-- A description that is never refused with so many arguments. -/
def NeverRefuses (catalog : Catalog) (d : Description) (count : Nat) : Prop :=
  ∀ (depth : Nat) (inProgress : List Request) (args : List Converter), args.length = count →
    (Description.build catalog (define catalog depth inProgress) ⟨args, none⟩ d).Gives
      (fun _ => ()) ()

/-- What is remembered is reliable, apart from the definitions that are being derived. No derivation
asks for what links came to. -/
def Sturdy (catalog : Catalog) (numbering : Nat → Description) (inProgress : List Request)
    (cache : List (Request × Converter)) : Prop :=
  ∀ r c, (r, c) ∈ cache →
    match r.subject with
    | .definition id => catalog.Reliable (Underway inProgress) id r.args.length
    | .description number => NeverRefuses catalog (numbering number) r.args.length
    | .cell .. => True

/-- Only what links came to is left when the rest is forgotten. -/
theorem sturdy_clear {inProgress : List Request} (d : Deriver) :
    Sturdy catalog numbering inProgress d.clear.cache := by
  intro r c hc
  have hcell : r.subject.isCell = true := (List.mem_filter.1 hc).2
  cases hs : r.subject with
  | cell number id => trivial
  | _ => simp [hs, Subject.isCell] at hcell

/-- What is remembered stays reliable where other definitions are excepted. -/
theorem Sturdy.imp {inProgress inProgress' : List Request} {cache : List (Request × Converter)}
    (h : Sturdy catalog numbering inProgress cache)
    (himp : ∀ id count, catalog.Reliable (Underway inProgress) id count →
      catalog.Reliable (Underway inProgress') id count) :
    Sturdy catalog numbering inProgress' cache := by
  intro r c hc
  have hr := h r c hc
  cases hs : r.subject with
  | definition id =>
    rw [hs] at hr
    exact himp _ _ hr
  | description number =>
    rw [hs] at hr
    exact hr
  | cell number id => trivial

theorem underway_cons {id : DefinitionId} {ids : List Identity} {inProgress : List Request} :
    Underway (⟨.definition id, ids⟩ :: inProgress) =
      fun i n => (i = id ∧ n = ids.length) ∨ Underway inProgress i n := by
  funext i n
  simp only [Underway, List.mem_cons, exists_eq_or_imp, Subject.definition.injEq, eq_comm]

theorem Sturdy.cons {inProgress : List Request} {cache : List (Request × Converter)}
    (h : Sturdy catalog numbering inProgress cache) (r : Request) :
    Sturdy catalog numbering (r :: inProgress) cache := by
  refine h.imp fun i n hi => hi.mono fun i n hunder => ?_
  obtain ⟨q, hq, hsubject, hlen⟩ := hunder
  exact ⟨q, List.mem_cons_of_mem _ hq, hsubject, hlen⟩

/-- A definition that is complete is excepted no more. -/
theorem Reliable.complete {id : DefinitionId} {ids : List Identity} {inProgress : List Request}
    (h : catalog.Derives (catalog.Reliable (Underway (⟨.definition id, ids⟩ :: inProgress))) id
      ids.length) (i : DefinitionId) (n : Nat)
    (hi : catalog.Reliable (Underway (⟨.definition id, ids⟩ :: inProgress)) i n) :
    catalog.Reliable (Underway inProgress) i n := by
  rw [underway_cons] at h hi
  exact Catalog.Reliable.discharge h hi

theorem remember_sturdy {id : DefinitionId} {ids : List Identity} {inProgress : List Request}
    (c : Converter) :
    Runs (fun cache => Sturdy catalog numbering (⟨.definition id, ids⟩ :: inProgress) cache ∧
        catalog.Derives (catalog.Reliable (Underway (⟨.definition id, ids⟩ :: inProgress))) id
          ids.length)
      (remember ⟨.definition id, ids⟩ c)
      fun _ cache => Sturdy catalog numbering inProgress cache ∧
        catalog.Reliable (Underway inProgress) id ids.length := by
  refine .remember _ c fun cache h => ?_
  have hcomplete := Reliable.complete h.2
  have hid : catalog.Reliable (Underway inProgress) id ids.length :=
    hcomplete _ _ (.inl ⟨_, List.mem_cons_self, rfl, rfl⟩)
  refine ⟨fun r k hk => ?_, hid⟩
  rcases List.mem_cons.1 hk with heq | hk
  · obtain ⟨rfl, rfl⟩ := Prod.mk.inj heq
    exact hid
  · exact h.1.imp hcomplete r k hk

/-- A body that is derived is derived from the definitions that were derived for it. -/
theorem body_derives {inProgress : List Request} {id : DefinitionId} {args : List Converter}
    {d : Definition} {body : Description}
    {define : DefinitionId → List Converter → Derivation Converter}
    (hd : Description.lookup catalog id args.length = .ok d) (hbody : bodyOf d = .ok body)
    (hdefine : ∀ id args, Runs (Sturdy catalog numbering inProgress) (define id args)
      fun _ cache => Sturdy catalog numbering inProgress cache ∧
        catalog.Reliable (Underway inProgress) id args.length) :
    Runs (Sturdy catalog numbering inProgress)
      (Description.build catalog define ⟨args, some d.name⟩ body)
      fun _ cache => Sturdy catalog numbering inProgress cache ∧
        catalog.Derives (catalog.Reliable (Underway inProgress)) id args.length := by
  have halike (define' : DefinitionId → List Converter → Derivation Converter)
      (h : ∀ id args, catalog.Reliable (Underway inProgress) id args.length →
        (define' id args).Gives (fun _ => ()) ()) :
      Description.DefinesAlike (Sturdy catalog numbering inProgress) define define' := by
    intro i as as' hlen
    exact (hdefine i as).weaken (fun _ h => h) fun _ _ hr => ⟨hr.1, h i as' (hlen ▸ hr.2)⟩
  intro deriver c hsturdy hc
  refine ⟨?_, d, body, hd, hbody, fun define' h site' r hallows hfills => ?_⟩
  · -- any second run will do
    have hendless := halike (fun _ _ => throw .endless) fun _ _ _ _ => .inl rfl
    have hfills : Description.Fills catalog (fun _ _ => throw .endless) ⟨args, none⟩ none args.length :=
      rfl
    exact (Description.build_carries hfills hendless body (.inl rfl) deriver c hsturdy hc).1
  · exact (Description.build_carries hfills (halike define' h) body hallows deriver c hsturdy hc).2

/-- **A definition that is derived is reliable**, apart from those that are being derived, and so is
all that is remembered then. -/
theorem define_sturdy : ∀ (depth : Nat) (inProgress : List Request) (id : DefinitionId)
    (args : List Converter),
    Runs (Sturdy catalog numbering inProgress) (define catalog depth inProgress id args)
      fun _ cache => Sturdy catalog numbering inProgress cache ∧
        catalog.Reliable (Underway inProgress) id args.length
  | 0, _, _, _ => by
    rw [define]
    exact .throw
  | depth + 1, inProgress, id, args => by
    rw [define]
    refine .check fun d hd => .check fun body hbody => ?_
    refine (Runs.cached? _).bind fun found => ?_
    cases found with
    | some c =>
      refine .pure fun cache h => ⟨h.1, ?_⟩
      obtain ⟨front, back, hcache, -⟩ := List.lookup_eq_some_iff.1 h.2.symm
      have hr := h.1 ⟨.definition id, args.map Keyed.identity⟩ c (by rw [hcache]; simp)
      simpa using hr
    | none =>
      by_cases hprogress : inProgress.contains ⟨.definition id, args.map Keyed.identity⟩
      · simp only [hprogress, if_true]
        refine (Runs.link _ _ _).weaken (fun _ h => h.1) fun _ _ h => ⟨h, .inl ?_⟩
        exact ⟨_, by simpa using hprogress, rfl, by simp⟩
      · simp only [hprogress, if_false, Bool.false_eq_true]
        have hbuild := body_derives hd hbody (define_sturdy depth
          (⟨.definition id, args.map Keyed.identity⟩ :: inProgress))
        rw [← List.length_map Keyed.identity] at hbuild ⊢
        refine (hbuild.weaken (fun _ h => h.1.cons _) fun _ _ h => h).bind fun built => ?_
        refine (Runs.fresh _ _).bind fun c => ?_
        exact (remember_sturdy c).bind fun _ => .pure fun _ h => h

/-! ## Targets -/

/-- A reliable definition is never refused. -/
theorem reliable_gives (depth : Nat) (inProgress : List Request) (id : DefinitionId)
    (args : List Converter) (h : catalog.Reliable (Underway []) id args.length) :
    (define catalog depth inProgress id args).Gives (fun _ => ()) () := by
  have hnone (i : DefinitionId) (n : Nat) : ¬ Underway [] i n := by simp [Underway]
  obtain ⟨Known, hclosed, hid⟩ := h.resolve_left (hnone _ _)
  refine define_gives (fun id count hid => ?_) depth inProgress id args hid
  exact (hclosed id count hid).mono fun i n h => h.resolve_left (hnone i n)

theorem ofDefinition_carries (id : DefinitionId) {args args' : List Converter}
    (hlen : args.length = args'.length) :
    Carries (Sturdy catalog numbering []) (fun _ => ()) (ofDefinition catalog id args)
      (ofDefinition catalog id args') := by
  refine (define_sturdy _ [] id args).weaken (fun _ h => h) fun _ _ h => ⟨h.1, ?_⟩
  exact reliable_gives _ _ _ _ (hlen ▸ h.2)

theorem ofDescription_gives {d : Description} {args : List Converter} (number : Nat)
    (h : NeverRefuses catalog d args.length) :
    (ofDescription catalog number d args).Gives (fun _ => ()) () := by
  refine (Gives.cached? _).bind fun found _ => ?_
  cases found with
  | some c => exact .pure rfl
  | none =>
    refine (h _ _ args rfl).bind fun c _ => ?_
    exact (Gives.remember _ c).bind fun _ _ => .pure rfl

/-- While a description is being derived, no definition is. -/
theorem underway_description {number : Nat} {ids : List Identity} :
    Underway [⟨.description number, ids⟩] = Underway [] := by
  funext id count
  simp [Underway]

theorem sturdy_description {number : Nat} {ids : List Identity}
    {cache : List (Request × Converter)} :
    Sturdy catalog numbering [⟨.description number, ids⟩] cache ↔
      Sturdy catalog numbering [] cache := by
  unfold Sturdy
  rw [underway_description]

/-- A description that is derived is never refused. -/
theorem description_sturdy (depth number : Nat) (ids : List Identity) (d : Description)
    (args : List Converter) :
    Runs (Sturdy catalog numbering [])
      (Description.build catalog (define catalog depth [⟨.description number, ids⟩]) ⟨args, none⟩ d)
      fun _ cache => Sturdy catalog numbering [] cache ∧
        NeverRefuses catalog d args.length := by
  have halike (depth' : Nat) (inProgress : List Request) :
      Description.DefinesAlike (Sturdy catalog numbering [])
        (define catalog depth [⟨.description number, ids⟩])
        (define catalog depth' inProgress) := by
    intro i as as' hlen
    refine (define_sturdy depth [⟨.description number, ids⟩] i as).weaken
      (fun _ h => sturdy_description.2 h) fun _ _ h => ⟨sturdy_description.1 h.1, ?_⟩
    have hreliable := h.2
    rw [underway_description, hlen] at hreliable
    exact reliable_gives _ _ _ _ hreliable
  intro deriver c hsturdy hc
  have hcarries (depth' : Nat) (inProgress : List Request) (args' : List Converter)
      (hlen : args'.length = args.length) :
      Carries (Sturdy catalog numbering []) (fun _ => ())
        (Description.build catalog (define catalog depth [⟨.description number, ids⟩]) ⟨args, none⟩ d)
        (Description.build catalog (define catalog depth' inProgress) ⟨args', none⟩ d) := by
    have hfills : Description.Fills catalog (define catalog depth' inProgress) ⟨args', none⟩ none
        (Site.mk args none).params.length := hlen.symm
    have hsame := Description.build_carries hfills (halike depth' inProgress) d (.inl rfl)
    rwa [Description.replace_none] at hsame
  refine ⟨(hcarries 0 [] args rfl deriver c hsturdy hc).1, fun depth' inProgress args' hlen => ?_⟩
  exact (hcarries depth' inProgress args' hlen deriver c hsturdy hc).2

theorem ofDescription_sturdy (number : Nat) (args : List Converter) :
    Runs (Sturdy catalog numbering []) (ofDescription catalog number (numbering number) args)
      fun _ cache => Sturdy catalog numbering [] cache ∧
        NeverRefuses catalog (numbering number) args.length := by
  unfold ofDescription
  refine (Runs.cached? _).bind fun found => ?_
  cases found with
  | some c =>
    refine .pure fun cache h => ⟨h.1, ?_⟩
    obtain ⟨front, back, hcache, -⟩ := List.lookup_eq_some_iff.1 h.2.symm
    have hr := h.1 ⟨.description number, args.map Keyed.identity⟩ c (by rw [hcache]; simp)
    simpa using hr
  | none =>
    refine ((description_sturdy _ number _ _ args).weaken (fun _ h => h.1) fun _ _ h => h).bind
      fun c => ?_
    have hremember : Runs
        (fun cache => Sturdy catalog numbering [] cache ∧
          NeverRefuses catalog (numbering number) args.length)
        (remember ⟨.description number, args.map Keyed.identity⟩ c)
        fun _ cache => Sturdy catalog numbering [] cache ∧
          NeverRefuses catalog (numbering number) args.length := by
      refine .remember _ c fun cache h => ⟨fun r k hk => ?_, h.2⟩
      rcases List.mem_cons.1 hk with heq | hk
      · obtain ⟨rfl, rfl⟩ := Prod.mk.inj heq
        simpa using h.2
      · exact h.1 r k hk
    exact hremember.bind fun _ => .pure fun _ h => h

/-- The description of a target is the one with its number. -/
def Target.IsNumbered (numbering : Nat → Description) (target : Target) : Prop :=
  ∀ number d, target = .description number d → d = numbering number

theorem ofTarget_carries {target : Target} (ht : Target.IsNumbered numbering target)
    {args args' : List Converter} (hlen : args.length = args'.length) :
    Carries (Sturdy catalog numbering []) (fun _ => ()) (ofTarget catalog args target)
      (ofTarget catalog args' target) := by
  cases target with
  | converter c => exact .pure rfl
  | definition id => exact ofDefinition_carries id hlen
  | description number d =>
    obtain rfl := ht number d rfl
    exact (ofDescription_sturdy number args).weaken (fun _ h => h)
      fun _ _ h => ⟨h.1, ofDescription_gives number (hlen ▸ h.2)⟩
  | foreign v => exact .throw

theorem ofTargets_carries : ∀ {targets : List Target},
    (∀ target ∈ targets, Target.IsNumbered numbering target) →
    Carries (Sturdy catalog numbering []) List.length (ofTargets catalog targets)
      (ofTargets catalog targets)
  | [], _ => .pure rfl
  | target :: targets, h => by
    rw [ofTargets]
    refine (ofTarget_carries (h target List.mem_cons_self) rfl).bind fun c c' _ => ?_
    refine (ofTargets_carries fun t ht => h t (List.mem_cons_of_mem _ ht)).bind
      fun cs cs' hlen => .pure ?_
    exact congrArg (· + 1) hlen

/-- **A target that is derived is never refused**, if what is remembered is reliable; and it stays
so. -/
theorem derive_carries {target : Target} {args : List Target}
    (ht : Target.IsNumbered numbering target)
    (hargs : ∀ arg ∈ args, Target.IsNumbered numbering arg) :
    Carries (Sturdy catalog numbering []) (fun _ => ()) (derive catalog target args)
      (derive catalog target args) := by
  have hrun : Carries (Sturdy catalog numbering []) (fun _ => ())
      (ofTargets catalog args >>= fun cs => ofTarget catalog cs target)
      (ofTargets catalog args >>= fun cs => ofTarget catalog cs target) :=
    (ofTargets_carries hargs).bind fun cs cs' hlen => ofTarget_carries ht hlen
  unfold derive
  cases target with
  | converter c =>
    cases args with
    | nil => exact hrun
    | cons arg args => exact .throw
  | _ => exact hrun

end Derivation

end TypedSexp
