import TypedSexp.Proofs.Conversion.Live
import TypedSexp.Proofs.Conversion.Typed
import TypedSexp.Proofs.Derivation.Accepts
import TypedSexp.Proofs.Derivation.Coil
/-!
# What is written is read

`Session.write_read`: a converter that a session derived writes every value of its type, and what it
writes reads as the value, with what the writing left remembered. Conversions from a memory that is
held still come back (`Session.recalled_write_read`); what was written is written alike from every
memory that the reading goes as one from.
-/

namespace TypedSexp

/-- What a session derived is built from its type, and the converters of the parameters stand for
what the type binds them to. -/
theorem Session.built {numbering : Nat → Description} {catalog : Catalog} {deriver : Deriver}
    {converters : List (BoundType × Converter)} (h : Session numbering catalog deriver converters)
    {d : Description} {env : List BoundType} {c : Converter} (hc : (.mk d env, c) ∈ converters)
    (switches : Switches) : ∃ l params, Setting.Sound numbering l ⟨catalog, deriver, switches⟩ ∧
      Supplies ⟨catalog, deriver, switches⟩ l env params ∧
      Built catalog l.Foresees params d c.plan := by
  obtain ⟨l, -, hs, hreal⟩ := h.realises hc switches
  cases hreal with
  | mk hlen henv hbuilt => exact ⟨l, _, hs, ⟨hlen, henv⟩, hbuilt⟩

/-- A record whose fields have no rule. -/
theorem HasType.of_never {catalog : Catalog} {Through : DefinitionId → Nat → Prop} {room : Nat}
    {env : List BoundType}
    {fields : List (Field Description)} {instanceOf : Option ClassInfo} {extra : Bool}
    {entries : List (Text × Value)} (hrules : ∀ f ∈ fields, f.rule = .never)
    (hnodup : (entries.map Prod.fst).Nodup)
    (hnames : ∀ name, name ∈ entries.map Prod.fst ↔ name ∈ fields.map Field.name)
    (hclass : ∀ k, instanceOf = some k → entries.map Prod.fst = k.fields)
    (htyped : ∀ f ∈ fields, f.presence ≠ .sexpBool → f.type ≠ none)
    (hflag : ∀ f ∈ fields, ∀ v, f.presence = .sexpBool → entries.lookup f.name = some v →
      ∃ b, v = .bool b)
    (hvalue : ∀ f ∈ fields, ∀ d v, f.presence ≠ .sexpBool → f.valueType = some d →
      entries.lookup f.name = some v → (f.presence = .sexpOption → v ≠ .none) →
      HasType catalog (fun f => f.rule = .never) Through room env d v) :
    HasType catalog (fun f => f.rule = .never) Through room env (.record fields instanceOf extra)
      (.ofFields instanceOf entries) := by
  have hcompares : ∀ f ∈ fields, ¬ f.Compares := by
    rintro f hf (hc | hc) <;> exact absurd ((hrules f hf).symm.trans hc) (by simp)
  have hdefault : ∀ f ∈ fields, ∀ d dflt, f.presence ≠ .sexpBool → f.Compares →
      f.valueType = some d → f.default = some dflt →
      (f.presence = .sexpOption → f.rule = .ifDefault → dflt.value ≠ .none) →
      HasType catalog (fun f => f.rule = .never) Through 0 env d dflt.value :=
    fun f hf _ _ _ hc => absurd hc (hcompares f hf)
  refine .record hrules ?_ hnodup hnames hclass htyped hflag hvalue ?_ hdefault ?_
  · exact fun f hf _ _ hr => absurd (.inl hr) (hcompares f hf)
  · exact fun f hf _ _ hc => absurd hc (hcompares f hf)
  · exact fun f hf _ hr => absurd (.inr hr) (hcompares f hf)

/-- From a memory of a session, every value of the type is written and read back; or a link stops
the writing, if derivation does not accept all definitions that the value goes through. -/
theorem Session.recalled_write_read {numbering : Nat → Description} {catalog : Catalog}
    {deriver : Deriver}
    {converters : List (BoundType × Converter)} (h : Session numbering catalog deriver converters)
    {d : Description} {env : List BoundType} {c : Converter} (hc : (.mk d env, c) ∈ converters)
    {Through : DefinitionId → Nat → Prop} {v : Value}
    (hv : HasType catalog (fun f => f.rule = .never) Through 0 env d v) {switches : Switches}
    (hopt : ¬ (switches.writesOldOption = true ∧ switches.readsOldOption = false)) :
    Yields (catalog.Rejects Through) (Setting.write ⟨catalog, deriver, switches⟩ c v) fun t =>
      ∀ node, node.sexp = t →
        ∃ w, Setting.read ⟨catalog, deriver, switches⟩ c node = .ok w ∧ v.Alike w := by
  obtain ⟨l, params, hsound, hsupplies, hbuilt⟩ := h.built hc switches
  have hfaithful : (fun f : Field Description => f.rule = .never) = Field.IsFaithful False := by
    funext f
    simp [Field.IsFaithful]
  rw [hfaithful] at hv
  rcases HasType.trips hsound hopt Catalog.accepts_of_not_rejects hv hsupplies hbuilt with
    ⟨hhalts, hsticks⟩ | ⟨layers, q, steps, hleads, hq, -⟩
  · exact .inl ⟨hhalts, Setting.write_of_sticks (s := ⟨catalog, deriver, switches⟩) hsticks⟩
  · have hneed : v.depth - 1 + 0 < v.depth + catalog.size + c.plan.size := by
      have hpos := v.depth_pos
      omega
    exact Setting.write_read_of_leads (s := ⟨catalog, deriver, switches⟩) hopt hleads hq hneed

/-- **A converter of a session writes every value of its type, and reads it back**; or a link stops
the writing, if derivation does not accept all definitions that the value goes through. -/
theorem Session.write_read {numbering : Nat → Description} {catalog : Catalog} {deriver : Deriver}
    {converters : List (BoundType × Converter)} (h : Session numbering catalog deriver converters)
    {d : Description} {env : List BoundType} {c : Converter} (hc : (.mk d env, c) ∈ converters)
    {Through : DefinitionId → Nat → Prop} {v : Value}
    (hv : HasType catalog (fun f => f.rule = .never) Through 0 env d v) {switches : Switches}
    (hopt : ¬ (switches.writesOldOption = true ∧ switches.readsOldOption = false)) :
    let s : Setting := ⟨catalog, deriver, switches⟩
    (∃ t written, s.live.write c v deriver = (.ok t, written) ∧
      ∀ node, node.sexp = t →
        ∃ w read, s.live.read c node written = (.ok w, read) ∧ v.Alike w) ∨
    (catalog.Rejects Through ∧
      ∃ e stopped, s.live.write c v deriver = (.error e, stopped) ∧ e.stops = true) := by
  intro s
  have hstill (m : Deriver) (hm : c.plan.Pursues catalog deriver false m) :=
    (h.pursue hc hm).recalled_write_read hc hv hopt
  rcases Setting.live_write_yields (s := s) hstill with ⟨t, written, hrun, -, hback⟩ | hstop
  · refine .inl ⟨t, written, hrun, fun node hnode => ?_⟩
    obtain ⟨m, -, -, hm, hread, -⟩ := (Setting.live_read s c node written).exists_memory
    obtain ⟨w, hw, halike⟩ := hback m hm node hnode
    exact ⟨w, _, Prod.ext (hread.symm.trans hw) rfl, halike⟩
  · exact .inr hstop

/-! ### Trees of any depth -/

/-- A tree of values of a parameter: a label, and the trees below it, which are left out if there
are none. -/
def roseTree : Definition where
  name := "rose"
  params := ["a"]
  body := some (.record
    [⟨"label", some (.parameter 0 none), .required, none, .never, none⟩,
     ⟨"children", some (.recursive 0 none), .sexpList, none, .never, none⟩] none false)

/-- The fields of a tree are built if the types of the label and of the children are. -/
theorem roseFields_succeeds {catalog : Catalog}
    {define : DefinitionId → List Converter → Derivation Converter} {site : Site}
    {label child : Description} (hlabel : (Description.build catalog define site label).Succeeds)
    (hchild : (Description.build catalog define site child).Succeeds) :
    (Description.build catalog define site (.record
      [⟨"label", some label, .required, none, .never, none⟩,
       ⟨"children", some child, .sexpList, none, .never, none⟩] none false)).Succeeds := by
  rw [Description.build, Description.buildRecord]
  refine .bind (.bind ?_ fun _ => .pure _) fun _ => .fresh _ _
  rw [Description.buildFields, Description.buildField]
  refine .bind (.check rfl (.check rfl (hlabel.bind fun _ => .pure _))) fun _ => ?_
  rw [Description.buildFields, Description.buildField, Description.buildFields]
  refine .bind (.bind (.check rfl (.check rfl (hchild.bind fun _ => ?_))) fun _ => ?_) fun _ =>
    .pure _
  · exact .bind (.fresh _ _) fun _ => .pure _
  · exact .bind (.pure _) fun _ => .pure _

theorem roseTree_accepts : Catalog.Accepts [roseTree] 0 1 := by
  refine Catalog.accepts_of_builds (d := roseTree) rfl rfl fun define args hlen => ?_
  obtain ⟨a, rfl⟩ := List.length_eq_one_iff.1 hlen
  refine roseFields_succeeds ?_ ?_
  · rw [Description.build]
    exact .pure a
  · rw [Description.build]
    exact .check rfl (.link _ _ _)

/-- A tree with an integer for a label. -/
def rose (n : Int) (children : List Value) : Value :=
  .record [("label", .int n), ("children", .list children)]

/-- The values of trees of integers: they go through the one definition, applied to the type of the
labels. -/
abbrev IsRose (v : Value) : Prop :=
  HasType [roseTree] (fun f => f.rule = .never) (fun id count => id = 0 ∧ count = 1) 0
    [.mk (.primitive "int") []] (.recursive 0 none) v

theorem rose_hasType {n : Int} {t : Text} (hn : Spelling.writeInt? n = some t) {children : List Value}
    (h : ∀ v ∈ children, IsRose v) : IsRose (rose n children) := by
  have hlabel : List.lookup ("label" : Text) [(("label" : Text), Value.int n),
      ("children", .list children)] = some (.int n) := List.lookup_cons_self
  have hchildren : List.lookup ("children" : Text) [(("label" : Text), Value.int n),
      ("children", .list children)] = some (.list children) := by
    rw [List.lookup_cons, show (("children" : Text) == "label") = false by decide]
    exact List.lookup_cons_self
  refine .definition rfl ⟨rfl, rfl⟩ ?_
  show HasType _ _ _ _ _ _ (.ofFields none [("label", .int n), ("children", .list children)])
  refine .of_never ?_ ?_ (fun name => Iff.rfl) (fun k hk => absurd hk (by simp)) ?_ ?_ ?_
  · intro f hf
    rcases List.mem_pair.1 hf with rfl | rfl <;> rfl
  · show List.Nodup [("label" : Text), "children"]
    decide
  · intro f hf _
    rcases List.mem_pair.1 hf with rfl | rfl <;> exact Option.some_ne_none _
  · intro f hf v hb
    rcases List.mem_pair.1 hf with rfl | rfl <;> cases hb
  · intro f hf d v _ hd hv _
    rcases List.mem_pair.1 hf with rfl | rfl
    · obtain rfl := Option.some.inj hd
      obtain rfl := Option.some.inj (hlabel.symm.trans hv)
      exact .parameter (by decide) rfl (.primitive rfl (.int hn))
    · obtain rfl := Option.some.inj hd
      obtain rfl := Option.some.inj (hchildren.symm.trans hv)
      exact .list h

/-- The tree of two labels, one below the other, is written and read back. -/
theorem Session.write_read_rose : ∃ deriver c,
    Session (fun _ => .sealed) [roseTree] deriver
      [(.mk (.recursive 0 none) [.mk (.primitive "int") []], c)] ∧
    let s : Setting := ⟨[roseTree], deriver, .standard⟩
    ∃ t written, s.live.write c (rose 1 [rose 2 []]) deriver = (.ok t, written) ∧
      ∀ node, node.sexp = t → ∃ w read, s.live.read c node written = (.ok w, read) ∧
        (rose 1 [rose 2 []]).Alike w := by
  have hderive : (Derivation.derive [roseTree] (.definition 0)
      [.converter (.ofPrimitive .int)]).Succeeds :=
    fun d => roseTree_accepts [.ofPrimitive .int] d rfl
  obtain ⟨c, hc⟩ := hderive {}
  have hdeclared : Session (fun _ => .sealed) [⟨"rose", ["a"], none⟩] {} [] :=
    .declare "rose" ["a"] .start
  have hdefine : Catalog.define [⟨"rose", ["a"], none⟩] 0 roseTree.body = .ok [roseTree] := rfl
  have hstart : Session (fun _ => .sealed) [roseTree] {} [] := by
    refine .define ?_ hdefine hdeclared
    simp [Description.isPlain, Description.fieldsPlain]
  have hint : (Target.converter (.ofPrimitive .int)).Means (fun _ => .sealed) [] []
      (.mk (.primitive "int") []) := .builtin .int
  have hsession := hstart.derive (.cons hint .nil) (.definition 0 _)
  rw [show (Derivation.derive [roseTree] (.definition 0) [.converter (.ofPrimitive .int)] {}).1 =
    .ok c from hc] at hsession
  have hleaf : IsRose (rose 2 []) := rose_hasType (t := "2") (by decide) (by simp)
  have hrose : IsRose (rose 1 [rose 2 []]) := rose_hasType (t := "1") (by decide) (by simpa using hleaf)
  refine ⟨_, c, hsession, (hsession.write_read List.mem_cons_self hrose (by decide)).resolve_right ?_⟩
  rintro ⟨⟨_, _, ⟨rfl, rfl⟩, hrefused⟩, -⟩
  exact hrefused roseTree_accepts

/-! ### A value behind a link without an end -/

namespace Coil

open Derivation Description

theorem session_coil (numbering : Nat → Description) : Session numbering coil {} [] := by
  have h : Session numbering ([] ++ [outer] ++ [inner] ++ [start] ++ [onward] ++ [back]) {} [] :=
    ((((Session.start.add rfl).add rfl).add rfl).add rfl).add rfl
  exact h

theorem session_backward : Session (fun _ => variantOf constructors.reverse) coil afterBackward
    [(.mk (variantOf constructors.reverse) [], backward)] := by
  have hmeans : (Target.description 1 (variantOf constructors.reverse)).Means
      (fun _ => variantOf constructors.reverse) [] [] (.mk (variantOf constructors.reverse) []) :=
    .description 1 [] (by decide)
  have h := (session_coil _).derive .nil hmeans
  rwa [derive_backward] at h

/-- What the fifth definition is, if its list is empty. -/
def tip : Value := .record [("h", .list [])]

/-- It is a value of the fifth definition, whatever that is applied to. -/
theorem tip_hasType (env : List BoundType) : HasType coil (fun f => f.rule = .never)
    (fun id count => id = 4 ∧ count = env.length) 0 env (.recursive 4 none) tip := by
  refine .definition rfl ⟨rfl, rfl⟩ ?_
  show HasType _ _ _ _ _ _ (.ofFields none [("h", .list [])])
  refine .of_never ?_ (List.nodup_singleton _) (fun _ => Iff.rfl) (fun k hk => absurd hk (by simp))
    ?_ ?_ ?_
  · simp [Field.needed, Field.rule]
  · simp [Field.needed]
  · simp [Field.needed]
  · intro f hf d v _ hd hv _
    obtain rfl := List.mem_singleton.1 hf
    obtain rfl := Option.some.inj hd
    obtain rfl : Value.list [] = v := Option.some.inj hv
    exact .list (by simp)

theorem write_around (c : Converter) (deriver : Deriver) (switches : Switches) (levels : Nat) :
    ∃ d, (Setting.live ⟨coil, deriver, switches⟩).writeWithin (levels + 1)
      (.link 14 4 [outerAround 0]) tip
      ⟨16, (⟨.description 1, []⟩, c) :: (remembersBackward {}).cache⟩ = (.error .endless, d) := by
  obtain ⟨d', hlink⟩ := ofLink_around c
  exact Setting.live_writeWithin_link_endless (s := ⟨coil, deriver, switches⟩) hlink levels tip

theorem write_backward (follow : FollowBack Remembering) (switches : Switches) :
    backward.plan.write follow switches (.variant "B" [tip]) =
      ((follow 14 4 [outerAround 0] tip >>= fun t =>
        (outcome (.ok []) : Remembering WriteError (List Sexp)) >>= fun ts =>
          outcome (.ok (t :: ts))) >>= fun ts => outcome (.ok (.list (.atom "B" :: ts)))) := rfl

/-- **A link without an end stops the writing of a value**: of a variant that is derived, the value
of the constructor in front is not written, though it is of the type. -/
theorem typed_not_written :
    Session (fun _ => variantOf constructors.reverse) coil afterBackward
      [(.mk (variantOf constructors.reverse) [], backward)] ∧
    HasType coil (fun f => f.rule = .never) (fun id count => id = 4 ∧ count = 1) 0 []
      (variantOf constructors.reverse) (.variant "B" [tip]) ∧
    ∀ switches, ∃ d, (Setting.live ⟨coil, afterBackward, switches⟩).write backward
      (.variant "B" [tip]) afterBackward = (.error .endless, d) := by
  refine ⟨session_backward, ?_, fun switches => ?_⟩
  · have hb : ⟨"B", [.recursive 4 (some [.applied 0 []])], none, none, false⟩ ∈
        constructors.reverse := by
      simp [constructors]
    show HasType _ _ _ _ _ _ (.ofArguments "B" none [tip])
    refine .variant .sum (by decide) hb nofun nofun rfl rfl rfl fun x v hmem => ?_
    obtain ⟨rfl, rfl⟩ := Prod.mk.inj (List.mem_singleton.1 hmem)
    exact .recursive (tip_hasType [.mk (.applied 0 []) []])
  · obtain ⟨levels, hlevels⟩ : ∃ n, (Value.variant "B" [tip]).depth + coil.size + backward.plan.size =
        n + 2 := ⟨_, rfl⟩
    obtain ⟨d, hlink⟩ := write_around backward afterBackward switches levels
    refine ⟨d, ?_⟩
    rw [Course.write]
    show (Setting.live ⟨coil, afterBackward, switches⟩).writeWithin ((Value.variant "B" [tip]).depth +
      coil.size + backward.plan.size) _ _ _ = _
    rw [hlevels, Course.writeWithin_of_isSettled rfl]
    exact (congrFun (write_backward _ _) _).trans (bind_run_error (bind_run_error hlink))

end Coil

end TypedSexp
