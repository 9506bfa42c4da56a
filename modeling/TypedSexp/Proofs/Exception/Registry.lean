import TypedSexp.Exception.Known
import TypedSexp.Exception.Registry
/-!
# Exceptions are converted

A registry makes an S-expression of an exception: the tree of its handler, if that gives one, and
else the fallback, which is the generic form if that can be built. This holds exactly where the
handler is sound (`Registry.convert_settles`). A handler whose own exception cannot be shown ends the
conversion with another one, and of what a handler gives only the top is looked at, so foreign things
further down in a tree are returned (`Registry.convert_unsettled`). Derived handlers are sound
(`Handler.sound_derived`).
-/

namespace TypedSexp

namespace Handler

/-- What the handler makes of the exception can be dealt with: its own exception, if it fails, can be
shown, and a tree that it gives holds nothing foreign. -/
structure Sound (setting : Setting) (e : Raised) (handler : Handler) : Prop where
  shown : ∀ own className, handler.run setting e ≠ .failed own (.error className)
  proper : ∀ d, handler.run setting e = .given d → d.isTree → ∃ n, d.node = .ok n

/-- A derived handler gives an S-expression, or it fails with a message. -/
theorem run_derived (setting : Setting) (e : Raised) (name : Text) (converters : List Converter) :
    (∃ s, (Handler.derived name converters).run setting e = .given (.ofSexp s)) ∨
      ∃ own message, (Handler.derived name converters).run setting e = .failed own (.ok message) := by
  show (∃ s, runDerived setting name converters e.args = _) ∨
    ∃ own message, runDerived setting name converters e.args = _
  unfold runDerived
  split
  · split
    · exact .inr ⟨_, _, rfl⟩
    · exact .inl ⟨_, rfl⟩
    · exact .inl ⟨_, rfl⟩
  · exact .inr ⟨_, _, rfl⟩

/-- Derived handlers are sound. -/
theorem sound_derived (setting : Setting) (e : Raised) (name : Text) (converters : List Converter) :
    (Handler.derived name converters).Sound setting e := by
  rcases run_derived setting e name converters with ⟨s, hrun⟩ | ⟨own, message, hrun⟩
  · refine ⟨fun own className h => ?_, fun d h _ => ?_⟩
    · cases hrun.symm.trans h
    · cases hrun.symm.trans h
      exact ⟨_, Draft.node_ofSexp s⟩
  · refine ⟨fun own className h => ?_, fun d h _ => ?_⟩
    · cases hrun.symm.trans h
    · cases hrun.symm.trans h

end Handler

namespace Registry

variable {r : Registry} {handler : Handler} {hierarchy : Hierarchy} {setting : Setting} {e : Raised}

/-! ## What comes of an outcome -/

/-- A tree of the handler is the result, and there is no warning. -/
theorem convert_of_isTree {d : Draft} (hfind : r.find? e.kind = some handler)
    (hrun : handler.run setting e = .given d) (htree : d.isTree) :
    r.convert hierarchy setting e = .ok (d, []) := by
  unfold convert
  rw [hfind, Option.map_some, hrun]
  cases d with
  | atom text location => rfl
  | list items location => rfl
  | foreign typeName => cases htree

/-- There is no result exactly if the handler fails and its exception cannot be shown. -/
theorem convert_eq_error_iff {className : Text} : r.convert hierarchy setting e = .error className ↔
    ∃ handler own, r.find? e.kind = some handler ∧
      handler.run setting e = .failed own (.error className) := by
  unfold convert
  cases r.find? e.kind with
  | none => simp
  | some handler =>
    simp only [Option.map_some, Option.some.injEq, exists_and_left, exists_eq_left']
    rcases handler.run setting e with ⟨_ | _ | _⟩ | ⟨own, _ | _⟩
    all_goals simp

/-- Where no handler gives a tree, there is no result, or it is the fallback. -/
theorem convert_of_no_tree
    (hnone : ∀ handler d, r.find? e.kind = some handler → handler.run setting e = .given d →
      d.isTree = false) :
    (∃ className, r.convert hierarchy setting e = .error className) ∨
      ∃ warnings, r.convert hierarchy setting e =
        .ok (.ofSexp (e.fallback hierarchy), warnings) := by
  unfold convert
  cases hfind : r.find? e.kind with
  | none => exact .inr ⟨_, rfl⟩
  | some handler =>
    rw [Option.map_some]
    cases hrun : handler.run setting e with
    | given d =>
      cases d with
      | foreign typeName => exact .inr ⟨_, rfl⟩
      | atom text location => cases hnone handler _ hfind hrun
      | list items location => cases hnone handler _ hfind hrun
    | failed own shown =>
      cases shown with
      | ok message => exact .inr ⟨_, rfl⟩
      | error className => exact .inl ⟨_, rfl⟩

/-! ## Results -/

/-- A sound handler, or none, leads to an S-expression. -/
theorem exists_convert_of_sound
    (hsound : ∀ handler, r.find? e.kind = some handler → handler.Sound setting e) :
    ∃ d warnings n, r.convert hierarchy setting e = .ok (d, warnings) ∧ d.node = .ok n := by
  by_cases htree : ∃ handler d, r.find? e.kind = some handler ∧ handler.run setting e = .given d ∧
      d.isTree
  · obtain ⟨handler, d, hfind, hrun, hd⟩ := htree
    obtain ⟨n, hn⟩ := (hsound handler hfind).proper d hrun hd
    exact ⟨d, [], n, convert_of_isTree hfind hrun hd, hn⟩
  · rcases convert_of_no_tree fun handler d hfind hrun =>
      Bool.eq_false_iff.2 fun hd => htree ⟨handler, d, hfind, hrun, hd⟩ with
      ⟨className, h⟩ | ⟨warnings, h⟩
    · obtain ⟨handler, own, hfind, hrun⟩ := convert_eq_error_iff.1 h
      exact absurd hrun ((hsound handler hfind).shown own className)
    · exact ⟨_, warnings, _, h, Draft.node_ofSexp (e.fallback hierarchy)⟩

/-- Where an S-expression comes back, the handler is sound. -/
theorem sound_of_convert {d : Draft} {warnings : List Text} {n : Node}
    (h : r.convert hierarchy setting e = .ok (d, warnings)) (hn : d.node = .ok n)
    (hfind : r.find? e.kind = some handler) : handler.Sound setting e := by
  refine ⟨fun own className hrun => ?_, fun given hrun htree => ?_⟩
  · cases h.symm.trans (convert_eq_error_iff.2 ⟨handler, own, hfind, hrun⟩)
  · cases h.symm.trans (convert_of_isTree hfind hrun htree)
    exact ⟨n, hn⟩

/-- **Every exception has an S-expression exactly if its handler is sound.** There is no result
exactly if the handler fails and its own exception cannot be shown: then what showing it raises is
passed on. A tree that the handler gives is the result, also with foreign things further down; where
it gives none, the result is the fallback, which is the generic form if that can be built. -/
theorem convert_settles (r : Registry) (hierarchy : Hierarchy) (setting : Setting) (e : Raised) :
    ((∃ d warnings n, r.convert hierarchy setting e = .ok (d, warnings) ∧ d.node = .ok n) ↔
      ∀ handler, r.find? e.kind = some handler → handler.Sound setting e) ∧
    (∀ className, r.convert hierarchy setting e = .error className ↔
      ∃ handler own, r.find? e.kind = some handler ∧
        handler.run setting e = .failed own (.error className)) ∧
    (∀ handler d, r.find? e.kind = some handler → handler.run setting e = .given d → d.isTree →
      r.convert hierarchy setting e = .ok (d, [])) ∧
    ((∀ handler d, r.find? e.kind = some handler → handler.run setting e = .given d →
        d.isTree = false) →
      ∀ d warnings, r.convert hierarchy setting e = .ok (d, warnings) →
        d = .ofSexp (e.fallback hierarchy)) ∧
    ∀ s, e.generic = .ok s → e.fallback hierarchy = s := by
  refine ⟨⟨?_, exists_convert_of_sound⟩, fun _ => convert_eq_error_iff,
    fun _ _ => convert_of_isTree, fun hnone d warnings h => ?_, fun s hs => ?_⟩
  · rintro ⟨d, warnings, n, h, hn⟩ handler hfind
    exact sound_of_convert h hn hfind
  · rcases convert_of_no_tree hnone with ⟨className, h'⟩ | ⟨warnings', h'⟩
    · cases h.symm.trans h'
    · cases h.symm.trans h'
      rfl
  · unfold Raised.fallback
    rw [hs]

/-- A key error whose derived handler expects no argument has one that is foreign. So the handler fails,
there is no generic form, and the error cannot describe itself: its tree is the name of the class. -/
theorem convert_settles_nameless : ∃ c r, Hierarchy.initial.find? "KeyError" = some c ∧
    registerDerived [] c [] = .ok r ∧ ∀ setting, ∃ d warnings n,
      r.convert .initial setting ⟨c, [.foreign "Weird"], []⟩ = .ok (d, warnings) ∧
        d.node = .ok n ∧ n.sexp = .atom "KeyError" := by
  let c : ExceptionClass :=
    ⟨"KeyError", 56, [56, 15, 1, 0], true, false, some .argumentLiteral, none⟩
  have hc : Hierarchy.initial.find? "KeyError" = some c := by decide +kernel
  refine ⟨c, [(56, .derived "KeyError" [])], hc, rfl, fun setting => ?_⟩
  let e : Raised := ⟨c, [.foreign "Weird"], []⟩
  obtain ⟨hsettles, -, -, hnone, -⟩ :=
    convert_settles [(56, .derived "KeyError" [])] .initial setting e
  obtain ⟨d, warnings, n, h, hn⟩ := hsettles.2 fun handler hfind => by
    obtain rfl := Option.some.inj hfind
    exact Handler.sound_derived setting e _ _
  refine ⟨d, warnings, n, h, hn, ?_⟩
  have hd := hnone (fun handler d hfind hrun => by
    obtain rfl := Option.some.inj hfind
    cases hrun) d warnings h
  have hfallback : e.fallback .initial = .atom "KeyError" := by decide +kernel
  rw [hd, Draft.node_ofSexp, hfallback] at hn
  obtain rfl := Except.ok.inj hn
  rfl

/-- An exception that has a generic form is not converted if its handler fails with an exception of
its own that cannot be shown, and a handler may have a foreign thing in a list returned. -/
theorem convert_unsettled : ∃ c, Hierarchy.initial.find? "ValueError" = some c ∧
    (⟨c, [], []⟩ : Raised).generic = .ok (.atom "ValueError") ∧ ∀ setting,
    (∃ r, register [] c (.ready none fun _ => .failed "Unprintable" (.error "RuntimeError")) = .ok r ∧
      r.convert .initial setting ⟨c, [], []⟩ = .error "RuntimeError") ∧
    ∃ r, register [] c (.ready none fun _ => .given (.list [.atom "x" none, .foreign "int"] none)) =
        .ok r ∧
      ∃ d, r.convert .initial setting ⟨c, [], []⟩ = .ok (d, []) ∧ d.node = .error "int" := by
  let c : ExceptionClass := ⟨"ValueError", 24, [24, 1, 0], true, false, none, none⟩
  have hc : Hierarchy.initial.find? "ValueError" = some c := by decide +kernel
  exact ⟨c, hc, rfl, fun setting => ⟨⟨_, rfl, rfl⟩, ⟨_, rfl, _, rfl, rfl⟩⟩⟩

end Registry

end TypedSexp
