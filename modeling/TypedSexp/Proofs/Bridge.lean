import TypedSexp.Bridge
import TypedSexp.Proofs.Number.Bases
import TypedSexp.Proofs.Sexp.Quoting
/-!
# Symbols and strings stand for trees

A tree comes back from its datum, in which the atoms that are printed with quotes are strings and all
others symbols (`Bridges`). A datum without quoted data and overlong integers is a tree unless
something foreign occurs in it, however deep (`settles_of_isPlain`). `bridge_loses_nothing` puts both
together.
-/

namespace TypedSexp.Datum

/-! ## From trees and back -/

/-- The datum has the shape of the tree, with a string for each atom that is printed in another form
than its text, and a symbol for each other. -/
inductive Bridges : Sexp → Datum → Prop
  | string {t : Text} (h : (Sexp.atom t).print ≠ t) : Bridges (.atom t) (.string t)
  | symbol {t : Text} (h : (Sexp.atom t).print = t) : Bridges (.atom t) (.symbol t)
  | list {items : List Sexp} {data : List Datum} (hlen : items.length = data.length)
      (h : ∀ s d, (s, d) ∈ items.zip data → Bridges s d) : Bridges (.list items) (.list data)

theorem bridges_ofAtom (t : Text) : Bridges (.atom t) (ofAtom t) := by
  have hprint : (Sexp.atom t).print = t ↔ Atom.needsQuotes t = false := Atom.format_eq_self_iff t
  unfold ofAtom
  by_cases hq : Atom.needsQuotes t
  · rw [if_pos hq]
    refine .string fun h => ?_
    rw [hprint.1 h] at hq
    exact nomatch hq
  · rw [if_neg hq]
    exact .symbol (hprint.2 (by simpa using hq))

mutual

theorem bridges_ofSexp : ∀ s : Sexp, Bridges s (ofSexp s)
  | .atom t => by
    rw [ofSexp]
    exact bridges_ofAtom t
  | .list items => by
    rw [ofSexp]
    obtain ⟨hlen, hzip⟩ := bridges_ofSexps items
    exact .list hlen hzip

theorem bridges_ofSexps : ∀ items : List Sexp, items.length = (ofSexps items).length ∧
    ∀ s d, (s, d) ∈ items.zip (ofSexps items) → Bridges s d
  | [] => ⟨rfl, by simp⟩
  | s :: items => by
    rw [ofSexps]
    obtain ⟨hlen, hzip⟩ := bridges_ofSexps items
    refine ⟨congrArg (· + 1) hlen, fun s' d hmem => ?_⟩
    rw [List.zip_cons_cons, List.mem_cons] at hmem
    rcases hmem with heq | hmem
    · obtain ⟨rfl, rfl⟩ := Prod.mk.inj heq
      exact bridges_ofSexp s'
    · exact hzip s' d hmem

end

mutual

theorem sexp_ofSexp : ∀ s : Sexp, (ofSexp s).sexp = .ok s
  | .atom t => by
    rw [ofSexp, ofAtom]
    cases Atom.needsQuotes t <;> rfl
  | .list items => by
    rw [ofSexp, sexp, sexps_ofSexps items]
    rfl

theorem sexps_ofSexps : ∀ items : List Sexp, sexps (ofSexps items) = .ok items
  | [] => rfl
  | s :: items => by
    rw [ofSexps, sexps, sexp_ofSexp s, sexps_ofSexps items]
    rfl

end

/-! ## What occurs in a datum -/

/-- The data directly inside a datum. -/
def parts : Datum → List Datum
  | .list items => items
  | .tuple items => items
  | .brackets items => items
  | .quoted d => [d]
  | _ => []

/-- The datum occurs in another one, or is it. -/
inductive Occurs (x : Datum) : Datum → Prop
  | self : Occurs x x
  | part {d whole : Datum} (hd : d ∈ whole.parts) (h : Occurs x d) : Occurs x whole

/-- Something foreign occurs in the datum. -/
def HasForeign (d : Datum) : Prop := ∃ typeName, Occurs (.foreign typeName) d

/-- Nothing in the datum is quoted, and every integer in it has a text. -/
structure IsPlain (d : Datum) : Prop where
  unquoted : ∀ x, ¬ Occurs (.quoted x) d
  digits : ∀ n, Occurs (.int n) d → n.natAbs < 10 ^ Spelling.maxDigits

theorem IsPlain.part {d whole : Datum} (h : whole.IsPlain) (hd : d ∈ whole.parts) : d.IsPlain :=
  ⟨fun x hx => h.unquoted x (.part hd hx), fun n hn => h.digits n (.part hd hn)⟩

theorem IsPlain.of_parts {d : Datum} (hquoted : ∀ x, d ≠ .quoted x)
    (hdigits : ∀ n, d = .int n → n.natAbs < 10 ^ Spelling.maxDigits)
    (h : ∀ x ∈ d.parts, x.IsPlain) : d.IsPlain := by
  constructor
  · intro x hx
    cases hx with
    | self => exact hquoted x rfl
    | part hd hx => exact (h _ hd).unquoted x hx
  · intro n hn
    cases hn with
    | self => exact hdigits n rfl
    | part hd hn => exact (h _ hd).digits n hn

/-- What has no parts and is not foreign itself holds nothing foreign. -/
theorem not_hasForeign_of_parts {d : Datum} (hd : ∀ typeName, d ≠ .foreign typeName)
    (hparts : d.parts = []) : ¬ d.HasForeign := by
  rintro ⟨typeName, h⟩
  cases h with
  | self => exact hd typeName rfl
  | part hmem _ =>
    rw [hparts] at hmem
    exact absurd hmem List.not_mem_nil

/-! ## To trees -/

/-- The datum is a tree and nothing foreign occurs in it, or it is refused for something foreign that
does. -/
def Settles (d : Datum) : Prop :=
  (∃ s, d.sexp = .ok s) ∧ ¬ d.HasForeign ∨
    ∃ typeName, d.sexp = .error (.foreign typeName) ∧ Occurs (.foreign typeName) d

theorem Settles.atom {d : Datum} {t : Text} (hd : ∀ typeName, d ≠ .foreign typeName)
    (hparts : d.parts = []) (h : d.sexp = .ok (.atom t)) : d.Settles :=
  .inl ⟨⟨_, h⟩, not_hasForeign_of_parts hd hparts⟩

/-- A sequence settles as its items do. -/
theorem Settles.sequence {d : Datum} (hd : ∀ typeName, d ≠ .foreign typeName)
    (hsexp : d.sexp = (sexps d.parts).map .list)
    (h : (∃ ss, sexps d.parts = .ok ss) ∧ (∀ x ∈ d.parts, ¬ x.HasForeign) ∨
      ∃ typeName, sexps d.parts = .error (.foreign typeName) ∧
        ∃ x ∈ d.parts, Occurs (.foreign typeName) x) : d.Settles := by
  rcases h with ⟨⟨ss, hss⟩, hnone⟩ | ⟨typeName, herror, x, hx, hoccurs⟩
  · refine .inl ⟨⟨.list ss, by rw [hsexp, hss]; rfl⟩, ?_⟩
    rintro ⟨typeName, hoccurs⟩
    cases hoccurs with
    | self => exact hd typeName rfl
    | part hx hoccurs => exact hnone _ hx ⟨typeName, hoccurs⟩
  · exact .inr ⟨typeName, by rw [hsexp, herror]; rfl, .part hx hoccurs⟩

mutual

theorem settles_of_isPlain : ∀ d : Datum, d.IsPlain → d.Settles
  | .nothing, _ => .inl ⟨⟨.empty, rfl⟩, not_hasForeign_of_parts (by simp) rfl⟩
  | .bool b, _ => .atom (by simp) rfl rfl
  | .int n, h => by
    have hn := h.digits n .self
    refine .atom (t := Text.ofInt n) (by simp) rfl ?_
    rw [sexp, Spelling.writeInt?_eq_ite, if_pos hn]
  | .float x, _ => .atom (by simp) rfl rfl
  | .symbol t, _ => .atom (by simp) rfl rfl
  | .string t, _ => .atom (by simp) rfl rfl
  | .list items, h => .sequence (by simp) rfl (settle_of_isPlain items fun _ hd => h.part hd)
  | .tuple items, h => .sequence (by simp) rfl (settle_of_isPlain items fun _ hd => h.part hd)
  | .brackets items, h => .sequence (by simp) rfl (settle_of_isPlain items fun _ hd => h.part hd)
  | .quoted d, h => absurd .self (h.unquoted d)
  | .foreign typeName, _ => .inr ⟨typeName, rfl, .self⟩

/-- Items are taken in order, so the first one with something foreign in it decides. -/
theorem settle_of_isPlain : ∀ items : List Datum, (∀ d ∈ items, d.IsPlain) →
    (∃ ss, sexps items = .ok ss) ∧ (∀ d ∈ items, ¬ d.HasForeign) ∨
      ∃ typeName, sexps items = .error (.foreign typeName) ∧
        ∃ d ∈ items, Occurs (.foreign typeName) d
  | [], _ => .inl ⟨⟨[], rfl⟩, by simp⟩
  | d :: items, h => by
    rw [sexps]
    rcases settles_of_isPlain d (h d List.mem_cons_self) with ⟨⟨s, hs⟩, hnone⟩ | ⟨name, hd, hoccurs⟩
    · rw [hs]
      rcases settle_of_isPlain items fun x hx => h x (List.mem_cons_of_mem d hx) with
        ⟨⟨ss, hss⟩, hrest⟩ | ⟨name, hrest, x, hx, hoccurs⟩
      · rw [hss]
        refine .inl ⟨⟨_, rfl⟩, fun x hx => ?_⟩
        rcases List.mem_cons.1 hx with rfl | hx
        · exact hnone
        · exact hrest x hx
      · rw [hrest]
        exact .inr ⟨name, rfl, x, List.mem_cons_of_mem d hx, hoccurs⟩
    · rw [hd]
      exact .inr ⟨name, rfl, d, List.mem_cons_self, hoccurs⟩

end

/-- **The bridge loses nothing.** Every tree comes back from its datum, in which exactly the atoms that
are printed with quotes are strings. A datum without quoted data and overlong integers is a tree if
and only if nothing foreign occurs in it, however deep, and is refused with a `TypeError` if and only
if something does. -/
theorem bridge_loses_nothing :
    (∀ s, (ofSexp s).sexp = .ok s ∧ Bridges s (ofSexp s)) ∧
    ∀ d : Datum, d.IsPlain →
      ((∃ s, d.sexp = .ok s) ↔ ¬ d.HasForeign) ∧
      ((∃ fault, d.sexp = .error fault ∧ fault.className = "TypeError") ↔ d.HasForeign) := by
  refine ⟨fun s => ⟨sexp_ofSexp s, bridges_ofSexp s⟩, fun d hplain => ?_⟩
  rcases settles_of_isPlain d hplain with ⟨⟨s, hs⟩, hnone⟩ | ⟨name, herror, hoccurs⟩
  · refine ⟨⟨fun _ => hnone, fun _ => ⟨s, hs⟩⟩, fun ⟨fault, hfault, _⟩ => ?_, fun h => absurd h hnone⟩
    exact nomatch hs.symm.trans hfault
  · have hforeign : d.HasForeign := ⟨name, hoccurs⟩
    refine ⟨⟨fun ⟨s, hs⟩ => ?_, fun h => absurd hforeign h⟩, fun _ => hforeign,
      fun _ => ⟨_, herror, rfl⟩⟩
    exact nomatch hs.symm.trans herror

/-- Sequences inside each other, with a condition and an integer, and something foreign in the
innermost. -/
theorem bridge_loses_nothing_foreign :
    let inner : Datum := .brackets [.int (-12), .foreign "dict"]
    let d : Datum := .list [.bool true, .tuple [inner]]
    d.IsPlain ∧ ((∃ s, d.sexp = .ok s) ↔ ¬ d.HasForeign) ∧
      ((∃ fault, d.sexp = .error fault ∧ fault.className = "TypeError") ↔ d.HasForeign) := by
  intro inner d
  have hbound : (-12 : Int).natAbs < 10 ^ Spelling.maxDigits :=
    Nat.lt_of_lt_of_le (by decide : 12 < 10 ^ 2) (Nat.pow_le_pow_right (by decide) (by decide))
  have hleaf (x : Datum) (hparts : x.parts = []) (hx : ∀ n, x ≠ .int n) : x.IsPlain :=
    .of_parts (by rintro y rfl; simp [parts] at hparts) (fun n hn => absurd hn (hx n))
      (by simp [hparts])
  have hinner : inner.IsPlain := by
    refine .of_parts (by simp [inner]) (by simp [inner]) fun x hx => ?_
    rcases List.mem_pair.1 hx with rfl | rfl
    · exact .of_parts (by simp) (fun n hn => Datum.int.inj hn ▸ hbound) (by simp [parts])
    · exact hleaf _ rfl (by simp)
  have htuple : (Datum.tuple [inner]).IsPlain := by
    refine .of_parts (by simp) (by simp) fun x hx => ?_
    rw [List.mem_singleton.1 hx]
    exact hinner
  have hplain : d.IsPlain := by
    refine .of_parts (by simp [d]) (by simp [d]) fun x hx => ?_
    rcases List.mem_pair.1 hx with rfl | rfl
    · exact hleaf _ rfl (by simp)
    · exact htuple
  exact ⟨hplain, bridge_loses_nothing.2 d hplain⟩

end TypedSexp.Datum
