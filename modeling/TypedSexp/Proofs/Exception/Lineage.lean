import Mathlib.Data.List.Nodup
import TypedSexp.Exception.Known
import TypedSexp.Proofs.Results
/-!
# Lineages keep the order of their parts

A merged lineage has the classes of the lineages that it is made of, once each, and in an order that
agrees with all of them (`Lineage.merge?_sound`). So in a hierarchy that came about by declarations the
lineage of every ancestor is kept in order (`Hierarchy.Coherent`), and every class stands before its
bases in each lineage that it is part of (`Hierarchy.Declared.ordered`).
-/

namespace TypedSexp

namespace Lineage

/-- Of two classes that a lineage has in this order, the first one stands before the second one. -/
theorem mem_front {a n : ClassNumber} {front back : List ClassNumber}
    (hnodup : (front ++ n :: back).Nodup) (h : [a, n].Sublist (front ++ n :: back)) : a ∈ front := by
  induction front with
  | nil =>
    have hback : n ∉ back := (List.nodup_cons.1 hnodup).1
    cases h with
    | cons _ h => exact absurd (h.subset (by simp)) hback
    | cons_cons _ h => exact absurd (h.subset (by simp)) hback
  | cons x front ih =>
    cases h with
    | cons _ h => exact List.mem_cons_of_mem x (ih (List.nodup_cons.1 hnodup).2 h)
    | cons_cons _ h => exact List.mem_cons_self

variable {lineages : List (List ClassNumber)} {merged : List ClassNumber} {c : ClassNumber}
  {count : Nat}

/-- The class that is placed next comes from a lineage, and stands later in none. -/
theorem next?_sound (h : next? lineages = some c) :
    (∃ l ∈ lineages, c ∈ l) ∧ ∀ l ∈ lineages, c ∉ l.tail := by
  constructor
  · obtain ⟨l, hl, hhead⟩ := List.mem_filterMap.1 (List.mem_of_find?_eq_some h)
    exact ⟨l, hl, List.mem_of_head? hhead⟩
  · simpa [isLater] using List.find?_some h

/-- What is left of a lineage has lost the class, at its head or nowhere. -/
theorem advance_cases {l : List ClassNumber} (hlater : c ∉ l.tail) :
    (l = c :: l.tail ∧ (if l.head? = some c then l.tail else l) = l.tail) ∨
      (c ∉ l ∧ (if l.head? = some c then l.tail else l) = l) := by
  cases l with
  | nil => exact .inr ⟨by simp, rfl⟩
  | cons d l =>
    by_cases hd : d = c
    · subst hd
      exact .inl ⟨rfl, by simp⟩
    · refine .inr ⟨?_, by simp [hd]⟩
      rw [List.mem_cons, not_or]
      exact ⟨Ne.symm hd, hlater⟩

/-- **A merged lineage agrees with each of its parts**, has every class once, and no other classes. -/
theorem merge?_sound (h : merge? count lineages = some merged) :
    (∀ l ∈ lineages, l.Sublist merged) ∧ merged.Nodup ∧ ∀ c ∈ merged, ∃ l ∈ lineages, c ∈ l := by
  induction count generalizing lineages merged with
  | zero =>
    unfold merge? at h
    split_ifs at h with hempty
    obtain rfl := Option.some.inj h
    refine ⟨fun l hl => ?_, .nil, by simp⟩
    rw [List.isEmpty_iff.1 (List.all_eq_true.1 hempty l hl)]
  | succ count ih =>
    unfold merge? at h
    split_ifs at h with hempty
    · obtain rfl := Option.some.inj h
      refine ⟨fun l hl => ?_, .nil, by simp⟩
      rw [List.isEmpty_iff.1 (List.all_eq_true.1 hempty l hl)]
    · obtain ⟨c, hnext, h⟩ := Option.bind_eq_some_iff.1 h
      obtain ⟨rest, hrest, h⟩ := Option.bind_eq_some_iff.1 h
      obtain rfl := Option.some.inj h
      obtain ⟨⟨first, hfirst, hc⟩, hlater⟩ := next?_sound hnext
      obtain ⟨hsub, hnodup, hmem⟩ := ih hrest
      -- the part of a lineage that is left is kept in order by the rest, without the class placed
      have hparts : ∀ l ∈ lineages, l.Sublist (c :: rest) := by
        intro l hl
        have hleft := hsub _ (List.mem_map_of_mem (f := fun l =>
          if l.head? = some c then l.tail else l) hl)
        rcases advance_cases (hlater l hl) with ⟨heq, htail⟩ | ⟨-, hsame⟩
        · rw [htail] at hleft
          rw [heq]
          exact hleft.cons_cons c
        · rw [hsame] at hleft
          exact hleft.cons c
      have hrests : ∀ d ∈ rest, d ≠ c ∧ ∃ l ∈ lineages, d ∈ l := by
        intro d hd
        obtain ⟨left, hleft, hd⟩ := hmem d hd
        obtain ⟨l, hl, rfl⟩ := List.mem_map.1 hleft
        rcases advance_cases (hlater l hl) with ⟨-, htail⟩ | ⟨hnot, hsame⟩
        · rw [htail] at hd
          exact ⟨fun heq => hlater l hl (heq ▸ hd), l, hl, List.mem_of_mem_tail hd⟩
        · rw [hsame] at hd
          exact ⟨fun heq => hnot (heq ▸ hd), l, hl, hd⟩
      refine ⟨hparts, List.nodup_cons.2 ⟨fun hmem => (hrests c hmem).1 rfl, hnodup⟩, ?_⟩
      rw [List.forall_mem_cons]
      exact ⟨⟨first, hfirst, hc⟩, fun d hd => (hrests d hd).2⟩

end Lineage

namespace Hierarchy

variable {h h' : Hierarchy} {c : ExceptionClass}

/-- Every class stands before its bases: where a lineage has a class, the other classes of that class's
own lineage come behind it. -/
def Ordered (h : Hierarchy) : Prop :=
  ∀ c ∈ h, ∀ d ∈ h, d.number ∈ c.lineage → ∀ front n back, c.lineage = front ++ n :: back →
    n ∈ d.lineage → n ≠ d.number → d.number ∈ front

/-- Classes are numbered, their lineages start with themselves and name each class once, and the
lineage of an ancestor is kept in order. -/
structure Coherent (h : Hierarchy) : Prop where
  number_lt : ∀ c ∈ h, c.number < h.length
  unique : ∀ c ∈ h, ∀ d ∈ h, c.number = d.number → c = d
  head : ∀ c ∈ h, c.lineage.head? = some c.number
  nodup : ∀ c ∈ h, c.lineage.Nodup
  ancestor : ∀ c ∈ h, ∀ n ∈ c.lineage, n < h.length
  sublist : ∀ c ∈ h, ∀ d ∈ h, d.number ∈ c.lineage → d.lineage.Sublist c.lineage

theorem Coherent.mem_lineage (hh : h.Coherent) (hc : c ∈ h) : c.number ∈ c.lineage :=
  List.mem_of_head? (hh.head c hc)

theorem Coherent.ordered (hh : h.Coherent) : h.Ordered := by
  intro c hc d hd hdc front n back hsplit hn hne
  -- the class and its ancestor form a sublist, and the ancestor stands in one place only
  obtain ⟨ancestors, hancestors⟩ : ∃ ancestors, d.lineage = d.number :: ancestors :=
    List.head?_eq_some_iff.1 (hh.head d hd)
  have hn : n ∈ ancestors := by
    rw [hancestors] at hn
    exact (List.mem_cons.1 hn).resolve_left hne
  have hpair : [d.number, n].Sublist d.lineage := by
    rw [hancestors]
    exact (List.singleton_sublist.2 hn).cons_cons d.number
  have hnodup := hh.nodup c hc
  have hsub := hpair.trans (hh.sublist c hc d hd hdc)
  rw [hsplit] at hnodup hsub
  exact Lineage.mem_front hnodup hsub

/-- **A class whose lineage merges those of its bases keeps the hierarchy coherent.** Besides the
lineages, the order in which the bases are given may be merged. -/
theorem Coherent.cons (hh : h.Coherent) (bases : List ExceptionClass) (given : List (List ClassNumber))
    {ancestors : List ClassNumber} {count : Nat} (hbases : ∀ b ∈ bases, b ∈ h)
    (hgiven : ∀ l ∈ given, ∀ n ∈ l, ∃ b ∈ bases, b.number = n)
    (hmerge : Lineage.merge? count (bases.map ExceptionClass.lineage ++ given) = some ancestors)
    (hnumber : c.number = h.length) (hlineage : c.lineage = h.length :: ancestors) :
    Coherent (c :: h) := by
  obtain ⟨hsub, hnodup, hmem⟩ := Lineage.merge?_sound hmerge
  have hbase : ∀ b ∈ bases, b.lineage.Sublist ancestors := fun b hb =>
    hsub _ (List.mem_append_left _ (List.mem_map_of_mem hb))
  have horigin : ∀ n ∈ ancestors, ∃ b ∈ bases, n ∈ b.lineage := by
    intro n hn
    obtain ⟨l, hl, hnl⟩ := hmem n hn
    rcases List.mem_append.1 hl with hl | hl
    · obtain ⟨b, hb, rfl⟩ := List.mem_map.1 hl
      exact ⟨b, hb, hnl⟩
    · obtain ⟨b, hb, rfl⟩ := hgiven l hl n hnl
      exact ⟨b, hb, hh.mem_lineage (hbases b hb)⟩
  have hlt : ∀ n ∈ ancestors, n < h.length := by
    intro n hn
    obtain ⟨b, hb, hnb⟩ := horigin n hn
    exact hh.ancestor b (hbases b hb) n hnb
  have hother : ∀ d ∈ h, d.number ≠ c.number := fun d hd =>
    hnumber ▸ Nat.ne_of_lt (hh.number_lt d hd)
  constructor
  case number_lt =>
    rw [List.forall_mem_cons, List.length_cons, hnumber]
    exact ⟨Nat.lt_succ_self _, fun d hd => Nat.lt_succ_of_lt (hh.number_lt d hd)⟩
  case unique =>
    rw [List.forall_mem_cons]
    refine ⟨fun d hd heq => ?_, fun d hd e he heq => ?_⟩
    · rcases List.mem_cons.1 hd with rfl | hd
      · rfl
      · exact absurd heq.symm (hother d hd)
    · rcases List.mem_cons.1 he with rfl | he
      · exact absurd heq (hother d hd)
      · exact hh.unique d hd e he heq
  case head =>
    rw [List.forall_mem_cons, hlineage, hnumber]
    exact ⟨rfl, hh.head⟩
  case nodup =>
    rw [List.forall_mem_cons, hlineage]
    exact ⟨List.nodup_cons.2 ⟨fun hn => Nat.lt_irrefl _ (hlt _ hn), hnodup⟩, hh.nodup⟩
  case ancestor =>
    rw [List.forall_mem_cons, hlineage, List.length_cons, List.forall_mem_cons]
    exact ⟨⟨Nat.lt_succ_self _, fun n hn => Nat.lt_succ_of_lt (hlt n hn)⟩,
      fun d hd n hn => Nat.lt_succ_of_lt (hh.ancestor d hd n hn)⟩
  case sublist =>
    rw [List.forall_mem_cons]
    refine ⟨fun d hd hdc => ?_, fun e he d hd hde => ?_⟩
    · rcases List.mem_cons.1 hd with rfl | hd
      · exact .refl _
      · -- an ancestor of the new class is one of a base, whose lineage keeps its own
        rw [hlineage] at hdc ⊢
        have hda : d.number ∈ ancestors := (List.mem_cons.1 hdc).resolve_left (hnumber ▸ hother d hd)
        obtain ⟨b, hb, hdb⟩ := horigin _ hda
        exact ((hh.sublist b (hbases b hb) d hd hdb).trans (hbase b hb)).cons _
    · rcases List.mem_cons.1 hd with rfl | hd
      · exact absurd (hnumber ▸ hh.ancestor e he _ hde) (Nat.lt_irrefl _)
      · exact hh.sublist e he d hd hde

/-- A class without a base keeps the hierarchy coherent. -/
theorem Coherent.cons_root (hh : h.Coherent) (hnumber : c.number = h.length)
    (hlineage : c.lineage = [h.length]) : Coherent (c :: h) :=
  have hmerge : Lineage.merge? 0 ([].map ExceptionClass.lineage ++ []) = some [] := rfl
  hh.cons [] [] (by simp) (by simp) hmerge hnumber hlineage

theorem mem_of_find? {name : Text} (hfind : h.find? name = some c) : c ∈ h := by
  unfold find? at hfind
  split at hfind
  · next hname =>
    obtain rfl := Option.some.inj hfind
    exact List.mem_of_find?_eq_some hname
  · exact List.mem_reverse.1 (List.mem_of_find?_eq_some hfind)
  · cases hfind

theorem mem_of_findAll {names : List Text} {classes : List ExceptionClass}
    (hfind : h.findAll names = .ok classes) : ∀ c ∈ classes, c ∈ h := by
  induction names generalizing classes with
  | nil =>
    obtain rfl := Except.ok.inj hfind
    simp
  | cons name names ih =>
    unfold findAll at hfind
    split at hfind
    · cases hfind
    · next c hname =>
      obtain ⟨rest, hrest, rfl⟩ := map_eq_ok.1 hfind
      exact List.forall_mem_cons.2 ⟨mem_of_find? hname, ih hrest⟩

/-! ## Hierarchies that were declared -/

theorem Coherent.known (hh : h.Coherent) (bases : List Text) (name : Text) :
    Coherent (h.known bases name) := by
  have hbases : ∀ b ∈ bases.filterMap h.find?, b ∈ h := by
    intro b hb
    obtain ⟨base, -, hbase⟩ := List.mem_filterMap.1 hb
    exact mem_of_find? hbase
  cases hmerge : Lineage.merge? ((bases.filterMap h.find?).map ExceptionClass.lineage).flatten.length
      ((bases.filterMap h.find?).map ExceptionClass.lineage) with
  | none =>
    refine hh.cons_root rfl ?_
    show h.length :: Option.getD _ [] = _
    rw [hmerge]
    rfl
  | some merged =>
    rw [← List.append_nil (List.map _ _)] at hmerge
    refine hh.cons _ [] hbases (by simp) hmerge rfl ?_
    rw [List.append_nil] at hmerge
    show h.length :: Option.getD _ [] = _
    rw [hmerge]
    rfl

theorem Coherent.initial : Coherent initial := by
  have hroot : Coherent (add [] "BaseException" [] true (some .arguments) (some .free)) :=
    Coherent.cons_root ⟨by simp, by simp, by simp, by simp, by simp, by simp⟩ rfl rfl
  unfold Hierarchy.initial
  refine ((Coherent.known ?_ _ _).cons_root rfl rfl).cons_root rfl rfl
  refine List.foldlRecOn families _ hroot fun h hh family _ => ?_
  exact List.foldlRecOn family.2 _ hh fun h hh name _ => hh.known [family.1] name

/-- The hierarchy came about from the known classes by declarations. -/
inductive Declared : Hierarchy → Prop
  | initial : Declared initial
  | declare {h h' : Hierarchy} {name : Text} {bases : List Text} {showing : Option Showing}
      (hdeclare : h.declare name bases showing = .ok h') (hh : Declared h) : Declared h'

theorem Coherent.declare (hh : h.Coherent) {name : Text} {bases : List Text} {showing : Option Showing}
    (hdeclare : h.declare name bases showing = .ok h') : h'.Coherent := by
  obtain ⟨classes, hclasses, hdeclare⟩ := bind_eq_ok.1 hdeclare
  dsimp only at hdeclare
  -- repeated, incompatible and disordered bases are refused
  split at hdeclare
  · cases hdeclare
  split at hdeclare
  · cases hdeclare
  split at hdeclare
  · cases hdeclare
  · next ancestors hmerge =>
    obtain rfl := Except.ok.inj hdeclare
    refine hh.cons classes [classes.map ExceptionClass.number] (mem_of_findAll hclasses) ?_ hmerge rfl rfl
    intro l hl n hn
    obtain rfl := List.mem_singleton.1 hl
    exact List.mem_map.1 hn

/-- **Where classes are declared, each stands before its bases.** -/
theorem Declared.ordered (hd : Declared h) : h.Ordered := by
  have hcoherent : h.Coherent := by
    induction hd with
    | initial => exact .initial
    | declare hdeclare _ ih => exact ih.declare hdeclare
  exact hcoherent.ordered

end Hierarchy

end TypedSexp
