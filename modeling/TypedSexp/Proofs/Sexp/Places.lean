import Mathlib.Data.List.Induction
import TypedSexp.Proofs.Sexp.Resumption
/-!
# Trees know where they were read

The tokens of a tree are a run of the tokens of the text (`Makes.within`), and such a run is written
by one stretch of the text, with nothing but the gap in front of it cut off (`Placed.run`). So a tree
at any depth is placed at both ends of a stretch of the text that is a way to write it: the offsets
count the bytes before these ends, and the lines and columns their line feeds and code points
(`Position.advance_start`). The stretches of a list's items lie inside the list's, one behind another.
-/

namespace TypedSexp

namespace Position

/-- The point behind a text: its bytes, one line more than it has line feeds, and one column more than
it has code points behind the last of them. -/
def behind (t : Text) : Position :=
  ⟨Utf8.size t, 1 + t.count (CodePoint.ofChar '\n'),
    1 + (t.reverse.takeWhile (· ≠ CodePoint.ofChar '\n')).length⟩

theorem advance_start (t : Text) : start.advance t = behind t := by
  induction t using List.reverseRecOn with
  | nil => rfl
  | append_singleton t c ih =>
    rw [advance_append, ih]
    show (behind t).step c = behind (t ++ [c])
    have hsize : Utf8.size (t ++ [c]) = Utf8.size t + Utf8.width c := Utf8.size_append t [c]
    unfold step behind
    by_cases hc : c = CodePoint.ofChar '\n'
    · subst hc
      rw [if_pos rfl]
      simp [hsize, Nat.add_assoc]
    · rw [if_neg hc]
      simp [hsize, hc, Nat.add_assoc, Nat.add_comm 1]

end Position

/-- The node is the tree or stands in it at any depth. -/
inductive Node.Within : Node → Node → Prop
  | self {n : Node} : Within n n
  | item {n i : Node} {items : List Node} {l : Option Location} (hi : i ∈ items) :
      Within n i → Within n (.list items l)

/-- The location is a stretch of the text: its start and its end are the points behind what stands
before them. -/
def Location.Spans (l : Location) (file t : Text) : Prop :=
  ∃ head own tail, t = head ++ own ++ tail ∧
    l = .between file (.behind head) (.behind (head ++ own))

/-- The items of a list are placed inside it, in order and without an overlap. -/
def Node.ItemsInside (n : Node) (l : Location) : Prop :=
  ∀ items place, n = .list items place → ∃ places : List Location,
    items.map Node.location = places.map some ∧
    places.Pairwise (fun a b => a.stop ≤ b.start) ∧
    ∀ a ∈ places, l.start < a.start ∧ a.start < a.stop ∧ a.stop < l.stop

namespace Grammar

variable {file : Text}

/-! ## Runs of tokens -/

/-- The tokens of a tree are a run of the tokens of the trees around it. -/
theorem Makes.of_mem {ts : List Token} {ns : List Node} (h : Makes file ts ns) {v : Node}
    (hv : v ∈ ns) : ∃ before run after, ts = before ++ run ++ after ∧ Makes file run [v] := by
  induction h with
  | nil => cases hv
  | @bare t p q ts ns _ ih =>
    rcases List.mem_cons.1 hv with rfl | hv
    · exact ⟨[], [_], ts, rfl, .bare .nil⟩
    · obtain ⟨before, run, after, rfl, hrun⟩ := ih hv
      exact ⟨_ :: before, run, after, rfl, hrun⟩
  | @quoted t p q ts ns _ ih =>
    rcases List.mem_cons.1 hv with rfl | hv
    · exact ⟨[], [_], ts, rfl, .quoted .nil⟩
    · obtain ⟨before, run, after, rfl, hrun⟩ := ih hv
      exact ⟨_ :: before, run, after, rfl, hrun⟩
  | @list p q p' q' inner ts items ns hi _ _ ih =>
    rcases List.mem_cons.1 hv with rfl | hv
    · exact ⟨[], ⟨.opening, p, q⟩ :: inner ++ [⟨.closing, p', q'⟩], ts, by simp, .list hi .nil⟩
    · obtain ⟨before, run, after, rfl, hrun⟩ := ih hv
      exact ⟨⟨.opening, p, q⟩ :: inner ++ ⟨.closing, p', q'⟩ :: before, run, after, by simp, hrun⟩

theorem Makes.within {v n : Node} (hn : n.Within v) : ∀ {ts : List Token}, Makes file ts [v] →
    ∃ before run after, ts = before ++ run ++ after ∧ Makes file run [n] := by
  induction hn with
  | self => exact fun {ts} h => ⟨[], ts, [], by simp, h⟩
  | item hi _ ih =>
    intro ts h
    cases h with
    | @list p q p' q' inner ts _ _ hitems hrest =>
      obtain ⟨before, run, after, rfl, hrun⟩ := hitems.of_mem hi
      obtain ⟨before', run', after', rfl, hrun'⟩ := ih hrun
      exact ⟨⟨.opening, p, q⟩ :: before ++ before', run', after' ++ after ++ ⟨.closing, p', q'⟩ :: ts,
        by simp, hrun'⟩

/-- A run of tokens is written by a stretch of the text that starts with the first of them. -/
theorem Placed.split {p : Position} {b : Bool} {ts us : List Token} {t : Text}
    (h : Placed p b (ts ++ us) t) : ∃ t₁ t₂ b', t = t₁ ++ t₂ ∧ Placed p b ts t₁ ∧
      Placed (p.advance t₁) b' us t₂ := by
  induction ts generalizing p b t with
  | nil => exact ⟨[], t, b, rfl, .nil, h⟩
  | cons token ts ih =>
    cases h with
    | @cons _ _ gap t l _ hg hl hs h =>
      obtain ⟨t₁, t₂, b', rfl, h₁, h₂⟩ := ih h
      refine ⟨gap ++ l.source ++ t₁, t₂, b', by simp, .cons hg hl hs h₁, ?_⟩
      rwa [Position.advance_append, Position.advance_append]

theorem Placed.run {p : Position} {b : Bool} {before run after : List Token} {t : Text}
    {first : Token} (h : Placed p b (before ++ run ++ after) t) (hfirst : run.head? = some first) :
    ∃ head own tail, t = head ++ own ++ tail ∧ first.start = p.advance head ∧
      Placed (p.advance head) false run own := by
  rw [List.append_assoc] at h
  obtain ⟨t₁, t', b₁, rfl, -, h⟩ := h.split
  obtain ⟨t₂, t₃, b₂, rfl, h, -⟩ := h.split
  cases h with
  | nil => cases hfirst
  | @cons _ _ gap t l ts hg hl hs hrest =>
    cases hfirst
    refine ⟨t₁ ++ gap, l.source ++ t, t₃, by simp, (Position.advance_append ..).symm, ?_⟩
    rw [Position.advance_append]
    exact .cons .nil hl (by simp) hrest

/-! ## The order of tokens -/

theorem size_source_pos {l : Lexeme} (hl : WellFormed l) : 0 < Utf8.size l.source := by
  have hne : l.source ≠ [] := by
    cases l with
    | bare w => exact hl.1
    | _ => simp [Lexeme.source]
  obtain ⟨c, t, hsource⟩ := List.exists_cons_of_ne_nil hne
  have hwidth := Utf8.width_pos c
  rw [hsource, Utf8.size_cons]
  omega

/-- Tokens stand one behind another. -/
theorem Placed.ordered {p : Position} {b : Bool} {ts : List Token} {t : Text} (h : Placed p b ts t) :
    ts.Pairwise (fun s u => s.stop.offset ≤ u.start.offset) ∧
      ∀ s ∈ ts, p.offset ≤ s.start.offset ∧ s.start.offset < s.stop.offset := by
  induction h with
  | nil => exact ⟨.nil, by simp⟩
  | @cons p b gap t l ts hg hl hs _ ih =>
    obtain ⟨hpairs, hrest⟩ := ih
    have hsource := size_source_pos hl
    have hstart := Position.offset_advance p gap
    have hstop := Position.offset_advance (p.advance gap) l.source
    refine ⟨.cons (fun u hu => (hrest u hu).1) hpairs, ?_⟩
    rw [List.forall_mem_cons]
    dsimp only
    refine ⟨⟨by omega, by omega⟩, fun s hs => ⟨?_, (hrest s hs).2⟩⟩
    have := (hrest s hs).1
    omega

/-- Trees are placed one behind another, each from the start of one of the tokens to the end of one. -/
def InOrder (ts : List Token) (ns : List Node) : Prop :=
  ∃ places : List Location, ns.map Node.location = places.map some ∧
    places.Pairwise (fun a b => a.stop ≤ b.start) ∧
    ∀ a ∈ places, a.start < a.stop ∧ (∃ s ∈ ts, a.start = s.start.offset) ∧
      ∃ u ∈ ts, a.stop = u.stop.offset

theorem InOrder.cons {piece ts : List Token} {v : Node} {ns : List Node} (h : InOrder ts ns)
    (first last : Token) (hv : v.location = some (.between file first.start last.stop))
    (hfirst : first ∈ piece) (hlast : last ∈ piece)
    (hlt : first.start.offset < last.stop.offset)
    (hbehind : ∀ u ∈ ts, last.stop.offset ≤ u.start.offset) : InOrder (piece ++ ts) (v :: ns) := by
  obtain ⟨places, hplaces, hpairs, hends⟩ := h
  refine ⟨.between file first.start last.stop :: places, by simp [hv, hplaces], .cons ?_ hpairs, ?_⟩
  · intro a ha
    obtain ⟨-, ⟨s, hs, hstart⟩, -⟩ := hends a ha
    rw [hstart]
    exact Int.ofNat_le.2 (hbehind s hs)
  · rw [List.forall_mem_cons]
    refine ⟨⟨Int.ofNat_lt.2 hlt, ⟨first, List.mem_append_left _ hfirst, rfl⟩,
      last, List.mem_append_left _ hlast, rfl⟩, fun a ha => ?_⟩
    obtain ⟨halt, ⟨s, hs, hstart⟩, u, hu, hstop⟩ := hends a ha
    exact ⟨halt, ⟨s, List.mem_append_right _ hs, hstart⟩, u, List.mem_append_right _ hu, hstop⟩

theorem Makes.inOrder {ts : List Token} {ns : List Node} (h : Makes file ts ns)
    (hts : ts.Pairwise fun s u => s.stop.offset ≤ u.start.offset)
    (hpos : ∀ s ∈ ts, s.start.offset < s.stop.offset) : InOrder ts ns := by
  induction h with
  | nil => exact ⟨[], rfl, .nil, by simp⟩
  | @bare t p q ts ns _ ih | @quoted t p q ts ns _ ih =>
    obtain ⟨hbehind, hts⟩ := List.pairwise_cons.1 hts
    rw [List.forall_mem_cons] at hpos
    exact (ih hts hpos.2).cons _ _ rfl (List.mem_singleton.2 rfl) (List.mem_singleton.2 rfl) hpos.1
      hbehind
  | @list p q p' q' inner ts items ns _ _ _ ih =>
    obtain ⟨-, hback, hcross⟩ := List.pairwise_append.1 hts
    obtain ⟨hbehind, hts⟩ := List.pairwise_cons.1 hback
    have hopening := hpos ⟨.opening, p, q⟩ (by simp)
    have hclosing := hpos ⟨.closing, p', q'⟩ (by simp)
    have hinner := hcross ⟨.opening, p, q⟩ List.mem_cons_self ⟨.closing, p', q'⟩ List.mem_cons_self
    have hrest := ih hts fun s hs => hpos s (by simp [hs])
    have hlist : InOrder (⟨.opening, p, q⟩ :: inner ++ [⟨.closing, p', q'⟩] ++ ts)
        (.list items (some (.between file p q')) :: ns) :=
      hrest.cons ⟨.opening, p, q⟩ ⟨.closing, p', q'⟩ rfl (by simp) (by simp)
        (by dsimp only at *; omega) hbehind
    simpa using hlist

/-- The tokens of the items stand between those of the parentheses. -/
theorem Makes.itemsInside {run : List Token} {n : Node} {l : Location} (h : Makes file run [n])
    (hrun : run.Pairwise fun s u => s.stop.offset ≤ u.start.offset)
    (hpos : ∀ s ∈ run, s.start.offset < s.stop.offset) (hl : n.location = some l) :
    n.ItemsInside l := by
  rintro items place rfl
  cases h with
  | @list p q p' q' inner _ _ _ hitems hnil =>
    cases hnil
    cases hl
    obtain ⟨hfront, -, hcross⟩ := List.pairwise_append.1 hrun
    obtain ⟨hbehind, hinner⟩ := List.pairwise_cons.1 hfront
    have hopening := hpos ⟨.opening, p, q⟩ (by simp)
    have hclosing := hpos ⟨.closing, p', q'⟩ (by simp)
    obtain ⟨places, hplaces, horder, hends⟩ := hitems.inOrder hinner fun s hs => hpos s (by simp [hs])
    refine ⟨places, hplaces, horder, fun a ha => ?_⟩
    obtain ⟨hlt, ⟨s, hs, hstart⟩, u, hu, hstop⟩ := hends a ha
    have hs := hbehind s hs
    have hu := hcross u (List.mem_cons_of_mem _ hu) ⟨.closing, p', q'⟩ (by simp)
    simp only [Location.between] at *
    omega

/-! ## A tree and the stretch of text that it comes from -/

/-- The node is the tree as it is read from a text that starts with its first token and ends with its
last one. -/
structure Reads (file : Text) (p : Position) (t : Text) (x : Sexp) (n : Node) : Prop where
  sexp : n.sexp = x
  location : n.location = some (.between file p (p.advance t))
  tokens : ∃ ts, Makes file ts [n] ∧ Placed p false ts t

theorem Reads.written {p : Position} {t : Text} {x : Sexp} {n : Node} (h : Reads file p t x n) :
    Written [x] t := by
  obtain ⟨ts, hmakes, hplaced⟩ := h.tokens
  have hspaced := hplaced.spaced (.gap .nil)
  rw [List.append_nil] at hspaced
  have hspells := hmakes.spells fun s hs => hspaced.wellFormed _ (List.mem_map_of_mem hs)
  rw [List.map_singleton, h.sexp] at hspells
  exact ⟨_, hspells, hspaced⟩

theorem Reads.itemsInside {p : Position} {t : Text} {x : Sexp} {n : Node} (h : Reads file p t x n) :
    n.ItemsInside (.between file p (p.advance t)) := by
  obtain ⟨ts, hmakes, hplaced⟩ := h.tokens
  obtain ⟨hpairs, hends⟩ := hplaced.ordered
  exact hmakes.itemsInside hpairs (fun s hs => (hends s hs).2) h.location

/-- A tree that the tokens of a text make is read from a stretch of the text. -/
theorem Makes.stretch {v n : Node} {p : Position} {b : Bool} {before piece : List Token} {t : Text}
    (h : Makes file piece [v]) (hn : n.Within v) (hplaced : Placed p b (before ++ piece) t) :
    ∃ head own tail, t = head ++ own ++ tail ∧ Reads file (p.advance head) own n.sexp n := by
  obtain ⟨before', run, after, rfl, hrun⟩ := Makes.within hn h
  obtain ⟨first, last, hfirst, hlast, hlocation⟩ := hrun.place
  have htokens : before ++ (before' ++ run ++ after) = (before ++ before') ++ run ++ after := by simp
  rw [htokens] at hplaced
  obtain ⟨head, own, tail, rfl, hstart, hown⟩ := hplaced.run hfirst
  rw [hstart, hown.last hlast] at hlocation
  exact ⟨head, own, tail, rfl, rfl, hlocation, run, hrun, hown⟩

/-- Every tree of a reading is read from a stretch of the text. -/
theorem stretch_of_reading {p : Position} {t : Text} {v n : Node}
    (hv : v ∈ (Reading.of file p t).values) (hn : n.Within v) :
    ∃ head own tail, t = head ++ own ++ tail ∧ Reads file (p.advance head) own n.sexp n := by
  generalize hr : Reading.of file p t = r at hv
  obtain ⟨values, fault⟩ := r
  obtain ⟨before, after, rfl⟩ := List.append_of_mem hv
  obtain ⟨front, back, htokens, -, hrest⟩ := exists_makes hr
  obtain ⟨piece, rest, rfl, hmakes, -⟩ := delivers_of_assemble .nil hrest
  rw [List.nil_append] at hmakes
  rw [← List.append_assoc] at htokens
  obtain ⟨t₁, t₂, rfl, hplaced, -⟩ := scan_cut (b := false) htokens (by simp)
  obtain ⟨head, own, tail, rfl, hreads⟩ := hmakes.stretch hn hplaced
  exact ⟨head, own, tail ++ t₂, by simp, hreads⟩

/-- Every tree of a reading has its origin in the text. -/
theorem origin_of_reading {p : Position} {t : Text} {v n : Node}
    (hv : v ∈ (Reading.of file p t).values) (hn : n.Within v) :
    ∃ head own tail, t = head ++ own ++ tail ∧ Written [n.sexp] own ∧
      ∃ l, l = .between file (p.advance head) ((p.advance head).advance own) ∧
        n.location = some l ∧ n.ItemsInside l := by
  obtain ⟨head, own, tail, ht, hreads⟩ := stretch_of_reading hv hn
  exact ⟨head, own, tail, ht, hreads.written, _, rfl, hreads.location, hreads.itemsInside⟩

end Grammar

namespace Source

/-- A text and its bytes are parsed alike. -/
theorem parse_bytes {t : Text} {b : Utf8.Bytes} (hb : Utf8.encode? t = some b) (start : Int)
    (file : Text) : (Source.bytes b).parse start file = (Source.text t).parse start file := by
  unfold parse
  rw [split_bytes hb]

/-- A stretch of a text has the bytes between its ends. -/
theorem bytes_of_stretch (head own tail : Text) :
    (((head ++ own ++ tail).flatMap Utf8.encodeOne).take (Utf8.size (head ++ own))).drop
      (Utf8.size head) = own.flatMap Utf8.encodeOne := by
  rw [List.flatMap_append, ← Utf8.length_flatMap_encodeOne (head ++ own), List.take_left,
    List.flatMap_append, ← Utf8.length_flatMap_encodeOne head, List.drop_left]

/-- **Every tree that is read knows where it comes from.** A text and its bytes are read alike, from
every offset; and from a character's start on, every tree is placed, at any depth: at a stretch of the
text whose bytes, parsed alone, are this tree, and around its items. -/
theorem read_places {t : Text} {b : Utf8.Bytes} (hb : Utf8.encode? t = some b) (file : Text) :
    (∀ start, (Source.bytes b).read start file = (Source.text t).read start file) ∧
    ∀ skipped body, t = skipped ++ body → ∃ r,
      (Source.text t).read (Utf8.size skipped) file = .ok r ∧
      ∀ v ∈ r.values, ∀ n : Node, n.Within v → ∃ l, n.location = some l ∧ l.Spans file t ∧
        (Source.bytes ((b.take l.stop.toNat).drop l.start.toNat)).tree file = .ok n.sexp ∧
        n.ItemsInside l := by
  refine ⟨fun start => by unfold read; rw [split_bytes hb], fun skipped body ht => ?_⟩
  obtain ⟨hnone, rfl⟩ := Utf8.encode?_eq_some_iff.1 hb
  refine ⟨_, read_eq_ok_iff.2 ⟨skipped, body, ⟨hnone, ht⟩, rfl, rfl⟩, fun v hv n hn => ?_⟩
  obtain ⟨head, own, tail, rfl, hwritten, l, hl, hlocation, hitems⟩ := Grammar.origin_of_reading hv hn
  rw [← Position.advance_append, ← Position.advance_append, Position.advance_start,
    Position.advance_start] at hl
  have htext : t = (skipped ++ head) ++ own ++ tail := by rw [ht]; simp
  refine ⟨l, hlocation, ⟨skipped ++ head, own, tail, htext, hl⟩, ?_, hitems⟩
  have hown : own.any CodePoint.isSurrogate = false := by
    rw [htext] at hnone
    simp_all
  rw [hl, htext]
  show (Source.bytes (((((skipped ++ head) ++ own ++ tail).flatMap Utf8.encodeOne).take
    (Utf8.size ((skipped ++ head) ++ own))).drop (Utf8.size (skipped ++ head)))).tree file = _
  rw [bytes_of_stretch, tree, parse_bytes (Utf8.encode?_eq_some_iff.2 ⟨hown, rfl⟩)]
  exact (Grammar.tree_eq_ok_iff hown file _).2 ((Grammar.trees_eq_ok_iff hown file _).2 hwritten)

/-- Behind a character of two bytes: a list over two lines with a character of three. -/
theorem read_places_nested :
    let t : Text := "é(a \"€\n\")"
    let b : Utf8.Bytes := [0xC3, 0xA9, 0x28, 0x61, 0x20, 0x22, 0xE2, 0x82, 0xAC, 0x0A, 0x22, 0x29]
    Utf8.encode? t = some b ∧ t = "é" ++ "(a \"€\n\")" ∧
    (Source.bytes b).read 2 "f" = (Source.text t).read 2 "f" ∧
    ∃ r, (Source.text t).read (Utf8.size "é") "f" = .ok r ∧
      ∀ v ∈ r.values, ∀ n : Node, n.Within v → ∃ l, n.location = some l ∧ l.Spans "f" t ∧
        (Source.bytes ((b.take l.stop.toNat).drop l.start.toNat)).tree "f" = .ok n.sexp ∧
        n.ItemsInside l := by
  have hb : Utf8.encode? (("é(a \"€\n\")" : String) : Text) =
      some [0xC3, 0xA9, 0x28, 0x61, 0x20, 0x22, 0xE2, 0x82, 0xAC, 0x0A, 0x22, 0x29] := by decide
  obtain ⟨hbytes, hplaces⟩ := read_places hb "f"
  exact ⟨hb, by decide, hbytes 2, hplaces "é" "(a \"€\n\")" (by decide)⟩

end Source

end TypedSexp
