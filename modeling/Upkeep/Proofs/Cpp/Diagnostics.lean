/-
**Which errors of a source are reported.**

A tree is entered only where an error bit tells that something is broken below, and no further than the
first broken node on every way down.  If the bits tell the truth, nothing is missed by that: the broken
nodes that are reported are those with no broken node above them, so every broken node lies in exactly one
of them.  A report quotes the line of the source that the node begins on.

Equal nodes can stand at several places of a tree.  They are told apart by their addresses, the numbers of
the children on the way from the root, whose order is the order of the source.

Main definitions:

* `Upkeep.Cpp.Address`, `Upkeep.Cpp.Node.at?` — places in a tree, and the nodes that stand there;
* `Upkeep.Cpp.Node.Flagged` — trees whose error bits tell the truth;
* `Upkeep.Cpp.Node.BrokenAt`, `Upkeep.Cpp.Node.OutermostAt` — the places of broken nodes, and of those
  among them that lie in no other;
* `Upkeep.Cpp.brokenPlaces` — the addresses of the nodes that are reported;
* `Upkeep.Text.lineAround` — the line of a text that a place lies on;
* `Upkeep.Cpp.Source.Reports` — what is said about a node.

Main results:

* `Upkeep.Cpp.mem_brokenPlaces_iff` — the outermost broken nodes are found;
* `Upkeep.Text.trim_line_eq` — lines by number and lines by place;
* `Upkeep.Cpp.Source.diagnostics_outermost` — **which errors are reported, and how**.
-/

import Mathlib.Data.List.Forall2
import Mathlib.Data.List.TakeWhile
import Upkeep.Cpp.Source
import Upkeep.Proofs.Cpp.Spots
import Upkeep.Proofs.Text.ByteLines

set_option relaxedAutoImplicit false
set_option autoImplicit false

namespace Upkeep

/-! ### The line around a place -/

namespace Text

variable {p : Char → Bool} {s front back : List Char} {c : Char}

theorem dropEndWhile_concat (h : p c = true) (s : List Char) :
    dropEndWhile p (s ++ [c]) = dropEndWhile p s := by
  rw [dropEndWhile, List.reverse_append, List.reverse_singleton, List.singleton_append,
    List.dropWhile_cons_of_pos h, dropEndWhile]

theorem trimBoth_concat (h : p c = true) (s : List Char) : trimBoth p (s ++ [c]) = trimBoth p s := by
  rw [trimBoth, trimBoth, List.dropWhile_append]
  split
  · rename_i hall
    rw [List.isEmpty_iff.1 hall, List.dropWhile_cons_of_pos h, List.dropWhile_nil]
  · exact dropEndWhile_concat h _

/-- The carriage return of an ending is a blank. -/
theorem trimChars_dropReturn (l : List Char) : trimChars (dropReturn l) = trimChars l := by
  rw [dropReturn]
  split
  · rename_i hlast
    obtain ⟨init, rfl⟩ := List.getLast?_eq_some_iff.1 hlast
    rw [List.dropLast_concat]
    exact (trimBoth_concat (by decide) init).symm
  · rfl

/-- The line of a text that the place between two parts of it lies on. -/
def lineAround (front back : List Char) : List Char :=
  (front.reverse.takeWhile (· != '\n')).reverse ++ back.takeWhile (· != '\n')

theorem lineAround_of_not_mem (h : '\n' ∉ front) (back : List Char) :
    lineAround front back = front ++ back.takeWhile (· != '\n') := by
  have hall := forall_bne_of_not_mem (mt List.mem_reverse.1 h)
  rw [lineAround, List.takeWhile_eq_self_iff.2 hall, List.reverse_reverse]

/-- What stands in front of a line feed is not on the line. -/
theorem lineAround_append (a t back : List Char) :
    lineAround (a ++ '\n' :: t) back = lineAround t back := by
  have htake : (a ++ '\n' :: t).reverse.takeWhile (· != '\n') = t.reverse.takeWhile (· != '\n') := by
    rw [List.reverse_append, List.reverse_cons, List.append_assoc, List.takeWhile_append]
    split
    · rename_i hall
      rw [List.singleton_append, List.takeWhile_cons_of_neg (by decide), List.append_nil,
        List.takeWhile_eq_self_iff.2]
      exact List.takeWhile_eq_self_iff.1 (List.takeWhile_sublist _ |>.eq_of_length hall)
    · rfl
  rw [lineAround, htake, lineAround]

/-- **A line by its number** is the line of every place with as many line feeds in front of it, if nothing
is made of blanks at its ends. -/
theorem trim_line_eq (text : String) (h : text.toList = front ++ back) :
    trim ((lines text)[front.count '\n']?.getD "") = String.ofList (trimChars (lineAround front back)) := by
  have hchars : trimChars ((lineChars (front ++ back))[front.count '\n']?.getD []) =
      trimChars (lineAround front back) := by
    clear h
    induction front using cuts_induction (· == '\n') with
    | last front hfront =>
        have hfront := forall_beq_eq_false_iff.1 hfront
        rw [List.count_eq_zero.2 hfront, lineAround_of_not_mem hfront]
        by_cases hback : '\n' ∈ back
        · obtain ⟨rest, more, rfl, hrest⟩ := List.eq_append_cons_of_mem hback
          have hline : '\n' ∉ front ++ rest := by simp [hfront, hrest]
          rw [← List.append_assoc, lineChars_append_cons hline, List.getElem?_cons_zero,
            Option.getD_some, trimChars_dropReturn,
            List.takeWhile_append_of_pos (forall_bne_of_not_mem hrest),
            List.takeWhile_cons_of_neg (by decide), List.append_nil]
        · rw [lineChars_of_not_mem (by simp [hfront, hback]),
            List.takeWhile_eq_self_iff.2 (forall_bne_of_not_mem hback)]
          split
          · rename_i hnil
            rw [hnil]
            rfl
          · rfl
    | cut a c t ha hc ih =>
        obtain rfl := eq_of_beq hc
        have ha := forall_beq_eq_false_iff.1 ha
        rw [List.append_assoc, List.cons_append, lineChars_append_cons ha, List.count_append,
          List.count_eq_zero.2 ha, List.count_cons_self, Nat.zero_add, List.getElem?_cons_succ, ih,
          lineAround_append]
  rw [trim, lines, List.getElem?_map, h, ← hchars]
  cases (lineChars (front ++ back))[front.count '\n']? with
  | none => rfl
  | some l => exact congrArg String.ofList (congrArg trimChars String.toList_ofList)

end Text

namespace Cpp

/-! ### Places in a tree -/

/-- A place in a tree: the numbers of the children on the way from the root. -/
abbrev Address := List Nat

namespace Node

variable {t n c : Node} {i : Nat} {a b : Address}

/-- The node that stands at a place. -/
def at? (t : Node) : Address → Option Node
  | [] => some t
  | i :: a => t.children[i]?.bind fun c => c.at? a

@[simp] theorem at?_nil (t : Node) : t.at? [] = some t := rfl

theorem at?_cons (t : Node) (i : Nat) (a : Address) :
    t.at? (i :: a) = t.children[i]?.bind fun c => c.at? a := rfl

/-- What stands at a place of a tree is a node of it. -/
theorem mem_nodes_of_at? (h : t.at? a = some n) : n ∈ t.nodes := by
  induction a generalizing t with
  | nil =>
      cases h
      exact mem_nodes_self _
  | cons i a ih =>
      obtain ⟨c, hc, h⟩ := Option.bind_eq_some_iff.1 h
      refine mem_nodes_of_mem_inside (mem_inside_trans ?_ (ih h))
      exact mem_inside_of_mem_children (List.mem_of_getElem? hc)

/-- The error bits of a tree tell the truth: they are set on the nodes that are broken or contain a broken
node, and on no others. -/
def Flagged (t : Node) : Prop :=
  ∀ n ∈ t.nodes, n.label.hasError = true ↔ ∃ m ∈ n.nodes, m.isBroken = true

theorem Flagged.child (h : t.Flagged) (hc : c ∈ t.children) : c.Flagged :=
  fun _ hn => h _ (mem_nodes_trans t (mem_nodes_of_mem_inside (mem_inside_of_mem_children hc)) hn)

/-- A broken node stands at this place. -/
def BrokenAt (t : Node) (a : Address) : Prop := ∃ n, t.at? a = some n ∧ n.isBroken = true

/-- A broken node stands at this place, and none above it. -/
def OutermostAt (t : Node) (a : Address) : Prop :=
  t.BrokenAt a ∧ ∀ b, b <+: a → t.BrokenAt b → b = a

theorem brokenAt_nil_iff : t.BrokenAt [] ↔ t.isBroken = true := by simp [BrokenAt]

theorem brokenAt_cons_iff : t.BrokenAt (i :: a) ↔ ∃ c, t.children[i]? = some c ∧ c.BrokenAt a := by
  rw [BrokenAt, at?_cons]
  constructor
  · rintro ⟨n, hn, hbroken⟩
    obtain ⟨c, hc, hn⟩ := Option.bind_eq_some_iff.1 hn
    exact ⟨c, hc, n, hn, hbroken⟩
  · rintro ⟨c, hc, n, hn, hbroken⟩
    exact ⟨n, Option.bind_eq_some_iff.2 ⟨c, hc, hn⟩, hbroken⟩

theorem outermostAt_nil_iff : t.OutermostAt [] ↔ t.isBroken = true := by
  rw [OutermostAt, brokenAt_nil_iff]
  exact and_iff_left fun b hb _ => List.prefix_nil.1 hb

/-- Below a child a place is outermost if it is so in the child, and the root is not broken. -/
theorem outermostAt_cons_iff : t.OutermostAt (i :: a) ↔
    t.isBroken = false ∧ ∃ c, t.children[i]? = some c ∧ c.OutermostAt a := by
  constructor
  · rintro ⟨hbroken, houter⟩
    obtain ⟨c, hc, hbroken⟩ := brokenAt_cons_iff.1 hbroken
    refine ⟨?_, c, hc, hbroken, fun b hb hbrokenb => ?_⟩
    · by_contra hroot
      rw [Bool.not_eq_false] at hroot
      cases houter [] List.nil_prefix (brokenAt_nil_iff.2 hroot)
    · have hsame := houter (i :: b) (List.prefix_cons_inj i |>.2 hb) (brokenAt_cons_iff.2 ⟨c, hc, hbrokenb⟩)
      exact (List.cons.inj hsame).2
  · rintro ⟨hroot, c, hc, hbroken, houter⟩
    refine ⟨brokenAt_cons_iff.2 ⟨c, hc, hbroken⟩, fun b hb hbrokenb => ?_⟩
    cases b with
    | nil => rw [brokenAt_nil_iff, hroot] at hbrokenb; cases hbrokenb
    | cons j b =>
        obtain ⟨rfl, hprefix⟩ := List.cons_prefix_cons.1 hb
        obtain ⟨c', hc', hbrokenb⟩ := brokenAt_cons_iff.1 hbrokenb
        obtain rfl := Option.some.inj (hc.symm.trans hc')
        rw [houter b hprefix hbrokenb]

/-- Every broken node lies in an outermost one, or is one. -/
theorem BrokenAt.exists_outermost (h : t.BrokenAt a) : ∃ b, t.OutermostAt b ∧ b <+: a := by
  induction a generalizing t with
  | nil => exact ⟨[], outermostAt_nil_iff.2 (brokenAt_nil_iff.1 h), List.prefix_refl _⟩
  | cons i a ih =>
      cases hroot : t.isBroken with
      | true => exact ⟨[], outermostAt_nil_iff.2 hroot, List.nil_prefix⟩
      | false =>
          obtain ⟨c, hc, hbroken⟩ := brokenAt_cons_iff.1 h
          obtain ⟨b, houter, hb⟩ := ih hbroken
          exact ⟨i :: b, outermostAt_cons_iff.2 ⟨hroot, c, hc, houter⟩, List.prefix_cons_inj i |>.2 hb⟩

/-- No outermost node lies in another. -/
theorem OutermostAt.eq_of_inside (ha : t.OutermostAt a) (hb : t.OutermostAt b) (h : a <+: b) : a = b :=
  hb.2 a h ha.1

/-- A broken node lies in one outermost node only. -/
theorem OutermostAt.eq_of_above {a' : Address} (ha : t.OutermostAt a) (ha' : t.OutermostAt a')
    (h : a <+: b) (h' : a' <+: b) : a = a' := by
  rcases List.prefix_or_prefix_of_prefix h h' with hab | hab
  · exact ha.eq_of_inside ha' hab
  · exact (ha'.eq_of_inside ha hab).symm

end Node

/-! ### The nodes that are reported -/

mutual

/-- The addresses of the nodes that are reported of a tree. -/
def brokenPlaces : Node → List Address
  | .mk l cs =>
    if l.isError || l.isMissing then [[]]
    else if l.hasError then brokenPlacesFrom 0 cs
    else []

/-- The addresses of the nodes that are reported of the children of a node from number `i` on. -/
def brokenPlacesFrom (i : Nat) : List Node → List Address
  | [] => []
  | n :: ns => (brokenPlaces n).map (i :: ·) ++ brokenPlacesFrom (i + 1) ns

end

variable {t : Node} {i k : Nat} {a : Address}

theorem brokenPlaces_eq (t : Node) : brokenPlaces t =
    if t.isBroken then [[]] else if t.label.hasError then brokenPlacesFrom 0 t.children else [] := by
  cases t with
  | mk l cs => rw [brokenPlaces]; rfl

theorem mem_brokenPlacesFrom_iff {ns : List Node} : a ∈ brokenPlacesFrom k ns ↔
    ∃ i b n, a = (k + i) :: b ∧ ns[i]? = some n ∧ b ∈ brokenPlaces n := by
  induction ns generalizing k with
  | nil => simp [brokenPlacesFrom]
  | cons n ns ih =>
      rw [brokenPlacesFrom, List.mem_append, List.mem_map, ih]
      constructor
      · rintro (⟨b, hb, rfl⟩ | ⟨i, b, m, rfl, hm, hb⟩)
        · exact ⟨0, b, n, rfl, rfl, hb⟩
        · exact ⟨i + 1, b, m, by rw [Nat.add_assoc, Nat.add_comm 1], hm, hb⟩
      · rintro ⟨i, b, m, rfl, hm, hb⟩
        cases i with
        | zero =>
            cases hm
            exact .inl ⟨b, hb, rfl⟩
        | succ i => exact .inr ⟨i, b, m, by rw [Nat.add_assoc, Nat.add_comm 1], hm, hb⟩

theorem nil_mem_brokenPlaces_iff : [] ∈ brokenPlaces t ↔ t.isBroken = true := by
  rw [brokenPlaces_eq]
  cases t.isBroken with
  | true => simp
  | false =>
      refine iff_of_false (fun h => ?_) Bool.false_ne_true
      rw [if_neg Bool.false_ne_true] at h
      split at h
      · obtain ⟨i, b, n, hnil, -⟩ := mem_brokenPlacesFrom_iff.1 h
        cases hnil
      · cases h

theorem cons_mem_brokenPlaces_iff : i :: a ∈ brokenPlaces t ↔
    t.isBroken = false ∧ t.label.hasError = true ∧
      ∃ c, t.children[i]? = some c ∧ a ∈ brokenPlaces c := by
  rw [brokenPlaces_eq]
  cases t.isBroken with
  | true => simp
  | false =>
      cases t.label.hasError with
      | false => simp
      | true =>
          rw [if_neg Bool.false_ne_true, if_pos rfl, mem_brokenPlacesFrom_iff]
          constructor
          · rintro ⟨j, b, c, hsame, hc, hb⟩
            obtain ⟨rfl, rfl⟩ := List.cons.inj hsame
            exact ⟨rfl, rfl, c, by rwa [Nat.zero_add], hb⟩
          · rintro ⟨-, -, c, hc, ha⟩
            exact ⟨i, a, c, by rw [Nat.zero_add], hc, ha⟩

/-- **The outermost broken nodes are found**, if the error bits tell the truth. -/
theorem mem_brokenPlaces_iff (ht : t.Flagged) : a ∈ brokenPlaces t ↔ t.OutermostAt a := by
  induction a generalizing t with
  | nil => rw [nil_mem_brokenPlaces_iff, Node.outermostAt_nil_iff]
  | cons i a ih =>
      have hchild : ∀ c, t.children[i]? = some c → (a ∈ brokenPlaces c ↔ c.OutermostAt a) :=
        fun c hc => ih (ht.child (List.mem_of_getElem? hc))
      rw [cons_mem_brokenPlaces_iff, Node.outermostAt_cons_iff]
      refine and_congr_right fun hroot => ?_
      constructor
      · rintro ⟨-, c, hc, ha⟩
        exact ⟨c, hc, (hchild c hc).1 ha⟩
      · rintro ⟨c, hc, ha⟩
        -- The bit is set because of the node at this very place.
        have hbroken : t.BrokenAt (i :: a) := Node.brokenAt_cons_iff.2 ⟨c, hc, ha.1⟩
        obtain ⟨n, hn, hbroken⟩ := hbroken
        exact ⟨(ht t t.mem_nodes_self).2 ⟨n, Node.mem_nodes_of_at? hn, hbroken⟩, c, hc,
          (hchild c hc).2 ha⟩

mutual

/-- What is reported stands in the order of the source. -/
theorem pairwise_brokenPlaces : (t : Node) → (brokenPlaces t).Pairwise (· < ·)
  | .mk l cs => by
      rw [brokenPlaces]
      split
      · exact List.pairwise_singleton _ _
      · split
        · exact pairwise_brokenPlacesFrom 0 cs
        · exact .nil

theorem pairwise_brokenPlacesFrom : (k : Nat) → (ns : List Node) →
    (brokenPlacesFrom k ns).Pairwise (· < ·)
  | _, [] => .nil
  | k, n :: ns => by
      rw [brokenPlacesFrom]
      refine List.pairwise_append.2 ⟨?_, pairwise_brokenPlacesFrom (k + 1) ns, ?_⟩
      · refine (pairwise_brokenPlaces n).map _ fun a b hab => ?_
        exact List.cons_lt_cons_iff.2 (.inr ⟨rfl, hab⟩)
      · intro a ha b hb
        obtain ⟨a, -, rfl⟩ := List.mem_map.1 ha
        obtain ⟨i, b, m, rfl, -, -⟩ := mem_brokenPlacesFrom_iff.1 hb
        exact List.cons_lt_cons_iff.2 (.inl (by omega))

end

mutual

/-- What is reported are the nodes at these places. -/
theorem brokenNodes_at : (t : Node) →
    List.Forall₂ (fun a n => t.at? a = some n) (brokenPlaces t) (brokenNodes t)
  | .mk l cs => by
      rw [brokenPlaces, brokenNodes]
      split
      · exact .cons rfl .nil
      · split
        · exact brokenNodesOf_at l [] cs
        · exact .nil

theorem brokenNodesOf_at (l : Label) (before : List Node) : (ns : List Node) →
    List.Forall₂ (fun a n => (Node.mk l (before ++ ns)).at? a = some n)
      (brokenPlacesFrom before.length ns) (brokenNodesOf ns)
  | [] => .nil
  | n :: ns => by
      rw [brokenPlacesFrom, brokenNodesOf]
      refine List.rel_append ?_ ?_
      · rw [List.forall₂_map_left_iff]
        refine (brokenNodes_at n).imp fun a m hm => ?_
        rw [Node.at?_cons, Node.children_mk, List.getElem?_append_right (Nat.le_refl _), Nat.sub_self]
        exact hm
      · have hrest := brokenNodesOf_at l (before ++ [n]) ns
        rwa [List.append_assoc, List.length_append] at hrest

end

namespace Source

/-! ### Reports -/

/-- What is said about a broken node: where it begins, and the line of the source that it begins on.  The
line is the one around any place of the text with as many line feeds in front of it. -/
structure Reports (s : Source) (n : Node) (d : Diagnostic) : Prop where
  path : d.path = s.path
  line : d.line = n.label.row + 1
  column : d.column = n.label.column + 1
  message : ∀ front back, s.text.toList = front ++ back → front.count '\n' = n.label.row →
    d.message = (if n.label.isMissing then "missing `" ++ n.kind ++ "`: " else "syntax error: ") ++
      String.ofList (Text.trimChars (Text.lineAround front back))

theorem reports_diagnostic (s : Source) (n : Node) : s.Reports n (s.diagnostic n) := by
  refine ⟨rfl, rfl, rfl, fun front back htext hrow => ?_⟩
  have hline : Text.trim (s.line n.line) =
      String.ofList (Text.trimChars (Text.lineAround front back)) := by
    rw [← Text.trim_line_eq s.text htext, hrow, line, if_neg (show n.line ≠ 0 from Nat.succ_ne_zero _)]
    rfl
  rw [diagnostic, hline]
  split <;> rfl

/-- The bit of the root hides nothing. -/
theorem diagnostics_eq {s : Source} (h : s.tree.Flagged) :
    s.diagnostics = (brokenNodes s.tree).map s.diagnostic := by
  rw [diagnostics]
  split
  · rfl
  · rename_i hbit
    have hplaces : brokenPlaces s.tree = [] := by
      refine List.eq_nil_iff_forall_not_mem.2 fun a ha => hbit ?_
      obtain ⟨⟨n, hn, hbroken⟩, -⟩ := (mem_brokenPlaces_iff h).1 ha
      exact (h _ (Node.mem_nodes_self _)).2 ⟨n, Node.mem_nodes_of_at? hn, hbroken⟩
    have hnodes := brokenNodes_at s.tree
    rw [hplaces, List.forall₂_nil_left_iff] at hnodes
    rw [hnodes, List.map_nil]

/-- **Which errors are reported, and how.**  If the error bits of a tree tell the truth, the outermost
broken nodes are reported, each once and in the order of the source.  So every broken node lies in exactly
one reported node, or is one, and no reported node lies in another; and each report quotes the line that
its node begins on. -/
theorem diagnostics_outermost {s : Source} (h : s.tree.Flagged) :
    ∃ places : List Address,
      List.Forall₂ (fun a d => ∃ n, s.tree.at? a = some n ∧ s.Reports n d) places s.diagnostics ∧
      places.Pairwise (· < ·) ∧
      (∀ a, a ∈ places ↔ s.tree.OutermostAt a) ∧
      (∀ a, s.tree.BrokenAt a → ∃! b, b ∈ places ∧ b <+: a) ∧
      ∀ a ∈ places, ∀ b ∈ places, a <+: b → a = b := by
  have hmem : ∀ a, a ∈ brokenPlaces s.tree ↔ s.tree.OutermostAt a := fun a => mem_brokenPlaces_iff h
  refine ⟨brokenPlaces s.tree, ?_, pairwise_brokenPlaces s.tree, hmem, ?_, ?_⟩
  · rw [diagnostics_eq h, List.forall₂_map_right_iff]
    exact (brokenNodes_at s.tree).imp fun a n hn => ⟨n, hn, s.reports_diagnostic n⟩
  · intro a hbroken
    obtain ⟨b, houter, hb⟩ := hbroken.exists_outermost
    refine ⟨b, ⟨(hmem b).2 houter, hb⟩, ?_⟩
    rintro c ⟨hc, hca⟩
    exact ((hmem c).1 hc).eq_of_above houter hca hb
  · intro a ha b hb hab
    exact ((hmem a).1 ha).eq_of_inside ((hmem b).1 hb) hab

/-- A declaration without its value, and a function whose list of parameters is not closed: what is
missing there lies in an error. -/
def unclosed : Source :=
  ⟨⟨"b.cpp"⟩, "int x = ;\n  void g( \x7b\n",
    .mk ⟨0, "translation_unit", none, true, false, false, true, 0, 0, 0, ""⟩
      [.mk ⟨1, "declaration", none, true, false, false, true, 0, 0, 0, "int x = ;"⟩
        [.mk ⟨2, "primitive_type", some "type", true, false, false, false, 0, 0, 0, "int"⟩ [],
          .mk ⟨3, "identifier", some "value", true, false, true, true, 8, 0, 8, ""⟩ []],
        .mk ⟨4, "ERROR", none, true, true, false, true, 12, 1, 2, "void g( \x7b"⟩
          [.mk ⟨5, ")", none, false, false, true, true, 20, 1, 10, ""⟩ []]]⟩

instance (t : Node) : Decidable t.Flagged :=
  inferInstanceAs (Decidable (∀ n ∈ t.nodes, n.label.hasError = true ↔
    ∃ m ∈ n.nodes, m.isBroken = true))

theorem diagnostics_outermost_unclosed : unclosed.tree.Flagged ∧ ∃ places : List Address,
    List.Forall₂ (fun a d => ∃ n, unclosed.tree.at? a = some n ∧ unclosed.Reports n d) places
      [⟨⟨"b.cpp"⟩, 1, 9, "missing `identifier`: int x = ;"⟩,
        ⟨⟨"b.cpp"⟩, 2, 3, "syntax error: void g( \x7b"⟩] ∧
    places.Pairwise (· < ·) ∧ [1] ∈ places ∧ [1, 0] ∉ places ∧ ∃! b, b ∈ places ∧ b <+: [1, 0] := by
  have hflagged : unclosed.tree.Flagged := by decide +kernel
  have hreports : unclosed.diagnostics =
      [⟨⟨"b.cpp"⟩, 1, 9, "missing `identifier`: int x = ;"⟩,
        ⟨⟨"b.cpp"⟩, 2, 3, "syntax error: void g( \x7b"⟩] := by decide +kernel
  obtain ⟨places, hall, hsorted, hmem, hone, hapart⟩ := diagnostics_outermost hflagged
  rw [hreports] at hall
  have herror : [1] ∈ places :=
    (hmem [1]).2 (Node.outermostAt_cons_iff.2 ⟨rfl, _, rfl, Node.outermostAt_nil_iff.2 rfl⟩)
  refine ⟨hflagged, places, hall, hsorted, herror, fun hinside => ?_, hone [1, 0] ⟨_, rfl, rfl⟩⟩
  cases hapart [1] herror [1, 0] hinside ⟨[0], rfl⟩

end Source

end Cpp

end Upkeep
