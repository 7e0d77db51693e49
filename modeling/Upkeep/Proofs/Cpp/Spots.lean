/-
**The places of nodes in a tree.**

A spot is a node with the nodes above it.  In a tree whose nodes have numbers of their own, a node has
one spot, and whatever lies below a node has it above.

Main definitions:

* `Upkeep.Cvar.spots` — all spots of a tree, in the order of the source;
* `Upkeep.Cpp.Node.Numbered` — trees in which every node has a number of its own.

Main results:

* `Upkeep.Cpp.Node.numbered_ofRows?` — trees that are given as rows are numbered;
* `Upkeep.Cvar.eq_of_id_eq` — **a number stands for one spot**;
* `Upkeep.Cvar.exists_spot_below` — what lies below a node has it above.
-/

import Mathlib.Data.List.Nodup
import Upkeep.Cvar.Globals
import Upkeep.Proofs.Cvar.Walk

set_option relaxedAutoImplicit false
set_option autoImplicit false

namespace Upkeep

/-! ### Numbered trees -/

namespace Cpp

namespace Node

/-- Every node of a tree has a number of its own. -/
def Numbered (t : Node) : Prop := (t.nodes.map id).Nodup

instance (t : Node) : Decidable t.Numbered := inferInstanceAs (Decidable (List.Nodup _))

theorem nodesOf_append (ns ns' : List Node) : nodesOf (ns ++ ns') = nodesOf ns ++ nodesOf ns' := by
  induction ns with
  | nil => rfl
  | cons n ns ih => rw [List.cons_append, nodesOf, nodesOf, ih, List.append_assoc]

theorem mem_nodes_self (n : Node) : n ∈ n.nodes := by
  cases n with
  | mk l cs => exact List.mem_cons_self

/-- The nodes of a tree that come before others in a list are among the nodes of the list. -/
theorem mem_nodesOf_of_mem {ns : List Node} {n m : Node} (hn : n ∈ ns) (hm : m ∈ n.nodes) :
    m ∈ nodesOf ns := by
  induction ns with
  | nil => simp at hn
  | cons n' ns ih =>
      rw [nodesOf, List.mem_append]
      rcases List.mem_cons.1 hn with rfl | hn
      · exact .inl hm
      · exact .inr (ih hn)

/-- The nodes below a node. -/
def inside (n : Node) : List Node := nodesOf n.children

theorem nodes_eq (n : Node) : n.nodes = n :: n.inside := by
  cases n with
  | mk l cs => rfl

theorem mem_inside_of_mem_children {n c : Node} (h : c ∈ n.children) : c ∈ n.inside :=
  mem_nodesOf_of_mem h c.mem_nodes_self

mutual

/-- What lies below a node of a tree lies in the tree. -/
theorem mem_nodes_trans {n m : Node} : (t : Node) → n ∈ t.nodes → m ∈ n.nodes → m ∈ t.nodes
  | .mk l cs, hn, hm => by
      rw [nodes] at hn ⊢
      rcases List.mem_cons.1 hn with rfl | hn
      · rwa [nodes] at hm
      · exact List.mem_cons_of_mem _ (mem_nodesOf_trans cs hn hm)

theorem mem_nodesOf_trans {n m : Node} :
    (ts : List Node) → n ∈ nodesOf ts → m ∈ n.nodes → m ∈ nodesOf ts
  | [], hn, _ => by simp [nodesOf] at hn
  | t :: ts, hn, hm => by
      rw [nodesOf, List.mem_append] at hn ⊢
      rcases hn with hn | hn
      · exact .inl (mem_nodes_trans t hn hm)
      · exact .inr (mem_nodesOf_trans ts hn hm)

end

theorem mem_nodes_of_mem_inside {n m : Node} (h : m ∈ n.inside) : m ∈ n.nodes := by
  rw [nodes_eq]
  exact List.mem_cons_of_mem _ h

/-- What lies below a node that lies below another one lies below that one. -/
theorem mem_inside_trans {n c m : Node} (hc : c ∈ n.inside) (hm : m ∈ c.nodes) : m ∈ n.inside :=
  mem_nodesOf_trans n.children hc hm

end Node

/-! ### Trees from rows -/

/-- The numbers of all nodes of the trees that wait for a parent. -/
def Orphans.ids (orphans : Orphans) : List Nat := (Node.nodesOf (orphans.map Prod.snd)).map Node.id

/-- A row puts its number in front. -/
theorem ids_adopt (source : ByteArray) (r : Row × Nat) (orphans : Orphans) :
    (adopt source r orphans).ids = r.2 :: orphans.ids := by
  have hsplit : Node.nodesOf (orphans.map Prod.snd) =
      Node.nodesOf ((orphans.takeWhile fun o => o.1 == r.1.depth + 1).map Prod.snd) ++
        Node.nodesOf ((orphans.dropWhile fun o => o.1 == r.1.depth + 1).map Prod.snd) := by
    rw [← Node.nodesOf_append, ← List.map_append, List.takeWhile_append_dropWhile]
  rw [Orphans.ids, Orphans.ids, hsplit, adopt, List.map_cons, Node.nodesOf, Node.nodes,
    List.cons_append, List.map_cons]
  rfl

/-- Trees that are given as rows are numbered. -/
theorem Node.numbered_ofRows? {source : String} {rows : List Row} {t : Node}
    (h : Node.ofRows? source rows = some t) : t.Numbered := by
  have hids : ∀ rs : List (Row × Nat),
      (rs.foldr (adopt source.toUTF8) []).ids = rs.map Prod.snd := by
    intro rs
    induction rs with
    | nil => rfl
    | cons r rs ih => rw [List.foldr_cons, ids_adopt, ih, List.map_cons]
  obtain ⟨⟨depth, t'⟩, hhead, rfl⟩ := Option.map_eq_some_iff.1 h
  obtain ⟨rest, hrest⟩ := List.head?_eq_some_iff.1 hhead
  have hnodup : (rows.zipIdx.foldr (adopt source.toUTF8) []).ids.Nodup := by
    rw [hids, List.zipIdx_map_snd]
    exact List.nodup_range'
  rw [hrest, Orphans.ids, List.map_cons, Node.nodesOf, List.map_append] at hnodup
  exact hnodup.of_append_left

end Cpp

namespace Cvar

open Cpp

/-! ### Spots -/

mutual

/-- All nodes of a tree with the nodes above them, in the order of the source. -/
def spots (above : List Node) : Node → List Spot
  | .mk l cs => ⟨above, .mk l cs⟩ :: spotsOf (.mk l cs :: above) cs

/-- All nodes of some trees with the nodes above them. -/
def spotsOf (above : List Node) : List Node → List Spot
  | [] => []
  | c :: cs => spots above c ++ spotsOf above cs

end

variable {s s' : Spot}

mutual

/-- The spots of a tree are those of its nodes. -/
theorem map_node_spots (above : List Node) : (n : Node) → (spots above n).map Spot.node = n.nodes
  | .mk l cs => by
      rw [spots, Node.nodes, List.map_cons, map_node_spotsOf _ cs]

theorem map_node_spotsOf (above : List Node) :
    (ns : List Node) → (spotsOf above ns).map Spot.node = Node.nodesOf ns
  | [] => rfl
  | n :: ns => by
      rw [spotsOf, Node.nodesOf, List.map_append, map_node_spots above n, map_node_spotsOf above ns]

end

mutual

/-- What lies above a tree lies above its nodes. -/
theorem suffix_of_mem_spots {above : List Node} : (n : Node) → s ∈ spots above n → above <:+ s.above
  | .mk l cs, h => by
      rw [spots] at h
      rcases List.mem_cons.1 h with rfl | h
      · exact List.suffix_refl _
      · exact (List.suffix_cons _ _).trans (suffix_of_mem_spotsOf cs h)

theorem suffix_of_mem_spotsOf {above : List Node} :
    (ns : List Node) → s ∈ spotsOf above ns → above <:+ s.above
  | [], h => by simp [spotsOf] at h
  | n :: ns, h => by
      rw [spotsOf, List.mem_append] at h
      rcases h with h | h
      · exact suffix_of_mem_spots n h
      · exact suffix_of_mem_spotsOf ns h

end

mutual

/-- The spots of a tree at a spot are spots of the tree around it. -/
theorem mem_spots_trans {above : List Node} :
    (n : Node) → s ∈ spots above n → s' ∈ spots s.above s.node → s' ∈ spots above n
  | .mk l cs, h, h' => by
      rw [spots] at h
      rcases List.mem_cons.1 h with rfl | h
      · exact h'
      · rw [spots]
        exact List.mem_cons_of_mem _ (mem_spotsOf_trans cs h h')

theorem mem_spotsOf_trans {above : List Node} :
    (ns : List Node) → s ∈ spotsOf above ns → s' ∈ spots s.above s.node → s' ∈ spotsOf above ns
  | [], h, _ => by simp [spotsOf] at h
  | n :: ns, h, h' => by
      rw [spotsOf, List.mem_append] at h ⊢
      rcases h with h | h
      · exact .inl (mem_spots_trans n h h')
      · exact .inr (mem_spotsOf_trans ns h h')

end

mutual

/-- A spot is the root of the tree, or stands directly below another spot. -/
theorem exists_parent_of_mem_spots {above : List Node} : (n : Node) → s ∈ spots above n →
    s = ⟨above, n⟩ ∨ ∃ p ∈ spots above n, s.above = p.node :: p.above ∧ s.node ∈ p.node.children
  | .mk l cs, h => by
      rw [spots] at h
      rcases List.mem_cons.1 h with rfl | h
      · exact .inl rfl
      · right
        rcases exists_parent_of_mem_spotsOf cs h with ⟨habove, hmem⟩ | ⟨p, hp, hchild⟩
        · exact ⟨⟨above, .mk l cs⟩, List.mem_cons_self, habove, hmem⟩
        · exact ⟨p, List.mem_cons_of_mem _ hp, hchild⟩

theorem exists_parent_of_mem_spotsOf {above : List Node} : (ns : List Node) → s ∈ spotsOf above ns →
    (s.above = above ∧ s.node ∈ ns) ∨
      ∃ p ∈ spotsOf above ns, s.above = p.node :: p.above ∧ s.node ∈ p.node.children
  | [], h => by simp [spotsOf] at h
  | n :: ns, h => by
      rw [spotsOf, List.mem_append] at h
      rcases h with h | h
      · rcases exists_parent_of_mem_spots n h with rfl | ⟨p, hp, hchild⟩
        · exact .inl ⟨rfl, List.mem_cons_self⟩
        · exact .inr ⟨p, List.mem_append_left _ hp, hchild⟩
      · rcases exists_parent_of_mem_spotsOf ns h with ⟨habove, hmem⟩ | ⟨p, hp, hchild⟩
        · exact .inl ⟨habove, List.mem_cons_of_mem _ hmem⟩
        · exact .inr ⟨p, List.mem_append_right _ hp, hchild⟩

end

variable {above : List Node}

/-- In a numbered tree a number stands for one spot. -/
theorem eq_of_id_eq {t : Node} (ht : t.Numbered) (h : s ∈ spots above t) (h' : s' ∈ spots above t)
    (hid : s.node.id = s'.node.id) : s = s' := by
  rw [Node.Numbered, ← map_node_spots above t, List.map_map] at ht
  exact List.inj_on_of_nodup_map ht h h' hid

/-- What lies below the node of a spot has a spot below it. -/
theorem exists_spot_below {t n : Node} (h : s ∈ spots above t) (hn : n ∈ s.node.inside) :
    ∃ s' ∈ spots above t, s'.node = n ∧ s.node :: s.above <:+ s'.above := by
  rw [Node.inside, ← map_node_spotsOf (s.node :: s.above)] at hn
  obtain ⟨s', hs', rfl⟩ := List.mem_map.1 hn
  refine ⟨s', mem_spots_trans t h ?_, rfl, suffix_of_mem_spotsOf _ hs'⟩
  cases hnode : s.node with
  | mk l cs =>
      rw [hnode] at hs'
      exact List.mem_cons_of_mem _ hs'

/-- In a numbered tree what lies below a node has it above. -/
theorem suffix_of_mem_inside {t : Node} (ht : t.Numbered) (h : s ∈ spots above t)
    (h' : s' ∈ spots above t) (hn : s'.node ∈ s.node.inside) : s.node :: s.above <:+ s'.above := by
  obtain ⟨s'', hs'', hnode, hsuffix⟩ := exists_spot_below h hn
  rwa [eq_of_id_eq ht h' hs'' (by rw [hnode])]

end Cvar

end Upkeep
