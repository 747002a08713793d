import AudioScore.Proofs.Score.References
import Mathlib.Data.List.Nodup

/-!
# Edges at their nodes

Listing the edges that leave each node, node by node, lists an edge once for every node that has
the id of its source. In a graph that passes the check of references there is exactly one such
node, so the edges are shared out among the nodes. The same holds of the edges that enter them.

* `Graph.count_flatMap_edgesAt`: how often an edge is listed, in any graph.
* `Graph.SoundReferences.node?_eq_some_iff`: which node is found under an id.
* `Graph.edges_shared_out`: the edges of a graph that passes the check.
-/

namespace AudioScore

namespace Graph

/-! ## Listing edges -/

/-- The edges that have one of their ends, `endOf`, at a node. With their sources they are those of
`edgesFrom`, and with their targets those of `edgesTo`. -/
def edgesAt (g : Graph) (endOf : Edge → String) (id : String) : List Edge :=
  g.edges.filter fun e => endOf e == id

variable {g : Graph} {endOf : Edge → String} {e : Edge} {id : String}

theorem mem_edgesAt : e ∈ g.edgesAt endOf id ↔ e ∈ g.edges ∧ endOf e = id := by
  rw [edgesAt, List.mem_filter, beq_iff_eq]

theorem edgesAt_sublist (g : Graph) (endOf : Edge → String) (id : String) :
    (g.edgesAt endOf id).Sublist g.edges := List.filter_sublist

theorem count_edgesAt (g : Graph) (endOf : Edge → String) (id : String) (e : Edge) :
    (g.edgesAt endOf id).count e = if id = endOf e then g.edges.count e else 0 := by
  split
  · rename_i h
    exact List.count_filter (beq_iff_eq.mpr h.symm)
  · rename_i h
    exact List.count_eq_zero.mpr fun he => h (mem_edgesAt.mp he).2.symm

/-- Node by node, an edge is listed as often as it stands in the graph, for every node that has the
id of its end. -/
theorem count_flatMap_edgesAt (g : Graph) (endOf : Edge → String) (e : Edge) :
    (g.nodes.flatMap fun n => g.edgesAt endOf n.id).count e
      = (g.nodes.map Node.id).count (endOf e) * g.edges.count e := by
  induction g.nodes with
  | nil => rw [List.flatMap_nil, List.map_nil, List.count_nil, List.count_nil, Nat.zero_mul]
  | cons n ns ih =>
    rw [List.flatMap_cons, List.count_append, ih, count_edgesAt, List.map_cons, List.count_cons,
      Nat.add_mul, Nat.add_comm]
    by_cases h : n.id = endOf e
    · rw [if_pos h, if_pos (beq_iff_eq.mpr h), Nat.one_mul]
    · rw [if_neg h, if_neg (mt beq_iff_eq.mp h), Nat.zero_mul]

/-! ## Sound references -/

theorem mem_of_node? {n : Node} (h : g.node? id = some n) : n ∈ g.nodes ∧ n.id = id := by
  have hid : (n.id == id) = true := List.find?_some (p := fun n : Node => n.id == id) h
  exact ⟨List.mem_of_find?_eq_some h, beq_iff_eq.mp hid⟩

namespace SoundReferences

/-- Under an id there is found the one node that has it. -/
theorem node?_eq_some_iff (h : g.SoundReferences) {n : Node} :
    g.node? id = some n ↔ n ∈ g.nodes ∧ n.id = id := by
  refine ⟨mem_of_node?, ?_⟩
  rintro ⟨hn, rfl⟩
  obtain ⟨m, hm⟩ : ∃ m, g.node? n.id = some m :=
    Option.isSome_iff_exists.mp (List.find?_isSome.mpr ⟨n, hn, beq_self_eq_true n.id⟩)
  obtain ⟨hmem, hid⟩ := mem_of_node? hm
  rw [hm, List.inj_on_of_nodup_map h.nodup hmem hn hid]

/-! ### One end of all edges -/

variable (h : g.SoundReferences) (hend : ∀ e ∈ g.edges, endOf e ∈ g.nodes.map Node.id)
include h hend

theorem exists_node? (he : e ∈ g.edges) :
    ∃ n ∈ g.nodes, n.id = endOf e ∧ g.node? (endOf e) = some n := by
  obtain ⟨n, hn, hid⟩ := List.mem_map.mp (hend e he)
  exact ⟨n, hn, hid, h.node?_eq_some_iff.mpr ⟨hn, hid⟩⟩

theorem count_flatMap_edgesAt_eq (e : Edge) :
    (g.nodes.flatMap fun n => g.edgesAt endOf n.id).count e = g.edges.count e := by
  rw [count_flatMap_edgesAt]
  by_cases he : e ∈ g.edges
  · rw [List.count_eq_one_of_mem h.nodup (hend e he), Nat.one_mul]
  · rw [List.count_eq_zero_of_not_mem he, Nat.mul_zero]

theorem existsUnique_edgesAt (he : e ∈ g.edges) :
    ∃! n, n ∈ g.nodes ∧ e ∈ g.edgesAt endOf n.id := by
  obtain ⟨n, hn, hid⟩ := List.mem_map.mp (hend e he)
  refine ⟨n, ⟨hn, mem_edgesAt.mpr ⟨he, hid.symm⟩⟩, ?_⟩
  rintro m ⟨hm, hme⟩
  exact List.inj_on_of_nodup_map h.nodup hm hn ((mem_edgesAt.mp hme).2.symm.trans hid.symm)

end SoundReferences

/-- In a graph that passes the check of references every node is found under its id, and a node is
found at either end of every edge. The edges that leave the nodes, listed node by node, are the
edges of the graph, each as often as it stands there, and so are the edges that enter the nodes.
Every single list keeps the order of the edges. So an edge leaves exactly one node and enters
exactly one. -/
theorem edges_shared_out {g : Graph} (h : g.checkReferences.result = .ok ()) :
    (∀ n ∈ g.nodes, g.node? n.id = some n) ∧
    (∀ e ∈ g.edges, (∃ n ∈ g.nodes, n.id = e.source ∧ g.node? e.source = some n) ∧
      ∃ n ∈ g.nodes, n.id = e.target ∧ g.node? e.target = some n) ∧
    (∀ e, (g.nodes.flatMap fun n => g.edgesFrom n.id).count e = g.edges.count e ∧
      (g.nodes.flatMap fun n => g.edgesTo n.id).count e = g.edges.count e) ∧
    (∀ id, (g.edgesFrom id).Sublist g.edges ∧ (g.edgesTo id).Sublist g.edges) ∧
    ∀ e ∈ g.edges, (∃! n, n ∈ g.nodes ∧ e ∈ g.edgesFrom n.id) ∧
      ∃! n, n ∈ g.nodes ∧ e ∈ g.edgesTo n.id := by
  have hsound : g.SoundReferences := checkReferences_eq_ok_iff.mp h
  refine ⟨fun n hn => hsound.node?_eq_some_iff.mpr ⟨hn, rfl⟩, fun e he => ?_, fun e => ?_,
    fun id => ⟨g.edgesAt_sublist _ id, g.edgesAt_sublist _ id⟩, fun e he => ?_⟩
  · exact ⟨hsound.exists_node? hsound.source_mem he, hsound.exists_node? hsound.target_mem he⟩
  · exact ⟨hsound.count_flatMap_edgesAt_eq hsound.source_mem e,
      hsound.count_flatMap_edgesAt_eq hsound.target_mem e⟩
  · exact ⟨hsound.existsUnique_edgesAt hsound.source_mem he,
      hsound.existsUnique_edgesAt hsound.target_mem he⟩

/-- Two nodes, with an edge that stands twice and one that leads from a node to itself. -/
def feedback : Graph :=
  ⟨"g", none, [.new "a" "gain", .new "b" "delay"],
    [.new "e" "a" "b", .new "f" "b" "b", .new "e" "a" "b"], []⟩

theorem edges_shared_out_feedback :
    feedback.checkReferences.result = .ok () ∧
      feedback.node? "b" = some (.new "b" "delay") ∧
      (feedback.nodes.flatMap fun n => feedback.edgesTo n.id).count (.new "e" "a" "b") = 2 ∧
      ∃! n, n ∈ feedback.nodes ∧ Edge.new "f" "b" "b" ∈ feedback.edgesFrom n.id := by
  have h : feedback.checkReferences.result = .ok () := rfl
  obtain ⟨hnode, -, hcount, -, hunique⟩ := edges_shared_out h
  exact ⟨h, hnode _ (List.mem_cons_of_mem _ (List.mem_cons_self ..)), (hcount _).2.trans (by decide),
    (hunique _ (by decide)).1⟩

end Graph

end AudioScore
