import Mathlib.Data.List.Flatten
import Mathlib.Data.List.Nodup
import SeqAsm.Proofs.CallGraph.Search

/-!
Components of call graphs.

The components that are complete when the search has ended hold every node, each the nodes that
lead to one another, and lead to no component completed later. Read from the first completed on,
they come callees first.
-/

namespace SeqAsm.CallGraph

variable {g : CallGraph} {u v : Int}

/-! ### What components are -/

namespace WellFormed

lemma exists_component (wf : g.WellFormed) (hv : v ∈ g.ids) : ∃ c ∈ g.components, v ∈ c := by
  obtain ⟨found, eq, -, nodes⟩ := wf.complete_components
  obtain ⟨c, hc, hvc⟩ := List.mem_flatten.1 ((nodes v).2 hv)
  rw [eq]
  exact ⟨c, List.mem_reverse.2 hc, hvc⟩

lemma mem_component (wf : g.WellFormed) {c : List Int} (hc : c ∈ g.components) (hu : u ∈ c) :
    u ∈ g.ids ∧ c.Nodup ∧ ∀ x, x ∈ c ↔ Together g.callees u x := by
  obtain ⟨found, eq, complete, nodes⟩ := wf.complete_components
  rw [eq, List.mem_reverse] at hc
  exact ⟨(nodes u).1 (List.mem_flatten.2 ⟨c, hc, hu⟩), complete.nodup hc,
    fun x => complete.mem_iff hc hu⟩

lemma component_ne_nil (wf : g.WellFormed) {c : List Int} (hc : c ∈ g.components) : c ≠ [] := by
  obtain ⟨found, eq, complete, -⟩ := wf.complete_components
  rw [eq, List.mem_reverse] at hc
  exact complete.ne_nil hc

lemma apart_components (wf : g.WellFormed) :
    g.components.Pairwise fun c d => ∀ u ∈ c, ∀ v ∈ d, ¬ Leads g.callees u v := by
  obtain ⟨found, eq, complete, -⟩ := wf.complete_components
  rw [eq, List.pairwise_reverse]
  exact complete.apart

/-- Two nodes are in one component when each leads to the other. -/
lemma same_component_iff (wf : g.WellFormed) (hu : u ∈ g.ids) :
    (∃ c ∈ g.components, u ∈ c ∧ v ∈ c) ↔ Together g.callees u v := by
  constructor
  · rintro ⟨c, hc, huc, hvc⟩
    exact ((wf.mem_component hc huc).2.2 v).1 hvc
  · intro together
    obtain ⟨c, hc, huc⟩ := wf.exists_component hu
    exact ⟨c, hc, huc, ((wf.mem_component hc huc).2.2 v).2 together⟩

/-- A component is on a cycle of calls when calls lead from each of its nodes back to it. -/
lemma isCycle_iff (wf : g.WellFormed) {c : List Int} (hc : c ∈ g.components) (hu : u ∈ c) :
    g.isCycle c = true ↔ Relation.TransGen (fun u v => v ∈ g.callees u) u u := by
  obtain ⟨-, nodup, mem⟩ := wf.mem_component hc hu
  rcases c with _ | ⟨v, _ | ⟨w, rest⟩⟩
  · cases hu
  · obtain rfl := List.mem_singleton.1 hu
    rw [isCycle, callsItself, List.contains_iff_mem]
    refine ⟨fun call => .single call, fun back => ?_⟩
    -- the first call of a way back stays in the component, which has no other node
    obtain ⟨w, call, way⟩ := Relation.TransGen.head'_iff.1 back
    obtain rfl := List.mem_singleton.1 ((mem w).2 ⟨.single call, way⟩)
    exact call
  · refine iff_of_true rfl ?_
    obtain ⟨x, hx, ne⟩ : ∃ x ∈ v :: w :: rest, x ≠ u := by
      by_cases hv : v = u
      · refine ⟨w, by simp, fun hw => (List.nodup_cons.1 nodup).1 ?_⟩
        rw [hv, ← hw]
        exact List.mem_cons_self
      · exact ⟨v, List.mem_cons_self, hv⟩
    obtain ⟨out, back⟩ := (mem x).1 hx
    have away := (Relation.reflTransGen_iff_eq_or_transGen.1 out).resolve_left ne
    exact away.trans_left back

lemma perm_bottomUpOrder (wf : g.WellFormed) : g.bottomUpOrder.Perm g.ids := by
  refine (List.perm_ext_iff_of_nodup ?_ wf.nodup).2 fun x => ?_
  · refine List.nodup_flatten.2 ⟨fun c hc => ?_, wf.apart_components.imp fun h u hu hv => ?_⟩
    · rcases c with _ | ⟨u, c⟩
      · exact .nil
      · exact (wf.mem_component hc List.mem_cons_self).2.1
    · exact h u hu u hv .refl
  · rw [bottomUpOrder, List.mem_flatten]
    exact ⟨fun ⟨_, hc, hx⟩ => (wf.mem_component hc hx).1, wf.exists_component⟩

end WellFormed

/-- Of two members of a list that are not the same, one stands before the other. -/
lemma sublist_or_sublist {α : Type} {l : List α} {a b : α} (ha : a ∈ l) (hb : b ∈ l)
    (ne : a ≠ b) : [a, b].Sublist l ∨ [b, a].Sublist l := by
  induction l with
  | nil => cases ha
  | cons x l ih =>
    rcases List.mem_cons.1 ha with hax | ha'
    · have hb' := (List.mem_cons.1 hb).resolve_left (hax ▸ ne.symm)
      exact .inl (hax ▸ (List.singleton_sublist.2 hb').cons_cons a)
    rcases List.mem_cons.1 hb with hbx | hb'
    · exact .inr (hbx ▸ (List.singleton_sublist.2 ha').cons_cons b)
    · exact (ih ha' hb').imp (·.cons x) (·.cons x)

/-- The component of a callee comes before that of its caller, if it is another one. -/
lemma WellFormed.callee_first (wf : g.WellFormed) {c d : List Int} (hc : c ∈ g.components)
    (hd : d ∈ g.components) (ne : c ≠ d) (hu : u ∈ c) (hv : v ∈ d) (call : v ∈ g.callees u) :
    [d, c].Sublist g.components := by
  refine (sublist_or_sublist hc hd ne).resolve_left fun before => ?_
  have apart := List.pairwise_iff_forall_sublist.1 wf.apart_components before
  exact apart u hu v hv (.single call)

/-- **Components are strongly connected and come callees first.** Whatever has been added to a
graph, every node is in one component and once in it; two nodes are in the same component when
calls lead from each to the other; and where a program calls one of another component, that
component comes first. So the nodes, component by component, are all nodes of the graph, and a
callee stands before its caller unless they are in one component. -/
theorem components_spec (built : Built g) :
    (g.components.flatten.Perm g.ids ∧ g.ids.Nodup) ∧
      (∀ u ∈ g.ids, ∀ v ∈ g.ids, (∃ c ∈ g.components, u ∈ c ∧ v ∈ c) ↔ Together g.callees u v) ∧
      (∀ e ∈ g.edges, ∀ c ∈ g.components, ∀ d ∈ g.components, e.caller ∈ c → e.callee ∈ d →
        c ≠ d → [d, c].Sublist g.components) ∧
      g.bottomUpOrder.Perm g.ids ∧
      ∀ e ∈ g.edges, (¬ ∃ c ∈ g.components, e.caller ∈ c ∧ e.callee ∈ c) →
        [e.callee, e.caller].Sublist g.bottomUpOrder := by
  have wf := built.wellFormed
  have called {e : Edge} (he : e ∈ g.edges) : e.callee ∈ g.callees e.caller :=
    mem_callees.2 ⟨e, he, rfl, rfl⟩
  refine ⟨⟨wf.perm_bottomUpOrder, wf.nodup⟩, fun u hu v _ => wf.same_component_iff hu,
    fun e he c hc d hd hu hv ne => wf.callee_first hc hd ne hu hv (called he),
    wf.perm_bottomUpOrder, fun e he other => ?_⟩
  obtain ⟨c, hc, hu⟩ := wf.exists_component (wf.caller he)
  obtain ⟨d, hd, hv⟩ := wf.exists_component (wf.callee he)
  have ne : c ≠ d := fun same => other ⟨c, hc, hu, same ▸ hv⟩
  have order := (wf.callee_first hc hd ne hu hv (called he)).flatten
  have pair : [e.callee, e.caller].Sublist (d ++ c) :=
    (List.singleton_sublist.2 hv).append (List.singleton_sublist.2 hu)
  refine List.Sublist.trans ?_ order
  simpa using pair

/-- Two roots, a pair of programs that call each other, and one that calls itself. -/
def knot : CallGraph :=
  let nodes := [1, 2, 3, 4].foldl (fun g id => g.addNode id .program none) ({} : CallGraph)
  [⟨1, 2, "seq", 1⟩, ⟨2, 3, "seq", 1⟩, ⟨3, 2, "cal", 2⟩, ⟨4, 4, "seq", 1⟩,
    ⟨4, 1, "seq", 2⟩].foldl addEdge nodes

theorem components_spec_knot : knot.components = [[3, 2], [1], [4]] ∧ Together knot.callees 3 2 ∧
    [[3, 2], [1]].Sublist knot.components ∧ [1, 4].Sublist knot.bottomUpOrder := by
  have built : Built knot := by
    have nodes := (((Built.empty.addNode 1 .program none).addNode 2 .program none).addNode 3
      .program none).addNode 4 .program none
    have calls := ((nodes.addEdge ⟨1, 2, "seq", 1⟩ (by decide) (by decide)).addEdge
      ⟨2, 3, "seq", 1⟩ (by decide) (by decide)).addEdge ⟨3, 2, "cal", 2⟩ (by decide) (by decide)
    exact (calls.addEdge ⟨4, 4, "seq", 1⟩ (by decide) (by decide)).addEdge ⟨4, 1, "seq", 2⟩
      (by decide) (by decide)
  have shape : knot.components = [[3, 2], [1], [4]] := by decide
  obtain ⟨-, same, first, -, order⟩ := components_spec built
  refine ⟨shape, (same 3 (by decide) 2 (by decide)).1 ⟨[3, 2], by decide⟩, ?_, ?_⟩
  · exact first ⟨1, 2, "seq", 1⟩ (by decide) [1] (by decide) [3, 2] (by decide) (by decide)
      (by decide) (by decide)
  · exact order ⟨4, 1, "seq", 2⟩ (by decide) (by rw [shape]; decide)

end SeqAsm.CallGraph
