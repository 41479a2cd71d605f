import SeqAsm.Proofs.CallGraph.Components
import SeqAsm.Proofs.CallGraph.Reached

/-!
Closures, recursion and recursive groups.

Closures forwards and backwards, the question whether a program is recursive, and the components
on a cycle are computed in ways of their own, from the edges that leave a node or from those that
enter it. All of them can be read off the chains of call sites, and so they agree.
-/

namespace SeqAsm.CallGraph

variable {g : CallGraph} {u x : Int}

/-- One or more call sites lead from a program to another, each from where the one before it
ends. -/
def Chain (g : CallGraph) : Int → Int → Prop :=
  Relation.TransGen fun u v => ∃ e ∈ g.edges, e.caller = u ∧ e.callee = v

lemma chain_iff : g.Chain u x ↔ Relation.TransGen (fun u v => v ∈ g.callees u) u x := by
  have same : (fun u v => v ∈ g.callees u) =
      fun u v => ∃ e ∈ g.edges, e.caller = u ∧ e.callee = v := by
    ext u v
    exact mem_callees
  rw [same]
  rfl

namespace WellFormed

lemma mem_transitiveCallees_iff (wf : g.WellFormed) (hu : u ∈ g.ids) :
    x ∈ g.transitiveCallees u ↔ x ≠ u ∧ g.Chain u x := by
  rw [wf.mem_transitiveCallees hu, chain_iff, and_comm]

lemma mem_transitiveCallers_iff (wf : g.WellFormed) (hu : u ∈ g.ids) :
    x ∈ g.transitiveCallers u ↔ x ≠ u ∧ g.Chain x u := by
  rw [wf.mem_transitiveCallers hu, chain_iff, and_comm]

lemma isRecursive_iff (wf : g.WellFormed) (hu : u ∈ g.ids) :
    g.isRecursive u = true ↔ g.Chain u u := by
  have callee {v : Int} (hv : v ∈ g.callees u) :
      (v == u || (g.transitiveCallees v).contains u) = true ↔ Leads g.callees v u := by
    have inside : v ∈ g.ids := wf.callees_sub u hu hv
    have leads : Leads g.callees v u ↔
        u = v ∨ Relation.TransGen (fun u v => v ∈ g.callees u) v u :=
      Relation.reflTransGen_iff_eq_or_transGen
    rw [Bool.or_eq_true, beq_iff_eq, List.contains_iff_mem, wf.mem_transitiveCallees inside, leads]
    constructor
    · exact Or.imp Eq.symm And.left
    · rintro (same | path)
      · exact .inl same.symm
      · exact or_iff_not_imp_left.2 fun other => ⟨path, Ne.symm other⟩
  rw [chain_iff, Relation.TransGen.head'_iff, isRecursive, List.any_eq_true]
  constructor
  · rintro ⟨v, hv, back⟩
    exact ⟨v, hv, (callee hv).1 back⟩
  · rintro ⟨v, hv, back⟩
    exact ⟨v, hv, (callee hv).2 back⟩

lemma mem_recursiveGroups_iff (wf : g.WellFormed) {c : List Int} (hu : u ∈ c) :
    c ∈ g.recursiveGroups ↔ c ∈ g.components ∧ g.Chain u u := by
  rw [recursiveGroups, List.mem_filter, chain_iff]
  exact and_congr_right fun hc => wf.isCycle_iff hc hu

/-- No two components share a node, wherever they stand among the components. -/
lemma countP_components_le (wf : g.WellFormed) (u : Int) :
    g.components.countP (·.contains u) ≤ 1 := by
  rw [List.countP_eq_length_filter]
  have apart := wf.apart_components.filter fun c => c.contains u
  rcases split : g.components.filter (·.contains u) with _ | ⟨c, _ | ⟨d, rest⟩⟩ <;> rw [split]
  · exact Nat.zero_le 1
  · exact le_rfl
  · -- both of the first two components hold the node, which leads to itself
    have holds : ∀ c' ∈ g.components.filter (·.contains u), u ∈ c' := fun c' hc' =>
      List.contains_iff_mem.1 (List.mem_filter.1 hc').2
    rw [split] at apart holds
    have first : u ∈ c := holds c List.mem_cons_self
    have second : u ∈ d := holds d (List.mem_cons_of_mem c List.mem_cons_self)
    have none := (List.pairwise_cons.1 apart).1 d List.mem_cons_self u first u second
    exact absurd .refl none

/-- A program is in one recursive group if it is recursive, and in none if it is not. -/
lemma countP_recursiveGroups (wf : g.WellFormed) (hu : u ∈ g.ids) :
    g.recursiveGroups.countP (·.contains u) = if g.isRecursive u then 1 else 0 := by
  split
  · rename_i recursive
    obtain ⟨c, hc, huc⟩ := wf.exists_component hu
    have group : c ∈ g.recursiveGroups :=
      (wf.mem_recursiveGroups_iff huc).2 ⟨hc, (wf.isRecursive_iff hu).1 recursive⟩
    have some : 0 < g.recursiveGroups.countP (·.contains u) :=
      List.countP_pos_iff.2 ⟨c, group, List.contains_iff_mem.2 huc⟩
    have few : g.recursiveGroups.countP (·.contains u) ≤ g.components.countP (·.contains u) :=
      List.filter_sublist.countP_le
    have one := wf.countP_components_le u
    omega
  · rename_i straight
    refine List.countP_eq_zero.2 fun c hc holds => straight ((wf.isRecursive_iff hu).2 ?_)
    exact ((wf.mem_recursiveGroups_iff (List.contains_iff_mem.1 holds)).1 hc).2

end WellFormed

/-- **Closures and recursion agree.** Whatever has been added to a graph, its two lists of edges for
each node are those that result when every edge is put behind those that leave its caller and behind
those that enter its callee. A node is among the transitive callees of another one exactly when a
chain of call sites leads to it from there, and exactly when the other is among its transitive
callers. A node is recursive exactly when a chain leads from it back to it, and then it is in one of
the recursive groups and no more; otherwise it is in none. -/
theorem closures_agree (built : Built g) :
    g.edges.foldl Wiring.add .empty = ⟨g.outEdges, g.inEdges⟩ ∧
      (∀ n ∈ g.ids, ∀ m ∈ g.ids, (m ∈ g.transitiveCallees n ↔ m ≠ n ∧ g.Chain n m) ∧
        (m ∈ g.transitiveCallees n ↔ n ∈ g.transitiveCallers m)) ∧
      ∀ n ∈ g.ids, (g.isRecursive n = true ↔ g.Chain n n) ∧
        (g.isRecursive n = true ↔ ∃ c ∈ g.recursiveGroups, n ∈ c) ∧
        g.recursiveGroups.countP (·.contains n) = if g.isRecursive n then 1 else 0 := by
  have wf := built.wellFormed
  refine ⟨?_, fun n hn m hm => ⟨wf.mem_transitiveCallees_iff hn, ?_⟩, fun n hn =>
    ⟨wf.isRecursive_iff hn, ?_, wf.countP_recursiveGroups hn⟩⟩
  · rw [Wiring.foldl_add]
    rfl
  · calc m ∈ g.transitiveCallees n
      _ ↔ m ≠ n ∧ g.Chain n m := wf.mem_transitiveCallees_iff hn
      _ ↔ n ≠ m ∧ g.Chain n m := and_congr_left' ne_comm
      _ ↔ n ∈ g.transitiveCallers m := (wf.mem_transitiveCallers_iff hm).symm
  · constructor
    · intro recursive
      obtain ⟨c, hc, hnc⟩ := wf.exists_component hn
      have cycle := (wf.isRecursive_iff hn).1 recursive
      exact ⟨c, (wf.mem_recursiveGroups_iff hnc).2 ⟨hc, cycle⟩, hnc⟩
    · rintro ⟨c, hc, hnc⟩
      exact (wf.isRecursive_iff hn).2 ((wf.mem_recursiveGroups_iff hnc).1 hc).2

/-- Two programs that call each other, one of which calls itself twice, and a program that calls the
other one. -/
def ring : CallGraph :=
  let nodes := [3, 1, 2].foldl (fun g id => g.addNode id .program none) ({} : CallGraph)
  [⟨1, 2, "seq", 1⟩, ⟨2, 2, "cal", 1⟩, ⟨2, 1, "seq", 2⟩, ⟨2, 2, "seq", 3⟩,
    ⟨3, 1, "seq", 1⟩].foldl addEdge nodes

theorem closures_agree_ring : 2 ∈ ring.transitiveCallees 3 ∧ 3 ∈ ring.transitiveCallers 2 ∧
    2 ∉ ring.transitiveCallees 2 ∧ ring.Chain 2 2 ∧ ¬ ring.Chain 3 3 ∧
    ring.recursiveGroups.countP (·.contains 2) = 1 := by
  have built : Built ring := by
    have nodes := ((Built.empty.addNode 3 .program none).addNode 1 .program none).addNode 2
      .program none
    have calls := ((nodes.addEdge ⟨1, 2, "seq", 1⟩ (by decide) (by decide)).addEdge
      ⟨2, 2, "cal", 1⟩ (by decide) (by decide)).addEdge ⟨2, 1, "seq", 2⟩ (by decide) (by decide)
    exact (calls.addEdge ⟨2, 2, "seq", 3⟩ (by decide) (by decide)).addEdge ⟨3, 1, "seq", 1⟩
      (by decide) (by decide)
  obtain ⟨-, closures, recursion⟩ := closures_agree built
  have callee : 2 ∈ ring.transitiveCallees 3 := by decide
  have two := recursion 2 (by decide)
  have three := recursion 3 (by decide)
  refine ⟨callee, (closures 3 (by decide) 2 (by decide)).2.1 callee, fun self => ?_,
    two.1.1 (by decide), fun back => absurd (three.1.2 back) (by decide), two.2.2⟩
  exact ((closures 2 (by decide) 2 (by decide)).1.1 self).1 rfl

end SeqAsm.CallGraph
