import SeqAsm.Proofs.CallGraph.Closure

/-!
Call graphs as they are built.

Whatever is added to a call graph, and in whatever order, no id has two nodes and every edge joins
nodes of the graph. So calls lead from nodes to nodes, forwards and backwards, and closures hold
all that calls lead to.
-/

namespace SeqAsm.CallGraph

/-- The call graphs that nodes, edges and programs build up. An edge may be added between nodes
that are there; a program brings the nodes that it calls with it. -/
inductive Built : CallGraph → Prop
  | empty : Built {}
  | addNode {g : CallGraph} (id : Int) (kind : NodeKind) (program : Option Program) :
      Built g → Built (g.addNode id kind program)
  | addEdge {g : CallGraph} (e : Edge) :
      Built g → e.caller ∈ g.ids → e.callee ∈ g.ids → Built (g.addEdge e)
  | addProgram {g : CallGraph} (id : Int) (p : Program) :
      Built g → Built (g.addProgram id p).1

/-- Ids are unique and edges join nodes. -/
structure WellFormed (g : CallGraph) : Prop where
  nodup : g.ids.Nodup
  caller {e : Edge} : e ∈ g.edges → e.caller ∈ g.ids
  callee {e : Edge} : e ∈ g.edges → e.callee ∈ g.ids

variable {g : CallGraph} {u v x : Int}

/-! ### What is added -/

lemma contains_iff : g.contains x = true ↔ x ∈ g.ids := by
  simp [contains, ids]

lemma ids_addNode (id : Int) (kind : NodeKind) (program : Option Program) :
    (g.addNode id kind program).ids = if id ∈ g.ids then g.ids else g.ids ++ [id] := by
  unfold addNode
  by_cases h : id ∈ g.ids
  · rw [if_pos (contains_iff.2 h), if_pos h]
    rcases program with _ | p
    · rfl
    · simp only [ids, List.map_map]
      refine List.map_congr_left fun n _ => ?_
      simp only [Function.comp]
      split
      · rfl
      · rfl
  · rw [if_neg (mt contains_iff.1 h), if_neg h]
    simp [ids]

lemma edges_addNode (id : Int) (kind : NodeKind) (program : Option Program) :
    (g.addNode id kind program).edges = g.edges := by
  unfold addNode
  split
  · split
    · rfl
    · rfl
  · rfl

lemma mem_ids_addNode {id : Int} {kind : NodeKind} {program : Option Program} :
    x ∈ (g.addNode id kind program).ids ↔ x ∈ g.ids ∨ x = id := by
  rw [ids_addNode]
  split
  · exact (or_iff_left_of_imp fun h => by rwa [h]).symm
  · simp

namespace WellFormed

lemma addNode (wf : g.WellFormed) (id : Int) (kind : NodeKind) (program : Option Program) :
    (g.addNode id kind program).WellFormed := by
  refine ⟨?_, fun {e} he => ?_, fun {e} he => ?_⟩
  · rw [ids_addNode]
    split
    · exact wf.nodup
    · rename_i fresh
      exact List.nodup_append.2 ⟨wf.nodup, List.nodup_singleton id, fun x hx y hy => by
        obtain rfl := List.mem_singleton.1 hy
        exact fun h => fresh (h ▸ hx)⟩
  · rw [edges_addNode] at he
    exact mem_ids_addNode.2 (.inl (wf.caller he))
  · rw [edges_addNode] at he
    exact mem_ids_addNode.2 (.inl (wf.callee he))

lemma addEdge (wf : g.WellFormed) {e : Edge} (caller : e.caller ∈ g.ids)
    (callee : e.callee ∈ g.ids) : (g.addEdge e).WellFormed := by
  refine ⟨wf.nodup, fun {e'} he => ?_, fun {e'} he => ?_⟩
  · rcases List.mem_append.1 he with he | he
    · exact wf.caller he
    · obtain rfl := List.mem_singleton.1 he
      exact caller
  · rcases List.mem_append.1 he with he | he
    · exact wf.callee he
    · obtain rfl := List.mem_singleton.1 he
      exact callee

lemma addCalls (wf : g.WellFormed) {id : Int} (hid : id ∈ g.ids) (sites : List CallSite) :
    (sites.foldl (·.addCall id) g).WellFormed := by
  induction sites generalizing g with
  | nil => exact wf
  | cons s sites ih =>
    have called := wf.addNode s.callee .missing none
    have caller : id ∈ (g.addNode s.callee .missing none).ids := mem_ids_addNode.2 (.inl hid)
    have callee : s.callee ∈ (g.addNode s.callee .missing none).ids := mem_ids_addNode.2 (.inr rfl)
    exact ih (called.addEdge caller callee) caller

lemma addProgram (wf : g.WellFormed) (id : Int) (p : Program) : (g.addProgram id p).1.WellFormed :=
  (wf.addNode id .program (some p)).addCalls (mem_ids_addNode.2 (.inr rfl)) _

end WellFormed

/-- **Call graphs are well-formed.** -/
theorem Built.wellFormed (built : Built g) : g.WellFormed := by
  induction built with
  | empty => exact ⟨.nil, nofun, nofun⟩
  | addNode id kind program _ ih => exact ih.addNode id kind program
  | addEdge e _ caller callee ih => exact ih.addEdge caller callee
  | addProgram id p _ ih => exact ih.addProgram id p

/-! ### Calls -/

lemma mem_callees : v ∈ g.callees u ↔ ∃ e ∈ g.edges, e.caller = u ∧ e.callee = v := by
  simp [callees, outEdges, and_assoc]

lemma mem_callers : u ∈ g.callers v ↔ v ∈ g.callees u := by
  rw [mem_callees]
  simp only [callers, inEdges, List.mem_map, List.mem_filter, beq_iff_eq]
  exact exists_congr fun e =>
    ⟨fun ⟨⟨he, hv⟩, hu⟩ => ⟨he, hu, hv⟩, fun ⟨he, hu, hv⟩ => ⟨⟨he, hv⟩, hu⟩⟩

lemma callers_eq_swap :
    (fun u v => v ∈ g.callers u) = Function.swap fun u v => v ∈ g.callees u := by
  funext u v
  exact propext mem_callers

lemma WellFormed.callees_sub (wf : g.WellFormed) : ∀ u ∈ g.ids, g.callees u ⊆ g.ids := by
  intro u _ v hv
  obtain ⟨e, he, -, rfl⟩ := mem_callees.1 hv
  exact wf.callee he

lemma WellFormed.callers_sub (wf : g.WellFormed) : ∀ v ∈ g.ids, g.callers v ⊆ g.ids := by
  intro v _ u hu
  obtain ⟨e, he, rfl, -⟩ := mem_callees.1 (mem_callers.1 hu)
  exact wf.caller he

lemma WellFormed.mem_closure (wf : g.WellFormed) {next : Int → List Int}
    (inside : ∀ v ∈ g.ids, next v ⊆ g.ids) (hu : u ∈ g.ids) :
    x ∈ g.closure next u ↔ Relation.TransGen (fun u v => v ∈ next u) u x ∧ x ≠ u := by
  have cost := unseenCost_le wf.nodup [] next
  unfold closure
  dsimp only
  rw [List.mem_filter, mem_gather inside, bne_iff_ne, Relation.TransGen.head'_iff]
  · simp
  · exact fun w hw => inside u hu (List.mem_reverse.1 hw)
  · exact fun _ hv => absurd hv List.not_mem_nil
  · rw [List.length_reverse]
    omega

/-- **The transitive callees of a program** are the others that calls lead to from it. -/
theorem WellFormed.mem_transitiveCallees (wf : g.WellFormed) (hu : u ∈ g.ids) :
    x ∈ g.transitiveCallees u ↔ Relation.TransGen (fun u v => v ∈ g.callees u) u x ∧ x ≠ u :=
  wf.mem_closure wf.callees_sub hu

/-- **The transitive callers of a program** are the others from which calls lead to it. -/
theorem WellFormed.mem_transitiveCallers (wf : g.WellFormed) (hu : u ∈ g.ids) :
    x ∈ g.transitiveCallers u ↔ Relation.TransGen (fun u v => v ∈ g.callees u) x u ∧ x ≠ u := by
  rw [transitiveCallers, wf.mem_closure wf.callers_sub hu, callers_eq_swap,
    Relation.transGen_swap]

end SeqAsm.CallGraph
