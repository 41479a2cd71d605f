import SeqAsm.CallGraph.Crawl
import SeqAsm.Proofs.CallGraph.Built
import SeqAsm.Proofs.Dependency.Search
import SeqAsm.Proofs.Program.Calls

/-!
The call graph that a crawl finds.

Programs that wait in the queue, or that are called by one taken from it, may not have been looked
for yet; their nodes stand as if nothing were known of them. All else in the graph is as the loader
has it. So when the queue is empty, the graph holds what the programs at the start lead to, with
their programs and their calls. Fuel is enough, because each program that is found is new.
-/

namespace SeqAsm

open Resolver (Finder Links Calls Leads Within Loadable Covers)

namespace CallGraph

variable {g : CallGraph} {id u v x : Int} {n : Node} {p : Program} {sites : List CallSite}

/-! ### What is added -/

def nodeOf (id : Int) : Option Program → Node
  | none => ⟨id, .missing, none⟩
  | some p => ⟨id, .program, some p⟩

@[simp] lemma id_nodeOf (program : Option Program) : (nodeOf id program).id = id := by
  cases program <;> rfl

def callEdge (caller : Int) (s : CallSite) : Edge := ⟨caller, s.callee, s.opcode.word, s.line⟩

lemma mem_nodes_addMissing (h : n ∈ (g.addNode id .missing none).nodes) :
    n ∈ g.nodes ∨ n = nodeOf id none ∧ id ∉ g.ids := by
  unfold addNode at h
  split at h
  · exact .inl h
  · rename_i new
    rcases List.mem_append.1 h with h | h
    · exact .inl h
    · exact .inr ⟨List.mem_singleton.1 h, mt contains_iff.2 new⟩

/-- A program takes the node of its id, if nothing is known of that id yet. -/
lemma mem_nodes_addFound (vacant : ∀ m ∈ g.nodes, m.id = id → m = nodeOf id none)
    (h : n ∈ (g.addNode id .program (some p)).nodes) :
    n ∈ g.nodes ∧ n.id ≠ id ∨ n = nodeOf id (some p) := by
  unfold addNode at h
  split at h
  · obtain ⟨m, hm, rfl⟩ := List.mem_map.1 h
    by_cases hid : m.id = id
    · rw [vacant m hm hid]
      simp [nodeOf]
    · simp [hid, hm]
  · rename_i new
    rcases List.mem_append.1 h with h | h
    · refine .inl ⟨h, fun same => new (contains_iff.2 ?_)⟩
      exact List.mem_map.2 ⟨n, h, same⟩
    · exact .inr (List.mem_singleton.1 h)

lemma edges_addCalls (g : CallGraph) (sites : List CallSite) :
    (sites.foldl (·.addCall id) g).edges = g.edges ++ sites.map (callEdge id) := by
  induction sites generalizing g with
  | nil => simp
  | cons s sites ih =>
    rw [List.foldl_cons, ih, addCall, addEdge, edges_addNode, List.append_assoc]
    rfl

lemma mem_ids_addCalls : x ∈ (sites.foldl (·.addCall id) g).ids ↔
    x ∈ g.ids ∨ x ∈ sites.map (·.callee) := by
  induction sites generalizing g with
  | nil => simp
  | cons s sites ih =>
    rw [List.foldl_cons, ih, List.map_cons, List.mem_cons, ← or_assoc]
    exact or_congr_left mem_ids_addNode

lemma mem_nodes_addCalls (h : n ∈ (sites.foldl (·.addCall id) g).nodes) :
    n ∈ g.nodes ∨ n = nodeOf n.id none ∧ n.id ∉ g.ids := by
  induction sites generalizing g with
  | nil => exact .inl h
  | cons s sites ih =>
    rcases ih h with h | ⟨hn, new⟩
    · rcases mem_nodes_addMissing h with h | ⟨rfl, new⟩
      · exact .inl h
      · exact .inr ⟨by rw [id_nodeOf], by rwa [id_nodeOf]⟩
    · exact .inr ⟨hn, fun old => new (mem_ids_addNode.2 (.inl old))⟩

lemma outEdges_addCalls (u : Int) : (sites.foldl (·.addCall id) g).outEdges u =
    g.outEdges u ++ if u = id then sites.map (callEdge id) else [] := by
  rw [outEdges, edges_addCalls, List.filter_append]
  congr 1
  split
  · subst u
    exact List.filter_eq_self.2 fun e he => by
      obtain ⟨s, -, rfl⟩ := List.mem_map.1 he
      exact beq_self_eq_true id
  · rename_i other
    refine List.filter_eq_nil_iff.2 fun e he => ?_
    obtain ⟨s, -, rfl⟩ := List.mem_map.1 he
    exact fun h => other (beq_iff_eq.1 h).symm

/-! ### Crawling -/

section

variable (find : Finder)

/-- Looking for a program gives a clear answer: there is none, or it can be loaded. -/
def Answered (id : Int) : Prop := find id = .ok none ∨ Loadable find id

/-- The program that is found under an id, as the program with that id. -/
def programAt (id : Int) : Option Program :=
  match find id with
  | .ok p => p.map (·.withId (some id))
  | .error _ => none

def callEdges (id : Int) : List Edge :=
  match programAt find id with
  | none => []
  | some p => (Block.leadingCalls p.nodes).1.map (callEdge id)

/-- A graph that holds what some programs lead to, as the loader has it. -/
structure Exact (top : List Int) (g : CallGraph) : Prop where
  wellFormed : g.WellFormed
  answered {x : Int} : Within find top x → Answered find x
  mem_ids {x : Int} : x ∈ g.ids ↔ Within find top x
  node {n : Node} : n ∈ g.nodes → n = nodeOf n.id (programAt find n.id)
  outEdges {u : Int} : u ∈ g.ids → g.outEdges u = callEdges find u

/-- What holds in a crawl when certain programs have been taken from the queue. -/
structure Crawled (top seen queue : List Int) (g : CallGraph) : Prop where
  wellFormed : g.WellFormed
  within {x : Int} : x ∈ seen ∨ x ∈ queue → Within find top x
  answered {x : Int} : x ∈ seen → Answered find x
  started {x : Int} : x ∈ top → x ∈ seen ∨ x ∈ queue
  waiting {u v : Int} : u ∈ seen → Calls find u v → v ∈ seen ∨ v ∈ queue
  mem_ids {x : Int} : x ∈ g.ids ↔ x ∈ seen ∨ ∃ u ∈ seen, Calls find u x
  node {n : Node} : n ∈ g.nodes →
    n = nodeOf n.id (if n.id ∈ seen then programAt find n.id else none)
  outEdges (u : Int) : g.outEdges u = if u ∈ seen then callEdges find u else []

end

variable {find : Finder} {top seen queue : List Int} {loader : Loader} {findings : List Finding}

lemma programAt_of_missing (h : find id = .ok none) : programAt find id = none := by
  rw [programAt, h]
  rfl

lemma programAt_of_found (h : find id = .ok (some p)) :
    programAt find id = some (p.withId (some id)) := by
  rw [programAt, h]
  rfl

/-- The calls of a program that can be loaded are those of its edges. -/
lemma mem_callEdges (h : Answered find u) :
    (∃ e ∈ callEdges find u, e.callee = v) ↔ Calls find u v := by
  rcases h with missing | ⟨ids, p, hp, hids⟩
  · rw [callEdges, programAt_of_missing missing]
    refine ⟨nofun, fun ⟨_, ⟨_, hp, _⟩, _⟩ => ?_⟩
    cases missing.symm.trans hp
  · obtain ⟨sites, hs, hc⟩ := Program.dependencies_eq_ok.1 hids
    have edges : callEdges find u = sites.map (callEdge u) := by
      rw [callEdges, programAt_of_found hp]
      dsimp only
      rw [Program.nodes_withId, hs]
    have calls : Calls find u v ↔ v ∈ sites.map (·.callee) := by
      have mem : v ∈ ids ↔ v ∈ sites.map (·.callee) := by rw [← hc, Ids.mem_ofList]
      rw [← mem]
      refine ⟨fun ⟨_, links, hv⟩ => ?_, fun hv => ⟨ids, ⟨p, hp, hids⟩, hv⟩⟩
      rwa [Links.unique links ⟨p, hp, hids⟩] at hv
    rw [edges, calls]
    simp [callEdge]

namespace Crawled

lemma start (top : List Int) : Crawled find top [] top {} where
  wellFormed := ⟨.nil, nofun, nofun⟩
  within h := Resolver.within_of_mem (h.resolve_left List.not_mem_nil)
  answered h := absurd h List.not_mem_nil
  started := .inr
  waiting h := absurd h List.not_mem_nil
  mem_ids := by simp [ids]
  node h := absurd h List.not_mem_nil
  outEdges u := by simp [CallGraph.outEdges]

lemma skip (h : Crawled find top seen (id :: queue) g) (known : id ∈ seen) :
    Crawled find top seen queue g := by
  have drop {x : Int} (hx : x ∈ seen ∨ x ∈ id :: queue) : x ∈ seen ∨ x ∈ queue := by
    rcases hx with hx | hx
    · exact .inl hx
    rcases List.mem_cons.1 hx with rfl | hx
    · exact .inl known
    · exact .inr hx
  exact ⟨h.wellFormed, fun hx => h.within (hx.imp_right (List.mem_cons_of_mem id)), h.answered,
    fun hx => drop (h.started hx), fun hu hv => drop (h.waiting hu hv), h.mem_ids, h.node,
    h.outEdges⟩

section

variable (h : Crawled find top seen (id :: queue) g) (new : id ∉ seen)

include h new

lemma vacant (m : Node) (hm : m ∈ g.nodes) (hid : m.id = id) : m = nodeOf id none := by
  have held := h.node hm
  rwa [hid, if_neg new] at held

/-- A program has been looked for, and the programs `called` that it calls wait in the queue. -/
lemma take {g' : CallGraph} {called : List Int} (wf : g'.WellFormed) (answered : Answered find id)
    (calls : ∀ v, v ∈ called ↔ Calls find id v)
    (ids : ∀ x, x ∈ g'.ids ↔ x ∈ g.ids ∨ x = id ∨ x ∈ called)
    (nodes : ∀ n ∈ g'.nodes, n ∈ g.nodes ∧ n.id ≠ id ∨ n = nodeOf id (programAt find id) ∨
      n = nodeOf n.id none ∧ n.id ∉ id :: seen)
    (edges : ∀ u, g'.outEdges u = g.outEdges u ++ if u = id then callEdges find id else []) :
    Crawled find top (id :: seen) (queue ++ called) g' where
  wellFormed := wf
  within {x} hx := by
    have top : Within find top id := h.within (.inr List.mem_cons_self)
    rcases hx with hx | hx
    · rcases List.mem_cons.1 hx with rfl | hx
      · exact top
      · exact h.within (.inl hx)
    · rcases List.mem_append.1 hx with hx | hx
      · exact h.within (.inr (List.mem_cons_of_mem id hx))
      · exact top.trans (.single ((calls x).1 hx))
  answered {x} hx := by
    rcases List.mem_cons.1 hx with rfl | hx
    · exact answered
    · exact h.answered hx
  started {x} hx := by
    rcases h.started hx with hx | hx
    · exact .inl (List.mem_cons_of_mem id hx)
    · rcases List.mem_cons.1 hx with rfl | hx
      · exact .inl List.mem_cons_self
      · exact .inr (List.mem_append_left called hx)
  waiting {u v} hu hv := by
    rcases List.mem_cons.1 hu with rfl | hu
    · exact .inr (List.mem_append_right queue ((calls v).2 hv))
    · rcases h.waiting hu hv with hv | hv
      · exact .inl (List.mem_cons_of_mem id hv)
      · rcases List.mem_cons.1 hv with rfl | hv
        · exact .inl List.mem_cons_self
        · exact .inr (List.mem_append_left called hv)
  mem_ids {x} := by
    rw [ids, h.mem_ids, calls, List.mem_cons]
    simp only [List.mem_cons, exists_eq_or_imp]
    grind
  node {n} hn := by
    rcases nodes n hn with ⟨old, other⟩ | rfl | ⟨hn, off⟩
    · have held := h.node old
      simpa [other] using held
    · simp
    · rwa [if_neg off]
  outEdges u := by
    rw [edges, h.outEdges]
    by_cases hu : u = id
    · subst u
      simp [new]
    · simp [hu]

lemma absent (missing : find id = .ok none) :
    Crawled find top (id :: seen) queue (g.addNode id .missing none) := by
  have nothing (v : Int) : ¬ Calls find id v := by
    rintro ⟨_, ⟨_, hp, _⟩, _⟩
    cases missing.symm.trans hp
  have empty : callEdges find id = [] := by rw [callEdges, programAt_of_missing missing]
  have none_called (v : Int) : v ∈ ([] : List Int) ↔ Calls find id v := by simpa using nothing v
  have taken := h.take new (h.wellFormed.addNode id .missing none) (.inl missing) none_called
    (by simp [mem_ids_addNode]) ?_ ?_
  · rwa [List.append_nil] at taken
  · intro n hn
    rw [programAt_of_missing missing]
    rcases mem_nodes_addMissing hn with old | ⟨rfl, -⟩
    · by_cases hid : n.id = id
      · exact .inr (.inl (h.vacant new n old hid))
      · exact .inl ⟨old, hid⟩
    · exact .inr (.inl rfl)
  · intro u
    rw [empty, CallGraph.outEdges, edges_addNode, CallGraph.outEdges]
    simp

lemma found (hp : find id = .ok (some p)) (hs : Block.leadingCalls p.nodes = (sites, none)) :
    Crawled find top (id :: seen) (queue ++ Ids.ofList (sites.map (·.callee)))
      (g.addProgram id (p.withId (some id))).1 := by
  have links : Links find id (Ids.ofList (sites.map (·.callee))) :=
    ⟨p, hp, Program.dependencies_eq_ok.2 ⟨sites, hs, rfl⟩⟩
  have added : (g.addProgram id (p.withId (some id))).1 =
      sites.foldl (·.addCall id) (g.addNode id .program (some (p.withId (some id)))) := by
    rw [addProgram, Program.nodes_withId, hs]
  have mem {x : Int} : x ∈ (g.addNode id .program (some (p.withId (some id)))).ids ↔
      x ∈ g.ids ∨ x = id := mem_ids_addNode
  refine h.take new (h.wellFormed.addProgram id _) (.inr ⟨_, links⟩) (fun v => ?_) (fun x => ?_)
    (fun n hn => ?_) (fun u => ?_)
  · refine ⟨fun hv => ⟨_, links, hv⟩, fun ⟨_, other, hv⟩ => ?_⟩
    rwa [other.unique links] at hv
  · rw [added, mem_ids_addCalls, mem, Ids.mem_ofList, or_assoc]
  · rw [added] at hn
    rw [programAt_of_found hp]
    rcases mem_nodes_addCalls hn with hn | ⟨held, off⟩
    · exact (mem_nodes_addFound (h.vacant new) hn).imp_right .inl
    · refine .inr (.inr ⟨held, fun hm => off (mem.2 ?_)⟩)
      rcases List.mem_cons.1 hm with same | hm
      · exact .inr same
      · exact .inl (h.mem_ids.2 (.inl hm))
  · rw [added, outEdges_addCalls, CallGraph.outEdges, edges_addNode, CallGraph.outEdges, callEdges,
      programAt_of_found hp]
    dsimp only
    rw [Program.nodes_withId, hs]

end

/-- When the queue is empty, all has been looked for that the programs at the start lead to. -/
lemma exact (h : Crawled find top seen [] g) : Exact find top g := by
  have all {x : Int} : x ∈ seen ↔ Within find top x := by
    refine ⟨fun hx => h.within (.inl hx), ?_⟩
    rintro ⟨c, hc, path⟩
    induction path with
    | refl => exact (h.started hc).resolve_right List.not_mem_nil
    | tail _ call ih => exact (h.waiting ih call).resolve_right List.not_mem_nil
  have ids {x : Int} : x ∈ g.ids ↔ x ∈ seen := by
    rw [h.mem_ids]
    refine or_iff_left_of_imp fun ⟨u, hu, call⟩ => ?_
    exact (h.waiting hu call).resolve_right List.not_mem_nil
  refine ⟨h.wellFormed, fun hx => h.answered (all.2 hx), fun {x} => ids.trans all, fun {n} hn => ?_,
    fun {u} hu => ?_⟩
  · have held := h.node hn
    rwa [if_pos (ids.1 (List.mem_map_of_mem hn))] at held
  · rw [h.outEdges, if_pos (ids.1 hu)]

end Crawled

/-! ### Whole crawls -/

/-- Fuel for every program that can still be found. -/
def Fuelled (find : Finder) (seen : List Int) (bound fuel : ℕ) : Prop :=
  ∃ loaded : List Int, loaded.Nodup ∧ (∀ x ∈ loaded, x ∈ seen ∧ Loadable find x) ∧
    loaded.length + fuel = bound

lemma Fuelled.mono {bound fuel : ℕ} (h : Fuelled find seen bound fuel) (id : Int) :
    Fuelled find (id :: seen) bound fuel := by
  obtain ⟨loaded, nodup, inside, total⟩ := h
  exact ⟨loaded, nodup, fun x hx => (inside x hx).imp_left (List.mem_cons_of_mem id), total⟩

lemma Fuelled.use {bound fuel : ℕ} (h : Fuelled find seen bound (fuel + 1)) (new : id ∉ seen)
    (loadable : Loadable find id) : Fuelled find (id :: seen) bound fuel := by
  obtain ⟨loaded, nodup, inside, total⟩ := h
  refine ⟨id :: loaded, nodup.cons fun hm => new (inside id hm).1, fun x hx => ?_, ?_⟩
  · rcases List.mem_cons.1 hx with rfl | hx
    · exact ⟨List.mem_cons_self, loadable⟩
    · exact (inside x hx).imp_left (List.mem_cons_of_mem id)
  · rw [List.length_cons]
    omega

/-- How a crawl ends: with the graph of what the programs at the start lead to, or at one of these
that cannot be had. -/
def Ends (find : Finder) (top : List Int) : Except Failure CallGraph → Prop
  | .ok g => Exact find top g
  | .error _ => ∃ x, Within find top x ∧ ¬ Answered find x

lemma Crawled.ends_of_unclear (h : Crawled find top seen (id :: queue) g)
    (unclear : ¬ Answered find id) (e : Failure) : Ends find top (.error e) :=
  ⟨id, h.within (.inr List.mem_cons_self), unclear⟩

/-- When the fuel is used up, all that can be loaded has been taken from the queue. -/
lemma Crawled.not_loadable (h : Crawled find top seen (id :: queue) g) (new : id ∉ seen)
    {bound : ℕ} (covers : Covers find top bound) (enough : Fuelled find seen bound 0) :
    ¬ Loadable find id := by
  intro loadable
  obtain ⟨loaded, nodup, inside, total⟩ := enough
  have fresh : id ∉ loaded := fun hm => new (inside id hm).1
  have most := covers (id :: loaded) (nodup.cons fresh) fun x hx => by
    rcases List.mem_cons.1 hx with rfl | hx
    · exact ⟨loadable, h.within (.inr List.mem_cons_self)⟩
    · exact ⟨(inside x hx).2, h.within (.inl (inside x hx).1)⟩
  rw [List.length_cons] at most
  omega

lemma ends_crawlFrom {fuel : ℕ} (h : Crawled loader.find top seen queue g)
    (covers : Covers loader.find top loader.bound)
    (enough : Fuelled loader.find seen loader.bound fuel) :
    Ends loader.find top (crawlFrom loader fuel seen g findings queue).answer := by
  induction fuel using Nat.strongRecOn generalizing seen g findings queue with
  | ind fuel more =>
  induction queue generalizing seen g findings with
  | nil =>
    rw [crawlFrom]
    exact h.exact
  | cons id queue rest =>
    rw [crawlFrom]
    by_cases known : id ∈ seen
    · rw [if_pos (List.contains_iff_mem.2 known)]
      exact rest (h.skip known) enough
    rw [if_neg (by simpa using known)]
    dsimp only
    rcases hf : loader.find id with e | _ | p <;> dsimp only
    · refine h.ends_of_unclear ?_ e
      rintro (missing | ⟨_, _, hp, _⟩)
      · cases hf.symm.trans missing
      · cases hf.symm.trans hp
    · exact rest (h.absent known hf) (enough.mono id)
    have unclear (ill : ¬ Loadable loader.find id) (e : Failure) :
        Ends loader.find top (.error e) := by
      refine h.ends_of_unclear (fun clear => ?_) e
      rcases clear with missing | loadable
      · cases hf.symm.trans missing
      · exact ill loadable
    rcases fuel with _ | fuel
    · exact unclear (h.not_loadable known covers enough) _
    rcases hs : Block.leadingCalls p.nodes with ⟨sites, _ | c⟩
    · have calls : p.dependencies = .ok (Ids.ofList (sites.map (·.callee))) :=
        Program.dependencies_eq_ok.2 ⟨sites, hs, rfl⟩
      have added : g.addProgram id (p.withId (some id)) =
          ((g.addProgram id (p.withId (some id))).1, none) := by
        rw [addProgram, Program.nodes_withId, hs]
      rw [added, calls]
      exact more fuel fuel.lt_succ_self (h.found known hf hs) (enough.use known ⟨_, p, hf, calls⟩)
    · have added : g.addProgram id (p.withId (some id)) =
          ((g.addProgram id (p.withId (some id))).1, some c) := by
        rw [addProgram, Program.nodes_withId, hs]
      rw [added]
      refine unclear ?_ _
      rintro ⟨_, _, hp, calls⟩
      cases hf.symm.trans hp
      obtain ⟨_, same, -⟩ := Program.dependencies_eq_ok.1 calls
      cases hs.symm.trans same

/-- **A crawl finds the graph of what its programs lead to.** When they lead to finitely many that
can be loaded, it gives a graph just when looking for a program never fails and no call lacks
operands; and the graph that it gives is exact. -/
theorem crawl_exact {ids : List Int} (finite : Covers loader.find ids loader.bound) :
    ((∃ g, (crawl loader ids).answer = .ok g) ↔
      ∀ x, Within loader.find ids x → Answered loader.find x) ∧
    ∀ g, (crawl loader ids).answer = .ok g → Exact loader.find ids g := by
  have ends : Ends loader.find ids (crawl loader ids).answer :=
    ends_crawlFrom (.start ids) finite ⟨[], .nil, nofun, Nat.zero_add _⟩
  rcases ha : (crawl loader ids).answer with e | g <;> rw [ha] at ends
  · obtain ⟨x, hx, unclear⟩ := ends
    exact ⟨⟨nofun, fun all => absurd (all x hx) unclear⟩, nofun⟩
  · refine ⟨⟨fun _ x hx => ends.answered hx, fun _ => ⟨g, rfl⟩⟩, fun g' hg => ?_⟩
    obtain rfl := Except.ok.inj hg
    exact ends

end CallGraph

end SeqAsm
