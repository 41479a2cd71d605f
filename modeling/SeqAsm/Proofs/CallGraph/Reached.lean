import Mathlib.Data.Set.Finite.Basic
import Mathlib.Logic.Function.Basic
import SeqAsm.Proofs.CallGraph.Crawl

/-!
What a crawl reaches.

A crawl is to find the programs that calls lead to from some programs, and the calls are the
instructions that make them, wherever they stand. Both can be said without the crawl. If there are
only finitely many such programs, the crawl ends, and its graph has a node for each and an edge for
each call. Edges are wired up one by one: each is put behind those that leave its caller and behind
those that enter its callee, and so it is found once in each place.
-/

namespace SeqAsm

open Resolver (Finder Within Covers)

namespace CallGraph

variable {find : Finder} {top : List Int} {u v x : Int} {p : Program} {g : CallGraph}

/-! ### What calls lead to -/

/-- The ids that a crawl starts with, and all that are called by a program under one of these. -/
inductive Reached (find : Finder) (top : List Int) : Int → Prop
  | start {x : Int} : x ∈ top → Reached find top x
  | call {u : Int} {p : Program} {n : SeqAsm.Node} {s : CallSite} : Reached find top u →
      find u = .ok (some p) → n ∈ p.nodes → n.call? = some s → Reached find top s.callee

/-- Looking for a program does not fail, and no call of the program lacks operands. -/
def Clear (find : Finder) (x : Int) : Prop :=
  find x = .ok none ∨ ∃ p, find x = .ok (some p) ∧ ∀ n ∈ p.nodes, n.Complete

lemma clear_iff : Clear find x ↔ Answered find x := by
  refine or_congr_right ⟨?_, ?_⟩
  · rintro ⟨p, hp, all⟩
    exact ⟨_, p, hp, Program.dependencies_iff.2 ⟨all, rfl⟩⟩
  · rintro ⟨_, p, hp, hids⟩
    exact ⟨p, hp, (Program.dependencies_iff.1 hids).1⟩

lemma reached_of_within (h : Within find top x) : Reached find top x := by
  obtain ⟨c, hc, path⟩ := h
  induction path with
  | refl => exact .start hc
  | tail _ call ih =>
    obtain ⟨ids, ⟨p, hp, hd⟩, hv⟩ := call
    obtain ⟨n, hn, s, hs, rfl⟩ := (Program.mem_dependencies hd).1 hv
    exact .call ih hp hn hs

lemma within_of_reached (all : ∀ x, Within find top x → Answered find x)
    (h : Reached find top x) : Within find top x := by
  induction h with
  | start hx => exact Resolver.within_of_mem hx
  | @call u p n s _ hp hn hs ih =>
    rcases all u ih with none | ⟨ids, links⟩
    · cases hp.symm.trans none
    · obtain ⟨p', hp', hd⟩ := links
      cases hp.symm.trans hp'
      exact ih.trans (.single ⟨ids, ⟨p, hp, hd⟩, (Program.mem_dependencies hd).2 ⟨n, hn, s, hs, rfl⟩⟩)

/-- If all programs within reach are clear, either way to say what is within reach will do. -/
lemma clear_of_reached_iff : (∀ x, Reached find top x → Clear find x) ↔
    ∀ x, Within find top x → Answered find x :=
  ⟨fun all x hx => clear_iff.1 (all x (reached_of_within hx)),
    fun all x hx => clear_iff.2 (all x (within_of_reached all hx))⟩

lemma exists_covers (finite : {x | Reached find top x}.Finite) :
    ∃ enough, ∀ bound, enough ≤ bound → Covers find top bound := by
  refine ⟨finite.toFinset.toList.length, fun bound hb ids nodup hids => ?_⟩
  refine (List.subperm_of_subset nodup fun x hx => ?_).length_le.trans hb
  rw [Finset.mem_toList, Set.Finite.mem_toFinset]
  exact reached_of_within (hids x hx).2

/-! ### Wiring -/

/-- The edges that leave a node and those that enter it. -/
structure Wiring where
  out : Int → List Edge
  into : Int → List Edge

namespace Wiring

def empty : Wiring := ⟨fun _ => [], fun _ => []⟩

/-- Puts an edge behind those that leave its caller and behind those that enter its callee. -/
def add (w : Wiring) (e : Edge) : Wiring where
  out := Function.update w.out e.caller (w.out e.caller ++ [e])
  into := Function.update w.into e.callee (w.into e.callee ++ [e])

lemma foldl_add (es : List Edge) (w : Wiring) : es.foldl add w =
    ⟨fun u => w.out u ++ es.filter (·.caller == u), fun v => w.into v ++ es.filter (·.callee == v)⟩ := by
  have put (f : Int → List Edge) (key : Edge → Int) (e : Edge) (es : List Edge) (u : Int) :
      Function.update f (key e) (f (key e) ++ [e]) u ++ es.filter (key · == u) =
        f u ++ (e :: es).filter (key · == u) := by
    rw [Function.update_apply]
    by_cases h : u = key e
    · subst h
      simp
    · simp [h, Ne.symm h]
  induction es generalizing w with
  | nil => simp
  | cons e es ih =>
    rw [List.foldl_cons, ih]
    exact congrArg₂ mk (funext (put w.out (·.caller) e es)) (funext (put w.into (·.callee) e es))

end Wiring

/-- Sorted by a key, with all keys listed, a list has the same entries. -/
lemma perm_flatMap_filter {ids : List Int} (nodup : ids.Nodup) (key : Edge → Int) {es : List Edge}
    (all : ∀ e ∈ es, key e ∈ ids) : es.Perm (ids.flatMap fun id => es.filter (key · == id)) := by
  induction ids generalizing es with
  | nil =>
    rw [List.eq_nil_iff_forall_not_mem.2 fun e he => List.not_mem_nil (all e he)]
    exact .nil
  | cons id ids ih =>
    obtain ⟨fresh, nodup⟩ := List.nodup_cons.1 nodup
    have rest := @ih nodup (es.filter fun e => !(key e == id)) fun e he => by
      obtain ⟨he, other⟩ := List.mem_filter.1 he
      exact (List.mem_cons.1 (all e he)).resolve_left (by simpa using other)
    -- what is taken out for the first key is missing under no other
    have later : (ids.flatMap fun i => (es.filter fun e => !(key e == id)).filter (key · == i)) =
        ids.flatMap fun i => es.filter (key · == i) := by
      refine List.flatMap_congr fun i hi => ?_
      rw [List.filter_filter]
      refine List.filter_congr fun e _ => ?_
      by_cases h : key e = i
      · have other : i ≠ id := fun same => fresh (same ▸ hi)
        simp [h, other]
      · simp [h]
    rw [later] at rest
    exact (List.filter_append_perm (key · == id) es).symm.trans (rest.append_left _)

/-! ### The graph -/

/-- The graph of what some programs lead to. Each id has one node, without a program just if there is
none, and otherwise with the program and an edge for each of its calls, in source order. Each edge is
once in the list of edges, once among those that leave its caller and once among those that enter its
callee. -/
structure Faithful (find : Finder) (top : List Int) (g : CallGraph) : Prop where
  nodup : g.ids.Nodup
  mem_ids {x : Int} : x ∈ g.ids ↔ Reached find top x
  missing {n : Node} : n ∈ g.nodes → (n.kind = .missing ↔ find n.id = .ok none)
  absent {n : Node} : n ∈ g.nodes → find n.id = .ok none →
    n.program = none ∧ g.outEdges n.id = []
  program {n : Node} {p : Program} : n ∈ g.nodes → find n.id = .ok (some p) →
    n.program = some (p.withId (some n.id)) ∧
      g.outEdges n.id = (p.nodes.filterMap SeqAsm.Node.call?).map (callEdge n.id)
  wired : g.edges.foldl Wiring.add .empty = ⟨g.outEdges, g.inEdges⟩
  leaving : g.edges.Perm (g.ids.flatMap g.outEdges)
  entering : g.edges.Perm (g.ids.flatMap g.inEdges)
  count (e : Edge) : (g.outEdges e.caller).count e = g.edges.count e ∧
    (g.inEdges e.callee).count e = g.edges.count e

lemma callEdges_of_found (hp : find u = .ok (some p)) (all : ∀ n ∈ p.nodes, n.Complete) :
    callEdges find u = (p.nodes.filterMap SeqAsm.Node.call?).map (callEdge u) := by
  rw [callEdges, programAt_of_found hp]
  dsimp only
  rw [Program.nodes_withId, Block.leadingCalls_eq_iff.2 ⟨all, rfl⟩]

lemma Exact.clear (h : Exact find top g) {n : Node} (hn : n ∈ g.nodes) : Clear find n.id :=
  clear_iff.2 (h.answered (h.mem_ids.1 (List.mem_map_of_mem hn)))

lemma Exact.faithful (h : Exact find top g) : Faithful find top g where
  nodup := h.wellFormed.nodup
  mem_ids {x} := h.mem_ids.trans ⟨reached_of_within, within_of_reached fun _ => h.answered⟩
  missing {n} hn := by
    constructor
    · intro kind
      refine (h.clear hn).resolve_right fun ⟨p, hp, _⟩ => ?_
      rw [h.node hn, programAt_of_found hp] at kind
      cases kind
    · intro none
      rw [h.node hn, programAt_of_missing none]
      rfl
  absent {n} hn none := by
    rw [h.outEdges (List.mem_map_of_mem hn), callEdges, programAt_of_missing none]
    refine ⟨?_, rfl⟩
    rw [h.node hn, programAt_of_missing none]
    rfl
  program {n p} hn hp := by
    have all : ∀ m ∈ p.nodes, m.Complete := by
      rcases h.clear hn with none | ⟨p', hp', all⟩
      · cases hp.symm.trans none
      · cases hp.symm.trans hp'
        exact all
    rw [h.outEdges (List.mem_map_of_mem hn), callEdges_of_found hp all]
    refine ⟨?_, rfl⟩
    rw [h.node hn, programAt_of_found hp]
    rfl
  wired := by
    rw [Wiring.foldl_add]
    rfl
  leaving := perm_flatMap_filter h.wellFormed.nodup (·.caller) fun _ => h.wellFormed.caller
  entering := perm_flatMap_filter h.wellFormed.nodup (·.callee) fun _ => h.wellFormed.callee
  count e := ⟨List.count_filter (beq_self_eq_true _), List.count_filter (beq_self_eq_true _)⟩

/-- **A crawl builds the graph of what is reached.** When there are finitely many programs that the
ids at the start lead to, a crawl with enough fuel for them ends and gives a graph, unless looking for
one of these programs fails or a call lacks operands, as no program does that a text can say. The
graph is faithful to the programs. -/
theorem crawl_reached (finite : {x | Reached find top x}.Finite) :
    ∃ enough, ∀ bound, enough ≤ bound →
      ((∃ g, (crawl ⟨find, bound⟩ top).answer = .ok g) ↔
        ∀ x, Reached find top x → Clear find x) ∧
      ((∀ x, Reached find top x →
          find x = .ok none ∨ ∃ p, find x = .ok (some p) ∧ p.WellFormed) →
        ∃ g, (crawl ⟨find, bound⟩ top).answer = .ok g) ∧
      ∀ g, (crawl ⟨find, bound⟩ top).answer = .ok g → Faithful find top g := by
  obtain ⟨enough, covers⟩ := exists_covers finite
  refine ⟨enough, fun bound hb => ?_⟩
  obtain ⟨given, exact⟩ := @crawl_exact ⟨find, bound⟩ top (covers bound hb)
  have found := given.trans clear_of_reached_iff.symm
  refine ⟨found, fun all => found.2 fun x hx => (all x hx).imp_right ?_, fun g hg =>
    (exact g hg).faithful⟩
  rintro ⟨p, hp, wf⟩
  exact ⟨p, hp, fun n hn => (Block.wellFormed_iff.1 wf.body n hn).complete⟩

/-- A program that calls 2 in a loop and behind it, and 1 in between. -/
def selfCaller : Program where
  body :=
    .loop ⟨.reg 0, .const 1⟩ 1 (.instr ⟨.seq, [.reg 1, .const 2]⟩ 2 .nil)
      (.instr ⟨.cal, [.reg 0, .const 1]⟩ 4 (.instr ⟨.seq, [.reg 0, .const 2]⟩ 5 .nil))

/-- There is no other program. -/
def findSelfCaller : Finder := fun id => .ok (if id = 1 then some selfCaller else none)

lemma mem_of_reached_selfCaller (h : Reached findSelfCaller [2, 1, 2] x) : x ∈ [1, 2] := by
  have calls : ∀ n ∈ selfCaller.nodes, ∀ s ∈ n.call?, s.callee ∈ [1, 2] := by decide
  induction h with
  | start hx => grind
  | @call u p n s _ hp hn hs _ =>
    by_cases hu : u = 1
    · rw [findSelfCaller, if_pos hu] at hp
      cases hp
      exact calls n hn s hs
    · rw [findSelfCaller, if_neg hu] at hp
      cases hp

/-- The start names the missing program before the one that calls it, and once more. -/
theorem crawl_reached_selfCaller : ∃ enough, ∀ bound, enough ≤ bound →
    ∃ g, (crawl ⟨findSelfCaller, bound⟩ [2, 1, 2]).answer = .ok g ∧ g.ids.Nodup ∧
      (∀ x, x ∈ g.ids ↔ x ∈ [1, 2]) ∧
      g.outEdges 1 = [⟨1, 2, "seq", 2⟩, ⟨1, 1, "cal", 4⟩, ⟨1, 2, "seq", 5⟩] ∧
      g.outEdges 2 = [] := by
  have finite : {x | Reached findSelfCaller [2, 1, 2] x}.Finite :=
    (List.finite_toSet [1, 2]).subset fun x hx => mem_of_reached_selfCaller hx
  obtain ⟨enough, all⟩ := crawl_reached finite
  refine ⟨enough, fun bound hb => ?_⟩
  obtain ⟨-, given, faithful⟩ := all bound hb
  obtain ⟨g, hg⟩ := given fun x _ => by
    by_cases hx : x = 1
    · exact .inr ⟨selfCaller, by rw [findSelfCaller, if_pos hx], by decide⟩
    · exact .inl (by rw [findSelfCaller, if_neg hx])
  have h := faithful g hg
  have ids (x : Int) : x ∈ g.ids ↔ x ∈ [1, 2] :=
    h.mem_ids.trans ⟨mem_of_reached_selfCaller, fun hx => .start (by grind)⟩
  obtain ⟨n, hn, one⟩ := List.mem_map.1 ((ids 1).2 (by decide))
  obtain ⟨m, hm, two⟩ := List.mem_map.1 ((ids 2).2 (by decide))
  have calls := (h.program hn (by rw [one]; rfl)).2
  have nothing := (h.absent hm (by rw [two]; rfl)).2
  rw [one] at calls
  rw [two] at nothing
  exact ⟨g, hg, h.nodup, ids, calls, nothing⟩

end CallGraph

end SeqAsm
