import SeqAsm.Proofs.CallGraph.Components
import SeqAsm.Proofs.CallGraph.Crawl
import SeqAsm.Proofs.Dependency.Exact

/-!
Dependencies and call graphs.

The edges of the graph that a crawl finds are the calls that a resolver follows, and its nodes are
all that the root leads to. So what a query about the root answers can be read off the graph: what
it finds from closures, the cycles that it reports from recursive groups, and the programs that it
misses from nodes without a program.
-/

namespace SeqAsm

lemma Ids.ascending_ofList (ids : List Int) : (ofList ids).Pairwise (· < ·) := by
  suffices ∀ s : List Int, s.Pairwise (· < ·) →
      (ids.foldl (fun s id => insert id s) s).Pairwise (· < ·) from this [] .nil
  induction ids with
  | nil => exact fun _ hs => hs
  | cons id ids ih => exact fun s hs => ih _ (ascending_insert hs)

lemma Resolver.IsCycle.leads {find : Finder} {c : List Int} (h : IsCycle find c) {x y : Int}
    (hx : x ∈ c) (hy : y ∈ c) : Resolver.Leads find x y := by
  obtain ⟨two, closed, -, calls⟩ := h
  have along : c.Pairwise (Resolver.Leads find) :=
    (calls.imp fun _ _ h => Relation.ReflTransGen.single h).pairwise
  rcases c with _ | ⟨a, rest⟩
  · cases hx
  have last : (a :: rest).getLast? = some a := closed.symm
  have down {x : Int} (hx : x ∈ a :: rest) : Resolver.Leads find a x := by
    rcases List.mem_cons.1 hx with rfl | hx
    · exact .refl
    · exact (List.pairwise_cons.1 along).1 x hx
  have up {x : Int} (hx : x ∈ a :: rest) : Resolver.Leads find x a := by
    obtain ⟨before, split⟩ := List.getLast?_eq_some_iff.1 last
    rw [split] at along hx
    rcases List.mem_append.1 hx with hx | hx
    · exact (List.pairwise_append.1 along).2.2 x hx a (List.mem_singleton_self a)
    · rw [List.mem_singleton.1 hx]
  exact (up hx).trans (down hy)

namespace CallGraph

open Resolver (Finder Calls Reaches Loadable Covers Fault Asks IsCycle cyclic)

variable {find : Finder} {top : List Int} {g : CallGraph} {root u v x : Int}

namespace Exact

/-! ### Calls -/

lemma mem_callees_iff (h : Exact find top g) (hu : u ∈ g.ids) :
    v ∈ g.callees u ↔ Calls find u v := by
  rw [callees, h.outEdges hu, List.mem_map]
  exact mem_callEdges (h.answered (h.mem_ids.1 hu))

/-- Calls lead as far in the graph as they do in the loader. -/
lemma reaches_iff (h : Exact find top g) (hu : u ∈ g.ids) :
    Relation.TransGen (fun u v => v ∈ g.callees u) u x ↔ Reaches find u x := by
  constructor
  · refine Relation.TransGen.mono (fun a b call => ?_) u x
    obtain ⟨e, he, rfl, -⟩ := mem_callees.1 call
    exact (h.mem_callees_iff (h.wellFormed.caller he)).1 call
  · intro path
    induction path with
    | single call => exact .single ((h.mem_callees_iff hu).2 call)
    | @tail y z _ call ih =>
      obtain ⟨w, -, last⟩ := Relation.TransGen.tail'_iff.1 ih
      obtain ⟨e, he, -, rfl⟩ := mem_callees.1 last
      exact ih.tail ((h.mem_callees_iff (h.wellFormed.callee he)).2 call)

lemma leads_iff (h : Exact find top g) (hu : u ∈ g.ids) :
    Leads g.callees u x ↔ Resolver.Leads find u x := by
  rw [Resolver.leads_iff, ← h.reaches_iff hu]
  exact Relation.reflTransGen_iff_eq_or_transGen

/-! ### What blocks a program -/

/-- The nodes without a program are those of ids under which none is found. -/
lemma exists_missing_iff (h : Exact find top g) :
    (∃ n ∈ g.missing, n.id = x) ↔ x ∈ g.ids ∧ find x = .ok none := by
  constructor
  · rintro ⟨n, hn, rfl⟩
    obtain ⟨hn, kind⟩ := List.mem_filter.1 hn
    have hid : n.id ∈ g.ids := List.mem_map_of_mem hn
    refine ⟨hid, (h.answered (h.mem_ids.1 hid)).resolve_right fun ⟨_, p, hp, _⟩ => ?_⟩
    rw [h.node hn, programAt_of_found hp] at kind
    cases kind
  · rintro ⟨hx, none⟩
    obtain ⟨n, hn, rfl⟩ := List.mem_map.1 hx
    refine ⟨n, List.mem_filter.2 ⟨hn, ?_⟩, rfl⟩
    rw [h.node hn, programAt_of_missing none]
    rfl

lemma missing_eq_nil_iff (h : Exact find top g) :
    g.missing = [] ↔ ∀ x ∈ g.ids, Loadable find x := by
  constructor
  · intro all x hx
    refine (h.answered (h.mem_ids.1 hx)).resolve_left fun none => ?_
    obtain ⟨n, hn, -⟩ := h.exists_missing_iff.2 ⟨hx, none⟩
    rw [all] at hn
    cases hn
  · refine fun all => List.eq_nil_iff_forall_not_mem.2 fun n hn => ?_
    obtain ⟨hid, none⟩ := h.exists_missing_iff.1 ⟨n, hn, rfl⟩
    obtain ⟨_, p, hp, -⟩ := all n.id hid
    cases none.symm.trans hp

/-- The programs in recursive groups are those that lead back to themselves. -/
lemma recursiveGroups_eq_nil_iff (h : Exact find top g) :
    g.recursiveGroups = [] ↔ ∀ x ∈ g.ids, ¬ Reaches find x x := by
  rw [recursiveGroups, List.filter_eq_nil_iff]
  constructor
  · intro all x hx back
    obtain ⟨c, hc, hxc⟩ := h.wellFormed.exists_component hx
    exact all c hc ((h.wellFormed.isCycle_iff hc hxc).2 ((h.reaches_iff hx).2 back))
  · intro all c hc cycle
    obtain ⟨x, hx⟩ := List.exists_mem_of_ne_nil c (h.wellFormed.component_ne_nil hc)
    have hid := (h.wellFormed.mem_component hc hx).1
    exact all x hid ((h.reaches_iff hid).1 ((h.wellFormed.isCycle_iff hc hx).1 cycle))

/-- A cycle within the graph lies in one recursive group. -/
lemma exists_group (h : Exact find top g) {c : List Int} (cycle : IsCycle find c)
    (inside : c ⊆ g.ids) : ∃ group ∈ g.recursiveGroups, c ⊆ group := by
  obtain ⟨x, hx, back⟩ := cycle.reaches
  have hid := inside hx
  obtain ⟨group, hg, hxg⟩ := h.wellFormed.exists_component hid
  refine ⟨group, List.mem_filter.2 ⟨hg, ?_⟩, fun y hy => ?_⟩
  · exact (h.wellFormed.isCycle_iff hg hxg).2 ((h.reaches_iff hid).2 back)
  · refine ((h.wellFormed.mem_component hg hxg).2.2 y).2 ⟨?_, ?_⟩
    · exact (h.leads_iff hid).2 (cycle.leads hx hy)
    · exact (h.leads_iff (inside hy)).2 (cycle.leads hy hx)

end Exact

/-! ### Queries -/

/-- What a graph has that makes a query fail. -/
inductive Blames (g : CallGraph) : Failure → Prop
  | cycle {c group : List Int} : group ∈ g.recursiveGroups → c ⊆ group → Blames g (cyclic c)
  | absent {n : Node} {referrer : Option Int} : n ∈ g.missing →
      (∀ u ∈ referrer, u ∈ g.callers n.id) →
      Blames g (.of (.unresolvedDependency n.id referrer) [])

/-- A fault in what the root leads to can be seen in the graph. -/
lemma Exact.blames (h : Exact find [root] g) {e : Failure} (fault : Fault find root e) :
    g.Blames e := by
  have mem {x : Int} : x ∈ g.ids ↔ Resolver.Leads find root x := by
    rw [h.mem_ids, Resolver.within_singleton]
  have clear {referrer : Option Int} {id : Int} (asks : Asks find root referrer id) :
      Answered find id := h.answered (h.mem_ids.1 (mem.2 asks.leads))
  cases fault with
  | cycle hc reach =>
    obtain ⟨group, hg, sub⟩ := h.exists_group hc fun x hx => mem.2 (reach x hx)
    exact .cycle hg sub
  | absent asks none =>
    obtain ⟨n, hn, rfl⟩ := h.exists_missing_iff.2 ⟨mem.2 asks.leads, none⟩
    refine .absent hn fun u hu => ?_
    obtain rfl := Option.mem_def.1 hu
    cases asks with
    | call hu call => exact mem_callers.2 ((h.mem_callees_iff (mem.2 hu)).2 call)
  | unreadable asks hf =>
    rcases clear asks with none | ⟨_, p, hp, -⟩
    · cases hf.symm.trans none
    · cases hf.symm.trans hp
  | illFormed asks hf hd =>
    rcases clear asks with none | ⟨_, p, hp, hids⟩
    · cases hf.symm.trans none
    · cases hf.symm.trans hp
      cases hd.symm.trans hids

/-- **A query and a crawl agree.** A new resolver that is asked about a program finds its
dependencies just when the crawl from it gives a graph with no missing program and no recursive
group, and they are then its transitive callees. If there is a graph and the query fails, it
reports a cycle, all in one recursive group, or a missing program, with one of its callers if it
names any. A crawl gives a graph unless looking for a program that the root leads to fails, or one
of these has a call that lacks operands. -/
theorem transitive_agrees_with_crawl {loader : Loader}
    (finite : Covers loader.find [root] loader.bound) :
    ((∃ c, (({} : Resolver).transitive loader root).answer = .ok c) ↔
      ∃ g, (crawl loader [root]).answer = .ok g ∧ g.missing = [] ∧ g.recursiveGroups = []) ∧
    (∀ g, (crawl loader [root]).answer = .ok g →
      (∀ c, (({} : Resolver).transitive loader root).answer = .ok c →
        c = Ids.ofList (g.transitiveCallees root)) ∧
      ∀ e, (({} : Resolver).transitive loader root).answer = .error e → g.Blames e) ∧
    ((∃ g, (crawl loader [root]).answer = .ok g) ↔
      ∀ x, Resolver.Leads loader.find root x → Answered loader.find x) := by
  have valid : Resolver.Valid loader.find {} := Resolver.Reachable.new.valid
  have succeeds := Resolver.exists_answer_iff valid finite
  obtain ⟨crawls, exact⟩ := crawl_exact finite
  simp only [Resolver.within_singleton] at crawls
  have mem {g : CallGraph} (h : Exact loader.find [root] g) {x : Int} :
      x ∈ g.ids ↔ Resolver.Leads loader.find root x := by
    rw [h.mem_ids, Resolver.within_singleton]
  refine ⟨succeeds.trans ⟨fun all => ?_, ?_⟩, fun g hg => ⟨fun c hc => ?_, fun e he => ?_⟩, crawls⟩
  · obtain ⟨g, hg⟩ := crawls.2 fun x hx => .inr (all x hx).1
    have h := exact g hg
    refine ⟨g, hg, h.missing_eq_nil_iff.2 fun x hx => (all x ((mem h).1 hx)).1, ?_⟩
    exact h.recursiveGroups_eq_nil_iff.2 fun x hx => (all x ((mem h).1 hx)).2
  · rintro ⟨g, hg, noMissing, noGroup⟩ x hx
    have h := exact g hg
    have hid := (mem h).2 hx
    exact ⟨h.missing_eq_nil_iff.1 noMissing x hid, h.recursiveGroups_eq_nil_iff.1 noGroup x hid⟩
  · have h := exact g hg
    have hid : root ∈ g.ids := (mem h).2 .refl
    have settled := Resolver.settled_of_transitive valid hc
    refine settled.ascending.eq_of_mem_iff (Ids.ascending_ofList _) fun x => ?_
    rw [Ids.mem_ofList, h.wellFormed.mem_transitiveCallees hid, h.reaches_iff hid, settled.mem]
    refine (and_iff_left_of_imp ?_).symm
    rintro back rfl
    exact settled.not_mem ((settled.mem x).2 back)
  · exact (exact g hg).blames (Resolver.fault_of_transitive valid finite he)

def calling (id : Int) (callees : List Int) : Program where
  body := callees.foldr (fun v rest => .instr ⟨.seq, [.reg 0, .const v]⟩ 1 rest) .nil
  id := some id

/-- The program 1 calls 2 twice and shares 3 with it; 4 and 5 call each other; 7 calls 6, which is
missing. -/
def threeOutcomes : Loader where
  find id := .ok (([(1, [2, 3, 2]), (2, [3]), (3, []), (4, [5, 3]), (5, [4]), (7, [6])].lookup
    id).map (calling id))
  bound := 6

lemma covers_threeOutcomes : Covers threeOutcomes.find top threeOutcomes.bound := by
  refine Resolver.covers_of_mem [1, 2, 3, 4, 5, 7] fun x p hp => ?_
  obtain ⟨callees, hx, -⟩ := Option.map_eq_some_iff.1 (Except.ok.inj hp)
  obtain ⟨before, after, table, -⟩ := List.lookup_eq_some_iff.1 hx
  have entry : (x, callees) ∈ before ++ (x, callees) :: after := by simp
  rw [← table] at entry
  exact List.mem_map_of_mem (f := Prod.fst) entry

lemma dependencies_calling (id : Int) (callees : List Int) :
    (calling id callees).dependencies = .ok (Ids.ofList callees) := by
  have calls : Block.leadingCalls (calling id callees).nodes =
      (callees.map fun v => ⟨v, .seq, 1⟩, none) := by
    unfold calling Program.nodes
    induction callees with
    | nil => rfl
    | cons v callees ih =>
      rw [List.foldr_cons, Block.nodes, Block.leadingCalls, ih]
      rfl
  refine Program.dependencies_eq_ok.2 ⟨_, calls, ?_⟩
  rw [List.map_map]
  exact congrArg Ids.ofList (List.map_id' callees)

lemma answered_threeOutcomes (x : Int) : Answered threeOutcomes.find x := by
  rcases hx : threeOutcomes.find x with e | _ | p
  · cases hx
  · exact .inl hx
  · obtain ⟨callees, -, rfl⟩ := Option.map_eq_some_iff.1 (Except.ok.inj hx)
    exact .inr ⟨_, _, hx, dependencies_calling x callees⟩

/-- The first program can be resolved, the others are blocked by what their graphs hold. -/
theorem transitive_agrees_with_crawl_threeOutcomes :
    (∃ g, (crawl threeOutcomes [1]).answer = .ok g ∧ g.missing = [] ∧ g.recursiveGroups = [] ∧
      Ids.ofList (g.transitiveCallees 1) = [2, 3]) ∧
    (∃ g, (crawl threeOutcomes [4]).answer = .ok g ∧ g.Blames (cyclic [4, 5, 4])) ∧
    ∃ g, (crawl threeOutcomes [7]).answer = .ok g ∧
      g.Blames (.of (.unresolvedDependency 6 (some 7)) []) := by
  have one := transitive_agrees_with_crawl (covers_threeOutcomes : Covers _ [1] _)
  have four := transitive_agrees_with_crawl (covers_threeOutcomes : Covers _ [4] _)
  have seven := transitive_agrees_with_crawl (covers_threeOutcomes : Covers _ [7] _)
  refine ⟨?_, ?_, ?_⟩
  · obtain ⟨g, hg, noMissing, noGroup⟩ := one.1.1 ⟨[2, 3], rfl⟩
    exact ⟨g, hg, noMissing, noGroup, ((one.2.1 g hg).1 [2, 3] rfl).symm⟩
  · obtain ⟨g, hg⟩ := four.2.2.2 fun x _ => answered_threeOutcomes x
    exact ⟨g, hg, (four.2.1 g hg).2 _ rfl⟩
  · obtain ⟨g, hg⟩ := seven.2.2.2 fun x _ => answered_threeOutcomes x
    exact ⟨g, hg, (seven.2.1 g hg).2 _ rfl⟩

end CallGraph

end SeqAsm
