import Mathlib.Data.List.Chain
import SeqAsm.Proofs.Dependency.AtHand

/-!
Queries by id are exact.

A query succeeds when all that the program leads to can be had and lies on no cycle, and it then
finds what the program reaches. When it fails, it says why: it reports a cycle that can be
followed call by call, or a program that is missing together with one that calls it.
-/

namespace SeqAsm.Resolver

variable {loader : Loader} {r : Resolver} {find : Finder} {root id x : Int}
  {top path called : List Int} {c : List Int} {e : Failure} {referrer : Option Int}

/-! ### Why a query fails -/

/-- A way of calls that leads from a program back to it and passes no other program twice. -/
structure IsCycle (find : Finder) (c : List Int) : Prop where
  two_le : 2 ≤ c.length
  closed : c.head? = c.getLast?
  nodup : c.dropLast.Nodup
  calls : c.IsChain (Calls find)

/-- Who asks for a program: nobody for the root, and a program within reach of the root for one
that it calls. -/
inductive Asks (find : Finder) (root : Int) : Option Int → Int → Prop
  | root : Asks find root none root
  | call {u v : Int} : Leads find root u → Calls find u v → Asks find root (some u) v

/-- Why the dependencies of a program cannot be had. -/
inductive Fault (find : Finder) (root : Int) : Failure → Prop
  | cycle {c : List Int} : IsCycle find c → (∀ x ∈ c, Leads find root x) →
      Fault find root (cyclic c)
  | absent {referrer : Option Int} {id : Int} : Asks find root referrer id →
      find id = .ok none → Fault find root (.of (.unresolvedDependency id referrer) [])
  /-- Looking for a program fails in a way of its own. -/
  | unreadable {referrer : Option Int} {id : Int} {e : Failure} : Asks find root referrer id →
      find id = .error e → Fault find root e
  /-- A call names no program. -/
  | illFormed {referrer : Option Int} {id : Int} {p : Program} {c : Crash} :
      Asks find root referrer id → find id = .ok (some p) → p.dependencies = .error c →
      Fault find root (.crash c)

lemma Asks.leads (h : Asks find root referrer id) : Leads find root id := by
  cases h with
  | root => exact .refl
  | call hu hv => exact hu.tail hv

lemma fault_of_calleesOf (h : Asks find root referrer id)
    (he : calleesOf find id referrer = .error e) : Fault find root e := by
  unfold calleesOf at he
  rcases hf : find id with e' | _ | p <;> rw [hf] at he
  · obtain rfl := Except.error.inj he
    exact .unreadable h hf
  · obtain rfl := Except.error.inj he
    exact .absent h hf
  · dsimp only at he
    rcases hd : p.dependencies with c | ids <;> rw [hd] at he
    · obtain rfl := Except.error.inj he
      exact .illFormed h hf hd
    · cases he

lemma IsCycle.reaches (h : IsCycle find c) : ∃ x ∈ c, Reaches find x x := by
  obtain ⟨two, closed, -, calls⟩ := h
  rcases c with _ | ⟨x, rest⟩
  · simp at two
  have last : x ∈ rest := by
    rcases rest with _ | ⟨y, ys⟩
    · simp at two
    · rw [List.head?_cons, List.getLast?_cons_cons] at closed
      exact List.mem_of_getLast? closed.symm
  have along : (x :: rest).Pairwise (Reaches find) :=
    (calls.imp fun _ _ h => Relation.TransGen.single h).pairwise
  exact ⟨x, List.mem_cons_self, (List.pairwise_cons.1 along).1 x last⟩

lemma Fault.not_in_order (h : Fault find root e) :
    ¬ ∀ x, Leads find root x → Loadable find x ∧ ¬ Reaches find x x := by
  intro all
  cases h with
  | cycle hc reach =>
    obtain ⟨x, hx, back⟩ := hc.reaches
    exact (all x (reach x hx)).2 back
  | absent asks hf =>
    obtain ⟨_, p, hp, -⟩ := (all _ asks.leads).1
    cases hf.symm.trans hp
  | unreadable asks hf =>
    obtain ⟨_, p, hp, -⟩ := (all _ asks.leads).1
    cases hf.symm.trans hp
  | illFormed asks hf hd =>
    obtain ⟨_, p, hp, hids⟩ := (all _ asks.leads).1
    cases hf.symm.trans hp
    cases hd.symm.trans hids

/-! ### Paths are ways of calls -/

/-- A path of a search, read from its last program to its first, goes against the calls. -/
structure Way (find : Finder) (root : Int) (path called : List Int) : Prop where
  head : ∃ v rest, path = v :: rest ∧ Links find v called
  leads {x : Int} : x ∈ path → Leads find root x
  calls : path.IsChain fun v u => Calls find u v
  nodup : path.Nodup

lemma Path.way (P : Path find r root top path called) (links : Links find root top) :
    Way find root path called := by
  induction P with
  | start =>
    refine ⟨⟨root, [], rfl, links⟩, fun hx => ?_, .singleton root, List.nodup_singleton root⟩
    rw [List.mem_singleton.1 hx]
  | @step path called next id P hid new _ hn ih =>
    obtain ⟨⟨v, rest, rfl, hv⟩, leads, calls, nodup⟩ := ih
    have call : Calls find v id := ⟨called, hv, hid⟩
    refine ⟨⟨id, v :: rest, rfl, hn⟩, fun hx => ?_, calls.cons_cons call, nodup.cons new⟩
    rcases List.mem_cons.1 hx with rfl | hx
    · exact (leads List.mem_cons_self).tail call
    · exact leads hx

namespace Way

/-- A call that leaves the last program of a path is asked for by that program. -/
lemma asks (W : Way find root path called) (hid : id ∈ called) :
    Asks find root path.head? id := by
  obtain ⟨v, rest, rfl, hv⟩ := W.head
  exact .call (W.leads List.mem_cons_self) ⟨called, hv, hid⟩

/-- A call from the last program of a path back to the path closes a cycle. -/
lemma isCycle (W : Way find root path called) (hid : id ∈ called) (hp : id ∈ path) :
    IsCycle find (cycleTo path id) := by
  obtain ⟨before, after, rfl, new⟩ := List.eq_append_cons_of_mem hp
  have upTo : (before ++ id :: after).takeWhile (· != id) = before := by
    rw [List.takeWhile_append_of_pos fun y hy => by simpa using ne_of_mem_of_not_mem hy new]
    simp
  unfold cycleTo
  rw [upTo, ← List.cons_append]
  refine ⟨by simp, by rw [List.getLast?_concat, List.cons_append, List.head?_cons], ?_, ?_⟩
  · rw [List.dropLast_concat, List.nodup_cons, List.mem_reverse]
    exact ⟨new, List.nodup_reverse.2 (List.nodup_append.1 W.nodup).1⟩
  · -- the cycle is the part of the path up to `id`, closed by `id` and read from its first program
    obtain ⟨v, rest, hpath, hv⟩ := W.head
    have closed : (id :: (before ++ id :: after)).IsChain fun v u => Calls find u v := by
      have calls := W.calls
      rw [hpath] at calls ⊢
      exact calls.cons_cons ⟨called, hv, hid⟩
    have part : id :: (before ++ [id]) <+: id :: (before ++ id :: after) :=
      List.cons_prefix_cons.2 ⟨rfl, after, by simp⟩
    simpa using List.isChain_reverse.2 <| List.IsChain.prefix closed part

lemma leads_of_mem_cycleTo (W : Way find root path called) (hp : id ∈ path)
    (hx : x ∈ cycleTo path id) : Leads find root x := by
  unfold cycleTo at hx
  simp only [List.mem_cons, List.mem_append, List.mem_reverse, List.not_mem_nil, or_false] at hx
  rcases hx with rfl | hx | rfl
  · exact W.leads hp
  · exact W.leads (List.takeWhile_subset _ hx)
  · exact W.leads hp

end Way

/-! ### Queries -/

/-- A query that fails has met a fault. -/
lemma fault_of_transitive (valid : Valid loader.find r)
    (covers : Covers loader.find [id] loader.bound)
    (h : (r.transitive loader id).answer = .error e) : Fault loader.find id e := by
  rw [transitive_eq] at h
  rcases hk : r.closures[id]? with _ | c <;> rw [hk] at h
  swap
  · cases h
  rw [settle_answer, rooted_answer] at h
  rcases hc : calleesOf loader.find id none with e' | called <;> rw [hc] at h
  · obtain rfl := Except.error.inj h
    exact fault_of_calleesOf .root hc
  have links := calleesOf_eq_ok.1 hc
  have inside : Covers loader.find called loader.bound := fun ids nodup hids =>
    covers ids nodup fun x hx => (hids x hx).imp_right fun hw =>
      within_singleton.2 (links.reaches_iff.2 hw).to_reflTransGen
  have first : Path loader.find r id called [id] called := .start
  have ends := ends_explore (loader.bound + 1) valid first (Good.empty.note (.sought id))
  rcases ends.failed h with ⟨P, hid, hp⟩ | ⟨P, hid, he⟩ | ⟨P, deep⟩
  · have way := P.way links
    exact .cycle (way.isCycle hid hp) fun x hx => way.leads_of_mem_cycleTo hp hx
  · exact fault_of_calleesOf ((P.way links).asks hid) he
  · -- no path has more programs than can be loaded
    have := P.length_le inside
    rw [List.length_singleton] at deep
    omega

lemma resolver_of_transitive (h : (r.transitive loader id).answer = .error e) :
    (r.transitive loader id).resolver = r := by
  rw [transitive_eq] at h ⊢
  rcases hk : r.closures[id]? with _ | c
  · rw [hk] at h
    dsimp only at h ⊢
    rw [settle_answer] at h
    unfold settle
    rcases hs : (rooted loader r id).run {} with ⟨e' | c, s⟩
    · rfl
    · rw [hs] at h
      cases h
  · rfl

/-- A query succeeds just when all is in order. -/
lemma exists_answer_iff (valid : Valid loader.find r)
    (finite : Covers loader.find [id] loader.bound) :
    (∃ c, (r.transitive loader id).answer = .ok c) ↔
      ∀ x, Leads loader.find id x → Loadable loader.find x ∧ ¬ Reaches loader.find x x := by
  constructor
  · rintro ⟨c, hc⟩ x hx
    have settled := settled_of_transitive valid hc
    exact ⟨settled.loadable hx, settled.acyclic hx⟩
  · intro all
    rcases ha : (r.transitive loader id).answer with e | c
    · exact absurd all (fault_of_transitive valid finite ha).not_in_order
    · exact ⟨c, rfl⟩

/-- **Queries by id are exact**, whatever was asked before. When a program leads to finitely many
others, a query about it succeeds just when all that it leads to can be had and lies on no cycle,
and finds what it reaches. A query that fails tells a fault and leaves what is known as it was. All
that is known is true. -/
theorem transitive_exact (hr : Reachable loader r)
    (finite : Covers loader.find [id] loader.bound) :
    ((∃ c, (r.transitive loader id).answer = .ok c) ↔
      ∀ x, Leads loader.find id x → Loadable loader.find x ∧ ¬ Reaches loader.find x x) ∧
    (∀ c, (r.transitive loader id).answer = .ok c →
      (∀ x, x ∈ c ↔ Reaches loader.find id x) ∧ id ∉ c) ∧
    (∀ e, (r.transitive loader id).answer = .error e →
      Fault loader.find id e ∧ (r.transitive loader id).resolver = r) ∧
    ∀ x c, r.closures[x]? = some c → Settled loader.find x c := by
  have valid := hr.valid
  refine ⟨exists_answer_iff valid finite, fun c hc => ?_, fun e he => ?_,
    fun x c => valid.settled⟩
  · have settled := settled_of_transitive valid hc
    exact ⟨settled.mem, settled.not_mem⟩
  · exact ⟨fault_of_transitive valid finite he, resolver_of_transitive he⟩

/-- The program 1 calls 2, which calls 3, which calls 2 again; 4 calls 5, which calls nothing. -/
def knot : Loader where
  find id :=
    if id = 1 then .ok (some (caller (some 1) 2))
    else if id = 2 then .ok (some (caller (some 2) 3))
    else if id = 3 then .ok (some (caller (some 3) 2))
    else if id = 4 then .ok (some (caller (some 4) 5))
    else if id = 5 then .ok (some { body := .nil, id := some 5 })
    else .ok none
  bound := 5

lemma covers_knot : Covers knot.find top knot.bound := by
  refine covers_of_mem [1, 2, 3, 4, 5] fun x p hp => ?_
  unfold knot at hp
  by_contra hne
  simp only [List.mem_cons, List.not_mem_nil, or_false, not_or] at hne
  simp [hne] at hp

/-- A resolver that was asked about 4 reports the cycle below 1. -/
theorem transitive_exact_knot :
    ((transitive knot {} 4).resolver.transitive knot 1).answer = .error (cyclic [2, 3, 2]) ∧
    Fault knot.find 1 (cyclic [2, 3, 2]) ∧ Settled knot.find 4 [5] := by
  have finite : Covers knot.find [1] knot.bound := covers_knot
  have spec := transitive_exact (.transitive 4 .new) finite
  exact ⟨rfl, (spec.2.2.1 _ rfl).1, spec.2.2.2 4 [5] rfl⟩

end SeqAsm.Resolver
