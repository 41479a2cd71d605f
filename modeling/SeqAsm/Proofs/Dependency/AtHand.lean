import SeqAsm.Proofs.Dependency.Resolution

/-!
Queries about programs at hand.

A program at hand with an id stands in for the stored program of that id. A new resolver reports
every way back to it. A resolver that knows a stored program to lead to that id takes it as it
is, and may then accept a program that is called by what it calls.
-/

namespace SeqAsm.Resolver

variable {loader : Loader} {r : Resolver} {find : Finder} {root id x : Int}
  {top path called : List Int} {n : ℕ} {s : Search} {p : Program}

def calledBy (p : Program) : List Int :=
  match p.dependencies with
  | .ok ids => ids
  | .error _ => []

/-- The search that a query about a program at hand makes. -/
def searchFrom (loader : Loader) (r : Resolver) (root : Int) (called : List Int) :
    Except Failure (List Int) × Search :=
  (explore loader r (loader.bound + 1) [root] (Ids.ofList called)).run {}

/-- A query about a program at hand takes a stored program as known that leads back to its id. -/
def Overlooks (loader : Loader) (r : Resolver) (root : Int) (called : List Int) : Prop :=
  ∃ id, Taken loader.find r root called (searchFrom loader r root called).2 id

lemma known_of_overlooks (valid : Valid loader.find r)
    (h : Overlooks loader r root called) : root ∈ r.closures := by
  obtain ⟨id, taken⟩ := h
  obtain ⟨c, hc, hroot⟩ := taken.known
  exact valid.closed hc hroot

/-- What a query overlooks is a way back to the root. -/
lemma within_of_overlooks (valid : Valid loader.find r)
    (h : Overlooks loader r root called) : Within loader.find called root := by
  obtain ⟨id, -, ⟨c, hc, hroot⟩, hw⟩ := h
  have back : Reaches loader.find id root := ((valid.settled hc).mem root).1 hroot
  exact hw.trans back.to_reflTransGen

lemma within_ofList : Within find (Ids.ofList called) x ↔ Within find called x := by
  simp only [Within, Ids.mem_ofList]

lemma cyclic_inj {c d : List Int} (h : cyclic c = cyclic d) : c = d := by
  simpa [cyclic, Failure.of] using h

lemma ofProgram_answer (hp : p.id = some root) :
    (r.ofProgram loader p).answer = match p.dependencies with
      | .ok called => (searchFrom loader r root called).1
      | .error c => .error (.crash c) := by
  unfold ofProgram
  rw [hp]
  rcases p.dependencies with c | called
  · rfl
  · exact settle_answer _

lemma ends_searchFrom (loader : Loader) (root : Int) (called : List Int)
    (valid : Valid loader.find r) :
    Ends loader.find r root (Ids.ofList called) [root] (loader.bound + 2)
      (fun c s => Covered loader.find s.finished (Ids.ofList called) ∧
        c = closureOf s.finished (Ids.ofList called)) {} (searchFrom loader r root called) :=
  ends_explore _ valid .start Good.empty

/-- A query that succeeds finds the programs within the callees. -/
lemma mem_of_searchFrom {c : List Int} (valid : Valid loader.find r)
    (h : (searchFrom loader r root called).1 = .ok c) : x ∈ c ↔ Within loader.find called x := by
  obtain ⟨covered, rfl⟩ := (ends_searchFrom loader root called valid).done h
  rw [covered.mem, within_ofList]

lemma not_mem_of_searchFrom {c : List Int}
    (h : (searchFrom loader {} root called).1 = .ok c) : root ∉ c := by
  have ends := ends_searchFrom loader root called valid_empty
  obtain ⟨covered, rfl⟩ := ends.done h
  intro hx
  rcases ends.good.closed_of_covered covered hx with hx | hx
  · exact ends.good.apart List.mem_cons_self hx
  · simp at hx

/-- Searches one after the other add what each program reaches. -/
lemma mem_of_transitiveAll {closure c ids : List Int} (valid : Valid loader.find r)
    (h : (r.transitiveAll loader closure ids).answer = .ok c) :
    x ∈ c ↔ x ∈ closure ∨ ∃ v ∈ ids, Reaches loader.find v x := by
  induction ids generalizing r closure with
  | nil =>
    obtain rfl := Except.ok.inj h
    simp
  | cons id ids ih =>
    unfold Resolver.transitiveAll at h
    dsimp only at h
    rcases ha : (r.transitive loader id).answer with e | d <;> rw [ha] at h
    · cases h
    have settled := settled_of_transitive valid ha
    rw [ih (valid.transitive loader id) h, Ids.mem_union, settled.mem, List.exists_mem_cons_iff,
      or_assoc]

lemma mem_of_ofProgram {c : List Int} (valid : Valid loader.find r)
    (hd : p.dependencies = .ok called) (h : (r.ofProgram loader p).answer = .ok c) :
    x ∈ c ↔ Within loader.find called x := by
  rcases hp : p.id with _ | root
  · unfold Resolver.ofProgram at h
    rw [hd, hp] at h
    rw [mem_of_transitiveAll valid h, Within]
    constructor
    · rintro (hx | ⟨v, hv, hx⟩)
      · exact ⟨x, hx, .refl⟩
      · exact ⟨v, hv, hx.to_reflTransGen⟩
    · rintro ⟨v, hv, hx⟩
      rcases leads_iff.1 hx with rfl | hx
      · exact .inl hv
      · exact .inr ⟨v, hv, hx⟩
  · rw [ofProgram_answer hp, hd] at h
    exact mem_of_searchFrom valid h

lemma covers_ofList (h : Covers find called n) : Covers find (Ids.ofList called) n :=
  fun ids nodup hids => h ids nodup fun x hx => (hids x hx).imp_right within_ofList.1

section

variable (root : Int) (covers : Covers loader.find called loader.bound)

include covers

lemma compare_searchFrom (valid : Valid loader.find r) :
    Compare loader.find r root (Ids.ofList called) (searchFrom loader r root called)
      (searchFrom loader {} root called) :=
  compare_explore loader _ _ valid (covers_ofList covers) .start .empty .empty ⟨nofun, nofun⟩
    (by rw [List.length_singleton]; omega) (by rw [List.length_singleton]; omega)

/-- A query fails because of a way back to the path or because of a program that it lacks. -/
lemma reason_of_searchFrom {e : Failure} (valid : Valid loader.find r)
    (h : (searchFrom loader r root called).1 = .error e) :
    (∃ path ids id, Path loader.find r root (Ids.ofList called) path ids ∧ id ∈ path ∧
      e = cyclic (cycleTo path id)) ∨
    ∃ id referrer, Within loader.find called id ∧ calleesOf loader.find id referrer = .error e := by
  rcases (ends_searchFrom loader root called valid).failed h with
    ⟨P, -, hid⟩ | ⟨P, hid, hc⟩ | ⟨P, hl⟩
  · exact .inl ⟨_, _, _, P, hid, rfl⟩
  · exact .inr ⟨_, _, within_ofList.1 (P.within hid), hc⟩
  · have := P.length_le (covers_ofList covers)
    omega

lemma searchFrom_of_not_overlooks (valid : Valid loader.find r)
    (h : ¬ Overlooks loader r root called) :
    (searchFrom loader r root called).1 = (searchFrom loader {} root called).1 := by
  rcases compare_searchFrom root covers valid with ⟨same, -⟩ | ⟨taken, -, -⟩
  · exact same
  · exact absurd ⟨_, taken.finished, taken.known, within_ofList.1 taken.within⟩ h

lemma cyclic_of_overlooks (valid : Valid loader.find r) (h : Overlooks loader r root called) :
    ∃ id cycle, id ≠ root ∧ id ∈ r.closures ∧ id ∈ cycle ∧
      (searchFrom loader {} root called).1 = .error (cyclic cycle) := by
  have good := (ends_searchFrom loader root called valid).good
  have good' := (ends_searchFrom loader root called valid_empty).good
  rcases compare_searchFrom root covers valid with ⟨-, beside⟩ | ⟨taken, he, hx⟩
  · -- the other search cannot have finished the program that was taken as known
    obtain ⟨id, taken⟩ := h
    obtain ⟨c, hc, hroot⟩ := taken.known
    have leads := ((valid.settled hc).mem root).1 hroot
    exact absurd leads.to_reflTransGen
      (good'.not_leads (List.mem_singleton_self root) (beside.left taken.finished))
  · obtain ⟨c, hc, -⟩ := taken.known
    refine ⟨_, _, ?_, mem_iff_getElem?.2 ⟨c, hc⟩, hx, he⟩
    rintro rfl
    exact good.apart (List.mem_singleton_self _) taken.finished

/-- A cycle that a query reports has no program on it that was known, but for its root. -/
lemma not_known_of_searchFrom {cycle : List Int} (valid : Valid loader.find r)
    (hf : ∀ id e, loader.find id = .error e → e ≠ cyclic cycle)
    (h : (searchFrom loader r root called).1 = .error (cyclic cycle)) (hx : x ∈ cycle)
    (hr : x ≠ root) : x ∉ r.closures := by
  rcases reason_of_searchFrom root covers valid h with
    ⟨path, ids, id, P, hid, he⟩ | ⟨id, referrer, -, he⟩
  · have hx : x ∈ path := by
      rw [cyclic_inj he] at hx
      unfold cycleTo at hx
      simp only [List.mem_cons, List.mem_append, List.mem_reverse, List.not_mem_nil,
        or_false] at hx
      rcases hx with rfl | hx | rfl
      · exact hid
      · exact List.takeWhile_subset _ hx
      · exact hid
    intro hk
    obtain ⟨c, hc⟩ := mem_iff_getElem?.1 hk
    exact nomatch (P.above hx hr).unknown.symm.trans hc
  · unfold calleesOf at he
    rcases hid : loader.find id with e | _ | p <;> rw [hid] at he
    · exact absurd (Except.error.inj he) (hf id e hid)
    · simp [cyclic, Failure.of] at he
    · dsimp only at he
      rcases hp : p.dependencies with c | ids <;> rw [hp] at he
      · cases he
      · cases he

/-- When nothing is overlooked, a way back is a failure and a success leaves the root out. -/
lemma spec_of_not_overlooks (valid : Valid loader.find r)
    (h : ¬ Overlooks loader r root called) :
    (Within loader.find called root → ∃ e, (searchFrom loader r root called).1 = .error e ∧
      ((∃ cycle, e = cyclic cycle) ∨ ∃ id referrer, Within loader.find called id ∧
        calleesOf loader.find id referrer = .error e)) ∧
    ∀ c, (searchFrom loader r root called).1 = .ok c →
      (∀ x, x ∈ c ↔ Within loader.find called x) ∧ root ∉ c := by
  have same := searchFrom_of_not_overlooks root covers valid h
  have spec (c : List Int) (hc : (searchFrom loader r root called).1 = .ok c) :
      (∀ x, x ∈ c ↔ Within loader.find called x) ∧ root ∉ c := by
    rw [same] at hc
    exact ⟨fun x => mem_of_searchFrom valid_empty hc, not_mem_of_searchFrom hc⟩
  refine ⟨fun hw => ?_, spec⟩
  rcases he : (searchFrom loader r root called).1 with e | c
  · refine ⟨e, rfl, ?_⟩
    rcases reason_of_searchFrom root covers valid he with ⟨_, _, _, -, -, h⟩ | h
    · exact .inl ⟨_, h⟩
    · exact .inr h
  · obtain ⟨mem, back⟩ := spec c he
    exact absurd ((mem root).2 hw) back

/-- When something is overlooked, the query does not do what a new resolver does. -/
lemma ne_of_overlooks (valid : Valid loader.find r) (h : Overlooks loader r root called)
    (hf : ∀ id e, loader.find id = .error e → ∀ cycle, e ≠ cyclic cycle) :
    (searchFrom loader r root called).1 ≠ (searchFrom loader {} root called).1 := by
  obtain ⟨id, cycle, hid, known, hx, he⟩ := cyclic_of_overlooks root covers valid h
  intro same
  have none := not_known_of_searchFrom root covers valid (fun id e h => hf id e h cycle)
    (same.trans he) hx hid
  exact none known

end

/-- **What a resolver remembers and a program at hand.** As long as a query does not take a program
as known that leads back to the id of the program at hand, it has the answer that a new resolver
gives: a way back makes it fail, with a cycle unless a program cannot be had, and else it finds
the programs within the callees. When it does take such a program as known, the id is known as
well, a new resolver reports a cycle, and this query either finds another fault or accepts the
program. -/
theorem ofProgram_answer_spec (hr : Reachable loader r) (hp : p.id = some root)
    (covers : Covers loader.find (calledBy p) loader.bound) :
    (¬ Overlooks loader r root (calledBy p) →
      (r.ofProgram loader p).answer = (ofProgram loader {} p).answer ∧
      (Within loader.find (calledBy p) root → ∃ e, (r.ofProgram loader p).answer = .error e ∧
        ((∃ cycle, e = cyclic cycle) ∨ ∃ id referrer, Within loader.find (calledBy p) id ∧
          calleesOf loader.find id referrer = .error e)) ∧
      ∀ c, (r.ofProgram loader p).answer = .ok c →
        (∀ x, x ∈ c ↔ Within loader.find (calledBy p) x) ∧ root ∉ c) ∧
    (Overlooks loader r root (calledBy p) → root ∈ r.closures ∧
      (∃ cycle, (ofProgram loader {} p).answer = .error (cyclic cycle)) ∧
      ((∀ id e, loader.find id = .error e → ∀ cycle, e ≠ cyclic cycle) →
        (r.ofProgram loader p).answer ≠ (ofProgram loader {} p).answer) ∧
      ∀ c, (r.ofProgram loader p).answer = .ok c →
        (∀ x, x ∈ c ↔ Within loader.find (calledBy p) x) ∧ root ∈ c) := by
  have valid := hr.valid
  rw [ofProgram_answer hp, ofProgram_answer hp]
  rcases hd : p.dependencies with e | called
  · have none : calledBy p = [] := by rw [calledBy, hd]
    have nowhere {x : Int} : ¬ Within loader.find (calledBy p) x := by
      rw [none]
      rintro ⟨v, hv, -⟩
      cases hv
    exact ⟨fun _ => ⟨rfl, fun hw => absurd hw nowhere, nofun⟩,
      fun ⟨_, taken⟩ => absurd taken.within nowhere⟩
  have called_eq : calledBy p = called := by rw [calledBy, hd]
  rw [called_eq] at covers ⊢
  dsimp only
  refine ⟨fun h => ?_, fun h => ?_⟩
  · exact ⟨searchFrom_of_not_overlooks root covers valid h,
      spec_of_not_overlooks root covers valid h⟩
  · obtain ⟨_, cycle, -, -, -, he⟩ := cyclic_of_overlooks root covers valid h
    refine ⟨known_of_overlooks valid h, ⟨cycle, he⟩, ne_of_overlooks root covers valid h,
      fun c hc => ⟨fun x => mem_of_searchFrom valid hc, ?_⟩⟩
    rw [mem_of_searchFrom valid hc]
    exact within_of_overlooks valid h

/-! ### A cycle that is missed -/

def caller (id : Option Int) (callee : Int) : Program :=
  { body := .instr ⟨.seq, [.reg 0, .const callee]⟩ 1 .nil, id }

/-- A program with the id 1 that calls nothing, and one with the id 2 that calls it. -/
def pair : Loader where
  find id :=
    if id = 1 then .ok (some { body := .nil, id := some 1 })
    else if id = 2 then .ok (some (caller (some 2) 1))
    else .ok none
  bound := 2

/-- A resolver that was asked about the second program. -/
def asked : Resolver := (transitive pair {} 2).resolver

/-- Programs with ids from a list are no more than the list has entries. -/
lemma covers_of_mem (ids : List Int) (h : ∀ x p, find x = .ok (some p) → x ∈ ids) :
    Covers find top ids.length := by
  intro found nodup hfound
  have inside : found ⊆ ids := by
    intro x hx
    obtain ⟨_, p, hp, -⟩ := (hfound x hx).1
    exact h x p hp
  exact (List.subperm_of_subset nodup inside).length_le

lemma covers_pair : Covers pair.find top pair.bound := by
  refine covers_of_mem [1, 2] fun x p hp => ?_
  unfold pair at hp
  by_contra hne
  simp only [List.mem_cons, List.not_mem_nil, or_false, not_or] at hne
  simp [hne] at hp

lemma overlooks_asked : Overlooks pair asked 1 [2] := by
  refine ⟨2, ?_, ⟨[1], rfl, by decide⟩, within_of_mem (List.mem_singleton_self 2)⟩
  exact mem_iff_getElem?.2 ⟨[1], rfl⟩

/-- The first program is at hand in a version that calls the second, which a new resolver
reports. -/
theorem ofProgram_answer_spec_pair : ∃ cycle,
    (ofProgram pair {} (caller (some 1) 2)).answer = .error (cyclic cycle) :=
  have reachable : Reachable pair asked := .transitive 2 .new
  ((ofProgram_answer_spec (p := caller (some 1) 2) reachable rfl covers_pair).2
    overlooks_asked).2.1

/-- A resolver that was asked about the second program before accepts it. -/
theorem ofProgram_misses_cycle : Reachable pair asked ∧ Within pair.find [2] 1 ∧
    (ofProgram pair {} (caller (some 1) 2)).answer = .error (cyclic [1, 2, 1]) ∧
    (asked.ofProgram pair (caller (some 1) 2)).answer = .ok [1, 2] := by
  refine ⟨.transitive 2 .new, ⟨2, List.mem_singleton_self 2, .single ⟨[1], ?_, ?_⟩⟩, rfl, rfl⟩
  · exact ⟨caller (some 2) 1, rfl, rfl⟩
  · exact List.mem_singleton_self 1

end SeqAsm.Resolver
