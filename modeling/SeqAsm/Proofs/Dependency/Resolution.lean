import SeqAsm.Proofs.Dependency.Memo

/-!
The queries of a resolver.

Whatever queries were made before, what a resolver knows is true. So a query by id has the
answer that a new resolver gives. A program at hand with an id is different: it stands in for
the stored program of that id, which other programs may be known to lead to.
-/

namespace SeqAsm.Resolver

variable {loader : Loader} {r : Resolver} {find : Finder} {root id x : Int}
  {top path called ids : List Int} {fuel n m : ℕ} {s t : Search}

/-! ### What is kept -/

lemma getElem?_foldl_insert {c : List Int} {l : List (Int × List Int)} {base : Closures}
    (h : (l.foldl (fun m p => m.insert p.1 p.2) base)[x]? = some c) :
    (x, c) ∈ l ∨ base[x]? = some c := by
  induction l generalizing base with
  | nil => exact .inr h
  | cons p l ih =>
    rcases ih h with h | h
    · exact .inl (List.mem_cons_of_mem _ h)
    · simp only [Std.ExtTreeMap.getElem?_insert, Std.compare_eq_iff_eq] at h
      split at h
      · rename_i hp
        obtain rfl := Option.some.inj h
        exact .inl (hp ▸ List.mem_cons_self)
      · exact .inr h

lemma mem_foldl_insert {l : List (Int × List Int)} {base : Closures}
    (h : x ∈ base ∨ ∃ c, (x, c) ∈ l) : x ∈ l.foldl (fun m p => m.insert p.1 p.2) base := by
  induction l generalizing base with
  | nil => exact h.resolve_right fun ⟨_, h⟩ => nomatch h
  | cons p l ih =>
    refine ih ?_
    rw [Std.ExtTreeMap.mem_insert, Std.compare_eq_iff_eq]
    rcases h with h | ⟨c, h⟩
    · exact .inl (.inr h)
    · rcases List.mem_cons.1 h with rfl | h
      · exact .inl (.inl rfl)
      · exact .inr ⟨c, h⟩

lemma settle_answer (search : SearchM (List Int)) :
    (r.settle search).answer = (search.run {}).1 := by
  unfold settle
  rcases search.run {} with ⟨_ | _, _⟩ <;> rfl

/-- A search that goes well leaves true closures behind. -/
lemma Valid.settle (valid : Valid find r) {search : SearchM (List Int)}
    (h : Good find r top path (search.run {}).2) : Valid find (r.settle search).resolver := by
  unfold Resolver.settle
  rcases hs : search.run {} with ⟨e | c, s⟩ <;> rw [hs] at h
  · exact valid
  have mem {x : Int} : x ∈ s.finished ∨ x ∈ r.closures ↔
      x ∈ s.finished.toList.foldl (fun m p => m.insert p.1 p.2) r.closures := by
    constructor
    · intro hx
      refine mem_foldl_insert (hx.symm.imp_right fun hx => ?_)
      obtain ⟨c, hc⟩ := mem_iff_getElem?.1 hx
      exact ⟨c, Std.ExtTreeMap.mem_toList_iff_getElem?_eq_some.2 hc⟩
    · intro hx
      obtain ⟨c, hc⟩ := mem_iff_getElem?.1 hx
      refine (getElem?_foldl_insert hc).imp (fun hx => ?_) fun hx => mem_iff_getElem?.2 ⟨c, hx⟩
      exact mem_iff_getElem?.2 ⟨c, Std.ExtTreeMap.mem_toList_iff_getElem?_eq_some.1 hx⟩
  constructor
  · intro id c hc
    dsimp only at hc
    rw [Std.ExtTreeMap.foldl_eq_foldl_toList] at hc
    rcases getElem?_foldl_insert hc with hc | hc
    · exact h.settled (Std.ExtTreeMap.mem_toList_iff_getElem?_eq_some.1 hc)
    · exact valid.settled hc
  · intro id x c hc hx
    dsimp only at hc ⊢
    rw [Std.ExtTreeMap.foldl_eq_foldl_toList] at hc ⊢
    refine mem.1 ?_
    rcases getElem?_foldl_insert hc with hc | hc
    · exact h.closed (Std.ExtTreeMap.mem_toList_iff_getElem?_eq_some.1 hc) hx
    · exact .inr (valid.closed hc hx)

/-! ### Queries by id -/

/-- The search for the dependencies of a stored program. -/
def rooted (loader : Loader) (r : Resolver) (id : Int) : SearchM (List Int) := do
  let called ← children loader id none
  let closure ← explore loader r (loader.bound + 1) [id] called
  modify fun s => { s with finished := s.finished.insert id closure }
  return closure

lemma transitive_eq : r.transitive loader id = match r.closures[id]? with
    | some closure => ⟨.ok closure, r, [.known id]⟩
    | none => r.settle (rooted loader r id) := rfl

lemma run_rooted : (rooted loader r id).run {} =
    match calleesOf loader.find id none with
    | .error e => (.error e, Search.note {} (.sought id))
    | .ok called => match (explore loader r (loader.bound + 1) [id] called).run
        (Search.note {} (.sought id)) with
      | (.ok c, s) => (.ok c, s.finish id c)
      | (.error e, s) => (.error e, s) := by
  unfold rooted
  rw [run_bind, run_children]
  rcases calleesOf loader.find id none with e | called
  · rfl
  · dsimp only
    rw [run_bind]
    rcases (explore loader r (loader.bound + 1) [id] called).run (Search.note {} (.sought id)) with
      ⟨_ | _, _⟩
    · rfl
    · rfl

lemma rooted_answer : ((rooted loader r id).run {}).1 =
    match calleesOf loader.find id none with
    | .error e => .error e
    | .ok called => ((explore loader r (loader.bound + 1) [id] called).run
        (Search.note {} (.sought id))).1 := by
  rw [run_rooted]
  rcases calleesOf loader.find id none with e | called
  · rfl
  · dsimp only
    rcases (explore loader r (loader.bound + 1) [id] called).run (Search.note {} (.sought id)) with
      ⟨_ | _, _⟩
    · rfl
    · rfl

lemma ends_rooted (valid : Valid loader.find r) (hk : r.closures[id]? = none) :
    Good loader.find r [id] [] ((rooted loader r id).run {}).2 ∧
      ∀ c, ((rooted loader r id).run {}).1 = .ok c → Settled loader.find id c := by
  rw [run_rooted]
  rcases hc : calleesOf loader.find id none with e | called
  · exact ⟨Good.empty.note _, nofun⟩
  have links := calleesOf_eq_ok.1 hc
  have P : Path loader.find r id called [id] called := .start
  have ends := ends_explore (loader.bound + 1) valid P (Good.empty.note (.sought id))
  have wider (x : Int) (hx : Within loader.find called x) : Within loader.find [id] x :=
    within_singleton.2 (links.reaches_iff.2 hx).to_reflTransGen
  dsimp only
  rcases hr : (explore loader r (loader.bound + 1) [id] called).run (Search.note {} (.sought id))
    with ⟨e | c, s⟩ <;> rw [hr] at ends
  · exact ⟨ends.good.widen wider, nofun⟩
  obtain ⟨covered, hc⟩ := ends.done rfl
  dsimp only at covered hc
  subst hc
  have settled := ends.good.settled_closure List.mem_cons_self hk links covered
  have kept : Good loader.find r [id] [] (s.finish id (closureOf s.finished called)) :=
    (ends.good.widen wider).finish settled (fun _ hx => ends.good.closed_of_covered covered hx)
      List.not_mem_nil (within_singleton.2 .refl)
  refine ⟨kept, fun c hc => ?_⟩
  obtain rfl := Except.ok.inj hc
  exact settled

theorem Valid.transitive (loader : Loader) (valid : Valid loader.find r) (id : Int) :
    Valid loader.find (r.transitive loader id).resolver := by
  rw [transitive_eq]
  rcases hk : r.closures[id]? with _ | c
  · exact valid.settle (ends_rooted valid hk).1
  · exact valid

lemma settled_of_transitive {c : List Int} (valid : Valid loader.find r)
    (h : (r.transitive loader id).answer = .ok c) : Settled loader.find id c := by
  rw [transitive_eq] at h
  rcases hk : r.closures[id]? with _ | d <;> rw [hk] at h
  · rw [settle_answer] at h
    exact (ends_rooted valid hk).2 c h
  · obtain rfl := Except.ok.inj h
    exact valid.settled hk

lemma Bounds.covers (h : Bounds find n) (top : List Int) : Covers find top n :=
  fun ids nodup hids => h ids nodup fun x hx => (hids x hx).1

/-- How long a path may become is all that the bound of a loader is for. -/
lemma explore_congr :
    explore ⟨find, n⟩ r fuel path called = explore ⟨find, m⟩ r fuel path called := by
  induction fuel generalizing path called with
  | zero => rfl
  | succ fuel ih =>
    unfold explore
    simp only [ih]
    rfl

lemma Bounds.min (hn : Bounds find n) (hm : Bounds find m) : Bounds find (min n m) :=
  fun ids nodup h => Nat.le_min.2 ⟨hn ids nodup h, hm ids nodup h⟩

/-- A search from a root with what is known, and one without. -/
lemma compare_start (root : Int) (top : List Int) (valid : Valid find r) (hn : Bounds find n)
    (hm : Bounds find m) (fs fs' : List Finding) :
    Compare find r root top
      ((explore ⟨find, n⟩ r (n + 1) [root] top).run { findings := fs })
      ((explore ⟨find, m⟩ {} (m + 1) [root] top).run { findings := fs' }) := by
  have good {r : Resolver} (fs : List Finding) :
      Good find r top [root] { findings := fs } := ⟨nofun, nofun, fun _ => nofun, nofun⟩
  rw [explore_congr (n := m) (m := n)]
  exact compare_explore ⟨find, n⟩ _ _ valid ((hn.min hm).covers top) .start (good fs) (good fs')
    ⟨nofun, nofun⟩ (by rw [List.length_singleton]; omega) (by rw [List.length_singleton]; omega)

lemma rooted_of_settled {c : List Int} (hm : Bounds find m) (hs : Settled find id c) :
    ((rooted ⟨find, m⟩ {} id).run {}).1 = .ok c := by
  obtain ⟨called, links⟩ := hs.links
  have P : Path find {} id called [id] called := .start
  have callees : ∀ v ∈ called, ∃ c, Settled find v c :=
    fun v hv => hs.of_leads (.single ⟨called, links, hv⟩)
  have fuel : m + 1 < m + 1 + [id].length := by
    rw [List.length_singleton]
    omega
  have meets := meets_explore ⟨find, m⟩ (hm.covers called) P callees
    (Good.empty.note (.sought id)) fuel
  obtain ⟨⟨a, ha⟩, -⟩ := meets.through fun hw => hs.acyclic .refl (links.reaches_iff.2 hw)
  have found : ((rooted ⟨find, m⟩ {} id).run {}).1 = .ok a := by
    rw [rooted_answer, calleesOf_eq_ok.2 links]
    exact ha
  rw [found, hs.unique ((ends_rooted valid_empty Std.ExtTreeMap.getElem?_empty).2 a found)]

/-- **A query by id has one answer.** What was asked before makes no difference to it. -/
theorem transitive_answer (valid : Valid find r) (hn : Bounds find n) (hm : Bounds find m)
    (id : Int) :
    (r.transitive ⟨find, n⟩ id).answer = (transitive ⟨find, m⟩ {} id).answer := by
  rw [transitive_eq, transitive_eq, Std.ExtTreeMap.getElem?_empty]
  rcases hk : r.closures[id]? with _ | c
  · dsimp only
    rw [settle_answer, settle_answer, rooted_answer, rooted_answer]
    dsimp only
    rcases calleesOf find id none with e | called
    · rfl
    rcases compare_start id called valid hn hm [.sought id] [.sought id] with
      ⟨same, -⟩ | ⟨taken, -, -⟩
    · exact same
    · -- what leads back to a program is known only if that program is
      obtain ⟨c, hc, hid⟩ := taken.known
      exact absurd (valid.closed hc hid) (not_mem_of_getElem? hk)
  · dsimp only
    rw [settle_answer, rooted_of_settled hm (valid.settled hk)]

lemma transitive_of_settled {c : List Int} (valid : Valid find r) (hn : Bounds find n)
    (hs : Settled find id c) : (r.transitive ⟨find, n⟩ id).answer = .ok c := by
  rw [transitive_answer valid hn hn, transitive_eq, Std.ExtTreeMap.getElem?_empty]
  dsimp only
  rw [settle_answer, rooted_of_settled hn hs]

/-! ### Queries about programs at hand -/

theorem Valid.transitiveFrom (loader : Loader) (valid : Valid loader.find r) (id : Int)
    (called : List Int) : Valid loader.find (r.transitiveFrom loader id called).resolver :=
  valid.settle (ends_explore _ valid .start Good.empty).good

theorem Valid.transitiveAll (loader : Loader) (valid : Valid loader.find r)
    (closure ids : List Int) : Valid loader.find (r.transitiveAll loader closure ids).resolver := by
  induction ids generalizing r closure with
  | nil => exact valid
  | cons id ids ih =>
    have first := valid.transitive loader id
    unfold Resolver.transitiveAll
    dsimp only
    split
    · exact first
    · exact ih first _

theorem Valid.ofProgram (loader : Loader) (valid : Valid loader.find r) (p : Program) :
    Valid loader.find (r.ofProgram loader p).resolver := by
  unfold Resolver.ofProgram
  split
  · exact valid
  · split
    · exact valid.transitiveFrom loader _ _
    · exact valid.transitiveAll loader _ _

lemma settled_of_transitiveAll {closure c : List Int} (valid : Valid loader.find r)
    (h : (r.transitiveAll loader closure ids).answer = .ok c) :
    ∀ v ∈ ids, ∃ d, Settled loader.find v d := by
  induction ids generalizing r closure with
  | nil => exact fun v hv => nomatch hv
  | cons id ids ih =>
    unfold Resolver.transitiveAll at h
    dsimp only at h
    rcases ha : (r.transitive loader id).answer with e | d <;> rw [ha] at h
    · cases h
    intro v hv
    rcases List.mem_cons.1 hv with rfl | hv
    · exact ⟨d, settled_of_transitive valid ha⟩
    · exact ih (valid.transitive loader id) h v hv

lemma settled_of_ofProgram (loader : Loader) {p : Program} {c : List Int}
    (valid : Valid loader.find r)
    (h : (r.ofProgram loader p).answer = .ok c) : ∃ called, p.dependencies = .ok called ∧
      ∀ v ∈ called, ∃ d, Settled loader.find v d := by
  unfold Resolver.ofProgram at h
  rcases hd : p.dependencies with e | called <;> rw [hd] at h
  · cases h
  refine ⟨called, rfl, ?_⟩
  rcases hp : p.id with _ | id <;> rw [hp] at h
  · exact settled_of_transitiveAll valid h
  · dsimp only at h
    rw [Resolver.transitiveFrom, settle_answer] at h
    obtain ⟨covered, -⟩ := (ends_explore _ valid .start Good.empty).done h
    intro v hv
    obtain ⟨d, -, hs⟩ := covered v (Ids.mem_ofList.2 hv)
    exact ⟨d, hs⟩

lemma transitiveAll_answer {r' : Resolver} (valid : Valid find r) (valid' : Valid find r')
    (hn : Bounds find n) (hm : Bounds find m) (closure ids : List Int) :
    (r.transitiveAll ⟨find, n⟩ closure ids).answer =
      (r'.transitiveAll ⟨find, m⟩ closure ids).answer := by
  induction ids generalizing r r' closure with
  | nil => rfl
  | cons id ids ih =>
    have same := (transitive_answer valid hn hm id).trans (transitive_answer valid' hm hm id).symm
    unfold Resolver.transitiveAll
    dsimp only
    rw [same]
    rcases (r'.transitive ⟨find, m⟩ id).answer with e | c
    · rfl
    · exact ih (valid.transitive ⟨find, n⟩ id) (valid'.transitive ⟨find, m⟩ id) _

/-- **A query about a stored program has one answer**, and so has one about a program without an
id. -/
theorem ofProgram_answer_stored {p : Program} (valid : Valid find r) (hn : Bounds find n)
    (hm : Bounds find m) (hp : ∀ id, p.id = some id → find id = .ok (some p)) :
    (r.ofProgram ⟨find, n⟩ p).answer = (ofProgram ⟨find, m⟩ {} p).answer := by
  unfold Resolver.ofProgram
  rcases hd : p.dependencies with e | called
  · rfl
  rcases hid : p.id with _ | id
  · exact transitiveAll_answer valid valid_empty hn hm _ _
  have links : Links find id called := ⟨p, hp id hid, hd⟩
  dsimp only
  rw [Resolver.transitiveFrom, Resolver.transitiveFrom, settle_answer, settle_answer]
  rcases compare_start id (Ids.ofList called) valid hn hm [] [] with
    ⟨same, -⟩ | ⟨taken, -, -⟩
  · exact same
  · -- what is known lies on no cycle
    obtain ⟨v, hv, hl⟩ := taken.within
    obtain ⟨c, hc, hroot⟩ := taken.known
    have settled := valid.settled hc
    have there := (settled.mem id).1 hroot
    have back := links.reaches_iff.2 ⟨v, Ids.mem_ofList.1 hv, hl⟩
    exact absurd (back.trans there) (settled.acyclic there.to_reflTransGen)

/-- The resolvers that queries lead to. -/
inductive Reachable (loader : Loader) : Resolver → Prop
  | new : Reachable loader {}
  | transitive {r : Resolver} (id : Int) : Reachable loader r →
      Reachable loader (r.transitive loader id).resolver
  | transitiveFrom {r : Resolver} (id : Int) (called : List Int) : Reachable loader r →
      Reachable loader (r.transitiveFrom loader id called).resolver
  | ofProgram {r : Resolver} (p : Program) : Reachable loader r →
      Reachable loader (r.ofProgram loader p).resolver

/-- **What a resolver knows is true**, whatever it was asked and whatever failed. -/
theorem Reachable.valid (h : Reachable loader r) : Valid loader.find r := by
  induction h with
  | new => exact valid_empty
  | transitive id _ ih => exact ih.transitive loader id
  | transitiveFrom id called _ ih => exact ih.transitiveFrom loader id called
  | ofProgram p _ ih => exact ih.ofProgram loader p

end SeqAsm.Resolver
