import SeqAsm.Proofs.Dependency.AtHand

/-!
Which programs a resolver loads.

A search looks for a program only when it is neither on the path nor finished nor known
beforehand. What it has looked for is from then on on its path or finished, so it looks for no
program twice, however it ends. A search that succeeds has finished all that it has looked for,
and what it has finished is known to the searches after it. The programs that were looked for are
also all that the replies of a resolver depend on; so it does not matter what becomes of a program
that is known.
-/

namespace SeqAsm.Resolver

open Finding (soughtIds)

variable {loader : Loader} {r : Resolver} {id x : Int} {held path called : List Int} {fuel : ℕ}
  {s : Search} {α : Type}

/-! ### Searches -/

/-- The programs that a search has looked for, the last one first. -/
def Search.sought (s : Search) : List Int := soughtIds s.findings

@[simp] lemma sought_note_cycle (cycle : List Int) : (s.note (.cycle cycle)).sought = s.sought :=
  rfl

@[simp] lemma sought_finish (c : List Int) : (s.finish id c).sought = s.sought := rfl

/-- A search has looked for no program twice, for none that was known beforehand and for none of
the programs that were on its path from the start. -/
structure Fresh (r : Resolver) (held : List Int) (s : Search) : Prop where
  nodup : s.sought.Nodup
  unknown {x : Int} : x ∈ s.sought → x ∉ r.closures
  apart {x : Int} : x ∈ s.sought → x ∉ held

/-- What a search has looked for is on its path or finished. -/
def Placed (path : List Int) (s : Search) : Prop := ∀ x ∈ s.sought, x ∈ path ∨ x ∈ s.finished

/-- How a search ends: it has looked for nothing twice, and if it succeeds, what it has looked for
has its place. -/
structure Frugal (r : Resolver) (held path : List Int) (out : Except Failure α × Search) :
    Prop where
  fresh : Fresh r held out.2
  placed {a : α} : out.1 = .ok a → Placed path out.2

lemma Placed.not_mem (h : Placed path s) (hp : id ∉ path) (hf : id ∉ s.finished) :
    id ∉ s.sought := by
  intro hs
  rcases h id hs with hs | hs
  · exact hp hs
  · exact hf hs

lemma Placed.descend (h : Placed path s) (id : Int) :
    Placed (id :: path) (s.note (.sought id)) := by
  intro x hx
  rcases List.mem_cons.1 hx with rfl | hx
  · exact .inl List.mem_cons_self
  · exact (h x hx).imp_left (List.mem_cons_of_mem id)

lemma Placed.ascend (h : Placed (id :: path) s) (c : List Int) : Placed path (s.finish id c) := by
  intro x hx
  rw [mem_finish]
  rcases h x hx with hx | hx
  · rcases List.mem_cons.1 hx with rfl | hx
    · exact .inr (.inl rfl)
    · exact .inl hx
  · exact .inr (.inr hx)

lemma Placed.finish (h : Placed path s) (id : Int) (c : List Int) :
    Placed path (s.finish id c) :=
  fun x hx => (h x hx).imp_right fun hf => mem_finish.2 (.inr hf)

lemma Fresh.seek (h : Fresh r held s) (new : id ∉ s.sought) (hk : r.closures[id]? = none)
    (hh : id ∉ held) : Fresh r held (s.note (.sought id)) where
  nodup := List.nodup_cons.2 ⟨new, h.nodup⟩
  unknown hx := by
    rcases List.mem_cons.1 hx with rfl | hx
    · exact not_mem_of_getElem? hk
    · exact h.unknown hx
  apart hx := by
    rcases List.mem_cons.1 hx with rfl | hx
    · exact hh
    · exact h.apart hx

/-- Only what was looked for matters. -/
lemma Fresh.of_sought {s' : Search} (h : Fresh r held s) (same : s'.sought = s.sought) :
    Fresh r held s' where
  nodup := same ▸ h.nodup
  unknown hx := h.unknown (same ▸ hx)
  apart hx := h.apart (same ▸ hx)

lemma fresh_empty : Fresh r held {} := ⟨List.nodup_nil, nofun, nofun⟩

lemma placed_empty : Placed path {} := fun _ hx => absurd hx List.not_mem_nil

lemma frugal_forM {f : Int → SearchM Unit} {ids : List Int}
    (step : ∀ id ∈ ids, ∀ s, Fresh r held s → Placed path s → Frugal r held path ((f id).run s))
    (h : Fresh r held s) (hp : Placed path s) : Frugal r held path ((ids.forM f).run s) := by
  induction ids generalizing s with
  | nil => exact ⟨h, fun _ => hp⟩
  | cons id ids ih =>
    have first := step id List.mem_cons_self s h hp
    rw [run_forM_cons]
    rcases hf : (f id).run s with ⟨e | _, s'⟩ <;> rw [hf] at first
    · exact ⟨first.fresh, nofun⟩
    · exact ih (fun v hv => step v (List.mem_cons_of_mem id hv)) first.fresh (first.placed rfl)

/-- One callee: a program is looked for only when it is new to the search and to the resolver. -/
lemma frugal_visit (sub : held ⊆ path)
    (deeper : ∀ {path called : List Int} {s : Search}, held ⊆ path → Fresh r held s →
      Placed path s → Frugal r held path ((explore loader r fuel path called).run s))
    (h : Fresh r held s) (placed : Placed path s) (id : Int) :
    Frugal r held path ((visit loader r fuel path id).run s) := by
  rw [run_visit]
  by_cases hp : id ∈ path
  · rw [if_pos hp]
    exact ⟨h.of_sought (sought_note_cycle _), nofun⟩
  rw [if_neg hp]
  by_cases hf : id ∈ s.finished
  · rw [if_pos hf]
    exact ⟨h, fun _ => placed⟩
  rw [if_neg hf]
  rcases hk : r.closures[id]? with _ | c
  · have sought : Fresh r held (s.note (.sought id)) :=
      h.seek (placed.not_mem hp hf) hk fun hh => hp (sub hh)
    rcases calleesOf loader.find id path.head? with e | next
    · exact ⟨sought, nofun⟩
    have inner : Frugal r held (id :: path)
        ((explore loader r fuel (id :: path) next).run (s.note (.sought id))) :=
      deeper (fun _ hx => List.mem_cons_of_mem id (sub hx)) sought (placed.descend id)
    dsimp only
    rcases he : (explore loader r fuel (id :: path) next).run (s.note (.sought id)) with ⟨e | c, s'⟩
      <;> rw [he] at inner
    · exact ⟨inner.fresh, nofun⟩
    · have done := inner.placed rfl
      exact ⟨inner.fresh.of_sought (sought_finish c), fun _ => done.ascend c⟩
  · exact ⟨h.of_sought (sought_finish c), fun _ => placed.finish id c⟩

/-- **A search looks for no program twice**, whether it succeeds or not. -/
theorem frugal_explore (loader : Loader) (fuel : ℕ) (sub : held ⊆ path) (called : List Int)
    (h : Fresh r held s) (placed : Placed path s) :
    Frugal r held path ((explore loader r fuel path called).run s) := by
  induction fuel generalizing path called s with
  | zero => exact ⟨h, nofun⟩
  | succ fuel ih =>
    have all : Frugal r held path ((called.forM (visit loader r fuel path)).run s) :=
      frugal_forM (fun id _ s hs ps => frugal_visit sub (fun sub => ih sub _) hs ps id) h placed
    rw [run_explore_succ]
    rcases hr : (called.forM (visit loader r fuel path)).run s with ⟨e | _, s'⟩ <;> rw [hr] at all
    · exact ⟨all.fresh, nofun⟩
    · exact ⟨all.fresh, fun _ => all.placed rfl⟩

lemma frugal_rooted (loader : Loader) (hk : r.closures[id]? = none) :
    Frugal r [] [] ((rooted loader r id).run {}) := by
  have root : Fresh r [] (Search.note {} (.sought id)) :=
    fresh_empty.seek List.not_mem_nil hk List.not_mem_nil
  have placed : Placed [id] (Search.note {} (.sought id)) := placed_empty.descend id
  rw [run_rooted]
  rcases calleesOf loader.find id none with e | called
  · exact ⟨root, nofun⟩
  have inner := frugal_explore loader (loader.bound + 1) (List.nil_subset [id]) called root placed
  dsimp only
  rcases he : (explore loader r (loader.bound + 1) [id] called).run (Search.note {} (.sought id))
    with ⟨e | c, s⟩ <;> rw [he] at inner
  · exact ⟨inner.fresh, nofun⟩
  · have done := inner.placed rfl
    exact ⟨inner.fresh.of_sought (sought_finish c), fun _ => done.ascend c⟩

/-! ### Queries -/

/-- What a query looks for, and what is known after it. -/
structure Sparing (r : Resolver) (a : Resolution) : Prop where
  nodup : (soughtIds a.findings).Nodup
  unknown {x : Int} : x ∈ soughtIds a.findings → x ∉ r.closures
  grows {x : Int} : x ∈ r.closures → x ∈ a.resolver.closures
  known {x : Int} {c : List Int} : a.answer = .ok c → x ∈ soughtIds a.findings →
    x ∈ a.resolver.closures

@[simp] lemma soughtIds_append (fs gs : List Finding) :
    soughtIds (fs ++ gs) = soughtIds fs ++ soughtIds gs := List.filterMap_append

@[simp] lemma soughtIds_reverse (fs : List Finding) :
    soughtIds fs.reverse = (soughtIds fs).reverse := List.filterMap_reverse

/-- What a search that succeeds leaves behind: what it has finished, beside what was known. -/
lemma mem_kept : x ∈ s.finished.foldl (fun m id c => m.insert id c) r.closures ↔
    x ∈ s.finished ∨ x ∈ r.closures := by
  rw [Std.ExtTreeMap.foldl_eq_foldl_toList]
  constructor
  · intro hx
    obtain ⟨c, hc⟩ := mem_iff_getElem?.1 hx
    refine (getElem?_foldl_insert hc).imp (fun hm => ?_) fun hr => mem_iff_getElem?.2 ⟨c, hr⟩
    exact mem_iff_getElem?.2 ⟨c, Std.ExtTreeMap.mem_toList_iff_getElem?_eq_some.1 hm⟩
  · intro hx
    refine mem_foldl_insert (hx.symm.imp_right fun hf => ?_)
    obtain ⟨c, hc⟩ := mem_iff_getElem?.1 hf
    exact ⟨c, Std.ExtTreeMap.mem_toList_iff_getElem?_eq_some.2 hc⟩

lemma soughtIds_settle (r : Resolver) (search : SearchM (List Int)) :
    soughtIds (r.settle search).findings = (search.run {}).2.sought.reverse := by
  unfold settle Search.sought
  rcases search.run {} with ⟨_ | _, s⟩ <;> exact soughtIds_reverse s.findings

/-- A search whose path holds in the end what it held from the start. -/
lemma Frugal.settle {search : SearchM (List Int)} (h : Frugal r held held (search.run {})) :
    Sparing r (r.settle search) where
  nodup := by
    rw [soughtIds_settle]
    exact List.nodup_reverse.2 h.fresh.nodup
  unknown hx := by
    rw [soughtIds_settle, List.mem_reverse] at hx
    exact h.fresh.unknown hx
  grows hx := by
    unfold Resolver.settle
    rcases search.run {} with ⟨e | c, s⟩
    · exact hx
    · exact mem_kept.2 (.inr hx)
  known {x c} ha hx := by
    rw [settle_answer] at ha
    rw [soughtIds_settle, List.mem_reverse] at hx
    have finished : x ∈ (search.run {}).2.finished :=
      (h.placed ha x hx).resolve_left (h.fresh.apart hx)
    unfold Resolver.settle
    rcases hs : search.run {} with ⟨e | c, s⟩ <;> rw [hs] at ha finished
    · cases ha
    · exact mem_kept.2 (.inl finished)

lemma sparing_of_nil {a : Resolution} (none : soughtIds a.findings = []) (kept : a.resolver = r) :
    Sparing r a where
  nodup := none ▸ List.nodup_nil
  unknown hx := absurd (none ▸ hx) List.not_mem_nil
  grows hx := kept ▸ hx
  known _ hx := absurd (none ▸ hx) List.not_mem_nil

lemma sparing_transitive (loader : Loader) (r : Resolver) (id : Int) :
    Sparing r (r.transitive loader id) := by
  rw [transitive_eq]
  rcases hk : r.closures[id]? with _ | c
  · exact (frugal_rooted loader hk).settle
  · exact sparing_of_nil rfl rfl

lemma sparing_transitiveFrom (loader : Loader) (r : Resolver) (id : Int) (called : List Int) :
    Sparing r (r.transitiveFrom loader id called) :=
  (frugal_explore loader _ (List.Subset.refl [id]) _ fresh_empty placed_empty).settle

/-- A query after one that succeeded looks for none of the programs that the first looked for. -/
lemma Sparing.append {a b : Resolution} {c : List Int} (h : Sparing r a)
    (ha : a.answer = .ok c) (h' : Sparing a.resolver b) :
    Sparing r { b with findings := a.findings ++ b.findings } where
  nodup := by
    rw [soughtIds_append]
    refine List.nodup_append'.2 ⟨h.nodup, h'.nodup, fun x hx hx' => ?_⟩
    exact h'.unknown hx' (h.known ha hx)
  unknown hx := by
    rw [soughtIds_append, List.mem_append] at hx
    rcases hx with hx | hx
    · exact h.unknown hx
    · exact fun hr => h'.unknown hx (h.grows hr)
  grows hx := h'.grows (h.grows hx)
  known hb hx := by
    rw [soughtIds_append, List.mem_append] at hx
    rcases hx with hx | hx
    · exact h'.grows (h.known ha hx)
    · exact h'.known hb hx

lemma sparing_transitiveAll (loader : Loader) (r : Resolver) (closure ids : List Int) :
    Sparing r (r.transitiveAll loader closure ids) := by
  induction ids generalizing r closure with
  | nil => exact sparing_of_nil rfl rfl
  | cons id ids ih =>
    have first := sparing_transitive loader r id
    unfold transitiveAll
    dsimp only
    rcases ha : (r.transitive loader id).answer with e | c
    · dsimp only
      rwa [← ha]
    · exact first.append ha (ih _ _)

lemma sparing_ofProgram (loader : Loader) (r : Resolver) (p : Program) :
    Sparing r (r.ofProgram loader p) := by
  unfold ofProgram
  rcases p.dependencies with e | called
  · exact sparing_of_nil rfl rfl
  rcases p.id with _ | id
  · exact sparing_transitiveAll loader r called called
  · exact sparing_transitiveFrom loader r id called

/-- What a resolver may be asked for. -/
inductive Request where
  /-- The dependencies of a stored program. -/
  | stored (id : Int)
  /-- The dependencies of a program with an id that calls the given programs. -/
  | calling (id : Int) (called : List Int)
  /-- The dependencies of a program at hand. -/
  | atHand (p : Program)

def Request.reply (loader : Loader) (r : Resolver) : Request → Resolution
  | .stored id => r.transitive loader id
  | .calling id called => r.transitiveFrom loader id called
  | .atHand p => r.ofProgram loader p

/-- What a resolver replies to requests that are made one after the other. -/
def replies (loader : Loader) (r : Resolver) : List Request → List Resolution
  | [] => []
  | q :: qs => q.reply loader r :: replies loader (q.reply loader r).resolver qs

lemma mem_replies_cons {q : Request} {qs : List Request} {a : Resolution} :
    a ∈ replies loader r (q :: qs) ↔
      a = q.reply loader r ∨ a ∈ replies loader (q.reply loader r).resolver qs := List.mem_cons

/-- **One request** makes a resolver look for no program twice and for none that it knows. What it
has looked for is known afterwards if the request succeeds. -/
theorem sparing_reply (loader : Loader) (r : Resolver) (q : Request) :
    Sparing r (q.reply loader r) := by
  rcases q with id | ⟨id, called⟩ | p
  · exact sparing_transitive loader r id
  · exact sparing_transitiveFrom loader r id called
  · exact sparing_ofProgram loader r p

section

variable {qs : List Request} {a : Resolution}

lemma nodup_of_mem_replies (ha : a ∈ replies loader r qs) : (soughtIds a.findings).Nodup := by
  induction qs generalizing r with
  | nil => cases ha
  | cons q qs ih =>
    rcases mem_replies_cons.1 ha with rfl | ha
    · exact (sparing_reply loader r q).nodup
    · exact ih ha

lemma not_sought_of_known (ha : a ∈ replies loader r qs) (hx : x ∈ r.closures) :
    x ∉ soughtIds a.findings := by
  induction qs generalizing r with
  | nil => cases ha
  | cons q qs ih =>
    have first := sparing_reply loader r q
    rcases mem_replies_cons.1 ha with rfl | ha
    · exact fun hs => first.unknown hs hx
    · exact ih ha (first.grows hx)

/-- What is known after a request is not looked for in a later one. -/
lemma pairwise_replies (loader : Loader) (r : Resolver) (qs : List Request) :
    (replies loader r qs).Pairwise fun a b =>
      ∀ x ∈ a.resolver.closures, x ∉ soughtIds b.findings := by
  induction qs generalizing r with
  | nil => exact .nil
  | cons q qs ih =>
    exact List.pairwise_cons.2 ⟨fun b hb x hx => not_sought_of_known hb hx, ih _⟩

/-- Requests that succeed look for different programs. -/
lemma nodup_replies (ok : ∀ a ∈ replies loader r qs, ∃ c, a.answer = .ok c) :
    ((replies loader r qs).flatMap fun a => soughtIds a.findings).Nodup := by
  induction qs generalizing r with
  | nil => exact List.nodup_nil
  | cons q qs ih =>
    have first := sparing_reply loader r q
    obtain ⟨c, hc⟩ := ok _ (mem_replies_cons.2 (.inl rfl))
    have rest := ih fun b hb => ok b (mem_replies_cons.2 (.inr hb))
    rw [replies, List.flatMap_cons]
    refine List.nodup_append'.2 ⟨first.nodup, rest, fun x hx hx' => ?_⟩
    obtain ⟨b, hb, hs⟩ := List.mem_flatMap.1 hx'
    exact not_sought_of_known hb (first.known hc hx) hs

end

lemma isValidated_iff : r.isValidated x = true ↔ x ∈ r.closures := by
  rw [isValidated, Std.ExtTreeMap.contains_iff_mem]

/-- **A resolver loads sparingly.** Whatever it knows and whatever it is asked, no request makes it
look for a program twice, and it never looks for a program that it has reported as validated. As
long as all requests succeed, it looks for no program twice in all of them. -/
theorem loads_once (loader : Loader) (r : Resolver) (qs : List Request) :
    (∀ a ∈ replies loader r qs, (soughtIds a.findings).Nodup ∧
      ∀ id, r.isValidated id → id ∉ soughtIds a.findings) ∧
    (replies loader r qs).Pairwise (fun a b =>
      ∀ id, a.resolver.isValidated id → id ∉ soughtIds b.findings) ∧
    ((∀ a ∈ replies loader r qs, ∃ c, a.answer = .ok c) →
      ((replies loader r qs).flatMap fun a => soughtIds a.findings).Nodup) := by
  refine ⟨fun a ha => ⟨nodup_of_mem_replies ha, fun id hid => ?_⟩, ?_, nodup_replies⟩
  · exact not_sought_of_known ha (isValidated_iff.1 hid)
  · exact (pairwise_replies loader r qs).imp fun h id hid => h id (isValidated_iff.1 hid)

/-- A program with the id 3 that calls the programs 1 and 2. -/
def callsBoth : Program where
  body := .instr ⟨.seq, [.reg 0, .const 1]⟩ 1 (.instr ⟨.seq, [.reg 0, .const 2]⟩ 2 .nil)
  id := some 3

/-- Three programs, each of which calls all those before it. -/
def triangle : Loader where
  find id := if id = 3 then .ok (some callsBoth) else pair.find id
  bound := 3

/-- Two searches for a program without an id, one for a program that calls what they have found and
one for a program that is known. -/
def overlapping : List Request := [.atHand (caller none 2), .stored 3, .stored 2]

/-- Each of the three programs is looked for in one of the requests. -/
theorem loads_once_triangle :
    (∀ a ∈ replies triangle {} overlapping, ∃ c, a.answer = .ok c) ∧
    ((replies triangle {} overlapping).map fun a => soughtIds a.findings) = [[2, 1], [3], []] ∧
    ((replies triangle {} overlapping).flatMap fun a => soughtIds a.findings).Nodup := by
  have ok : ∀ a ∈ replies triangle {} overlapping, ∃ c, a.answer = .ok c := by
    intro a ha
    simp only [overlapping, mem_replies_cons] at ha
    rcases ha with rfl | rfl | rfl | ha
    · exact ⟨[1, 2], rfl⟩
    · exact ⟨[1, 2], rfl⟩
    · exact ⟨[1], rfl⟩
    · cases ha
  exact ⟨ok, rfl, (loads_once triangle {} overlapping).2.2 ok⟩

/-- A request that fails leaves nothing behind, so that a program is looked for again. -/
example : ((replies pair {} [.stored 4, .stored 4]).map fun a => soughtIds a.findings) =
    [[4], [4]] := rfl

/-! ### What replies depend on -/

section

variable {find find' : Finder} {n : ℕ} {β : Type}

/-- A search keeps the record of what was looked for, and another one does the same as long as the
programs on that record are the same for both. -/
structure Follows (find find' : Finder) (x x' : SearchM α) : Prop where
  keeps (s : Search) : s.sought ⊆ (x.run s).2.sought
  same {s : Search} : (∀ id ∈ (x.run s).2.sought, find' id = find id) → x'.run s = x.run s

/-- A step that looks for nothing. -/
lemma Follows.of_keeps {x : SearchM α} (h : ∀ s, s.sought ⊆ (x.run s).2.sought) :
    Follows find find' x x := ⟨h, fun _ => rfl⟩

lemma Follows.pure (a : α) : Follows find find' (pure a) (pure a) :=
  .of_keeps fun s => List.Subset.refl s.sought

lemma Follows.bind {x x' : SearchM α} {f f' : α → SearchM β} (hx : Follows find find' x x')
    (hf : ∀ a, Follows find find' (f a) (f' a)) : Follows find find' (x >>= f) (x' >>= f') where
  keeps s := by
    have first := hx.keeps s
    rw [run_bind]
    rcases hr : x.run s with ⟨e | a, s'⟩ <;> rw [hr] at first
    · exact first
    · exact List.Subset.trans first ((hf a).keeps s')
  same {s} h := by
    have first := hx.same (s := s)
    rw [run_bind] at h ⊢
    rw [run_bind]
    rcases hr : x.run s with ⟨e | a, s'⟩ <;> rw [hr] at first h
    · rw [first h]
    · rw [first fun id hid => h id ((hf a).keeps s' hid)]
      exact (hf a).same h

lemma Follows.forM {f f' : Int → SearchM Unit} (hf : ∀ id, Follows find find' (f id) (f' id))
    (ids : List Int) : Follows find find' (ids.forM f) (ids.forM f') := by
  induction ids with
  | nil => exact .pure ()
  | cons id ids ih => exact (hf id).bind fun _ => ih

/-- What a program calls is read after the program has been looked for. -/
lemma follows_children (id : Int) (referrer : Option Int) :
    Follows find find' (children ⟨find, n⟩ id referrer) (children ⟨find', n⟩ id referrer) where
  keeps s := by
    rw [run_children]
    exact List.subset_cons_self id s.sought
  same {s} h := by
    rw [run_children] at h ⊢
    rw [run_children]
    have here : find' id = find id := h id List.mem_cons_self
    simp only [calleesOf, here]

lemma follows_get : Follows find find' (get : SearchM Search) get :=
  .of_keeps fun s => List.Subset.refl s.sought

lemma follows_finish (id : Int) (c : List Int) : Follows find find'
    (modify fun s : Search => { s with finished := s.finished.insert id c } : SearchM Unit)
    (modify fun s : Search => { s with finished := s.finished.insert id c }) :=
  .of_keeps fun s => List.Subset.refl s.sought

/-- What comes after a failure makes no difference. -/
lemma follows_throw (e : Failure) (f f' : α → SearchM β) :
    Follows find find' (throw e >>= f) (throw e >>= f') :=
  ⟨fun s => List.Subset.refl s.sought, fun _ => rfl⟩

lemma follows_visit (id : Int)
    (deeper : ∀ path called, Follows find find' (explore ⟨find, n⟩ r fuel path called)
      (explore ⟨find', n⟩ r fuel path called)) :
    Follows find find' (visit ⟨find, n⟩ r fuel path id) (visit ⟨find', n⟩ r fuel path id) := by
  unfold visit
  dsimp only
  split
  · have report : Follows find find' (take (.cycle (cycleTo path id)))
        (take (.cycle (cycleTo path id))) :=
      .of_keeps fun s => List.Subset.refl s.sought
    exact report.bind fun _ => follows_throw _ _ _
  refine follows_get.bind fun s => ?_
  split
  · exact .pure ()
  rcases r.closures[id]? with _ | c
  · have read : Follows find find' (children ⟨find, n⟩ id path.head?)
        (children ⟨find', n⟩ id path.head?) := follows_children id path.head?
    exact read.bind fun next => (deeper (id :: path) next).bind fun c => follows_finish id c
  · exact follows_finish id c

lemma follows_explore (find find' : Finder) (n fuel : ℕ) (path called : List Int) :
    Follows find find' (explore ⟨find, n⟩ r fuel path called)
      (explore ⟨find', n⟩ r fuel path called) := by
  induction fuel generalizing path called with
  | zero => exact .of_keeps fun s => List.Subset.refl s.sought
  | succ fuel ih =>
    have all : Follows find find' (called.forM (visit ⟨find, n⟩ r fuel path))
        (called.forM (visit ⟨find', n⟩ r fuel path)) :=
      .forM (fun id => follows_visit id ih) called
    exact all.bind fun _ => .of_keeps fun s => List.Subset.refl s.sought

lemma follows_rooted (find find' : Finder) (n : ℕ) (id : Int) :
    Follows find find' (rooted ⟨find, n⟩ r id) (rooted ⟨find', n⟩ r id) :=
  (follows_children id none).bind fun called =>
    (follows_explore find find' n (n + 1) [id] called).bind fun _ =>
      .of_keeps fun s => List.Subset.refl s.sought

lemma Follows.settle {x x' : SearchM (List Int)} (h : Follows find find' x x')
    (same : ∀ id ∈ soughtIds (r.settle x).findings, find' id = find id) :
    r.settle x' = r.settle x := by
  have run : x'.run {} = x.run {} := by
    refine h.same fun id hid => same id ?_
    rw [soughtIds_settle]
    exact List.mem_reverse.2 hid
  unfold Resolver.settle
  rw [run]

lemma transitive_congr {id : Int}
    (same : ∀ v ∈ soughtIds (r.transitive ⟨find, n⟩ id).findings, find' v = find v) :
    r.transitive ⟨find', n⟩ id = r.transitive ⟨find, n⟩ id := by
  rw [transitive_eq] at same ⊢
  rw [transitive_eq]
  rcases hk : r.closures[id]? with _ | c
  · rw [hk] at same
    exact (follows_rooted find find' n id).settle same
  · rfl

lemma transitiveAll_congr {closure ids : List Int}
    (same : ∀ v ∈ soughtIds (r.transitiveAll ⟨find, n⟩ closure ids).findings, find' v = find v) :
    r.transitiveAll ⟨find', n⟩ closure ids = r.transitiveAll ⟨find, n⟩ closure ids := by
  induction ids generalizing r closure with
  | nil => rfl
  | cons id ids ih =>
    unfold transitiveAll at same ⊢
    dsimp only at same ⊢
    rcases ha : (r.transitive ⟨find, n⟩ id).answer with e | c <;> rw [ha] at same
    · rw [transitive_congr same, ha]
    · simp only [soughtIds_append, List.mem_append] at same
      have first : r.transitive ⟨find', n⟩ id = r.transitive ⟨find, n⟩ id :=
        transitive_congr fun v hv => same v (.inl hv)
      have rest := ih fun v hv => same v (.inr hv)
      rw [first, ha]
      dsimp only
      rw [rest]

lemma ofProgram_congr {p : Program}
    (same : ∀ v ∈ soughtIds (r.ofProgram ⟨find, n⟩ p).findings, find' v = find v) :
    r.ofProgram ⟨find', n⟩ p = r.ofProgram ⟨find, n⟩ p := by
  unfold ofProgram at same ⊢
  rcases hd : p.dependencies with e | called
  · rfl
  rw [hd] at same
  rcases hp : p.id with _ | id
  · rw [hp] at same
    exact transitiveAll_congr same
  · rw [hp] at same
    exact (follows_explore find find' n (n + 1) [id] (Ids.ofList called)).settle same

lemma reply_congr {q : Request}
    (same : ∀ v ∈ soughtIds (q.reply ⟨find, n⟩ r).findings, find' v = find v) :
    q.reply ⟨find', n⟩ r = q.reply ⟨find, n⟩ r := by
  rcases q with id | ⟨id, called⟩ | p
  · exact transitive_congr same
  · exact (follows_explore find find' n (n + 1) [id] (Ids.ofList called)).settle same
  · exact ofProgram_congr same

/-- **The record of what is looked for is complete.** This is the other half of loading sparingly:
replies depend on no program that is not on the record. With any loader that has the same programs
under the ids on it the replies are the same, and so is the record. -/
theorem replies_congr {qs : List Request}
    (same : ∀ a ∈ replies ⟨find, n⟩ r qs, ∀ v ∈ soughtIds a.findings, find' v = find v) :
    replies ⟨find', n⟩ r qs = replies ⟨find, n⟩ r qs := by
  induction qs generalizing r with
  | nil => rfl
  | cons q qs ih =>
    have first : q.reply ⟨find', n⟩ r = q.reply ⟨find, n⟩ r :=
      reply_congr (same _ (mem_replies_cons.2 (.inl rfl)))
    have rest := ih fun a ha => same a (mem_replies_cons.2 (.inr ha))
    rw [replies, replies, first, rest]

/-- **A validated program is not needed again.** It is not looked for, so that replies stay the same
whatever becomes of it. -/
theorem replies_eq_of_validated {qs : List Request}
    (same : ∀ id, r.isValidated id = false → find' id = find id) :
    replies ⟨find', n⟩ r qs = replies ⟨find, n⟩ r qs :=
  replies_congr fun _ ha id hid =>
    same id (Bool.eq_false_iff.2 fun known => not_sought_of_known ha (isValidated_iff.1 known) hid)

end

end SeqAsm.Resolver
