import SeqAsm.Proofs.Dependency.Calls
import SeqAsm.Proofs.Running

/-!
What a search for dependencies does.

At every moment the programs that a search has finished are settled, what they lead to is
finished or was known before, and no program on the path is among them. So the search never
finishes a program that leads back to itself. When it fails, a call leads back to the path, or a
program cannot be loaded, or the path is longer than the search may go.
-/

namespace SeqAsm.Resolver

variable {loader : Loader} {r : Resolver} {find : Finder} {root id x : Int}
  {top path called next : List Int} {fuel : ℕ}

/-! ### Searches by their parts -/

/-- What a call finds: the callees of a program, or why they cannot be had. -/
def calleesOf (find : Finder) (id : Int) (referrer : Option Int) : Except Failure (List Int) :=
  match find id with
  | .error e => .error e
  | .ok none => .error (.of (.unresolvedDependency id referrer) [])
  | .ok (some p) =>
    match p.dependencies with
    | .ok ids => .ok ids
    | .error c => .error (.crash c)

lemma calleesOf_eq_ok {referrer : Option Int} :
    calleesOf find id referrer = .ok next ↔ Links find id next := by
  unfold calleesOf Links
  rcases find id with e | _ | p
  · simp
  · simp
  · rcases hd : p.dependencies with c | ids <;> simp [hd]

/-- The cycle that a call back to a program on a path closes. -/
def cycleTo (path : List Int) (id : Int) : List Int :=
  id :: ((path.takeWhile (· != id)).reverse ++ [id])

def cyclic (cycle : List Int) : Failure := .of (.cyclicDependency cycle) []

def Search.note (s : Search) (f : Finding) : Search := { s with findings := f :: s.findings }

def Search.finish (s : Search) (id : Int) (closure : List Int) : Search :=
  { s with finished := s.finished.insert id closure }

/-- Finishes a program when its callees have been searched. -/
def ascend (id : Int) : Except Failure (List Int) × Search → Except Failure Unit × Search
  | (.ok closure, s) => (.ok (), s.finish id closure)
  | (.error e, s) => (.error e, s)

/-- What a search does about one callee of the last program of a path. -/
def visit (loader : Loader) (r : Resolver) (fuel : ℕ) (path : List Int) (id : Int) :
    SearchM Unit := do
  if path.contains id then
    let cycle := id :: ((path.takeWhile (· != id)).reverse ++ [id])
    take (.cycle cycle)
    throw (.of (.cyclicDependency cycle) [])
  if (← get).finished.contains id then return
  match r.closures[id]? with
  | some closure => modify fun s => { s with finished := s.finished.insert id closure }
  | none =>
    let next ← children loader id path.head?
    let closure ← explore loader r fuel (id :: path) next
    modify fun s => { s with finished := s.finished.insert id closure }

lemma run_take (f : Finding) (s : Search) : (take f).run s = (.ok (), s.note f) := rfl

lemma run_children (referrer : Option Int) (s : Search) :
    (children loader id referrer).run s =
      (calleesOf loader.find id referrer, s.note (.sought id)) := by
  unfold children calleesOf
  rw [run_bind, run_take]
  dsimp only
  rcases loader.find id with e | _ | p
  · rfl
  · rfl
  · dsimp only
    rcases p.dependencies with c | ids <;> rfl

lemma run_visit (s : Search) :
    (visit loader r fuel path id).run s =
      if id ∈ path then (.error (cyclic (cycleTo path id)), s.note (.cycle (cycleTo path id)))
      else if id ∈ s.finished then (.ok (), s)
      else match r.closures[id]? with
        | some c => (.ok (), s.finish id c)
        | none => match calleesOf loader.find id path.head? with
          | .error e => (.error e, s.note (.sought id))
          | .ok next => ascend id ((explore loader r fuel (id :: path) next).run
              (s.note (.sought id))) := by
  unfold visit
  by_cases hp : id ∈ path
  · rw [if_pos hp, if_pos (by simpa using hp)]
    rfl
  rw [if_neg hp, if_neg (by simpa using hp)]
  dsimp only
  rw [run_bind, run_get]
  dsimp only
  by_cases hf : id ∈ s.finished
  · rw [if_pos hf, if_pos (by simpa using hf)]
    rfl
  rw [if_neg hf, if_neg (by simpa using hf)]
  rcases r.closures[id]? with _ | c
  · dsimp only
    rw [run_bind, run_children]
    rcases calleesOf loader.find id path.head? with e | next
    · rfl
    · dsimp only
      rw [run_bind]
      rcases (explore loader r fuel (id :: path) next).run (s.note (.sought id)) with ⟨_ | _, _⟩
      · rfl
      · rfl
  · rfl

lemma run_explore_zero (s : Search) :
    (explore loader r 0 path called).run s = (.error (.crash .searchTooDeep), s) := rfl

lemma run_explore_succ (s : Search) :
    (explore loader r (fuel + 1) path called).run s =
      match (called.forM (visit loader r fuel path)).run s with
      | (.ok (), s') => (.ok (closureOf s'.finished called), s')
      | (.error e, s') => (.error e, s') := by
  change ((called.forM (visit loader r fuel path)) >>= fun _ => do
    return closureOf (← get).finished called : SearchM (List Int)).run s = _
  rw [run_bind]
  rcases (called.forM (visit loader r fuel path)).run s with ⟨_ | _, _⟩
  · rfl
  · rfl

/-! ### Paths -/

/-- The path of a search from a program with the id `root` that calls the programs `top`, with
the callees of its last program. -/
inductive Path (find : Finder) (r : Resolver) (root : Int) (top : List Int) :
    List Int → List Int → Prop
  | start : Path find r root top [root] top
  | step {path called next : List Int} {id : Int} : Path find r root top path called →
      id ∈ called → id ∉ path → r.closures[id]? = none → Links find id next →
      Path find r root top (id :: path) next

/-- The programs on a path above the root. -/
structure Above (find : Finder) (r : Resolver) (root : Int) (top called : List Int) (x : Int) :
    Prop where
  ne_root : x ≠ root
  unknown : r.closures[x]? = none
  loadable : Loadable find x
  within : Within find top x
  reaches {v : Int} : v ∈ called → Reaches find x v

namespace Path

lemma within (P : Path find r root top path called) : x ∈ called → Within find top x := by
  induction P generalizing x with
  | start => exact within_of_mem
  | step _ hid _ _ links ih =>
    exact fun hx => (ih hid).trans (.single ⟨_, links, hx⟩)

lemma root_mem (P : Path find r root top path called) : root ∈ path := by
  induction P with
  | start => exact List.mem_singleton_self _
  | step _ _ _ _ _ ih => exact List.mem_cons_of_mem _ ih

lemma split (P : Path find r root top path called) : ∃ mid, path = mid ++ [root] ∧ mid.Nodup ∧
    ∀ x ∈ mid, Above find r root top called x := by
  induction P with
  | start => exact ⟨[], rfl, .nil, nofun⟩
  | @step path called next id P hid new unknown links ih =>
    obtain ⟨mid, rfl, nodup, above⟩ := ih
    rw [List.mem_append, List.mem_singleton, not_or] at new
    refine ⟨id :: mid, rfl, List.nodup_cons.2 ⟨new.1, nodup⟩, fun x hx => ?_⟩
    have leads {v : Int} (hv : v ∈ next) : Calls find id v := ⟨next, links, hv⟩
    rcases List.mem_cons.1 hx with rfl | hx
    · exact ⟨new.2, unknown, ⟨next, links⟩, P.within hid, fun hv => .single (leads hv)⟩
    · obtain ⟨h₁, h₂, h₃, h₄, h₅⟩ := above x hx
      exact ⟨h₁, h₂, h₃, h₄, fun hv => (h₅ hid).tail (leads hv)⟩

lemma above (P : Path find r root top path called) (hx : x ∈ path) (hr : x ≠ root) :
    Above find r root top called x := by
  obtain ⟨mid, rfl, -, h⟩ := P.split
  rw [List.mem_append, List.mem_singleton] at hx
  exact h x (hx.resolve_right hr)

/-- A path that knows nothing beforehand. -/
lemma cold (P : Path find r root top path called) : Path find {} root top path called := by
  induction P with
  | start => exact .start
  | step _ hid new _ links ih => exact ih.step hid new Std.ExtTreeMap.getElem?_empty links

end Path

/-- Different loadable programs within some programs are at most `n`. -/
def Covers (find : Finder) (top : List Int) (n : ℕ) : Prop :=
  ∀ ids : List Int, ids.Nodup → (∀ x ∈ ids, Loadable find x ∧ Within find top x) → ids.length ≤ n

lemma Path.length_le {n : ℕ} (P : Path find r root top path called) (h : Covers find top n) :
    path.length ≤ n + 1 := by
  obtain ⟨mid, rfl, nodup, above⟩ := P.split
  have := h mid nodup fun x hx => ⟨(above x hx).loadable, (above x hx).within⟩
  rw [List.length_append, List.length_singleton]
  omega

/-! ### What a search keeps -/

/-- All that is known is true, and what a known program leads to is known. -/
structure Valid (find : Finder) (r : Resolver) : Prop where
  settled {id : Int} {c : List Int} : r.closures[id]? = some c → Settled find id c
  closed {id x : Int} {c : List Int} : r.closures[id]? = some c → x ∈ c → x ∈ r.closures

/-- What holds of a search at every moment. -/
structure Good (find : Finder) (r : Resolver) (top path : List Int) (s : Search) : Prop where
  settled {id : Int} {c : List Int} : s.finished[id]? = some c → Settled find id c
  closed {id x : Int} {c : List Int} : s.finished[id]? = some c → x ∈ c →
    x ∈ s.finished ∨ x ∈ r.closures
  apart {x : Int} : x ∈ path → x ∉ s.finished
  within {x : Int} : x ∈ s.finished → Within find top x

/-- What one search has finished, another one has. -/
def Grows (s s' : Search) : Prop :=
  ∀ (id : Int) (c : List Int), s.finished[id]? = some c → s'.finished[id]? = some c

/-- Why a search from a root fails when its paths may have `depth` programs. -/
inductive Reason (find : Finder) (r : Resolver) (root : Int) (top : List Int) (depth : ℕ) :
    Failure → Prop
  | back {path called : List Int} {id : Int} : Path find r root top path called → id ∈ called →
      id ∈ path → Reason find r root top depth (cyclic (cycleTo path id))
  | lacking {path called : List Int} {id : Int} {e : Failure} : Path find r root top path called →
      id ∈ called → calleesOf find id path.head? = .error e → Reason find r root top depth e
  | deep {path called : List Int} : Path find r root top path called → depth ≤ path.length →
      Reason find r root top depth (.crash .searchTooDeep)

/-- How a search ends that starts in a state `s`. -/
structure Ends (find : Finder) (r : Resolver) (root : Int) (top path : List Int) (depth : ℕ)
    {α : Type} (post : α → Search → Prop) (s : Search) (out : Except Failure α × Search) :
    Prop where
  good : Good find r top path out.2
  grows : Grows s out.2
  done {a : α} : out.1 = .ok a → post a out.2
  failed {e : Failure} : out.1 = .error e → Reason find r root top depth e

lemma Grows.refl (s : Search) : Grows s s := fun _ _ h => h

lemma Grows.trans {s t u : Search} (h : Grows s t) (h' : Grows t u) : Grows s u :=
  fun id c hs => h' id c (h id c hs)

lemma mem_iff_getElem? {m : Closures} : x ∈ m ↔ ∃ c, m[x]? = some c := by
  rw [Std.ExtTreeMap.mem_iff_isSome_getElem?, Option.isSome_iff_exists]

lemma not_mem_of_getElem? {m : Closures} (h : m[x]? = none) : x ∉ m := by
  intro hx
  obtain ⟨c, hc⟩ := mem_iff_getElem?.1 hx
  simp [hc] at h

lemma Grows.mem {s t : Search} (h : Grows s t) (hx : x ∈ s.finished) : x ∈ t.finished := by
  obtain ⟨c, hc⟩ := mem_iff_getElem?.1 hx
  exact mem_iff_getElem?.2 ⟨c, h x c hc⟩

lemma getElem?_finish (s : Search) (id : Int) (c : List Int) (x : Int) :
    (s.finish id c).finished[x]? = if id = x then some c else s.finished[x]? := by
  simp only [Search.finish, Std.ExtTreeMap.getElem?_insert, Std.compare_eq_iff_eq]

lemma mem_finish {s : Search} {c : List Int} :
    x ∈ (s.finish id c).finished ↔ id = x ∨ x ∈ s.finished := by
  simp only [Search.finish, Std.ExtTreeMap.mem_insert, Std.compare_eq_iff_eq]

lemma grows_finish {s : Search} (h : id ∉ s.finished) (c : List Int) : Grows s (s.finish id c) := by
  intro x d hx
  rw [getElem?_finish, if_neg, hx]
  rintro rfl
  exact h (mem_iff_getElem?.2 ⟨d, hx⟩)

namespace Good

variable {s : Search} {c : List Int}

lemma empty : Good find r top path {} where
  settled h := by simp at h
  closed h := by simp at h
  apart _ := by simp
  within h := by simp at h

lemma note (h : Good find r top path s) (f : Finding) : Good find r top path (s.note f) :=
  ⟨h.settled, h.closed, h.apart, h.within⟩

lemma finish (h : Good find r top path s) (hc : Settled find id c)
    (closed : ∀ x ∈ c, x ∈ s.finished ∨ x ∈ r.closures) (new : id ∉ path)
    (within : Within find top id) : Good find r top path (s.finish id c) where
  settled hx := by
    rw [getElem?_finish] at hx
    split at hx
    · cases hx
      subst_vars
      exact hc
    · exact h.settled hx
  closed hx hy := by
    rw [getElem?_finish] at hx
    rw [mem_finish]
    split at hx
    · cases hx
      exact (closed _ hy).imp_left .inr
    · exact (h.closed hx hy).imp_left .inr
  apart hx := by
    rw [mem_finish, not_or]
    exact ⟨fun e => new (e ▸ hx), h.apart hx⟩
  within hx := by
    rcases mem_finish.1 hx with rfl | hx
    · exact within
    · exact h.within hx

lemma descend (h : Good find r top path s) (hf : id ∉ s.finished) (f : Finding) :
    Good find r top (id :: path) (s.note f) := by
  refine ⟨h.settled, h.closed, fun hx => ?_, h.within⟩
  rcases List.mem_cons.1 hx with rfl | hx
  · exact hf
  · exact h.apart hx

lemma ascend (h : Good find r top (id :: path) s) : Good find r top path s :=
  ⟨h.settled, h.closed, fun hx => h.apart (List.mem_cons_of_mem _ hx), h.within⟩

/-- A search as part of one that starts from more programs. -/
lemma widen {top' : List Int} (h : Good find r top path s)
    (ht : ∀ x, Within find top x → Within find top' x) : Good find r top' [] s :=
  ⟨h.settled, h.closed, nofun, fun hx => ht _ (h.within hx)⟩

lemma covered (h : Good find r top path s) (hc : ∀ v ∈ called, v ∈ s.finished) :
    Covered find s.finished called := by
  intro v hv
  obtain ⟨c, hc⟩ := mem_iff_getElem?.1 (hc v hv)
  exact ⟨c, hc, h.settled hc⟩

/-- What finished callees lead to is finished or known. -/
lemma closed_of_covered (h : Good find r top path s) (hc : Covered find s.finished called)
    (hx : x ∈ closureOf s.finished called) : x ∈ s.finished ∨ x ∈ r.closures := by
  obtain ⟨v, hv, hx⟩ := mem_closureOf.1 hx
  obtain ⟨c, hc, -⟩ := hc v hv
  rw [hc] at hx
  rcases hx with rfl | hx
  · exact .inl (mem_iff_getElem?.2 ⟨c, hc⟩)
  · exact h.closed hc hx

/-- What a program on the path leads to is finished or known, and the program itself is neither. -/
lemma settled_closure (h : Good find r top path s) (hid : id ∈ path) (hk : r.closures[id]? = none)
    (links : Links find id next) (hc : Covered find s.finished next) :
    Settled find id (closureOf s.finished next) := by
  refine .of_callees links hc fun hx => ?_
  rcases h.closed_of_covered hc hx with hx | hx
  · exact h.apart hid hx
  · exact not_mem_of_getElem? hk hx

end Good

/-! ### How a search ends -/

section

variable {s : Search} {depth : ℕ}

lemma ends_forM {f : Int → SearchM Unit} {ids : List Int}
    (step : ∀ id ∈ ids, ∀ s, Good find r top path s →
      Ends find r root top path depth (fun _ s' => id ∈ s'.finished) s ((f id).run s))
    (h : Good find r top path s) :
    Ends find r root top path depth (fun _ s' => ∀ v ∈ ids, v ∈ s'.finished) s
      ((ids.forM f).run s) := by
  induction ids generalizing s with
  | nil => exact ⟨h, .refl s, fun _ _ hv => (nomatch hv), nofun⟩
  | cons id ids ih =>
    have first := step id List.mem_cons_self s h
    rw [run_forM_cons]
    rcases hf : (f id).run s with ⟨e | _, s₁⟩ <;> rw [hf] at first
    · exact ⟨first.good, first.grows, nofun, first.failed⟩
    · have rest := ih (fun v hv => step v (List.mem_cons_of_mem _ hv)) first.good
      refine ⟨rest.good, first.grows.trans rest.grows, fun ha v hv => ?_, rest.failed⟩
      rcases List.mem_cons.1 hv with rfl | hv
      · exact rest.grows.mem (first.done rfl)
      · exact rest.done ha v hv

lemma Ends.ascend {next : List Int} {f : Finding} {out : Except Failure (List Int) × Search}
    (h : Ends find r root top (id :: path) depth
      (fun c s' => Covered find s'.finished next ∧ c = closureOf s'.finished next) (s.note f) out)
    (links : Links find id next) (hk : r.closures[id]? = none) (hp : id ∉ path)
    (hw : Within find top id) :
    Ends find r root top path depth (fun _ s' => id ∈ s'.finished) s (ascend id out) := by
  rcases out with ⟨e | c, s'⟩
  · exact ⟨h.good.ascend, h.grows, nofun, fun he => h.failed (by rw [Except.error.inj he])⟩
  · obtain ⟨covered, hc⟩ := h.done rfl
    dsimp only at covered hc
    subst hc
    have new : id ∉ s'.finished := h.good.apart List.mem_cons_self
    have settled := h.good.settled_closure List.mem_cons_self hk links covered
    have kept : Good find r top path (s'.finish id (closureOf s'.finished next)) :=
      h.good.ascend.finish settled (fun _ hx => h.good.closed_of_covered covered hx) hp hw
    exact ⟨kept, h.grows.trans (grows_finish new _), fun _ => mem_finish.2 (.inl rfl), nofun⟩

lemma ends_visit (fuel : ℕ) (valid : Valid loader.find r)
    (deeper : ∀ {path called : List Int} {s : Search}, Path loader.find r root top path called →
      Good loader.find r top path s → Ends loader.find r root top path (fuel + path.length)
        (fun c s' => Covered loader.find s'.finished called ∧ c = closureOf s'.finished called) s
        ((explore loader r fuel path called).run s))
    (P : Path loader.find r root top path called) (hid : id ∈ called)
    (h : Good loader.find r top path s) :
    Ends loader.find r root top path (fuel + 1 + path.length) (fun _ s' => id ∈ s'.finished) s
      ((visit loader r fuel path id).run s) := by
  rw [run_visit]
  by_cases hp : id ∈ path
  · rw [if_pos hp]
    exact ⟨h.note _, .refl s, nofun, fun he => Except.error.inj he ▸ Reason.back P hid hp⟩
  rw [if_neg hp]
  by_cases hf : id ∈ s.finished
  · rw [if_pos hf]
    exact ⟨h, .refl s, fun _ => hf, nofun⟩
  rw [if_neg hf]
  rcases hk : r.closures[id]? with _ | c
  · rcases hn : calleesOf loader.find id path.head? with e | next
    · exact ⟨h.note _, .refl s, nofun,
        fun he => Except.error.inj he ▸ Reason.lacking P hid hn⟩
    · have links := calleesOf_eq_ok.1 hn
      have inner := deeper (P.step hid hp hk links) (h.descend hf (.sought id))
      rw [List.length_cons, ← Nat.add_assoc, Nat.add_right_comm] at inner
      exact inner.ascend links hk hp (P.within hid)
  · refine ⟨h.finish (valid.settled hk) (fun x hx => .inr (valid.closed hk hx)) hp (P.within hid),
      grows_finish hf c, fun _ => mem_finish.2 (.inl rfl), nofun⟩

/-- **How a search ends.** It keeps what it has found out, and a search that succeeds has finished
all callees. -/
theorem ends_explore (fuel : ℕ) (valid : Valid loader.find r)
    (P : Path loader.find r root top path called) (h : Good loader.find r top path s) :
    Ends loader.find r root top path (fuel + path.length)
      (fun c s' => Covered loader.find s'.finished called ∧ c = closureOf s'.finished called) s
      ((explore loader r fuel path called).run s) := by
  induction fuel generalizing path called s with
  | zero =>
    rw [run_explore_zero]
    exact ⟨h, .refl s, nofun, fun he => Except.error.inj he ▸ Reason.deep P (by omega)⟩
  | succ fuel ih =>
    have all := ends_forM (fun id hid s hs => ends_visit fuel valid ih P hid hs) h
    rw [run_explore_succ]
    rcases hr : (called.forM (visit loader r fuel path)).run s with ⟨e | _, s'⟩ <;> rw [hr] at all
    · exact ⟨all.good, all.grows, nofun, fun he => all.failed (by rw [Except.error.inj he])⟩
    · refine ⟨all.good, all.grows, fun he => ?_, nofun⟩
      exact ⟨all.good.covered (all.done rfl), (Except.ok.inj he).symm⟩

end

end SeqAsm.Resolver
