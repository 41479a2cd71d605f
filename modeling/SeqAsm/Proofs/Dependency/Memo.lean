import SeqAsm.Proofs.Dependency.Search

/-!
Searches with and without what is known from earlier ones.

A search that knows nothing beforehand explores what another one takes as known. The two do the
same, with one exception: the root of a search may be a program at hand that stands in for the
stored one, and then a stored program may lead back to it. A search that explores such a program
reports the cycle, one that takes it as known does not look inside and misses it.
-/

namespace SeqAsm.Resolver

variable {loader : Loader} {r : Resolver} {find : Finder} {root id x : Int}
  {top path called : List Int} {fuel fuel' n : ℕ} {s t : Search}

lemma valid_empty : Valid find {} where
  settled h := by simp at h
  closed h := by simp at h

lemma Good.settled_of_mem (h : Good find r top path s) (hx : x ∈ s.finished) :
    ∃ c, s.finished[x]? = some c ∧ Settled find x c := by
  obtain ⟨c, hc⟩ := mem_iff_getElem?.1 hx
  exact ⟨c, hc, h.settled hc⟩

lemma Good.not_leads (h : Good find {} top path t) (hr : root ∈ path) (hx : x ∈ t.finished) :
    ¬ Leads find x root := by
  intro hl
  obtain ⟨c, hc, hs⟩ := h.settled_of_mem hx
  rcases leads_iff.1 hl with rfl | hl
  · exact h.apart hr hx
  · rcases h.closed hc ((hs.mem root).2 hl) with hroot | hroot
    · exact h.apart hr hroot
    · simp at hroot

lemma Path.mem_cycleTo (P : Path find r root top path called) (hx : x ∈ path) :
    x ∈ cycleTo path root := by
  obtain ⟨mid, rfl, -, above⟩ := P.split
  have whole : (mid ++ [root]).takeWhile (· != root) = mid := by
    rw [List.takeWhile_append_of_pos fun y hy => by simpa using (above y hy).ne_root]
    simp
  unfold cycleTo
  rw [whole]
  simp only [List.mem_append, List.mem_singleton] at hx
  simp only [List.mem_cons, List.mem_append, List.mem_reverse, List.not_mem_nil, or_false]
  exact .inr hx

/-! ### Searching settled programs -/

/-- What becomes of a search through settled programs that knows nothing beforehand: it comes
back to the root if they lead there, with the path on the cycle, and otherwise it finishes them
and what they lead to. -/
structure Meets (find : Finder) (root : Int) (path called : List Int) (t : Search) {α : Type}
    (out : Except Failure α × Search) : Prop where
  back : Within find called root →
    ∃ cycle, out.1 = .error (cyclic cycle) ∧ ∀ x ∈ path, x ∈ cycle
  through : ¬ Within find called root →
    (∃ a, out.1 = .ok a) ∧ ∀ x ∈ out.2.finished, x ∈ t.finished ∨ Within find called x

lemma within_cons : Within find (id :: called) x ↔ Within find [id] x ∨ Within find called x := by
  simp [Within]

lemma within_singleton : Within find [id] x ↔ Leads find id x := by simp [Within]

lemma Meets.tail {α : Type} {out : Except Failure α × Search}
    (h : Meets find root (id :: path) called t out) : Meets find root path called t out where
  back hw := by
    obtain ⟨cycle, he, hc⟩ := h.back hw
    exact ⟨cycle, he, fun x hx => hc x (List.mem_cons_of_mem _ hx)⟩
  through := h.through

lemma meets_forM {f : Int → SearchM Unit} {ids : List Int} (h : Good find {} top path t)
    (step : ∀ id ∈ ids, ∀ t, Good find {} top path t →
      Meets find root path [id] t ((f id).run t) ∧ Good find {} top path ((f id).run t).2) :
    Meets find root path ids t ((ids.forM f).run t) := by
  induction ids generalizing t with
  | nil =>
    refine ⟨fun hw => ?_, fun _ => ⟨⟨(), rfl⟩, fun x hx => .inl hx⟩⟩
    obtain ⟨v, hv, -⟩ := hw
    cases hv
  | cons id ids ih =>
    obtain ⟨first, good⟩ := step id List.mem_cons_self t h
    rw [run_forM_cons]
    by_cases hb : Within find [id] root
    · obtain ⟨cycle, he, hc⟩ := first.back hb
      rcases hf : (f id).run t with ⟨_ | _, t₁⟩ <;> rw [hf] at he
      · exact ⟨fun _ => ⟨cycle, by rw [Except.error.inj he], hc⟩,
          fun hn => absurd (within_cons.2 (.inl hb)) hn⟩
      · cases he
    · obtain ⟨⟨a, ha⟩, added⟩ := first.through hb
      rcases hf : (f id).run t with ⟨_ | _, t₁⟩ <;> rw [hf] at ha added good
      · cases ha
      · have rest := ih good fun v hv => step v (List.mem_cons_of_mem _ hv)
        refine ⟨fun hw => rest.back ((within_cons.1 hw).resolve_left hb), fun hn => ?_⟩
        obtain ⟨ok, more⟩ := rest.through fun hw => hn (within_cons.2 (.inr hw))
        refine ⟨ok, fun x hx => ?_⟩
        rcases more x hx with hx | hx
        · exact (added x hx).imp_right fun hx => within_cons.2 (.inl hx)
        · exact .inr (within_cons.2 (.inr hx))

/-- A program whose callees have been searched comes out as they do. -/
lemma Meets.ascend {next : List Int} {f : Finding} {out : Except Failure (List Int) × Search}
    (links : Links find id next) (apart : root ≠ id)
    (h : Meets find root (id :: path) next (t.note f) out) :
    Meets find root (id :: path) [id] t (ascend id out) := by
  have step (x : Int) : Within find next x ↔ Reaches find id x := links.reaches_iff.symm
  have same : Within find [id] root ↔ Within find next root := by
    rw [within_singleton, leads_iff, step]
    exact or_iff_right apart
  rcases out with ⟨e | c, t'⟩
  · refine ⟨fun hw => ?_, fun hw => ?_⟩
    · obtain ⟨cycle, he, hc⟩ := h.back (same.1 hw)
      exact ⟨cycle, congrArg Except.error (Except.error.inj he), hc⟩
    · obtain ⟨⟨a, ha⟩, -⟩ := h.through fun h => hw (same.2 h)
      cases ha
  · refine ⟨fun hw => ?_, fun hw => ⟨⟨(), rfl⟩, fun x hx => ?_⟩⟩
    · obtain ⟨cycle, he, -⟩ := h.back (same.1 hw)
      cases he
    · obtain ⟨-, added⟩ := h.through fun h => hw (same.2 h)
      rw [within_singleton, leads_iff]
      rcases mem_finish.1 hx with rfl | hx
      · exact .inr (.inl rfl)
      · exact (added x hx).imp_right fun hx => .inr ((step x).1 hx)

lemma meets_visit
    (deeper : ∀ {path called : List Int} {t : Search}, Path loader.find {} root top path called →
      (∀ v ∈ called, ∃ c, Settled loader.find v c) → Good loader.find {} top path t →
      n + 1 < fuel + path.length →
      Meets loader.find root path called t ((explore loader {} fuel path called).run t))
    (P : Path loader.find {} root top path called) (hid : id ∈ called) {c : List Int}
    (hs : Settled loader.find id c) (h : Good loader.find {} top path t)
    (hn : n < fuel + path.length) :
    Meets loader.find root (id :: path) [id] t ((visit loader {} fuel path id).run t) := by
  rw [run_visit]
  by_cases hp : id ∈ path
  · -- the only settled program on the path is the root
    obtain rfl : id = root := by
      by_contra hr
      exact hs.acyclic .refl ((P.above hp hr).reaches hid)
    rw [if_pos hp]
    refine ⟨fun _ => ⟨_, rfl, fun x hx => ?_⟩, fun hn => absurd (within_singleton.2 .refl) hn⟩
    rcases List.mem_cons.1 hx with rfl | hx
    · exact P.mem_cycleTo P.root_mem
    · exact P.mem_cycleTo hx
  rw [if_neg hp]
  by_cases hf : id ∈ t.finished
  · rw [if_pos hf]
    refine ⟨fun hw => ?_, fun _ => ⟨⟨(), rfl⟩, fun x hx => .inl hx⟩⟩
    exact absurd (within_singleton.1 hw) (h.not_leads P.root_mem hf)
  rw [if_neg hf, Std.ExtTreeMap.getElem?_empty]
  obtain ⟨next, links⟩ := hs.links
  rw [calleesOf_eq_ok.2 links]
  dsimp only
  have callees : ∀ v ∈ next, ∃ c, Settled loader.find v c :=
    fun v hv => hs.of_leads (.single ⟨next, links, hv⟩)
  have inner := deeper (P.step hid hp Std.ExtTreeMap.getElem?_empty links) callees
    (h.descend hf (.sought id)) (by rw [List.length_cons]; omega)
  exact inner.ascend links fun e => hp (e ▸ P.root_mem)

/-- **Searching settled programs.** Nothing but a way back to the root stops the search. -/
theorem meets_explore (loader : Loader) (covers : Covers loader.find top n)
    (P : Path loader.find {} root top path called)
    (hs : ∀ v ∈ called, ∃ c, Settled loader.find v c) (h : Good loader.find {} top path t)
    (hn : n + 1 < fuel + path.length) :
    Meets loader.find root path called t ((explore loader {} fuel path called).run t) := by
  induction fuel generalizing path called t with
  | zero =>
    have := P.length_le covers
    omega
  | succ fuel ih =>
    have all : Meets loader.find root path called t
        ((called.forM (visit loader {} fuel path)).run t) := by
      refine meets_forM h fun id hid t ht => ?_
      obtain ⟨c, hc⟩ := hs id hid
      exact ⟨(meets_visit ih P hid hc ht (by omega)).tail,
        (ends_visit fuel valid_empty (ends_explore fuel valid_empty) P hid ht).good⟩
    rw [run_explore_succ]
    rcases hr : (called.forM (visit loader {} fuel path)).run t with ⟨e | _, t'⟩ <;> rw [hr] at all
    · refine ⟨fun hw => ?_, fun hw => ?_⟩
      · obtain ⟨cycle, he, hc⟩ := all.back hw
        exact ⟨cycle, by rw [Except.error.inj he], hc⟩
      · obtain ⟨⟨a, ha⟩, -⟩ := all.through hw
        cases ha
    · refine ⟨fun hw => ?_, fun hw => ⟨⟨_, rfl⟩, (all.through hw).2⟩⟩
      obtain ⟨cycle, he, -⟩ := all.back hw
      cases he

/-! ### A search beside one that knows nothing beforehand -/

/-- The second search has finished what the first has, and else only what the first knows. -/
structure Beside (r : Resolver) (s t : Search) : Prop where
  left {x : Int} : x ∈ s.finished → x ∈ t.finished
  right {x : Int} : x ∈ t.finished → x ∈ s.finished ∨ x ∈ r.closures

/-- A search from a root has taken a program as known that leads back to the root. -/
structure Taken (find : Finder) (r : Resolver) (root : Int) (top : List Int) (s : Search)
    (id : Int) : Prop where
  finished : id ∈ s.finished
  known : ∃ c, r.closures[id]? = some c ∧ root ∈ c
  within : Within find top id

/-- How two searches end: alike, or the second finds a cycle through a program that the first has
taken as known. -/
inductive Compare (find : Finder) (r : Resolver) (root : Int) (top : List Int) {α : Type}
    (out out' : Except Failure α × Search) : Prop
  | alike : out.1 = out'.1 → Beside r out.2 out'.2 → Compare find r root top out out'
  | apart {id : Int} {cycle : List Int} : Taken find r root top out.2 id →
      out'.1 = .error (cyclic cycle) → id ∈ cycle → Compare find r root top out out'

lemma Taken.grows (h : Taken find r root top s id) (g : Grows s t) :
    Taken find r root top t id :=
  ⟨g.mem h.finished, h.known, h.within⟩

lemma Compare.ascend {out out' : Except Failure (List Int) × Search}
    (h : Compare find r root top out out') (id : Int) :
    Compare find r root top (ascend id out) (ascend id out') := by
  rcases h with ⟨same, hb⟩ | ⟨taken, he, hx⟩
  · rcases out with ⟨e | c, s'⟩ <;> rcases out' with ⟨e' | c', t'⟩
    · have same' : e = e' := Except.error.inj same
      exact .alike (congrArg Except.error same') hb
    · cases same
    · cases same
    · refine .alike rfl ⟨fun hx => ?_, fun hx => ?_⟩
      · exact mem_finish.2 ((mem_finish.1 hx).imp_right hb.left)
      · rcases mem_finish.1 hx with hx | hx
        · exact .inl (mem_finish.2 (.inl hx))
        · exact (hb.right hx).imp_left fun hx => mem_finish.2 (.inr hx)
  · rcases out' with ⟨e' | c', t'⟩
    · have cycle := congrArg (Except.error (α := Unit)) (Except.error.inj he)
      rcases out with ⟨e | c, s'⟩
      · exact .apart taken cycle hx
      · exact .apart ⟨mem_finish.2 (.inr taken.finished), taken.known, taken.within⟩ cycle hx
    · cases he

lemma compare_forM (fuel fuel' : ℕ) (valid : Valid loader.find r)
    (P : Path loader.find r root top path called)
    (step : ∀ id ∈ called, ∀ s t, Good loader.find r top path s → Good loader.find {} top path t →
      Beside r s t → Compare loader.find r root top ((visit loader r fuel path id).run s)
        ((visit loader {} fuel' path id).run t))
    {ids : List Int} (sub : ∀ id ∈ ids, id ∈ called) (h : Good loader.find r top path s)
    (h' : Good loader.find {} top path t) (hb : Beside r s t) :
    Compare loader.find r root top ((ids.forM (visit loader r fuel path)).run s)
      ((ids.forM (visit loader {} fuel' path)).run t) := by
  induction ids generalizing s t with
  | nil => exact .alike rfl hb
  | cons id ids ih =>
    have hid := sub id List.mem_cons_self
    have later := fun v hv => sub v (List.mem_cons_of_mem _ hv)
    have first := step id hid s t h h' hb
    have good := (ends_visit fuel valid (ends_explore fuel valid) P hid h).good
    have good' := (ends_visit fuel' valid_empty (ends_explore fuel' valid_empty) P.cold hid h').good
    rw [run_forM_cons, run_forM_cons]
    rcases hs : (visit loader r fuel path id).run s with ⟨e | _, s₁⟩ <;>
      rcases ht : (visit loader {} fuel' path id).run t with ⟨e' | _, t₁⟩ <;>
      rw [hs, ht] at first <;> rw [hs] at good <;> rw [ht] at good'
    · exact first
    · rcases first with same | ⟨-, he, -⟩
      · cases same
      · cases he
    · rcases first with same | ⟨taken, he, hc⟩
      · cases same
      · have rest := ends_forM (fun v hv s hs =>
          ends_visit fuel valid (ends_explore fuel valid) P (later v hv) hs) good
        exact .apart (taken.grows rest.grows) he hc
    · rcases first with ⟨-, hb₁⟩ | ⟨-, he, -⟩
      · exact ih later good good' hb₁
      · cases he

/-- Two searches of a program that neither of them knows beforehand. -/
lemma compare_visit_unknown
    (deeper : ∀ {path called : List Int} {s t : Search} (fuel' : ℕ),
      Path loader.find r root top path called → Good loader.find r top path s →
      Good loader.find {} top path t → Beside r s t → n + 1 < fuel + path.length →
      n + 1 < fuel' + path.length →
      Compare loader.find r root top ((explore loader r fuel path called).run s)
        ((explore loader {} fuel' path called).run t))
    (P : Path loader.find r root top path called) (hid : id ∈ called)
    (hk : r.closures[id]? = none) (h : Good loader.find r top path s)
    (h' : Good loader.find {} top path t) (hb : Beside r s t) (hn : n < fuel + path.length)
    (hn' : n < fuel' + path.length) :
    Compare loader.find r root top ((visit loader r fuel path id).run s)
      ((visit loader {} fuel' path id).run t) := by
  rw [run_visit, run_visit, hk, Std.ExtTreeMap.getElem?_empty]
  by_cases hp : id ∈ path
  · rw [if_pos hp, if_pos hp]
    exact .alike rfl ⟨hb.left, hb.right⟩
  rw [if_neg hp, if_neg hp]
  by_cases hf : id ∈ s.finished
  · rw [if_pos hf, if_pos (hb.left hf)]
    exact .alike rfl hb
  have hf' : id ∉ t.finished := by
    intro ht
    rcases hb.right ht with ht | ht
    · exact hf ht
    · exact not_mem_of_getElem? hk ht
  rw [if_neg hf, if_neg hf']
  rcases hc : calleesOf loader.find id path.head? with e | next
  · exact .alike rfl ⟨hb.left, hb.right⟩
  have inner := deeper fuel' (P.step hid hp hk (calleesOf_eq_ok.1 hc)) (h.descend hf (.sought id))
    (h'.descend hf' (.sought id)) ⟨hb.left, hb.right⟩ (by rw [List.length_cons]; omega)
    (by rw [List.length_cons]; omega)
  exact inner.ascend id

/-- Two searches of a program that the first one knows beforehand. The second one explores it. -/
lemma compare_visit_known (valid : Valid loader.find r) (covers : Covers loader.find top n)
    (P : Path loader.find r root top path called) (hid : id ∈ called) {c : List Int}
    (hk : r.closures[id]? = some c) (h' : Good loader.find {} top path t) (hb : Beside r s t)
    (hn' : n < fuel' + path.length) :
    Compare loader.find r root top ((visit loader r fuel path id).run s)
      ((visit loader {} fuel' path id).run t) := by
  have settled := valid.settled hk
  rw [run_visit, hk]
  by_cases hp : id ∈ path
  · rw [run_visit, if_pos hp, if_pos hp]
    exact .alike rfl ⟨hb.left, hb.right⟩
  rw [if_neg hp]
  by_cases hf : id ∈ s.finished
  · rw [run_visit, if_neg hp, if_pos hf, if_pos (hb.left hf)]
    exact .alike rfl hb
  rw [if_neg hf]
  have ends := ends_visit fuel' valid_empty (ends_explore fuel' valid_empty) P.cold hid h'
  have meets := meets_visit (meets_explore loader covers) P.cold hid settled h' hn'
  by_cases hw : Within loader.find [id] root
  · obtain ⟨cycle, he, hc⟩ := meets.back hw
    have apart : root ≠ id := fun e => hp (e ▸ P.root_mem)
    have back : Reaches loader.find id root :=
      (leads_iff.1 (within_singleton.1 hw)).resolve_left apart
    have taken : Taken loader.find r root top (s.finish id c) id :=
      ⟨mem_finish.2 (.inl rfl), ⟨c, hk, (settled.mem root).2 back⟩, P.within hid⟩
    exact .apart taken he (hc id List.mem_cons_self)
  · obtain ⟨⟨_, ha⟩, added⟩ := meets.through hw
    refine .alike ha.symm ⟨fun hx => ?_, fun hx => ?_⟩
    · rcases mem_finish.1 hx with rfl | hx
      · exact ends.done ha
      · exact ends.grows.mem (hb.left hx)
    · rw [mem_finish]
      rcases added _ hx with hx | hx
      · exact (hb.right hx).imp_left .inr
      · rcases leads_iff.1 (within_singleton.1 hx) with rfl | hx
        · exact .inl (.inl rfl)
        · exact .inr (valid.closed hk ((settled.mem _).2 hx))

/-- **Two searches.** What a search knows beforehand makes no difference, unless it is a program
that leads back to the root. -/
theorem compare_explore (loader : Loader) (fuel fuel' : ℕ) (valid : Valid loader.find r)
    (covers : Covers loader.find top n) (P : Path loader.find r root top path called)
    (h : Good loader.find r top path s) (h' : Good loader.find {} top path t) (hb : Beside r s t)
    (hn : n + 1 < fuel + path.length) (hn' : n + 1 < fuel' + path.length) :
    Compare loader.find r root top ((explore loader r fuel path called).run s)
      ((explore loader {} fuel' path called).run t) := by
  have length := P.length_le covers
  induction fuel generalizing path called s t fuel' with
  | zero => omega
  | succ fuel ih =>
    obtain ⟨fuel', rfl⟩ : ∃ m, fuel' = m + 1 := ⟨fuel' - 1, by omega⟩
    have step (id : Int) (hid : id ∈ called) (s t : Search) (hs : Good loader.find r top path s)
        (ht : Good loader.find {} top path t) (hb : Beside r s t) :
        Compare loader.find r root top ((visit loader r fuel path id).run s)
          ((visit loader {} fuel' path id).run t) := by
      rcases hk : r.closures[id]? with _ | c
      · exact compare_visit_unknown (fun fuel' P h h' hb hn hn' =>
          ih fuel' P h h' hb hn hn' (P.length_le covers)) P hid hk hs ht hb (by omega) (by omega)
      · exact compare_visit_known valid covers P hid hk ht hb (by omega)
    have all := compare_forM fuel fuel' valid P step (fun _ hid => hid) h h' hb
    have ends := ends_explore (fuel + 1) valid P h
    have ends' := ends_explore (fuel' + 1) valid_empty P.cold h'
    rw [run_explore_succ] at ends ends' ⊢
    rw [run_explore_succ]
    rcases hs : (called.forM (visit loader r fuel path)).run s with ⟨e | _, s'⟩ <;>
      rcases ht : (called.forM (visit loader {} fuel' path)).run t with ⟨e' | _, t'⟩ <;>
      rw [hs, ht] at all <;> rw [hs] at ends <;> rw [ht] at ends' <;>
      rcases all with ⟨same, hb'⟩ | ⟨taken, he, hx⟩
    · exact .alike (by rw [Except.error.inj same]) hb'
    · exact .apart taken (by rw [Except.error.inj he]) hx
    · cases same
    · cases he
    · cases same
    · exact .apart taken (by rw [Except.error.inj he]) hx
    · have covered := (ends.done rfl).1
      have covered' := (ends'.done rfl).1
      refine .alike (congrArg Except.ok ?_) hb'
      exact covered.ascending.eq_of_mem_iff covered'.ascending fun x => by
        rw [covered.mem, covered'.mem]
    · cases he

end SeqAsm.Resolver
