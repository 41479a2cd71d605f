import SeqAsm.Proofs.Session.Invariant

/-!
Calls in a sound session.

A call is answered as a plain call, from the cache or by a run whose own calls are. The runs
nest along the calls between programs, where closures get shorter, so the number of programs is
enough levels, and a program that is being run is not called again.
-/

namespace SeqAsm.Session

open Resolver (Finder Leads Reaches Settled Bounds Valid)

variable {f : Finder} {limits : Limits} {busy : QueryMap Pending} {q : Query} {p : Program}

/-! ### The cache -/

lemma sound_finish {t : Pending} {s : Session} {out : Except Failure Result}
    (hs : Sound f limits (busy.insert q t) s) (free : busy[q]? = none)
    (known : ∀ r, out = .ok r → Known f limits q r) :
    Sound f limits busy { s with cache := s.cache.finish q out } := by
  have closed : s.cache.pending.erase q = busy := by rw [hs.pending, QueryMap.erase_insert free]
  rcases out with e | r
  · exact ⟨hs.world, hs.entries, closed⟩
  · refine ⟨hs.world, fun {k} {r'} hk => ?_, closed⟩
    simp only [Cache.finish, Std.ExtTreeMap.getElem?_insert,
      Std.LawfulEqCmp.compare_eq_iff_eq] at hk
    split at hk
    · subst k
      obtain rfl := Option.some.inj hk
      exact known r rfl
    · exact hs.entries hk

lemma gives_getOrCompute {body : SessionM Result} {out : Except Failure Result}
    (free : busy[q]? = none)
    (h : ∀ ticket, Gives f limits (busy.insert q ⟨ticket, 0⟩) body out)
    (known : ∀ r, Known f limits q r ↔ out = .ok r) :
    Gives f limits busy (ExceptT.mk (Cached.getOrCompute q body.run)) out := by
  intro s hs
  change (Cached.getOrCompute q body.run s).1 = out ∧
    Sound f limits busy (Cached.getOrCompute q body.run s).2
  unfold Cached.getOrCompute Cache.request
  rcases he : s.cache.entries[q]? with _ | r
  · rw [hs.pending, free]
    dsimp only
    obtain ⟨same, sound⟩ := h s.cache.tickets { s with cache :=
      { s.cache with
        pending := busy.insert q ⟨s.cache.tickets, 0⟩
        counts := { s.cache.counts with misses := s.cache.counts.misses + 1 }
        tickets := s.cache.tickets + 1 } } ⟨hs.world, hs.entries, rfl⟩
    refine ⟨same, sound_finish sound free fun r hr => (known r).2 (same.symm.trans hr)⟩
  · exact ⟨((known r).1 (hs.entries he)).symm, hs.world, hs.entries, hs.pending⟩

/-! ### Runs -/

/-- Has calls answered, and notes the loops that make no progress. -/
def host (call : Query → SessionM Result) : Host Session where
  call id n s := (call ⟨id, n⟩).run s
  stalled line iterations s := { s with world := s.world.note (.loopStalled line iterations) }

lemma gives_runWith {call : Query → SessionM Result} {answer : Query → Except Failure Result}
    {ids : List Int} (hd : p.dependencies = .ok ids)
    (h : ∀ id ∈ ids, ∀ n, Gives f limits busy (call ⟨id, n⟩) (answer ⟨id, n⟩)) (input : Int) :
    Gives f limits busy (runWith call p input) (Plain.runWith answer limits p input) := by
  intro s hs
  have alike : Machine.Alike (fun s _ => Sound f limits busy s) (· ∈ ids) (host call)
      (Plain.host answer) :=
    ⟨fun hid _ hw => h _ hid _ _ hw,
      fun _ _ hw => ⟨hw.world.note _, hw.entries, hw.pending⟩⟩
  obtain ⟨same, after⟩ := Machine.run_of_alike s.world.limits alike
    (Program.callsIn_dependencies hd) input hs (v := ())
  rw [hs.world.limits] at same after
  unfold runWith Plain.runWith
  rw [← same]
  change (Machine.run s.world.limits (some (host call)) p input s).1 = _ ∧
    Sound f limits busy (Machine.run s.world.limits (some (host call)) p input s).2.world
  rw [hs.world.limits]
  exact ⟨rfl, after.world⟩

lemma gives_transitive {id : Int} {c : List Int} (hs : Settled f id c) :
    Gives f limits busy (resolve (·.transitive · id)) (.ok c) :=
  gives_resolve (fun _ n valid => valid.transitive ⟨f, n⟩ id)
    fun _ _ valid hn => Resolver.transitive_of_settled valid hn hs

/-- A program that leads to no program under way. -/
def Apart (f : Finder) (busy : QueryMap Pending) (id : Int) : Prop :=
  ∀ k : Query, busy[k]? ≠ none → ¬ Leads f id k.program

lemma Apart.free (h : Apart f busy q.program) : busy[q]? = none := by
  by_contra hb
  exact h q hb .refl

/-- What a settled program calls leads neither to it nor to anything else under way. -/
lemma Apart.callee {c : List Int} {id : Int} {t : Pending} (h : Apart f busy q.program)
    (hs : Settled f q.program c) (reach : Reaches f q.program id) :
    Apart f (busy.insert q t) id := by
  intro k hk hl
  simp only [Std.ExtTreeMap.getElem?_insert, Std.LawfulEqCmp.compare_eq_iff_eq] at hk
  split at hk
  · subst k
    exact hs.acyclic .refl (.trans_left reach hl)
  · exact h k hk (reach.to_reflTransGen.trans hl)

/-- **Calls are plain calls.** A call of a settled program that leads to no program under way has
the answer of a plain call. -/
theorem gives_callWithin {depth : ℕ} {c : List Int} (hs : Settled f q.program c)
    (hd : c.length < depth) (apart : Apart f busy q.program) :
    Gives f limits busy (callWithin depth q) (Plain.call f limits (c.length + 1) q) := by
  induction depth generalizing q c busy with
  | zero => omega
  | succ depth ih =>
    obtain ⟨ids, p, hp, hids⟩ := hs.links
    refine gives_getOrCompute apart.free (fun ticket => ?_) fun r => ?_
    · have plain : Plain.call f limits (c.length + 1) q =
          (Except.ok () >>= fun _ => Plain.load f q.program >>= fun p => Except.ok c >>= fun _ =>
            Plain.runWith (Plain.call f limits c.length) limits p q.input) := rfl
      rw [plain]
      refine (gives_note _).bind fun _ _ => (gives_load q.program).bind fun p' hp' => ?_
      obtain rfl : p = p' := by
        rw [Plain.load_eq_ok.2 hp] at hp'
        exact Except.ok.inj hp'
      refine (gives_transitive hs).bind fun _ _ => ?_
      refine gives_runWith hids (fun id hid n => ?_) q.input
      have reach : Reaches f q.program id := .single ⟨ids, ⟨p, hp, hids⟩, hid⟩
      obtain ⟨e, he⟩ := hs.of_leads reach.to_reflTransGen
      have shorter := hs.length_lt reach he
      rw [Plain.call_congr c.length (e.length + 1) (fun _ _ h => h) he shorter (by omega)]
      exact ih he (by omega) (apart.callee hs reach)
    · constructor
      · rintro ⟨d, hs', hr⟩
        rwa [hs.unique hs']
      · exact fun hr => ⟨c, hs, hr⟩

/-- All programs that a program calls are in order. -/
def Ready (f : Finder) (p : Program) : Prop :=
  ∃ ids, p.dependencies = .ok ids ∧ ∀ id ∈ ids, ∃ c, Settled f id c

lemma gives_run {depth : ℕ} (hp : Ready f p) (hd : Bounds f depth) (input : Int) :
    Gives f limits ∅ (run p input)
      (Plain.runWith (Plain.call f limits depth) limits p input) := by
  obtain ⟨ids, hids, settled⟩ := hp
  intro s hs
  have levels : (run p input).run s =
      (runWith (callWithin (s.world.loader.bound + 1)) p input).run s := by
    rw [run, run_bind]
    rfl
  rw [levels]
  refine gives_runWith hids (fun id hid n => ?_) input s hs
  obtain ⟨c, hc⟩ := settled id hid
  have enough := hc.length_lt_of_bounds hs.world.bounds
  rw [Plain.call_congr depth (c.length + 1) (fun _ _ h => h) hc (hc.length_lt_of_bounds hd)
    (by omega)]
  have apart : Apart f ∅ id := fun k hk => absurd Std.ExtTreeMap.getElem?_empty hk
  refine gives_callWithin hc ?_ apart
  rw [hs.world.loader_eq]
  dsimp only
  omega

/-! ### The check before a run -/

lemma valid_ofProgram (p : Program) (r : Resolver) (n : ℕ) (valid : Valid f r) :
    Valid f (r.ofProgram ⟨f, n⟩ p).resolver :=
  valid.ofProgram ⟨f, n⟩ p

/-- A program that passes the check is in order. -/
lemma keeps_preflight (p : Program) : Keeps f limits busy (preflight p) fun _ => Ready f p :=
  keeps_resolve (valid_ofProgram p) fun _ n _ valid h =>
    Resolver.settled_of_ofProgram ⟨f, n⟩ valid h

/-- A stored program, or one without an id. -/
def Stored (f : Finder) (p : Program) : Prop := ∀ id, p.id = some id → f id = .ok (some p)

lemma gives_preflight {depth : ℕ} (hp : Stored f p) (hd : Bounds f depth) :
    Gives f limits busy (preflight p) (Resolver.ofProgram ⟨f, depth⟩ {} p).answer :=
  gives_resolve (valid_ofProgram p) fun _ _ valid hn =>
    Resolver.ofProgram_answer_stored valid hn hd hp

lemma ready_of_check {depth : ℕ} {ids : List Int}
    (h : (Resolver.ofProgram ⟨f, depth⟩ {} p).answer = .ok ids) : Ready f p :=
  Resolver.settled_of_ofProgram ⟨f, depth⟩ Resolver.valid_empty h

end SeqAsm.Session
