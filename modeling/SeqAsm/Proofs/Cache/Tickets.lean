import Mathlib.Data.Nat.Basic
import SeqAsm.Proofs.Cache.Schedule

/-!
Whoever waits for a computation gets its outcome.

Each ticket is given out once, to one thread. The computation that has it is under way, or has
ended with its outcome yet to be published, or is published, and only an end takes it from the
first to the second. So a ticket never has two outcomes, and a thread that waits for it waits for
the thread that has it.
-/

namespace SeqAsm.Schedule

open Cache (Reply Looked)

variable {ρ : Type} {s s' : State ρ} {e : Event ρ} {es es' : List (Event ρ)} {t u : ℕ}
  {c d : Flight} {o : Except Failure ρ} {q : Query} {reply : Reply ρ} {cache : Cache ρ}

/-! ### Tickets -/

/-- A thread has been told to compute. -/
def Started (es : List (Event ρ)) (t : ℕ) (c : Flight) : Prop :=
  .asked t c.query (.compute c.ticket) ∈ es

/-- A thread has been told to wait. -/
def Joined (es : List (Event ρ)) (t : ℕ) (c : Flight) : Prop :=
  .asked t c.query (.wait c.ticket) ∈ es

/-- Where a computation stands. -/
inductive Stage (es : List (Event ρ)) (s : State ρ) (t : ℕ) (c : Flight) : Prop
  | flying (on : c ∈ (s.threads t).stack) (never : ∀ o, .finished t c o ∉ es)
  | announced {o : Except Failure ρ} (phase : (s.threads t).phase = .announcing c o)
      (ended : ∀ o', .finished t c o' ∈ es ↔ o' = o)
  | landed {o : Except Failure ρ} (out : s.published c.ticket = some o)
      (ended : ∀ o', .finished t c o' ∈ es ↔ o' = o)

/-- Each of the first `n` tickets may have been given out, once. -/
structure Numbered (es : List (Event ρ)) (n : ℕ) : Prop where
  lt {t : ℕ} {c : Flight} : Started es t c → c.ticket < n
  unique {t u : ℕ} {c d : Flight} : Started es t c → Started es u d → c.ticket = d.ticket →
    t = u ∧ c = d

lemma Numbered.mono {n : ℕ} (h : Numbered es n)
    (sub : ∀ {t c}, Started es' t c → Started es t c) : Numbered es' n :=
  ⟨fun hc => h.lt (sub hc), fun hc hd => h.unique (sub hc) (sub hd)⟩

/-- A thread is at what it has been told to do. -/
structure Attends (es : List (Event ρ)) (published : ℕ → Option (Except Failure ρ)) (t : ℕ)
    (th : Thread ρ) : Prop where
  computing {c : Flight} : c ∈ th.stack → Started es t c ∧ published c.ticket = none
  announcing {c : Flight} {o : Except Failure ρ} : th.phase = .announcing c o →
    .finished t c o ∈ es ∧ published c.ticket = none ∧ c ∉ th.stack
  waiting {c : Flight} : th.phase = .waiting c → Joined es t c ∧ ∃ u, Started es u c

/-- What has happened to the tickets that were given out. -/
structure Tickets (es : List (Event ρ)) (s : State ρ) : Prop where
  numbered : Numbered es s.cache.tickets
  unused {k : ℕ} : s.cache.tickets ≤ k → s.published k = none
  stage {t : ℕ} {c : Flight} : Started es t c → Stage es s t c
  started {t : ℕ} {c : Flight} {o : Except Failure ρ} : .finished t c o ∈ es → Started es t c
  attends (t : ℕ) : Attends es s.published t (s.threads t)

lemma tickets_init : Tickets [] ({} : State ρ) where
  numbered := ⟨nofun, nofun⟩
  unused _ := rfl
  stage := nofun
  started := nofun
  attends _ := ⟨nofun, nofun, nofun⟩

/-- A computation stays where it is when a thread moves that neither drops nor announces it. -/
lemma Stage.move (h : Stage es s u d) {th : Thread ρ} {published : ℕ → Option (Except Failure ρ)}
    (on : u = t → d ∈ (s.threads t).stack → d ∈ th.stack)
    (silent : u = t → ∀ o, (s.threads t).phase ≠ .announcing d o)
    (same : published d.ticket = s.published d.ticket)
    (finished : ∀ o, .finished u d o ∈ es' ↔ .finished u d o ∈ es) :
    Stage es' ({ s with cache, published }.move t th) u d := by
  cases h with
  | flying there never =>
    refine .flying ?_ fun o ho => never o ((finished o).1 ho)
    obtain rfl | hu := eq_or_ne u t
    · rw [State.move_self]
      exact on rfl there
    · rwa [State.move_of_ne hu]
  | announced phase ended =>
    have hu : u ≠ t := fun e => silent e _ (e ▸ phase)
    exact .announced (by rwa [State.move_of_ne hu]) fun o => (finished o).trans (ended o)
  | landed out ended => exact .landed (same.trans out) fun o => (finished o).trans (ended o)

lemma Attends.keep {published published' : ℕ → Option (Except Failure ρ)} {th : Thread ρ}
    (h : Attends es published t th) (sub : es ⊆ es')
    (started : ∀ {d o}, .finished t d o ∈ es → Started es t d)
    (same : ∀ d, Started es t d → published' d.ticket = published d.ticket) :
    Attends es' published' t th := by
  refine ⟨fun on => ?_, fun phase => ?_, fun phase => ?_⟩
  · obtain ⟨hs, unknown⟩ := h.computing on
    exact ⟨sub hs, (same _ hs).trans unknown⟩
  · obtain ⟨finished, unknown, off⟩ := h.announcing phase
    exact ⟨sub finished, (same _ (started finished)).trans unknown, off⟩
  · obtain ⟨joined, u, hs⟩ := h.waiting phase
    exact ⟨sub joined, u, sub hs⟩

/-- What a running thread computes has not ended. -/
lemma Tickets.never (h : Tickets es s) (on : c ∈ (s.threads t).stack)
    (running : (s.threads t).phase = .running) (o : Except Failure ρ) :
    .finished t c o ∉ es := by
  obtain ⟨started, unknown⟩ := (h.attends t).computing on
  cases h.stage started with
  | flying on never => exact never o
  | announced phase ended => exact nomatch running.symm.trans phase
  | landed out ended => exact nomatch unknown.symm.trans out

/-- What a thread announces is how its computation has ended. -/
lemma Tickets.ended (h : Tickets es s) (phase : (s.threads t).phase = .announcing c o)
    (o' : Except Failure ρ) : .finished t c o' ∈ es ↔ o' = o := by
  obtain ⟨finished, unknown, off⟩ := (h.attends t).announcing phase
  cases h.stage (h.started finished) with
  | flying on never => exact absurd on off
  | announced phase' ended =>
    cases phase.symm.trans phase'
    exact ended o'
  | landed out ended => exact nomatch unknown.symm.trans out

/-! ### Requests -/

lemma Thread.mem_answered {th : Thread ρ} : c ∈ (th.answered q reply).stack ↔
    c ∈ th.stack ∨ c.query = q ∧ reply = .compute c.ticket := by
  rcases c with ⟨p, k⟩
  cases reply <;> simp [answered, or_comm, eq_comm]

lemma Thread.answered_ne_announcing {th : Thread ρ} (running : th.phase = .running) :
    (th.answered q reply).phase ≠ .announcing c o := by
  cases reply <;> simp [answered, running]

lemma Thread.answered_waiting {th : Thread ρ} (running : th.phase = .running)
    (h : (th.answered q reply).phase = .waiting c) : c.query = q ∧ reply = .wait c.ticket := by
  cases reply <;> simp_all [answered]
  cases h
  exact ⟨rfl, rfl⟩

/-- A ticket is given out when it is the next one, and only then. -/
lemma ticket_of_looked (look : Looked s.cache t q reply cache) :
    s.cache.tickets ≤ cache.tickets ∧
      ∀ k, reply = .compute k → k = s.cache.tickets ∧ k < cache.tickets := by
  cases look
  case compute => exact ⟨Nat.le_succ _, fun k hk => by cases hk; exact ⟨rfl, Nat.lt_succ_self _⟩⟩
  all_goals exact ⟨Nat.le_refl _, nofun⟩

/-- Who is told to wait waits for a thread that computes the query. -/
lemma taken_of_looked {k : ℕ} (look : Looked s.cache t q reply cache) (wait : reply = .wait k) :
    ∃ u, s.cache.pending[q]? = some ⟨k, u⟩ := by
  cases look <;> cases wait
  exact ⟨_, ‹_›⟩

lemma started_asked : Started (.asked t q reply :: es) u d ↔
    (u = t ∧ d.query = q ∧ reply = .compute d.ticket) ∨ Started es u d := by
  simp only [Started, List.mem_cons, Event.asked.injEq]
  refine or_congr_left ⟨?_, ?_⟩ <;> rintro ⟨rfl, rfl, rfl⟩ <;> exact ⟨rfl, rfl, rfl⟩

lemma Numbered.asked (h : Numbered es s.cache.tickets) (look : Looked s.cache t q reply cache) :
    Numbered (.asked t q reply :: es) cache.tickets := by
  obtain ⟨more, next⟩ := ticket_of_looked look
  refine ⟨fun hd => ?_, fun {v w} c d hc hd same => ?_⟩
  · rcases started_asked.1 hd with ⟨-, -, compute⟩ | hd
    · exact (next _ compute).2
    · exact Nat.lt_of_lt_of_le (h.lt hd) more
  · rcases started_asked.1 hc with ⟨rfl, hc, compute⟩ | hc' <;>
      rcases started_asked.1 hd with ⟨rfl, hd, compute'⟩ | hd'
    · exact ⟨rfl, by rcases c; rcases d; simp_all⟩
    · have := h.lt hd'
      have := next _ compute
      omega
    · have := h.lt hc'
      have := next _ compute'
      omega
    · exact h.unique hc' hd' same

lemma Tickets.asked (h : Tickets es s) (owned : Owned s)
    (running : (s.threads t).phase = .running) (look : Looked s.cache t q reply cache) :
    Tickets (.asked t q reply :: es)
      ({ s with cache }.move t ((s.threads t).answered q reply)) := by
  obtain ⟨more, next⟩ := ticket_of_looked look
  have old {u : ℕ} {d : Flight} {o : Except Failure ρ} :
      Event.finished u d o ∈ .asked t q reply :: es ↔ .finished u d o ∈ es := by simp
  have sub : es ⊆ .asked t q reply :: es := List.subset_cons_self ..
  refine ⟨h.numbered.asked look, fun hk => h.unused (Nat.le_trans more hk), fun {u d} hd => ?_,
    fun hd => sub (h.started (old.1 hd)), ?_⟩
  · rcases started_asked.1 hd with ⟨rfl, hq, compute⟩ | hd
    · refine .flying ?_ fun o ho => ?_
      · rw [State.move_self]
        exact Thread.mem_answered.2 (.inr ⟨hq, compute⟩)
      · have before := h.numbered.lt (h.started (old.1 ho))
        have := next _ compute
        omega
    · exact (h.stage hd).move (fun _ on => Thread.mem_answered.2 (.inl on))
        (fun _ o phase => nomatch running.symm.trans phase) rfl fun _ => old
  · refine State.forall_move (P := Attends _ s.published) ?_ fun u _ => ?_
    · refine ⟨fun {d} on => ?_, fun phase => ?_, fun {d} phase => ?_⟩
      · rcases Thread.mem_answered.1 on with on | new
        · exact ((h.attends t).computing on).imp_left (@sub _)
        · exact ⟨started_asked.2 (.inl ⟨rfl, new⟩), h.unused (Nat.le_of_eq (next _ new.2).1.symm)⟩
      · exact absurd phase (Thread.answered_ne_announcing running)
      · obtain ⟨hq, wait⟩ := Thread.answered_waiting running phase
        refine ⟨?_, ?_⟩
        · rw [Joined, hq, wait]
          exact List.mem_cons_self
        · obtain ⟨v, taken⟩ := taken_of_looked look wait
          have on := (owned.mem_iff v d).2 (hq ▸ taken)
          exact ⟨v, sub ((h.attends v).computing on).1⟩
    · exact (h.attends u).keep sub h.started fun _ _ => rfl

/-! ### Outcomes -/

lemma Tickets.finished (h : Tickets es s) (owned : Owned s) {rest : List Flight}
    (thread : s.threads t = ⟨c :: rest, .running⟩) (o : Except Failure ρ) :
    Tickets (.finished t c o :: es)
      ({ s with cache := s.cache.finish c.query o }.move t ⟨rest, .announcing c o⟩) := by
  have tickets : (s.cache.finish c.query o).tickets = s.cache.tickets := by cases o <;> rfl
  have on : c ∈ (s.threads t).stack := thread ▸ List.mem_cons_self
  have running : (s.threads t).phase = .running := congrArg Thread.phase thread
  obtain ⟨begun, unknown⟩ := (h.attends t).computing on
  have off : c ∉ rest := (List.nodup_cons.1 (by simpa [thread] using owned.nodup t)).1
  have sub : es ⊆ .finished t c o :: es := List.subset_cons_self ..
  have old {u : ℕ} {d : Flight} : Started (.finished t c o :: es) u d ↔ Started es u d := by
    simp [Started]
  refine ⟨tickets ▸ h.numbered.mono old.1, fun hk => h.unused (tickets ▸ hk), fun {u d} hd => ?_,
    fun {u d o'} hd => ?_, ?_⟩
  · by_cases same : u = t ∧ d = c
    · obtain ⟨rfl, rfl⟩ := same
      refine .announced (by rw [State.move_self]) fun o' => ?_
      simp [h.never on running o']
    · refine (h.stage (old.1 hd)).move (fun hu hm => ?_)
        (fun _ o phase => nomatch running.symm.trans phase) rfl fun o' => ?_
      · rw [thread, List.mem_cons] at hm
        exact hm.resolve_left fun e => same ⟨hu, e⟩
      · simp only [List.mem_cons, Event.finished.injEq]
        exact or_iff_right fun e => same ⟨e.1, e.2.1⟩
  · rcases List.mem_cons.1 hd with new | hd
    · cases new
      exact sub begun
    · exact sub (h.started hd)
  · refine State.forall_move (P := Attends _ s.published) ⟨fun hm => ?_, fun phase => ?_, nofun⟩
      fun u _ => (h.attends u).keep sub h.started fun _ _ => rfl
    · refine ((h.attends t).computing ?_).imp_left (@sub _)
      rw [thread]
      exact List.mem_cons_of_mem c hm
    · cases phase
      exact ⟨List.mem_cons_self, unknown, off⟩

lemma Tickets.published (h : Tickets es s) (phase : (s.threads t).phase = .announcing c o) :
    Tickets (.published t c o :: es)
      ({ s with published := Function.update s.published c.ticket (some o) }.move t
        ⟨(s.threads t).stack, .running⟩) := by
  obtain ⟨ended, unknown, off⟩ := (h.attends t).announcing phase
  have begun := h.started ended
  have sub : es ⊆ .published t c o :: es := List.subset_cons_self ..
  have old {u : ℕ} {d : Flight} : Started (.published t c o :: es) u d ↔ Started es u d := by
    simp [Started]
  have old' {u : ℕ} {d : Flight} {o' : Except Failure ρ} :
      .finished u d o' ∈ Event.published t c o :: es ↔ .finished u d o' ∈ es := by simp
  have other {u : ℕ} {d : Flight} (hd : Started es u d) (ne : ¬ (u = t ∧ d = c)) :
      Function.update s.published c.ticket (some o) d.ticket = s.published d.ticket :=
    Function.update_of_ne (fun e => ne (h.numbered.unique hd begun e)) ..
  refine ⟨h.numbered.mono old.1, fun {k} hk => ?_, fun {u d} hd => ?_,
    fun hd => sub (h.started (old'.1 hd)), ?_⟩
  · have later : k ≠ c.ticket := Nat.ne_of_gt (Nat.lt_of_lt_of_le (h.numbered.lt begun) hk)
    exact (Function.update_of_ne later ..).trans (h.unused hk)
  · by_cases same : u = t ∧ d = c
    · obtain ⟨rfl, rfl⟩ := same
      exact .landed (Function.update_self ..) fun o' => old'.trans (h.ended phase o')
    · refine (h.stage (old.1 hd)).move (fun _ => id) (fun hu o' phase' => ?_)
        (other (old.1 hd) same) fun o' => old'
      cases phase.symm.trans phase'
      exact same ⟨hu, rfl⟩
  · refine State.forall_move (P := Attends _ (Function.update s.published c.ticket (some o)))
      ⟨fun {d} hm => ?_, nofun, nofun⟩ fun u hu => (h.attends u).keep sub h.started fun d hd =>
        other hd fun same => hu same.1
    obtain ⟨hd, unknown⟩ := (h.attends t).computing hm
    exact ⟨sub hd, (other hd fun same => off (same.2 ▸ hm)).trans unknown⟩

lemma Tickets.received (h : Tickets es s) (phase : (s.threads t).phase = .waiting c)
    (o : Except Failure ρ) :
    Tickets (.received t c o :: es) (s.move t ⟨(s.threads t).stack, .running⟩) := by
  have sub : es ⊆ .received t c o :: es := List.subset_cons_self ..
  have old {u : ℕ} {d : Flight} : Started (.received t c o :: es) u d ↔ Started es u d := by
    simp [Started]
  have old' {u : ℕ} {d : Flight} {o' : Except Failure ρ} :
      .finished u d o' ∈ Event.received t c o :: es ↔ .finished u d o' ∈ es := by simp
  refine ⟨h.numbered.mono old.1, h.unused, fun {u d} hd => ?_,
    fun hd => sub (h.started (old'.1 hd)), ?_⟩
  · exact (h.stage (old.1 hd)).move (fun _ => id)
      (fun _ o' phase' => nomatch phase.symm.trans phase') rfl fun _ => old'
  · exact State.forall_move (P := Attends _ s.published)
      ⟨fun hm => ((h.attends t).computing hm).imp_left (@sub _), nofun, nofun⟩
      fun u _ => (h.attends u).keep sub h.started fun _ _ => rfl

lemma Tickets.cleared (h : Tickets es s) :
    Tickets (.cleared :: es) { s with cache := s.cache.clear } := by
  have sub : es ⊆ .cleared :: es := List.subset_cons_self ..
  have old {u : ℕ} {d : Flight} : Started (.cleared :: es) u d ↔ Started es u d := by
    simp [Started]
  have old' {u : ℕ} {d : Flight} {o : Except Failure ρ} :
      .finished u d o ∈ Event.cleared :: es ↔ .finished u d o ∈ es := by simp
  refine ⟨h.numbered.mono old.1, h.unused, fun hd => ?_, fun hd => sub (h.started (old'.1 hd)),
    fun u => (h.attends u).keep sub h.started fun _ _ => rfl⟩
  cases h.stage (old.1 hd) with
  | flying on never => exact .flying on fun o ho => never o (old'.1 ho)
  | announced phase ended => exact .announced phase fun o => old'.trans (ended o)
  | landed out ended => exact .landed out fun o => old'.trans (ended o)

lemma Tickets.step (h : Tickets es s) (owned : Owned s) (st : Step s e s') :
    Tickets (e :: es) s' := by
  cases st with
  | asked running look => exact h.asked owned running (Cache.looked_of_request look)
  | finished thread o => exact h.finished owned thread o
  | published phase => exact h.published phase
  | received phase out => exact h.received phase _
  | cleared => exact h.cleared

end SeqAsm.Schedule
