import SeqAsm.Proofs.Cache.Tickets

/-!
One computation at a time, whatever the schedule.

Entries and counts are those of the time since the last clearing, also when a computation began
before it. An entry stays, because only the end of a computation writes one and what is being
computed has none.
-/

namespace SeqAsm.Schedule

open Cache (Reply Looked)

variable {ρ : Type} {s s' : State ρ} {e : Event ρ} {es later : List (Event ρ)} {q : Query} {r : ρ}

/-! ### Since the last clearing -/

/-- The events since the last clearing. -/
def recent : List (Event ρ) → List (Event ρ)
  | [] => []
  | .cleared :: _ => []
  | e :: es => e :: recent es

lemma recent_cons (he : e ≠ .cleared) : recent (e :: es) = e :: recent es := by
  cases e <;> first | rfl | exact absurd rfl he

def Event.isAnswered : Event ρ → Bool
  | .asked _ _ .reentered => false
  | .asked .. => true
  | _ => false

def Event.isStart : Event ρ → Bool
  | .asked _ _ (.compute _) => true
  | _ => false

/-- The counts are those of the events since the last clearing. -/
structure Counted (es : List (Event ρ)) (s : State ρ) : Prop where
  answered : s.cache.counts.hits + s.cache.counts.misses + s.cache.counts.waits =
    (recent es).countP Event.isAnswered
  misses : s.cache.counts.misses = (recent es).countP Event.isStart

lemma Counted.step (h : Counted es s) (st : Step s e s') : Counted (e :: es) s' := by
  obtain ⟨answered, misses⟩ := h
  cases st with
  | asked running look =>
    cases Cache.looked_of_request look <;> constructor <;>
      simp [recent, List.countP_cons, Event.isAnswered, Event.isStart] <;> omega
  | finished thread o => cases o <;> exact ⟨answered, misses⟩
  | published phase => exact ⟨answered, misses⟩
  | received phase out => exact ⟨answered, misses⟩
  | cleared => exact ⟨rfl, rfl⟩

/-- Every entry is the outcome of a computation that has ended since the last clearing. -/
def Earned (es : List (Event ρ)) (s : State ρ) : Prop :=
  ∀ (q : Query) (r : ρ), s.cache.entries[q]? = some r →
    ∃ t k, .finished t ⟨q, k⟩ (.ok r) ∈ recent es

lemma Earned.step (h : Earned es s) (st : Step s e s') : Earned (e :: es) s' := by
  intro p v hp
  by_cases he : e = .cleared
  · subst he
    cases st
    simp [Cache.clear] at hp
  have old (hp : s.cache.entries[p]? = some v) :
      ∃ t k, .finished t ⟨p, k⟩ (.ok v) ∈ recent (e :: es) := by
    obtain ⟨t, k, ended⟩ := h p v hp
    exact ⟨t, k, recent_cons he ▸ List.mem_cons_of_mem e ended⟩
  cases st with
  | asked running look =>
    refine old ?_
    cases Cache.looked_of_request look <;> exact hp
  | @finished t c rest thread o =>
    by_cases hq : p = c.query
    · cases o with
      | error f => exact old hp
      | ok r =>
        obtain rfl : r = v := by simpa [hq, Cache.finish] using hp
        exact ⟨t, c.ticket, hq ▸ List.mem_cons_self⟩
    · exact old ((finish_entries_of_ne s.cache hq o).symm.trans hp)
  | published phase => exact old hp
  | received phase out => exact old hp
  | cleared => exact absurd rfl he

/-! ### Entries stay -/

lemma entry_step (owned : Owned s) (st : Step s e s') (he : e ≠ .cleared)
    (present : s.cache.entries[q]? = some r) : s'.cache.entries[q]? = some r ∧
      ∀ t reply, e = .asked t q reply → reply = .found r := by
  cases st with
  | asked running look =>
    refine ⟨?_, fun t reply same => ?_⟩
    · cases Cache.looked_of_request look <;> exact present
    · cases same
      cases Cache.looked_of_request look with
      | found there => rw [Option.some.inj (there.symm.trans present)]
      | compute absent free => exact nomatch absent.symm.trans present
      | wait absent taken other => exact nomatch absent.symm.trans present
      | reentered absent own => exact nomatch absent.symm.trans present
  | @finished t c rest thread o =>
    have hq : q ≠ c.query := by
      rintro rfl
      have on := (owned.mem_iff t c).1 (thread ▸ List.mem_cons_self)
      exact nomatch on.symm.trans (owned.apart present)
    exact ⟨(finish_entries_of_ne s.cache hq o).trans present, nofun⟩
  | published phase => exact ⟨present, nofun⟩
  | received phase out => exact ⟨present, nofun⟩
  | cleared => exact absurd rfl he

lemma entry_runs (owned : Owned s) (run : Runs s later s') (uncleared : .cleared ∉ later)
    (present : s.cache.entries[q]? = some r) : s'.cache.entries[q]? = some r ∧
      ∀ t reply, .asked t q reply ∈ later → reply = .found r := by
  induction run with
  | refl => exact ⟨present, nofun⟩
  | step run st ih =>
    rw [List.mem_cons, not_or] at uncleared
    obtain ⟨still, served⟩ := ih uncleared.2
    obtain ⟨after, last⟩ := entry_step (owned.runs run) st (Ne.symm uncleared.1) still
    refine ⟨after, fun t reply asked => ?_⟩
    rcases List.mem_cons.1 asked with new | old
    · exact last t reply new.symm
    · exact served t reply old

/-! ### Every schedule -/

/-- What holds after any run. -/
structure Sound (es : List (Event ρ)) (s : State ρ) : Prop where
  owned : Owned s
  tickets : Tickets es s
  counted : Counted es s
  earned : Earned es s

lemma sound_of_run (run : Run es s) : Sound es s := by
  induction run with
  | refl => exact ⟨owned_init, tickets_init, ⟨rfl, rfl⟩, fun q r h => by simp at h⟩
  | step _ st ih =>
    exact ⟨ih.owned.step st, ih.tickets.step ih.owned st, ih.counted.step st, ih.earned.step st⟩

/-- Who waits waits for a thread that has been told to compute, whose computation is under way, or
has ended with an outcome that is being published, or is published. -/
lemma Tickets.awaited (h : Tickets es s) {t : ℕ} {c : Flight}
    (waiting : (s.threads t).phase = .waiting c) : ∃ u, c ∈ (s.threads u).stack ∨
      (∃ o, (s.threads u).phase = .announcing c o) ∨ ∃ o, s.published c.ticket = some o := by
  obtain ⟨-, u, started⟩ := (h.attends t).waiting waiting
  cases h.stage started with
  | flying on never => exact ⟨u, .inl on⟩
  | announced phase ended => exact ⟨u, .inr (.inl ⟨_, phase⟩)⟩
  | landed out ended => exact ⟨u, .inr (.inr ⟨_, out⟩)⟩

/-- A computation ends once. -/
lemma Tickets.ends_once (h : Tickets es s) {t : ℕ} {c : Flight} {o : Except Failure ρ}
    (ended : .finished t c o ∈ es) (u : ℕ) (o' : Except Failure ρ) :
    .finished u c o' ∈ es ↔ u = t ∧ o' = o := by
  have own (o' : Except Failure ρ) : .finished t c o' ∈ es ↔ o' = o := by
    cases h.stage (h.started ended) with
    | flying on never => exact absurd ended (never o)
    | announced phase all => rw [all, (all o).1 ended]
    | landed out all => rw [all, (all o).1 ended]
  constructor
  · intro again
    obtain rfl := (h.numbered.unique (h.started again) (h.started ended) rfl).1
    exact ⟨rfl, (own o').1 again⟩
  · rintro ⟨rfl, same⟩
    exact (own o').2 same

/-- What has been published for a computation is how it has ended. -/
lemma Tickets.finished_of_published (h : Tickets es s) {t : ℕ} {c : Flight} {o : Except Failure ρ}
    (started : Started es t c) (out : s.published c.ticket = some o) : .finished t c o ∈ es := by
  cases h.stage started with
  | flying on never => exact nomatch ((h.attends t).computing on).2.symm.trans out
  | announced phase ended => exact nomatch ((h.attends t).announcing phase).2.1.symm.trans out
  | landed out' ended =>
    cases out.symm.trans out'
    exact (ended o).2 rfl

/-- What a thread has received is what it has waited for. -/
lemma received_of_run (run : Run es s) {t : ℕ} {c : Flight} {o : Except Failure ρ}
    (received : .received t c o ∈ es) : Joined es t c ∧ ∃ u, .finished u c o ∈ es := by
  induction run with
  | refl => cases received
  | step run st ih =>
    rcases List.mem_cons.1 received with new | old
    · subst new
      cases st with
      | received phase out =>
        have h := (sound_of_run run).tickets
        obtain ⟨joined, u, started⟩ := (h.attends t).waiting phase
        exact ⟨List.mem_cons_of_mem _ joined, u,
          List.mem_cons_of_mem _ (h.finished_of_published started out)⟩
    · obtain ⟨joined, u, finished⟩ := ih old
      exact ⟨List.mem_cons_of_mem _ joined, u, List.mem_cons_of_mem _ finished⟩

/-- **Single flight.** After any run of any number of threads: no query has an entry while it is
computed, and one thread computes it. Who has waited for a ticket has received the outcome of the
one computation that the ticket was given out for, and who still waits for it can rely on it. A
failure adds no entry, and entries are outcomes of computations that have succeeded since the last
clearing. Until the next clearing an entry stays and answers all requests for its query. The
counts are those of the requests since the last clearing that were not refused, and of the
computations that they began. -/
theorem single_flight {es : List (Event ρ)} {s : State ρ} (run : Run es s) :
    (∀ (q : Query) (r : ρ), s.cache.entries[q]? = some r → s.cache.pending[q]? = none) ∧
    (∀ q, q ∈ s.cache.pending → ∃! t, ∃ k, ⟨q, k⟩ ∈ (s.threads t).stack) ∧
    (∀ t c, c ∈ (s.threads t).stack → c.query ∈ s.cache.pending) ∧
    (∀ t c o, .received t c o ∈ es → Joined es t c ∧
      ∃ u, (∀ v q, Started es v ⟨q, c.ticket⟩ ↔ v = u ∧ q = c.query) ∧
        ∀ v o', .finished v c o' ∈ es ↔ v = u ∧ o' = o) ∧
    (∀ t c, (s.threads t).phase = .waiting c → ∃ u, c ∈ (s.threads u).stack ∨
      (∃ o, (s.threads u).phase = .announcing c o) ∨ ∃ o, s.published c.ticket = some o) ∧
    (∀ t c f s', Step s (.finished t c (.error f)) s' → s'.cache.entries = s.cache.entries) ∧
    (∀ (q : Query) (r : ρ), s.cache.entries[q]? = some r →
      ∃ t k, .finished t ⟨q, k⟩ (.ok r) ∈ recent es) ∧
    (∀ later s', Runs s later s' → .cleared ∉ later →
      ∀ (q : Query) (r : ρ), s.cache.entries[q]? = some r → s'.cache.entries[q]? = some r ∧
        ∀ t reply, .asked t q reply ∈ later → reply = .found r) ∧
    s.cache.counts.hits + s.cache.counts.misses + s.cache.counts.waits =
      (recent es).countP Event.isAnswered ∧
    s.cache.counts.misses = (recent es).countP Event.isStart := by
  obtain ⟨owned, tickets, counted, earned⟩ := sound_of_run run
  refine ⟨fun q r => owned.apart, fun q hq => ?_, fun t c on => ?_, fun t c o received => ?_,
    fun t c => tickets.awaited, fun t c f s' st => ?_, earned,
    fun later s' more uncleared q r => entry_runs owned more uncleared,
    counted.answered, counted.misses⟩
  · obtain ⟨⟨k, t⟩, hp⟩ := Option.isSome_iff_exists.1 (Std.ExtTreeMap.isSome_getElem?_iff_mem.2 hq)
    refine ⟨t, ⟨k, (owned.mem_iff t ⟨q, k⟩).2 hp⟩, fun u ⟨l, on⟩ => ?_⟩
    cases hp.symm.trans ((owned.mem_iff u ⟨q, l⟩).1 on)
    rfl
  · rw [← Std.ExtTreeMap.isSome_getElem?_iff_mem, (owned.mem_iff t c).1 on]
    rfl
  · obtain ⟨joined, u, ended⟩ := received_of_run run received
    refine ⟨joined, u, fun v q => ⟨fun started => ?_, ?_⟩, tickets.ends_once ended⟩
    · obtain ⟨rfl, same⟩ := tickets.numbered.unique started (tickets.started ended) rfl
      exact ⟨rfl, congrArg Flight.query same⟩
    · rintro ⟨rfl, rfl⟩
      exact tickets.started ended
  · cases st
    rfl

/-- Two threads ask for a query, one computes it while all is cleared, a third comes when the
computation has ended, and the second receives its outcome at last. -/
def clearedWhileWaiting : List (Event ℕ) :=
  [.received 1 ⟨⟨1, 0⟩, 0⟩ (.ok 7), .published 0 ⟨⟨1, 0⟩, 0⟩ (.ok 7), .asked 2 ⟨1, 0⟩ (.found 7),
    .finished 0 ⟨⟨1, 0⟩, 0⟩ (.ok 7), .cleared, .asked 1 ⟨1, 0⟩ (.wait 0),
    .asked 0 ⟨1, 0⟩ (.compute 0)]

lemma run_clearedWhileWaiting : ∃ s, Run clearedWhileWaiting s := by
  refine ⟨_, .step (.step (.step (.step (.step (.step (.step .refl (.asked rfl rfl))
    (.asked rfl rfl)) .cleared) (.finished rfl _)) (.asked rfl rfl)) (.published rfl))
    (.received rfl rfl)⟩

/-- The outcome that is received, and the counts since all was cleared. -/
theorem single_flight_clearedWhileWaiting : ∃ s, Run clearedWhileWaiting s ∧
    Joined clearedWhileWaiting 1 ⟨⟨1, 0⟩, 0⟩ ∧
    s.cache.counts.hits + s.cache.counts.misses + s.cache.counts.waits = 1 ∧
    s.cache.counts.misses = 0 := by
  obtain ⟨s, run⟩ := run_clearedWhileWaiting
  obtain ⟨-, -, -, received, -, -, -, -, answered, misses⟩ := single_flight run
  exact ⟨s, run, (received 1 _ (.ok 7) List.mem_cons_self).1, answered, misses⟩

end SeqAsm.Schedule
