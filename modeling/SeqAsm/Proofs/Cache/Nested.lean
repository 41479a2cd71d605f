import SeqAsm.Proofs.Cache.SingleFlight

/-!
Requests within computations.

A computation of one thread may ask for further queries, whose computations may ask again, to any
depth, and any of them may fail. Every query under way is then one whose computation has led to the
present request. So the end of a computation takes from the queries under way just what its
beginning has added, and what the cache holds at any moment can be told from its history.
-/

namespace SeqAsm.Schedule

open Cache (Reply Looked)

variable {ρ : Type} {es later : List (Event ρ)} {e : Event ρ} {c c' : Cache ρ} {t k : ℕ}
  {q p x : Query} {o : Except Failure ρ}

/-! ### What a history tells -/

/-- The result of a computation of the query `q` that has succeeded. -/
def Event.success? (q : Query) : Event ρ → Option ρ
  | .finished _ c (.ok r) => if c.query = q then some r else none
  | _ => none

/-- The result of the first computation of the query `q` that has succeeded. -/
def firstSuccess (q : Query) : List (Event ρ) → Option ρ
  | [] => none
  | e :: es => (firstSuccess q es).or (e.success? q)

def Event.isHit : Event ρ → Bool
  | .asked _ _ (.found _) => true
  | _ => false

/-- The entries are the first successes since the last clearing, and the counts are those of the
requests answered from the entries and of the computations begun since then. -/
structure Told (es : List (Event ρ)) (c : Cache ρ) : Prop where
  entries (q : Query) : c.entries[q]? = firstSuccess q (recent es)
  hits : c.counts.hits = (recent es).countP Event.isHit
  misses : c.counts.misses = (recent es).countP Event.isStart

lemma firstSuccess_append (q : Query) :
    firstSuccess q (later ++ es) = (firstSuccess q es).or (firstSuccess q later) := by
  induction later with
  | nil => exact (Option.or_none ..).symm
  | cons e later ih => rw [List.cons_append, firstSuccess, firstSuccess, ih, Option.or_assoc]

lemma recent_append (uncleared : .cleared ∉ later) : recent (later ++ es) = later ++ recent es := by
  induction later with
  | nil => rfl
  | cons e later ih =>
    rw [List.mem_cons, not_or] at uncleared
    rw [List.cons_append, recent_cons (Ne.symm uncleared.1), ih uncleared.2, List.cons_append]

namespace Told

/-- Events that neither succeed, nor begin, nor are answered from the entries tell nothing new. -/
lemma pass (h : Told es c) (he : e ≠ .cleared) (success : ∀ q, e.success? q = none)
    (hit : e.isHit = false) (start : e.isStart = false) (entries : c'.entries = c.entries)
    (hits : c'.counts.hits = c.counts.hits) (misses : c'.counts.misses = c.counts.misses) :
    Told (e :: es) c' := by
  rw [← Bool.not_eq_true] at hit start
  refine ⟨fun q => ?_, ?_, ?_⟩
  · rw [recent_cons he, firstSuccess, success, Option.or_none, entries, h.entries]
  · rw [recent_cons he, List.countP_cons_of_neg hit, hits, h.hits]
  · rw [recent_cons he, List.countP_cons_of_neg start, misses, h.misses]

lemma asked {reply : Reply ρ} (h : Told es c) (look : c.request t q = (reply, c')) :
    Told (.asked t q reply :: es) c' := by
  cases Cache.looked_of_request look with
  | found present =>
    refine ⟨fun p => ?_, ?_, h.misses⟩
    · exact (h.entries p).trans (Option.or_none ..).symm
    · rw [recent_cons (by nofun), List.countP_cons_of_pos rfl, ← h.hits]
  | compute absent free =>
    refine ⟨fun p => ?_, h.hits, ?_⟩
    · exact (h.entries p).trans (Option.or_none ..).symm
    · rw [recent_cons (by nofun), List.countP_cons_of_pos rfl, ← h.misses]
  | wait absent taken other => exact h.pass nofun (fun _ => rfl) rfl rfl rfl rfl rfl
  | reentered absent own => exact h.pass nofun (fun _ => rfl) rfl rfl rfl rfl rfl

lemma finished (h : Told es c) (absent : c.entries[q]? = none) (t k : ℕ) (o : Except Failure ρ) :
    Told (.finished t ⟨q, k⟩ o :: es) (c.finish q o) := by
  rcases o with f | r
  · exact h.pass nofun (fun _ => rfl) rfl rfl rfl rfl rfl
  refine ⟨fun p => ?_, h.hits, h.misses⟩
  rw [recent_cons (by nofun), firstSuccess, ← h.entries, Event.success?]
  by_cases hq : q = p
  · subst p
    rw [absent, if_pos rfl]
    simp [Cache.finish]
  · rw [if_neg hq, Option.or_none, finish_entries_of_ne c (Ne.symm hq)]

lemma cleared (es : List (Event ρ)) (c : Cache ρ) : Told (.cleared :: es) c.clear := by
  refine ⟨fun q => ?_, rfl, rfl⟩
  simp [Cache.clear, recent, firstSuccess]

end Told

lemma told_of_run {s : State ρ} (run : Run es s) : Told es s.cache := by
  induction run with
  | refl => exact ⟨fun q => by simp [recent, firstSuccess], rfl, rfl⟩
  | step run st ih =>
    cases st with
    | asked phase look => exact ih.asked look
    | @finished t c rest thread o =>
      have owned := (sound_of_run run).owned
      have on := (owned.mem_iff t c).1 (thread ▸ List.mem_cons_self)
      refine ih.finished (Option.eq_none_iff_forall_ne_some.2 fun r present => ?_) t c.ticket o
      cases on.symm.trans (owned.apart present)
    | published phase => exact ih.pass (by simp) (fun _ => rfl) rfl rfl rfl rfl rfl
    | received phase out => exact ih.pass (by simp) (fun _ => rfl) rfl rfl rfl rfl rfl
    | cleared => exact .cleared _ _

/-! ### Computations that make requests -/

/-- A computation that asks for any number of queries, one after the other, and goes on with each
outcome as it likes. It may pass a failure on or not. -/
inductive Computation (ρ : Type) where
  | done (o : Except Failure ρ)
  | request (q : Query) (compute : Computation ρ) (next : Except Failure ρ → Computation ρ)

/-- A cache with its history, the latest event first. -/
abbrev Noted (ρ : Type) := Cached ρ (List (Event ρ))

def note (e : Event ρ) (s : Noted ρ) : Noted ρ := { s with world := e :: s.world }

/-- A request of the only thread, noted with the reply and with the outcome of a computation. -/
def ask (q : Query) (compute : StateM (Noted ρ) (Except Failure ρ)) :
    StateM (Noted ρ) (Except Failure ρ) := fun s =>
  let reply := (s.cache.request 0 q).1
  let compute : StateM (Noted ρ) (Except Failure ρ) := fun s' =>
    let (o, s') := compute s'
    (o, note (.finished 0 ⟨q, s.cache.tickets⟩ o) s')
  Cached.getOrCompute q compute (note (.asked 0 q reply) s)

def Computation.perform : Computation ρ → StateM (Noted ρ) (Except Failure ρ)
  | .done o => pure o
  | .request q compute next => do
    let o ← ask q compute.perform
    (next o).perform

def asked (q : Query) (s : Noted ρ) : Noted ρ :=
  ⟨(s.cache.request 0 q).2, .asked 0 q (s.cache.request 0 q).1 :: s.world⟩

variable {s s' s'' : Noted ρ} {compute : StateM (Noted ρ) (Except Failure ρ)}

lemma ask_found {r : ρ} (present : s.cache.entries[q]? = some r) :
    ask q compute s = (.ok r, asked q s) := by
  simp [ask, asked, note, Cached.getOrCompute, Cache.request, present]

lemma ask_reentered {p : Pending} (absent : s.cache.entries[q]? = none)
    (taken : s.cache.pending[q]? = some p) (own : p.thread = 0) :
    ask q compute s = (.error (Cache.reentry q), asked q s) ∧ (asked q s).cache = s.cache := by
  simp [ask, asked, note, Cached.getOrCompute, Cache.request, absent, taken, own]

lemma ask_compute (absent : s.cache.entries[q]? = none) (free : s.cache.pending[q]? = none) :
    ask q compute s = ((compute (asked q s)).1,
      ⟨(compute (asked q s)).2.cache.finish q (compute (asked q s)).1,
        .finished 0 ⟨q, s.cache.tickets⟩ (compute (asked q s)).1 ::
          (compute (asked q s)).2.world⟩) := by
  simp only [ask, asked, note, Cached.getOrCompute, Cache.request, absent, free]
  rfl

/-! ### What requests keep -/

/-- What holds of a cache that one thread uses, whatever it is computing. -/
structure Good (s : Noted ρ) : Prop where
  told : Told s.world s.cache
  own {q : Query} {p : Pending} : s.cache.pending[q]? = some p → p.thread = 0
  apart {q : Query} {r : ρ} : s.cache.entries[q]? = some r → s.cache.pending[q]? = none

/-- What holds when requests have ended that were made from some moment on. -/
structure After (s s' : Noted ρ) : Prop where
  good : Good s'
  pending : s'.cache.pending = s.cache.pending
  later : ∃ es, s'.world = es ++ s.world ∧ .cleared ∉ es

namespace After

lemma refl (good : Good s) : After s s := ⟨good, rfl, [], rfl, List.not_mem_nil⟩

lemma trans (h : After s s') (h' : After s' s'') : After s s'' := by
  obtain ⟨es, hes, uncleared⟩ := h.later
  obtain ⟨es', hes', uncleared'⟩ := h'.later
  refine ⟨h'.good, h'.pending.trans h.pending, es' ++ es, ?_, ?_⟩
  · rw [hes', hes, List.append_assoc]
  · rw [List.mem_append, not_or]
    exact ⟨uncleared', uncleared⟩

lemma entries (h : After s s') (good : Good s) : ∃ es, s'.world = es ++ s.world ∧
    .cleared ∉ es ∧ ∀ x, s'.cache.entries[x]? = s.cache.entries[x]?.or (firstSuccess x es) := by
  obtain ⟨es, hes, uncleared⟩ := h.later
  refine ⟨es, hes, uncleared, fun x => ?_⟩
  rw [h.good.told.entries, hes, recent_append uncleared, firstSuccess_append, good.told.entries]

end After

lemma pending_asked (absent : s.cache.entries[q]? = none) (free : s.cache.pending[q]? = none) :
    (asked q s).cache.pending = s.cache.pending.insert q ⟨s.cache.tickets, 0⟩ := by
  simp only [asked, Cache.request, absent, free]

lemma getElem?_pending_asked (absent : s.cache.entries[q]? = none)
    (free : s.cache.pending[q]? = none) (x : Query) : (asked q s).cache.pending[x]? =
      if q = x then some ⟨s.cache.tickets, 0⟩ else s.cache.pending[x]? := by
  rw [pending_asked absent free]
  simp only [Std.ExtTreeMap.getElem?_insert, Std.LawfulEqCmp.compare_eq_iff_eq]

lemma entries_asked (q : Query) (s : Noted ρ) :
    (asked q s).cache.entries = s.cache.entries := by
  unfold asked
  rcases look : s.cache.request 0 q with ⟨reply, cache⟩
  cases Cache.looked_of_request look <;> rfl

namespace Good

lemma asked (good : Good s) (absent : s.cache.entries[q]? = none)
    (free : s.cache.pending[q]? = none) : Good (asked q s) := by
  refine ⟨good.told.asked rfl, fun {x p} hp => ?_, fun {x r} hr => ?_⟩
  · rw [getElem?_pending_asked absent free] at hp
    split at hp
    · cases hp
      rfl
    · exact good.own hp
  · rw [entries_asked] at hr
    rw [getElem?_pending_asked absent free, if_neg, good.apart hr]
    rintro rfl
    exact nomatch absent.symm.trans hr

lemma answered (good : Good s) (same : (Schedule.asked q s).cache.pending = s.cache.pending) :
    After s (Schedule.asked q s) := by
  refine ⟨⟨good.told.asked rfl, ?_, ?_⟩, same, [_], rfl, by simp⟩
  · rw [same]
    exact good.own
  · rw [same, entries_asked]
    exact good.apart

/-- A request leaves the queries under way as they were, however deep its computation goes. The
query has its result as its entry, or none if the request has failed. -/
lemma after_ask (good : Good s) (q : Query)
    (inside : ∀ {s : Noted ρ}, Good s → After s (compute s).2) : After s (ask q compute s).2 ∧
      (ask q compute s).2.cache.entries[q]? = (ask q compute s).1.toOption := by
  rcases present : s.cache.entries[q]? with _ | r
  swap
  · rw [ask_found present, entries_asked]
    refine ⟨good.answered ?_, present⟩
    simp only [Schedule.asked, Cache.request, present]
  rcases taken : s.cache.pending[q]? with _ | p
  swap
  · obtain ⟨refused, same⟩ : ask q compute s = _ ∧ _ :=
      ask_reentered present taken (good.own taken)
    rw [refused, entries_asked]
    exact ⟨good.answered (by rw [same]), present⟩
  rw [ask_compute present taken]
  have ended := inside (good.asked present taken)
  generalize hc : compute (Schedule.asked q s) = out at ended ⊢
  obtain ⟨o, s'⟩ := out
  dsimp only at ended ⊢
  have under (x : Query) : s'.cache.pending[x]? =
      if q = x then some ⟨s.cache.tickets, 0⟩ else s.cache.pending[x]? := by
    rw [ended.pending, getElem?_pending_asked present taken]
  have absent : s'.cache.entries[q]? = none := by
    refine Option.eq_none_iff_forall_ne_some.2 fun r hr => ?_
    have free := ended.good.apart hr
    rw [under, if_pos rfl] at free
    cases free
  have pending : (s'.cache.finish q o).pending = s.cache.pending := by
    rw [finish_pending, ended.pending, pending_asked present taken, QueryMap.erase_insert taken]
  obtain ⟨es, hes, uncleared⟩ := ended.later
  refine ⟨⟨⟨ended.good.told.finished absent 0 _ o, ?_, fun {x r} hr => ?_⟩, pending,
    .finished 0 ⟨q, s.cache.tickets⟩ o :: (es ++ [.asked 0 q (s.cache.request 0 q).1]), ?_, ?_⟩, ?_⟩
  · rw [pending]
    exact good.own
  · rw [pending]
    by_cases hx : x = q
    · rw [hx, taken]
    · have free := ended.good.apart ((finish_entries_of_ne s'.cache hx o).symm.trans hr)
      rwa [under, if_neg (Ne.symm hx)] at free
  · rw [hes]
    simp [Schedule.asked]
  · simp [uncleared]
  · rcases o with f | r
    · exact absent
    · simp [Cache.finish, Except.toOption]

end Good

/-- The run lemma: a computation leaves the queries under way as they were. -/
lemma after_perform (d : Computation ρ) (good : Good s) : After s (d.perform s).2 := by
  induction d generalizing s with
  | done o => exact .refl good
  | request q d next ihd ihn =>
    have first := (good.after_ask q ihd).1
    exact first.trans (ihn _ first.good)

/-! ### Requests at any depth -/

/-- The requests that a computation makes when it is performed, at any depth: the queries whose
computations have led to the request, the innermost first; what is asked for; how it would be
computed; and the moment. -/
inductive Makes : Computation ρ → Noted ρ → List Query → Query → Computation ρ → Noted ρ → Prop
  | now {q : Query} {d : Computation ρ} {next : Except Failure ρ → Computation ρ} {s : Noted ρ} :
      Makes (.request q d next) s [] q d s
  | within {q : Query} {d : Computation ρ} {next : Except Failure ρ → Computation ρ}
      {s s' : Noted ρ} {chain : List Query} {p : Query} {d' : Computation ρ}
      (absent : s.cache.entries[q]? = none) (free : s.cache.pending[q]? = none) :
      Makes d (asked q s) chain p d' s' → Makes (.request q d next) s (chain ++ [q]) p d' s'
  | after {q : Query} {d : Computation ρ} {next : Except Failure ρ → Computation ρ}
      {s s' : Noted ρ} {chain : List Query} {p : Query} {d' : Computation ρ} :
      Makes (next (ask q d.perform s).1) (ask q d.perform s).2 chain p d' s' →
      Makes (.request q d next) s chain p d' s'

/-- The queries under way when a request is made are those that have led to it. -/
lemma Makes.good {d d' : Computation ρ} {chain : List Query} (made : Makes d s chain p d' s')
    (good : Good s) :
    Good s' ∧ ∀ x, x ∈ s'.cache.pending ↔ x ∈ chain ∨ x ∈ s.cache.pending := by
  induction made with
  | now => exact ⟨good, fun x => by simp⟩
  | @within q _ _ s _ _ _ _ absent free _ ih =>
    obtain ⟨good', mem⟩ := ih (good.asked absent free)
    refine ⟨good', fun x => (mem x).trans ?_⟩
    rw [pending_asked absent free, Std.ExtTreeMap.mem_insert, List.mem_append, List.mem_singleton,
      or_assoc, Std.LawfulEqCmp.compare_eq_iff_eq, eq_comm]
  | @after q d _ s _ _ _ _ _ ih =>
    have first := (good.after_ask q (after_perform d)).1
    obtain ⟨good', mem⟩ := ih first.good
    exact ⟨good', fun x => by rw [mem, first.pending]⟩

/-! ### Sequences of operations -/

inductive Operation (ρ : Type) where
  | request (q : Query) (compute : Computation ρ)
  | get (q : Query)
  | contains (q : Query)
  | clear

inductive Answer (ρ : Type) where
  | outcome (o : Except Failure ρ)
  | entry (r? : Option ρ)
  | presence (b : Bool)
  | cleared

def Operation.perform : Operation ρ → StateM (Noted ρ) (Answer ρ)
  | .request q compute => .outcome <$> ask q compute.perform
  | .get q => fun s => (.entry (s.cache.get? q), s)
  | .contains q => fun s => (.presence (s.cache.contains q), s)
  | .clear => fun s => (.cleared, note .cleared { s with cache := s.cache.clear })

/-- The caches, with their histories, that one thread finds between its operations when it takes
over a cache from any number of threads with nothing under way. -/
inductive Used : Noted ρ → Prop
  | start {es : List (Event ρ)} {s : State ρ} : Run es s → s.cache.pending = ∅ →
      Used ⟨s.cache, es⟩
  | operate {s : Noted ρ} (op : Operation ρ) : Used s → Used (op.perform s).2

lemma Used.good (used : Used s) : Good s ∧ s.cache.pending = ∅ := by
  induction used with
  | start run idle =>
    have owned := (sound_of_run run).owned
    refine ⟨⟨told_of_run run, fun {q p} hp => ?_, owned.apart⟩, idle⟩
    dsimp only at hp
    rw [idle] at hp
    simp at hp
  | @operate s op used ih =>
    obtain ⟨good, idle⟩ := ih
    cases op with
    | request q d =>
      have after := (good.after_ask q (after_perform d)).1
      exact ⟨after.good, after.pending.trans idle⟩
    | get q => exact ⟨good, idle⟩
    | contains q => exact ⟨good, idle⟩
    | clear =>
      refine ⟨⟨.cleared _ _, good.own, fun {q r} hr => ?_⟩, idle⟩
      simp [Operation.perform, note, Cache.clear] at hr

/-- **Nested use leaves a cache consistent.** Between the operations of a thread nothing is under
way, the entries are the first successes since the last clearing, and the counts are those of the
requests answered from the entries and of the computations begun since then. The same holds of
entries and counts at every request that is made in the course of an operation, at any depth, and
the queries under way are then those whose computations have led to it. A request for one of these
is refused and leaves the cache as it is. Any other is answered or computed; whether it succeeds or
fails, the queries under way stay the same, the entries are those from before and the first
successes within it, and its own entry is its result, if it has one. -/
theorem nested_use_consistent (used : Used s) :
    s.cache.pending = ∅ ∧ Told s.world s.cache ∧
    ∀ {q : Query} {d : Computation ρ} {chain : List Query} {p : Query} {d' : Computation ρ}
      {s' : Noted ρ}, Makes (.request q d .done) s chain p d' s' →
      (∀ x, x ∈ s'.cache.pending ↔ x ∈ chain) ∧ Told s'.world s'.cache ∧
      (p ∈ chain → (ask p d'.perform s').1 = .error (Cache.reentry p) ∧
        (ask p d'.perform s').2.cache = s'.cache) ∧
      (ask p d'.perform s').2.cache.pending = s'.cache.pending ∧
      (∃ es, (ask p d'.perform s').2.world = es ++ s'.world ∧ .cleared ∉ es ∧
        ∀ x, (ask p d'.perform s').2.cache.entries[x]? =
          s'.cache.entries[x]?.or (firstSuccess x es)) ∧
      (ask p d'.perform s').2.cache.entries[p]? = (ask p d'.perform s').1.toOption ∧
      Told (ask p d'.perform s').2.world (ask p d'.perform s').2.cache := by
  obtain ⟨good, idle⟩ := used.good
  refine ⟨idle, good.told, fun {q d chain p d' s'} made => ?_⟩
  obtain ⟨good', mem⟩ := made.good good
  have chained (x : Query) : x ∈ s'.cache.pending ↔ x ∈ chain := by
    rw [mem, idle]
    simp
  obtain ⟨after, own⟩ := good'.after_ask p (after_perform d')
  refine ⟨chained, good'.told, fun hp => ?_, after.pending, after.entries good', own,
    after.good.told⟩
  obtain ⟨busy, taken⟩ := Option.isSome_iff_exists.1 <|
    Std.ExtTreeMap.isSome_getElem?_iff_mem.2 ((chained p).2 hp)
  have absent : s'.cache.entries[p]? = none :=
    Option.eq_none_iff_forall_ne_some.2 fun r hr => nomatch taken.symm.trans (good'.apart hr)
  obtain ⟨refused, same⟩ : ask p d'.perform s' = _ ∧ _ :=
    ask_reentered absent taken (good'.own taken)
  rw [refused]
  exact ⟨rfl, same⟩

/-- A computation that asks for another query and then for the one that it is to compute. -/
def reentrant : Computation ℕ :=
  .request ⟨2, 0⟩ (.done (.ok 5)) fun _ => .request ⟨1, 0⟩ (.done (.ok 7)) .done

/-- The second request is refused, so the computation fails; the result of the first stays. -/
theorem nested_use_consistent_reentrant :
    let s := (Operation.perform (.request ⟨1, 0⟩ reentrant) ⟨{}, []⟩).2
    s.cache.pending = ∅ ∧ s.cache.entries[(⟨2, 0⟩ : Query)]? = some 5 ∧
    s.cache.entries[(⟨1, 0⟩ : Query)]? = none ∧ s.cache.counts.misses = 2 ∧
    ∃ s', Makes (.request ⟨1, 0⟩ reentrant .done) ⟨{}, []⟩ [⟨1, 0⟩] ⟨1, 0⟩ (.done (.ok 7)) s' ∧
      (ask ⟨1, 0⟩ (Computation.perform (.done (.ok 7))) s').1 = .error (Cache.reentry ⟨1, 0⟩) := by
  have used : Used (⟨{}, []⟩ : Noted ℕ) := .start .refl rfl
  obtain ⟨idle, told, -⟩ := nested_use_consistent (used.operate (.request ⟨1, 0⟩ reentrant))
  have again : Makes reentrant (asked ⟨1, 0⟩ ⟨{}, []⟩) [] ⟨1, 0⟩ (.done (.ok 7)) _ := .after .now
  have made : Makes (.request ⟨1, 0⟩ reentrant .done) ⟨{}, []⟩ [⟨1, 0⟩] ⟨1, 0⟩ (.done (.ok 7)) _ :=
    .within rfl rfl again
  obtain ⟨-, -, moments⟩ := nested_use_consistent used
  refine ⟨idle, (told.entries _).trans rfl, (told.entries _).trans rfl, told.misses.trans rfl, _,
    made, ((moments made).2.2.1 List.mem_cons_self).1⟩

end SeqAsm.Schedule
