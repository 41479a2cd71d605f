import Mathlib.Data.List.Nodup
import Mathlib.Logic.Function.Basic
import Mathlib.Tactic.Lemma
import SeqAsm.Cache

/-!
Threads that share a cache.

A look-up, the end of a computation and a clearing are one step each, and so is the publication of
an outcome, which comes after the end of its computation. Between any two steps of a thread the
other threads may take any number of theirs. A computation may ask for further queries, so what a
thread computes is a stack.
-/

namespace SeqAsm

namespace Cache

variable {ρ : Type} {c c' : Cache ρ} {t : ℕ} {q : Query} {reply : Reply ρ}

/-- What a request finds, and what becomes of the cache. -/
inductive Looked (c : Cache ρ) (t : ℕ) (q : Query) : Reply ρ → Cache ρ → Prop
  | found {r : ρ} (present : c.entries[q]? = some r) : Looked c t q (.found r)
      { c with counts := { c.counts with hits := c.counts.hits + 1 } }
  | compute (absent : c.entries[q]? = none) (free : c.pending[q]? = none) :
      Looked c t q (.compute c.tickets)
        { c with
          pending := c.pending.insert q ⟨c.tickets, t⟩
          counts := { c.counts with misses := c.counts.misses + 1 }
          tickets := c.tickets + 1 }
  | wait {k u : ℕ} (absent : c.entries[q]? = none) (taken : c.pending[q]? = some ⟨k, u⟩)
      (other : u ≠ t) : Looked c t q (.wait k)
        { c with counts := { c.counts with waits := c.counts.waits + 1 } }
  | reentered {k : ℕ} (absent : c.entries[q]? = none) (own : c.pending[q]? = some ⟨k, t⟩) :
      Looked c t q .reentered c

lemma looked_of_request (h : c.request t q = (reply, c')) : Looked c t q reply c' := by
  unfold request at h
  rcases he : c.entries[q]? with _ | r <;> rw [he] at h
  · rcases hp : c.pending[q]? with _ | ⟨k, u⟩ <;> rw [hp] at h <;> dsimp only at h
    · cases h
      exact .compute he hp
    · split at h
      · subst u
        cases h
        exact .reentered he hp
      · cases h
        exact .wait he hp ‹_›
  · cases h
    exact .found he

end Cache

namespace Schedule

open Cache (Reply Looked)

/-- A computation: what it computes, and the ticket that its outcome is published under. -/
structure Flight where
  query : Query
  ticket : ℕ
  deriving DecidableEq

/-- What a thread is about to do. -/
inductive Phase (ρ : Type) where
  | running
  /-- A computation has ended, and its outcome has to be published. -/
  | announcing (c : Flight) (outcome : Except Failure ρ)
  | waiting (c : Flight)

structure Thread (ρ : Type) where
  /-- The computations of the thread, the innermost first. -/
  stack : List Flight := []
  phase : Phase ρ := .running

structure State (ρ : Type) where
  cache : Cache ρ := {}
  threads : ℕ → Thread ρ := fun _ => {}
  /-- The outcomes that have been published, by their tickets. -/
  published : ℕ → Option (Except Failure ρ) := fun _ => none

inductive Event (ρ : Type) where
  | asked (t : ℕ) (q : Query) (reply : Reply ρ)
  | finished (t : ℕ) (c : Flight) (outcome : Except Failure ρ)
  | published (t : ℕ) (c : Flight) (outcome : Except Failure ρ)
  | received (t : ℕ) (c : Flight) (outcome : Except Failure ρ)
  | cleared

variable {ρ : Type}

def Thread.answered (th : Thread ρ) (q : Query) : Reply ρ → Thread ρ
  | .found _ | .reentered => th
  | .compute k => { th with stack := ⟨q, k⟩ :: th.stack }
  | .wait k => { th with phase := .waiting ⟨q, k⟩ }

def State.move (s : State ρ) (t : ℕ) (th : Thread ρ) : State ρ :=
  { s with threads := Function.update s.threads t th }

/-- A step. Any thread may take it that is in the right phase, a computation may have any
outcome, and a clearing comes at any time. -/
inductive Step : State ρ → Event ρ → State ρ → Prop
  | asked {s : State ρ} {t : ℕ} {q : Query} {reply : Reply ρ} {cache : Cache ρ}
      (phase : (s.threads t).phase = .running) (look : s.cache.request t q = (reply, cache)) :
      Step s (.asked t q reply) ({ s with cache }.move t ((s.threads t).answered q reply))
  | finished {s : State ρ} {t : ℕ} {c : Flight} {rest : List Flight}
      (thread : s.threads t = ⟨c :: rest, .running⟩) (o : Except Failure ρ) :
      Step s (.finished t c o)
        ({ s with cache := s.cache.finish c.query o }.move t ⟨rest, .announcing c o⟩)
  | published {s : State ρ} {t : ℕ} {c : Flight} {o : Except Failure ρ}
      (phase : (s.threads t).phase = .announcing c o) :
      Step s (.published t c o)
        ({ s with published := Function.update s.published c.ticket (some o) }.move t
          ⟨(s.threads t).stack, .running⟩)
  | received {s : State ρ} {t : ℕ} {c : Flight} {o : Except Failure ρ}
      (phase : (s.threads t).phase = .waiting c) (out : s.published c.ticket = some o) :
      Step s (.received t c o) (s.move t ⟨(s.threads t).stack, .running⟩)
  | cleared {s : State ρ} : Step s .cleared { s with cache := s.cache.clear }

/-- Any number of steps from a state. The events are listed latest first. -/
inductive Runs (s : State ρ) : List (Event ρ) → State ρ → Prop
  | refl : Runs s [] s
  | step {es : List (Event ρ)} {e : Event ρ} {s' s'' : State ρ} :
      Runs s es s' → Step s' e s'' → Runs s (e :: es) s''

/-- A run from an empty cache with no thread at work. -/
abbrev Run (es : List (Event ρ)) (s : State ρ) : Prop := Runs {} es s

variable {s s' : State ρ} {e : Event ρ} {es : List (Event ρ)} {t u : ℕ} {c d : Flight}

@[simp] lemma State.move_self (th : Thread ρ) : (s.move t th).threads t = th :=
  Function.update_self ..

@[simp] lemma State.move_of_ne (h : u ≠ t) (th : Thread ρ) :
    (s.move t th).threads u = s.threads u := Function.update_of_ne h ..

@[simp] lemma State.cache_move (th : Thread ρ) : (s.move t th).cache = s.cache := rfl

/-- What holds of the thread that moves and of all that stay holds of all threads. -/
lemma State.forall_move {P : ℕ → Thread ρ → Prop} {th : Thread ρ} (moved : P t th)
    (stayed : ∀ u, u ≠ t → P u (s.threads u)) (u : ℕ) : P u ((s.move t th).threads u) := by
  obtain rfl | hu := eq_or_ne u t
  · rwa [move_self]
  · rw [move_of_ne hu]
    exact stayed u hu

/-! ### Owners -/

/-- A query is under way exactly when it is on the stack of the thread that the cache names, once,
and it has no entry then. -/
structure Owned (s : State ρ) : Prop where
  mem_iff (t : ℕ) (c : Flight) :
    c ∈ (s.threads t).stack ↔ s.cache.pending[c.query]? = some ⟨c.ticket, t⟩
  nodup (t : ℕ) : (s.threads t).stack.Nodup
  apart {q : Query} {r : ρ} : s.cache.entries[q]? = some r → s.cache.pending[q]? = none

lemma owned_init : Owned ({} : State ρ) where
  mem_iff := by simp
  nodup _ := List.nodup_nil
  apart := by simp

lemma Owned.move (h : Owned s) {cache : Cache ρ} {th : Thread ρ}
    {published : ℕ → Option (Except Failure ρ)} (stack : th.stack = (s.threads t).stack)
    (entries : cache.entries = s.cache.entries) (pending : cache.pending = s.cache.pending) :
    Owned ({ s with cache, published }.move t th) := by
  have kept : ∀ u, (({ s with cache, published } : State ρ).move t th |>.threads u).stack =
      (s.threads u).stack :=
    State.forall_move (P := fun u th => th.stack = (s.threads u).stack) stack fun _ _ => rfl
  refine ⟨fun u c => ?_, fun u => ?_, ?_⟩
  · rw [kept, State.cache_move, pending]
    exact h.mem_iff u c
  · rw [kept]
    exact h.nodup u
  · rw [State.cache_move, entries, pending]
    exact h.apart

lemma Owned.push (h : Owned s) {q : Query} (absent : s.cache.entries[q]? = none)
    (free : s.cache.pending[q]? = none) {cache : Cache ρ} {k : ℕ}
    (entries : cache.entries = s.cache.entries)
    (pending : cache.pending = s.cache.pending.insert q ⟨k, t⟩) (phase : Phase ρ) :
    Owned ({ s with cache }.move t ⟨⟨q, k⟩ :: (s.threads t).stack, phase⟩) := by
  have off (u l : ℕ) : ⟨q, l⟩ ∉ (s.threads u).stack := fun hm =>
    nomatch free.symm.trans ((h.mem_iff u ⟨q, l⟩).1 hm)
  refine ⟨fun u ⟨p, l⟩ => ?_, fun u => ?_, fun {p r} hp => ?_⟩
  · rw [State.cache_move, pending]
    simp only [Std.ExtTreeMap.getElem?_insert, Std.LawfulEqCmp.compare_eq_iff_eq]
    have before := h.mem_iff u ⟨p, l⟩
    obtain rfl | hq := eq_or_ne q p
    · obtain rfl | hu := eq_or_ne u t
      · simp [off u l, eq_comm]
      · simp [hu, off u l, Ne.symm hu]
    · rw [if_neg hq, ← before]
      obtain rfl | hu := eq_or_ne u t
      · simp [Ne.symm hq]
      · rw [State.move_of_ne hu]
  · obtain rfl | hu := eq_or_ne u t
    · rw [State.move_self]
      exact (h.nodup u).cons (off u k)
    · rw [State.move_of_ne hu]
      exact h.nodup u
  · simp only [State.cache_move, entries, pending, Std.ExtTreeMap.getElem?_insert,
      Std.LawfulEqCmp.compare_eq_iff_eq] at hp ⊢
    split
    · subst p
      exact nomatch absent.symm.trans hp
    · exact h.apart hp

lemma Owned.pop (h : Owned s) {rest : List Flight} (stack : (s.threads t).stack = c :: rest)
    {cache : Cache ρ} (entries : ∀ q, q ≠ c.query → cache.entries[q]? = s.cache.entries[q]?)
    (pending : cache.pending = s.cache.pending.erase c.query) (phase : Phase ρ) :
    Owned ({ s with cache }.move t ⟨rest, phase⟩) := by
  have own := (h.mem_iff t c).1 (stack ▸ List.mem_cons_self)
  have distinct := List.nodup_cons.1 (stack ▸ h.nodup t)
  refine ⟨fun u d => ?_, fun u => ?_, fun {p r} hp => ?_⟩
  · rw [State.cache_move, pending]
    simp only [Std.ExtTreeMap.getElem?_erase, Std.LawfulEqCmp.compare_eq_iff_eq]
    by_cases hq : c.query = d.query
    · have only (hm : d ∈ (s.threads u).stack) : u = t ∧ d = c := by
        have same := own.symm.trans (hq ▸ (h.mem_iff u d).1 hm)
        simp only [Option.some.injEq, Pending.mk.injEq] at same
        exact ⟨same.2.symm, by rcases c; rcases d; simp_all⟩
      rw [if_pos hq]
      refine iff_of_false ?_ nofun
      obtain rfl | hu := eq_or_ne u t
      · rw [State.move_self]
        intro hm
        obtain ⟨-, rfl⟩ := only (stack ▸ List.mem_cons_of_mem c hm)
        exact distinct.1 hm
      · rw [State.move_of_ne hu]
        exact fun hm => hu (only hm).1
    · rw [if_neg hq, ← h.mem_iff]
      obtain rfl | hu := eq_or_ne u t
      · rw [State.move_self, stack, List.mem_cons,
          or_iff_right fun e => hq (congrArg Flight.query e).symm]
      · rw [State.move_of_ne hu]
  · obtain rfl | hu := eq_or_ne u t
    · rw [State.move_self]
      exact distinct.2
    · rw [State.move_of_ne hu]
      exact h.nodup u
  · simp only [State.cache_move, pending, Std.ExtTreeMap.getElem?_erase,
      Std.LawfulEqCmp.compare_eq_iff_eq]
    split
    · rfl
    · rename_i hne
      exact h.apart ((entries p (Ne.symm hne)).symm.trans hp)

lemma finish_pending (cache : Cache ρ) (q : Query) (o : Except Failure ρ) :
    (cache.finish q o).pending = cache.pending.erase q := by
  cases o <;> rfl

lemma finish_entries_of_ne (cache : Cache ρ) {q p : Query} (h : p ≠ q) (o : Except Failure ρ) :
    (cache.finish q o).entries[p]? = cache.entries[p]? := by
  rcases o with f | r
  · rfl
  · simp only [Cache.finish, Std.ExtTreeMap.getElem?_insert, Std.LawfulEqCmp.compare_eq_iff_eq]
    rw [if_neg h.symm]

lemma Owned.step (h : Owned s) (st : Step s e s') : Owned s' := by
  cases st with
  | asked phase look =>
    cases Cache.looked_of_request look with
    | found present => exact h.move rfl rfl rfl
    | compute absent free => refine h.push absent free ?_ ?_ _ <;> rfl
    | wait absent taken other => exact h.move rfl rfl rfl
    | reentered absent own => exact h.move rfl rfl rfl
  | finished thread o =>
    exact h.pop (by rw [thread]) (fun _ hq => finish_entries_of_ne _ hq o)
      (finish_pending _ _ o) _
  | published phase => exact h.move rfl rfl rfl
  | received phase out => exact h.move rfl rfl rfl
  | cleared =>
    refine ⟨h.mem_iff, h.nodup, fun hr => ?_⟩
    simp [Cache.clear] at hr

lemma Owned.runs (h : Owned s) (run : Runs s es s') : Owned s' := by
  induction run with
  | refl => exact h
  | step _ st ih => exact ih.step st

end Schedule

end SeqAsm
