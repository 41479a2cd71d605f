import SeqAsm.Diagnostic.Basic
import SeqAsm.Query

/-!
The result cache. Whoever asks first for a query computes it; others that ask meanwhile wait for
the same outcome. Results are kept, failures are not. A thread that asks for a query it is
itself computing would wait forever, so it is refused.

A request and the end of a computation are single steps, and threads interleave between steps.
With one thread alone a request that is not answered from the entries is computed at once, and
the computation may make requests of its own.
-/

namespace SeqAsm

/-- How requests were answered: from the entries, by computing, or by waiting. -/
structure CacheCounts where
  hits : Nat := 0
  misses : Nat := 0
  waits : Nat := 0
  deriving DecidableEq, Repr

/-- A computation under way: the ticket that others wait for, and the thread that computes. -/
structure Pending where
  ticket : Nat
  thread : Nat
  deriving DecidableEq, Repr

structure Cache (ρ : Type) where
  entries : QueryMap ρ := ∅
  pending : QueryMap Pending := ∅
  counts : CacheCounts := {}
  /-- The tickets given out so far. -/
  tickets : Nat := 0

namespace Cache

variable {ρ ω : Type}

inductive Reply (ρ : Type) where
  | found (r : ρ)
  /-- The requester is to compute the result. -/
  | compute (ticket : Nat)
  /-- Another thread computes the result. -/
  | wait (ticket : Nat)
  /-- The requester is computing the result already. -/
  | reentered

def get? (c : Cache ρ) (q : Query) : Option ρ := c.entries[q]?

def contains (c : Cache ρ) (q : Query) : Bool := c.entries.contains q

def size (c : Cache ρ) : Nat := c.entries.size

def request (c : Cache ρ) (thread : Nat) (q : Query) : Reply ρ × Cache ρ :=
  match c.entries[q]? with
  | some r => (.found r, { c with counts := { c.counts with hits := c.counts.hits + 1 } })
  | none =>
    match c.pending[q]? with
    | none =>
      (.compute c.tickets,
        { c with
          pending := c.pending.insert q ⟨c.tickets, thread⟩
          counts := { c.counts with misses := c.counts.misses + 1 }
          tickets := c.tickets + 1 })
    | some p =>
      if p.thread = thread then (.reentered, c)
      else (.wait p.ticket, { c with counts := { c.counts with waits := c.counts.waits + 1 } })

def finish (c : Cache ρ) (q : Query) (outcome : Except Failure ρ) : Cache ρ :=
  match outcome with
  | .ok r => { c with entries := c.entries.insert q r, pending := c.pending.erase q }
  | .error _ => { c with pending := c.pending.erase q }

/-- Forgets all results and counts; computations under way go on. -/
def clear (c : Cache ρ) : Cache ρ := { c with entries := ∅, counts := {} }

def reentry (q : Query) : Failure :=
  .of
    (.engine ("program " ++ toString q.program ++ " re-entered for input " ++ toString q.input
      ++ " while it is being evaluated"))
    []

end Cache

/-- A cache beside the rest of what computations work on. -/
structure Cached (ρ ω : Type) where
  cache : Cache ρ
  world : ω

namespace Cached

variable {ρ ω : Type}

/-- Answers a request of the only thread: from the entries, or else by a computation, which may
make requests of its own. Every query under way is then one that the thread is computing. -/
def getOrCompute (q : Query) (compute : StateM (Cached ρ ω) (Except Failure ρ)) :
    StateM (Cached ρ ω) (Except Failure ρ) := fun s =>
  match s.cache.request 0 q with
  | (.found r, cache) => (.ok r, { s with cache })
  | (.reentered, cache) => (.error (Cache.reentry q), { s with cache })
  | (.wait _, cache) => (.error (Cache.reentry q), { s with cache })
  | (.compute _, cache) =>
    let (outcome, s) := compute { s with cache }
    (outcome, { s with cache := s.cache.finish q outcome })

/-- One thread asks for a query and `n` others ask for the same one before its computation
starts, if it has to be computed. Gives the outcome for each, the first thread's first. -/
def getOrComputeWithWaiters (q : Query) (n : Nat)
    (compute : StateM (Cached ρ ω) (Except Failure ρ)) :
    StateM (Cached ρ ω) (List (Except Failure ρ)) := fun s =>
  let others (c : Cache ρ) : Cache ρ := (List.range n).foldl (fun c i => (c.request (i + 1) q).2) c
  let (outcome, s) :=
    match s.cache.request 0 q with
    | (.found r, cache) => (.ok r, { s with cache := others cache })
    | (.reentered, cache) => (.error (Cache.reentry q), { s with cache })
    | (.wait _, cache) => (.error (Cache.reentry q), { s with cache })
    | (.compute _, cache) =>
      let (outcome, s) := compute { s with cache := others cache }
      (outcome, { s with cache := s.cache.finish q outcome })
  (List.replicate (n + 1) outcome, s)

end Cached

end SeqAsm
