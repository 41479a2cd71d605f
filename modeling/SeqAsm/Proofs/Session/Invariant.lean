import SeqAsm.Proofs.Session.Plain

/-!
What holds of a session at every moment.

The programs kept are those of the store, the dependencies kept are true, and every result kept
is the one that a plain call gives. While calls are being computed they are recorded, and a
program that is called leads to none of them, so no call is ever asked for while it is computed.
-/

namespace SeqAsm

open Resolver (Finder Settled Bounds Valid)

variable {f : Finder} {limits : Limits} {busy : QueryMap Pending} {α β : Type}

/-- What is known is what the store says. -/
structure Library.Sound (f : Finder) (limits : Limits) (l : Library) : Prop where
  limits : l.limits = limits
  store : Plain.find l.store = f
  programs {id : Int} {p : Program} : l.programs[id]? = some p → f id = .ok (some p)
  resolver : Valid f l.resolver

/-- A query about a program in order with the result that a plain call gives. -/
def Known (f : Finder) (limits : Limits) (q : Query) (r : Result) : Prop :=
  ∃ c, Settled f q.program c ∧ Plain.call f limits (c.length + 1) q = .ok r

/-- A session while certain queries are being computed. -/
structure Session.Sound (f : Finder) (limits : Limits) (busy : QueryMap Pending) (s : Session) :
    Prop where
  world : s.world.Sound f limits
  entries {q : Query} {r : Result} : s.cache.entries[q]? = some r → Known f limits q r
  pending : s.cache.pending = busy

/-! ### Libraries -/

namespace Library

variable {l : Library}

lemma Sound.note (h : l.Sound f limits) (e : Event) : (l.note e).Sound f limits :=
  ⟨h.limits, h.store, h.programs, h.resolver⟩

lemma Sound.find_eq (h : l.Sound f limits) : l.find = f := by
  funext id
  unfold find
  rcases hp : l.programs[id]? with _ | p
  · rw [← h.store]
    rfl
  · exact (h.programs hp).symm

lemma Sound.bounds (h : l.Sound f limits) : Bounds f l.store.bound := by
  rw [← h.store]
  exact Plain.bounds_find l.store

lemma Sound.loader_eq (h : l.Sound f limits) :
    l.loader = ⟨f, l.programs.size + l.store.bound⟩ := by
  rw [loader, h.find_eq]

lemma find_load (s : Store) (id : Int) : Plain.find (s.load id).store = Plain.find s := by
  have same : (s.load id).store.text? = s.text? := by
    unfold Store.load
    cases s with
    | memory programs => rfl
    | directory d =>
      dsimp only
      split <;> rfl
  funext id
  rw [Plain.find, Plain.find, same]

lemma load_answer (s : Store) (id : Int) : (s.load id).answer = s.text? id := by
  unfold Store.load
  cases s with
  | memory programs => rfl
  | directory d =>
    dsimp only
    split <;> simp_all

lemma Sound.afterLoad (h : l.Sound f limits) (id : Int) : (l.afterLoad id).Sound f limits := by
  unfold Library.afterLoad
  split
  · exact h
  have read : Library.Sound f limits
      { l with store := (l.store.load id).store,
               log := (l.store.load id).events.reverse ++ l.log } :=
    ⟨h.limits, (find_load l.store id).trans h.store, h.programs, h.resolver⟩
  dsimp only
  split
  · rename_i text ht
    split
    · rename_i p hp
      refine Sound.note ?_ _
      refine ⟨h.limits, read.store, fun {v} {p'} hv => ?_, h.resolver⟩
      simp only [Std.ExtTreeMap.getElem?_insert, Std.compare_eq_iff_eq] at hv
      split at hv
      · subst v
        obtain rfl := Option.some.inj hv
        rw [load_answer] at ht
        rw [← h.store, Plain.find, ht]
        dsimp only
        rw [hp]
      · exact h.programs hv
    · exact read
  · exact read

lemma Sound.afterFinding (h : l.Sound f limits) : ∀ x, (l.afterFinding x).Sound f limits
  | .sought id => h.afterLoad id
  | .known _ => h.note _
  | .cycle _ => h.note _
  | .absent _ => h.note _

lemma Sound.afterFindings (h : l.Sound f limits) (xs : List Finding) :
    (xs.foldl (·.afterFinding) l).Sound f limits := by
  induction xs generalizing l with
  | nil => exact h
  | cons x xs ih => exact ih (h.afterFinding x)

end Library

/-! ### Computations in a sound session -/

namespace Session

/-- A computation has a certain outcome in every sound session, and leaves it sound. -/
def Gives (f : Finder) (limits : Limits) (busy : QueryMap Pending) (m : SessionM α)
    (out : Except Failure α) : Prop :=
  ∀ s, Sound f limits busy s → (m.run s).1 = out ∧ Sound f limits busy (m.run s).2

/-- A computation leaves a session sound, and what it returns satisfies a condition. -/
def Keeps (f : Finder) (limits : Limits) (busy : QueryMap Pending) (m : SessionM α)
    (post : α → Prop) : Prop :=
  ∀ s, Sound f limits busy s →
    Sound f limits busy (m.run s).2 ∧ ∀ a, (m.run s).1 = .ok a → post a

@[simp] lemma run_library (s : Session) : library.run s = (.ok s.world, s) := rfl

@[simp] lemma run_update (g : Library → Library) (s : Session) :
    (update g).run s = (.ok (), { s with world := g s.world }) := rfl

lemma run_load (id : Int) (s : Session) : (load id).run s =
    (Plain.load s.world.find id, { s with world := s.world.afterLoad id }) := by
  simp only [load, load?, run_bind, run_library, run_update]
  unfold Plain.load
  rcases s.world.find id with e | _ | p
  · rfl
  · rfl
  · rfl

lemma gives_pure (a : α) : Gives f limits busy (pure a : SessionM α) (.ok a) :=
  fun _ h => ⟨rfl, h⟩

lemma gives_throw (e : Failure) : Gives f limits busy (throw e : SessionM α) (.error e) :=
  fun _ h => ⟨rfl, h⟩

lemma Gives.bind {m : SessionM α} {k : α → SessionM β} {out : Except Failure α}
    {g : α → Except Failure β} (h : Gives f limits busy m out)
    (hk : ∀ a, out = .ok a → Gives f limits busy (k a) (g a)) :
    Gives f limits busy (m >>= k) (out >>= g) := by
  intro s hs
  obtain ⟨same, sound⟩ := h s hs
  rw [run_bind]
  rcases hm : m.run s with ⟨e | a, s'⟩ <;> rw [hm] at same sound
  · exact ⟨by rw [← same]; rfl, sound⟩
  · rw [← same]
    exact hk a same.symm s' sound

lemma Gives.keeps {m : SessionM α} {out : Except Failure α} (h : Gives f limits busy m out) :
    Keeps f limits busy m (fun a => out = .ok a) :=
  fun s hs => ⟨(h s hs).2, fun _ ha => (h s hs).1.symm.trans ha⟩

lemma Keeps.bind {m : SessionM α} {k : α → SessionM β} {post : α → Prop} {post' : β → Prop}
    (h : Keeps f limits busy m post) (hk : ∀ a, post a → Keeps f limits busy (k a) post') :
    Keeps f limits busy (m >>= k) post' := by
  intro s hs
  obtain ⟨sound, returns⟩ := h s hs
  rw [run_bind]
  rcases hm : m.run s with ⟨e | a, s'⟩ <;> rw [hm] at sound returns
  · exact ⟨sound, nofun⟩
  · exact hk a (returns a rfl) s' sound

lemma Keeps.mono {m : SessionM α} {post post' : α → Prop} (h : Keeps f limits busy m post)
    (hp : ∀ a, post a → post' a) : Keeps f limits busy m post' :=
  fun s hs => ⟨(h s hs).1, fun a ha => hp a ((h s hs).2 a ha)⟩

lemma gives_update {g : Library → Library}
    (h : ∀ l : Library, l.Sound f limits → (g l).Sound f limits) :
    Gives f limits busy (update g) (.ok ()) :=
  fun _ hs => ⟨rfl, h _ hs.world, hs.entries, hs.pending⟩

lemma gives_note (e : Event) : Gives f limits busy (note e) (.ok ()) :=
  gives_update fun _ h => h.note e

lemma gives_load (id : Int) : Gives f limits busy (load id) (Plain.load f id) := by
  intro s hs
  rw [run_load, hs.world.find_eq]
  exact ⟨rfl, hs.world.afterLoad id, hs.entries, hs.pending⟩

lemma gives_programOf (subject : Subject) :
    Gives f limits busy (programOf subject) (Plain.programOf f subject) := by
  cases subject with
  | id n => exact gives_load n
  | text t =>
    unfold programOf parse Plain.programOf
    dsimp only
    rcases Program.parse t "<input>" none with d | p
    · exact gives_throw _
    · exact (gives_note _).bind fun _ _ => gives_pure p
  | program p => exact gives_pure p

def afterSearch (l : Library) (found : Resolution) : Library :=
  found.findings.foldl (·.afterFinding) { l with resolver := found.resolver }

lemma run_resolve (search : Resolver → Loader → Resolution) (s : Session) :
    (resolve search).run s = ((search s.world.resolver s.world.loader).answer,
      { s with world := afterSearch s.world (search s.world.resolver s.world.loader) }) := by
  simp only [resolve, run_bind, run_library, run_update]
  rcases (search s.world.resolver s.world.loader).answer with e | ids
  · rfl
  · rfl

/-- A search whose resolver stays true keeps a session sound. -/
lemma sound_resolve {search : Resolver → Loader → Resolution} {s : Session}
    (hs : Sound f limits busy s)
    (h : ∀ r n, Valid f r → Valid f (search r ⟨f, n⟩).resolver) :
    Sound f limits busy ((resolve search).run s).2 := by
  rw [run_resolve, hs.world.loader_eq]
  refine ⟨Library.Sound.afterFindings ?_ _, hs.entries, hs.pending⟩
  exact ⟨hs.world.limits, hs.world.store, hs.world.programs, h _ _ hs.world.resolver⟩

lemma gives_resolve {search : Resolver → Loader → Resolution} {out : Except Failure (List Int)}
    (kept : ∀ r n, Valid f r → Valid f (search r ⟨f, n⟩).resolver)
    (answer : ∀ r n, Valid f r → Bounds f n → (search r ⟨f, n⟩).answer = out) :
    Gives f limits busy (resolve search) out := by
  intro s hs
  refine ⟨?_, sound_resolve hs kept⟩
  rw [run_resolve, hs.world.loader_eq]
  exact answer _ _ hs.world.resolver (hs.world.bounds.mono (Nat.le_add_left _ _))

lemma keeps_resolve {search : Resolver → Loader → Resolution} {post : List Int → Prop}
    (kept : ∀ r n, Valid f r → Valid f (search r ⟨f, n⟩).resolver)
    (returns : ∀ r n c, Valid f r → (search r ⟨f, n⟩).answer = .ok c → post c) :
    Keeps f limits busy (resolve search) post := by
  intro s hs
  refine ⟨sound_resolve hs kept, fun c hc => ?_⟩
  rw [run_resolve, hs.world.loader_eq] at hc
  exact returns _ _ c hs.world.resolver hc

end Session

end SeqAsm
