import SeqAsm.Proofs.Dependency.AtHand
import SeqAsm.Proofs.Machine.Failures
import SeqAsm.Proofs.Session.Results
import SeqAsm.Proofs.Session.Watch

/-!
What the check before a run is good for.

Once a program has passed the check, its evaluation fails only as runs do, at whatever depth: no
program is missing, none is called again by what it calls, every text that is called can be read,
and the engine makes no mistake. And it calls no programs but those that the check has named.
-/

namespace SeqAsm

open Resolver (Finder Settled Bounds Reaches Leads Within)

variable {f : Finder} {limits : Limits} {p : Program} {q : Query}

/-! ### Plain runs -/

namespace Plain

/-- Programs that are found can be run. -/
def Readable (f : Finder) : Prop := ∀ id p, f id = .ok (some p) → p.WellFormed

lemma readable_find (store : Store) : Readable (find store) := by
  intro id p h
  obtain ⟨text, read⟩ := text_of_find h
  exact Program.wellFormed_of_parse read

lemma wellFormed_of_programOf {subject : Subject} (named : ∀ p, subject ≠ .program p)
    (readable : Readable f) (hp : programOf f subject = .ok p) : p.WellFormed := by
  obtain ⟨id, found⟩ | ⟨text, read⟩ := origin_of_programOf named hp
  · exact readable id p found
  · exact Program.wellFormed_of_parse read

/-- A run fails as a run, if its calls do. -/
lemma ofRun_of_runWith {answer : Query → Except Failure Result} {ids : List Int}
    (wf : p.WellFormed) (hd : p.dependencies = .ok ids)
    (h : ∀ id ∈ ids, ∀ n e, answer ⟨id, n⟩ = .error e → e.OfRun) {input : Int} {e : Failure}
    (he : runWith answer limits p input = .error e) : e.OfRun := by
  have calls : Machine.HostFailsInRun (· ∈ ids) (host answer) := fun hid _ => h _ hid _ _
  exact Machine.ofRun_of_run limits calls wf (Program.callsIn_dependencies hd) he

/-- **A call of a settled program fails as a run**, at every depth. -/
lemma ofRun_of_call (readable : Readable f) {depth : ℕ} {c : List Int}
    (hs : Settled f q.program c) (hd : c.length < depth) {e : Failure}
    (he : call f limits depth q = .error e) : e.OfRun := by
  induction depth generalizing q c e with
  | zero => omega
  | succ depth ih =>
    obtain ⟨ids, p, hp, hids⟩ := hs.links
    unfold call at he
    rw [load_eq_ok.2 hp] at he
    refine ofRun_of_runWith (readable _ _ hp) hids (fun id hid n e he => ?_) he
    have reach : Reaches f q.program id := .single ⟨ids, ⟨p, hp, hids⟩, hid⟩
    obtain ⟨d, hsd⟩ := hs.of_leads reach.to_reflTransGen
    have shorter := hs.length_lt reach hsd
    exact ih hsd (by omega) he

end Plain

namespace Session

/-- The failures of a program in order are failures of runs. -/
lemma ofRun_of_ready (readable : Plain.Readable f) {depth : ℕ} (bounds : Bounds f depth)
    (wf : p.WellFormed) (ready : Ready f p) {input : Int} {e : Failure}
    (he : Plain.runWith (Plain.call f limits depth) limits p input = .error e) : e.OfRun := by
  obtain ⟨ids, hids, settled⟩ := ready
  refine Plain.ofRun_of_runWith wf hids (fun id hid n e he => ?_) he
  obtain ⟨c, hc⟩ := settled id hid
  exact Plain.ofRun_of_call readable hc (hc.length_lt_of_bounds bounds) he

lemma sound_foldl {s : Session} (h : Sound f limits ∅ s) (rs : List Request) :
    Sound f limits ∅ (rs.foldl Request.perform s) := by
  induction rs generalizing s with
  | nil => exact h
  | cons r rs ih => exact ih (r.sound h)

/-- What the check names is closed under calls, and holds what the program calls. -/
lemma closed_of_check {depth : ℕ} {D : List Int}
    (h : (Resolver.ofProgram ⟨f, depth⟩ {} p).answer = .ok D) :
    Watched.Closed f D ∧ Watched.CallsWithin D p := by
  obtain ⟨called, hd, -⟩ := ready_of_check h
  have mem {x : Int} : x ∈ D ↔ Within f called x :=
    Resolver.mem_of_ofProgram Resolver.valid_empty hd h
  refine ⟨fun {id ids} hid links v hv => ?_, called, hd, fun v hv => ?_⟩
  · exact mem.2 ((mem.1 hid).trans (.single ⟨ids, links, hv⟩))
  · exact mem.2 (Resolver.within_of_mem hv)

/-- What passes the check in a session passes it afresh. -/
lemma passed_of_preflight {store : Store} {s : Session}
    (sound : Sound (Plain.find store) limits ∅ s) {subject : Subject}
    (named : ∀ p, subject ≠ .program p) {D : List Int}
    (checked : ((programOf subject >>= preflight).run s).1 = .ok D) :
    ∃ p, Plain.programOf (Plain.find store) subject = .ok p ∧
      (Resolver.ofProgram ⟨Plain.find store, store.bound⟩ {} p).answer = .ok D := by
  have afresh : Gives (Plain.find store) limits ∅ (programOf subject >>= preflight) _ :=
    (gives_programOf subject).bind fun p hp =>
      gives_preflight (stored_of_programOf named hp) (Plain.bounds_find store)
  rw [(afresh s sound).1] at checked
  exact bind_eq_ok.1 checked

/-- What has passed the check is run, at any time. -/
lemma evaluate_of_passed {store : Store} {t : Session}
    (sound : Sound (Plain.find store) limits ∅ t) {subject : Subject}
    (named : ∀ p, subject ≠ .program p) {D : List Int}
    (hp : Plain.programOf (Plain.find store) subject = .ok p)
    (hD : (Resolver.ofProgram ⟨Plain.find store, store.bound⟩ {} p).answer = .ok D)
    (input : Int) : ((evaluate subject input).run t).1 =
      Plain.runWith (Plain.call (Plain.find store) limits store.bound) limits p input := by
  have ran : Gives (Plain.find store) limits ∅ (evaluate subject input) _ :=
    gives_prepare named le_rfl fun p ready => gives_run ready (Plain.bounds_find store) input
  rw [(ran t sound).1, prepare_bind le_rfl, hp]
  change (Resolver.ofProgram ⟨Plain.find store, store.bound⟩ {} p).answer >>= _ = _
  rw [hD]
  rfl

/-- **The check before a run is sound.** After it has named the programs `D` that a stored program
or a text may call, and whatever is asked of the session in between, an evaluation fails only as a
run does, and all its calls, those in called programs included, are to programs of `D` and with
arguments that are not negative. The calls are those that are listed when the evaluation is
watched, which changes neither what it gives nor the session it leaves. -/
theorem preflight_sound {store : Store} {s : Session} (h : Reachable store limits s)
    {subject : Subject} (named : ∀ p, subject ≠ .program p) {D : List Int}
    (checked : ((programOf subject >>= preflight).run s).1 = .ok D) (later : List Request)
    (input : Int) :
    let t := later.foldl Request.perform ((Request.preflight subject).perform s)
    let plain := (evaluate subject input).run t
    let watched := (Watched.evaluate subject input).run (Watched.new t)
    (∀ e, plain.1 = .error e → e.OfRun) ∧
      (∀ q ∈ watched.2.calls, q.program ∈ D ∧ 0 ≤ q.input) ∧
      watched.1 = plain.1 ∧ watched.2.session = plain.2 := by
  intro t plain watched
  have readable := Plain.readable_find s.world.store
  obtain ⟨p, hp, hD⟩ := passed_of_preflight h.sound named checked
  have sound : Sound (Plain.find s.world.store) limits ∅ t :=
    sound_foldl (Request.sound h.sound (.preflight subject)) later
  obtain ⟨closed, within⟩ := closed_of_check hD
  obtain ⟨same, session⟩ := Watched.mirrors_evaluate subject input (Watched.new t)
  have obeys := (Watched.stays_evaluate closed hp within input (Watched.new t)
    ⟨sound.world, nofun⟩).1
  refine ⟨fun e he => ?_, fun q hq => obeys.calls hq, same, session⟩
  have failed := (evaluate_of_passed sound named hp hD input).symm.trans he
  exact ofRun_of_ready readable (Plain.bounds_find s.world.store)
    (Plain.wellFormed_of_programOf named readable hp) (ready_of_check hD) failed

/-- A session with a program that increments its input and one that does so twice by calls. -/
def twice : Session :=
  Session.new (((Store.memory ∅).add 1 "add $0,1").add 2 "seq $0,1\nseq $0,1") {}

/-- The check of a program that has been evaluated, and what an evaluation of it calls then. -/
theorem preflight_sound_twice :
    let watched (input : Int) := (Watched.evaluate (.id 2) input).run (Watched.new
      (Request.perform (Request.perform twice (.preflight (.id 2))) (.evaluate (.id 2) 4)))
    (watched 3).1 = .ok ⟨5, 4⟩ ∧ (watched 3).2.calls = [⟨1, 4⟩, ⟨1, 3⟩] ∧
      ∀ input, ∀ q ∈ (watched input).2.calls, q.program ∈ [1] ∧ 0 ≤ q.input := by
  have named : ∀ p, Subject.id 2 ≠ .program p := fun _ h => nomatch h
  have checked : ((programOf (.id 2) >>= preflight).run twice).1 = .ok [1] := by cbv
  refine ⟨by cbv, by cbv, fun input => ?_⟩
  exact (preflight_sound .new named checked [.evaluate (.id 2) 4] input).2.1

end Session

end SeqAsm
