import SeqAsm.Proofs.Session.Plain

/-!
Runs that are answered from outside.

Runs always take the same way from the same answers. So a run that waits for an answer can be kept
as the answers that its calls have had, and goes on by being repeated with one answer more.
-/

namespace SeqAsm.Machine

inductive Next where
  | ask (q : Query)
  | stop (outcome : Except Failure Result)

/-- Answers that are to be given, and the first call that has none. -/
structure Replay where
  answers : List (Except Failure Result)
  unanswered : Option Query := none

def replay : Host Replay where
  call id n r :=
    match r.answers with
    | a :: rest => (a, { r with answers := rest })
    | [] => (.error (.crash .searchTooDeep), { r with unanswered := some ⟨id, n⟩ })
  stalled _ _ r := r

/-- What a run does when its first calls have been answered. -/
def next (limits : Limits) (p : Program) (input : Int) (answers : List (Except Failure Result)) :
    Next :=
  let (outcome, s) := run limits (some replay) p input { answers }
  match s.world.unanswered with
  | some q => .ask q
  | none => .stop outcome

/-- A run asks for programs that its program calls. -/
lemma mem_of_next {limits : Limits} {p : Program} {ids : List Int}
    (hd : p.dependencies = .ok ids) {input : Int} {answers : List (Except Failure Result)}
    {q : Query} (asks : next limits p input answers = .ask q) : q.program ∈ ids := by
  have alike : Alike (fun w v => w = v ∧ ∀ q, w.unanswered = some q → q.program ∈ ids) (· ∈ ids)
      replay replay := by
    refine ⟨fun {id n w v} hid _ hw => ?_, fun _ _ hw => hw⟩
    obtain ⟨rfl, hw⟩ := hw
    refine ⟨rfl, rfl, ?_⟩
    obtain ⟨_ | ⟨a, rest⟩, unanswered⟩ := w
    · rintro q ⟨⟩
      exact hid
    · exact hw
  have listed := (run_of_alike limits alike (Program.callsIn_dependencies hd) input
    ⟨rfl, nofun⟩ (w := { answers }) (v := { answers })).2.world.2
  unfold next at asks
  dsimp only at asks
  split at asks
  · cases asks
    exact listed _ ‹_›
  · cases asks

end SeqAsm.Machine
