import SeqAsm.Proofs.Program.WellFormed

/-!
The lines that nodes come from.

Every node of a program that has been read comes from a line, and lines are numbered from one. A
text that cannot be read has a defect of its own, which is not that of a run.
-/

namespace SeqAsm

/-! ### Nodes and steps -/

def Node.step : Node → Step
  | .instr i line => .instr i line
  | .loop h line => .opening h line

/-- The line of a step; a marker that closes a loop has none. -/
def Step.line? : Step → Option ℕ
  | .instr _ line | .opening _ line => some line
  | .closing => none

@[simp] lemma Node.line?_step (n : Node) : n.step.line? = some n.line := by
  cases n <;> rfl

namespace Block

variable {b : Block} {n : Node} {steps : List Step}

/-- The nodes of the blocks that steps begin come from the steps. -/
lemma step_mem_of_mem_assemble (hb : b ∈ assemble steps) (hn : n ∈ b.nodes) : n.step ∈ steps := by
  induction steps generalizing b with
  | nil =>
    obtain rfl := List.mem_singleton.1 hb
    cases hn
  | cons s steps ih =>
    have later {b : Block} (hb : b ∈ assemble steps) (hn : n ∈ b.nodes) : n.step ∈ s :: steps :=
      List.mem_cons_of_mem s (ih hb hn)
    cases s with
    | instr i line =>
      unfold assemble at hb
      rcases hs : assemble steps with _ | ⟨first, others⟩ <;> rw [hs] at hb later
      · cases hb
      rcases List.mem_cons.1 hb with rfl | hb
      · rcases List.mem_cons.1 hn with rfl | hn
        · exact List.mem_cons_self
        · exact later List.mem_cons_self hn
      · exact later (List.mem_cons_of_mem _ hb) hn
    | closing =>
      rcases List.mem_cons.1 hb with rfl | hb
      · cases hn
      · exact later hb hn
    | opening h line =>
      unfold assemble at hb
      rcases hs : assemble steps with _ | ⟨body, _ | ⟨rest, others⟩⟩ <;> rw [hs] at hb later
      · cases hb
      · exact later hb hn
      rcases List.mem_cons.1 hb with rfl | hb
      · rcases List.mem_cons.1 hn with rfl | hn
        · exact List.mem_cons_self
        rcases List.mem_append.1 hn with hn | hn
        · exact later List.mem_cons_self hn
        · exact later (List.mem_cons_of_mem _ List.mem_cons_self) hn
      · exact later (List.mem_cons_of_mem _ (List.mem_cons_of_mem _ hb)) hn

lemma step_mem_of_mem_ofSteps (hn : n ∈ (ofSteps steps).nodes) : n.step ∈ steps := by
  unfold ofSteps at hn
  rcases hs : assemble steps with _ | ⟨first, others⟩ <;> rw [hs] at hn
  · cases hn
  · exact step_mem_of_mem_assemble (by rw [hs]; exact List.mem_cons_self) hn

end Block

/-! ### Lines that are read -/

namespace Program

variable {r r' : Reading} {line column l : ℕ} {word : String} {tokens : List Token} {step : Step}
  {source : List Char} {p : Program}

lemma eq_of_stepOf (h : stepOf line word column tokens = .ok step) (hl : step.line? = some l) :
    l = line := by
  unfold stepOf at h
  split at h
  · cases h
  · split at h
    · obtain rfl := Except.ok.inj h
      cases hl
    · cases h
  · split at h
    · obtain ⟨target, -, h⟩ := bind_eq_ok.1 h
      obtain rfl := Except.ok.inj h
      exact (Option.some.inj hl).symm
    · obtain ⟨target, -, h⟩ := bind_eq_ok.1 h
      obtain ⟨length, -, h⟩ := bind_eq_ok.1 h
      obtain rfl := Except.ok.inj h
      exact (Option.some.inj hl).symm
    · cases h
  · split at h
    · obtain ⟨target, -, h⟩ := bind_eq_ok.1 h
      obtain ⟨code, -, h⟩ := bind_eq_ok.1 h
      obtain rfl := Except.ok.inj h
      exact (Option.some.inj hl).symm
    · cases h

namespace Reading

lemma steps_of_addStep (h : r.addStep line source step = .ok r') : r'.steps = step :: r.steps := by
  unfold addStep at h
  cases step with
  | instr i line =>
    obtain rfl := Except.ok.inj h
    rfl
  | opening g line =>
    dsimp only at h
    split at h
    · cases h
    · obtain rfl := Except.ok.inj h
      rfl
  | closing =>
    rcases ho : r.opened with _ | ⟨o, opened⟩ <;> rw [ho] at h
    · cases h
    · obtain rfl := Except.ok.inj h
      rfl

lemma steps_of_addLine (h : r.addLine line source = .ok r') : r'.steps = r.steps ∨
    ∃ word column tokens step, stepOf line word column tokens = .ok step ∧
      r'.steps = step :: r.steps := by
  unfold addLine at h
  split at h
  · cases h
  · obtain rfl := Except.ok.inj h
    exact .inl rfl
  · split at h
    · rename_i q hq
      obtain rfl := Except.ok.inj h
      unfold addOffset at hq
      split at hq
      · cases hq
      · split at hq
        · cases hq
        · obtain rfl := Except.ok.inj hq
          exact .inl rfl
    · cases h
  · split at h
    · cases h
    · rename_i step hs
      split at h
      · rename_i q hq
        obtain rfl := Except.ok.inj h
        exact .inr ⟨_, _, _, step, hs, steps_of_addStep hq⟩
      · cases h

/-- Every step has a line with a number, unless it has none. -/
def Numbered (r : Reading) : Prop := ∀ s ∈ r.steps, ∀ l, s.line? = some l → 0 < l

lemma Numbered.addLine (numbered : r.Numbered) (hline : 0 < line)
    (h : r.addLine line source = .ok r') : r'.Numbered := by
  intro s hs l hl
  rcases steps_of_addLine h with same | ⟨_, _, _, step, hstep, more⟩
  · exact numbered s (same ▸ hs) l hl
  · rw [more] at hs
    rcases List.mem_cons.1 hs with rfl | hs
    · rwa [eq_of_stepOf hstep hl]
    · exact numbered s hs l hl

lemma Numbered.addLines {lines : List (List Char)} (numbered : r.Numbered) (hline : 0 < line)
    (h : r.addLines line lines = .ok r') : r'.Numbered := by
  induction lines generalizing r line with
  | nil =>
    obtain rfl := Except.ok.inj h
    exact numbered
  | cons source rest ih =>
    unfold Reading.addLines at h
    split at h
    · exact ih (numbered.addLine hline ‹_›) line.succ_pos h
    · cases h

lemma steps_of_finish (h : r.finish = .ok p) : p.body = .ofSteps r.steps.reverse := by
  unfold finish at h
  split at h
  · cases h
  · obtain rfl := Except.ok.inj h
    rfl

end Reading

/-- The nodes of a program have lines, which are numbered from one. -/
def Lined (p : Program) : Prop := ∀ n ∈ p.nodes, 0 < n.line

/-- **A program that has been read has lines.** -/
theorem lined_of_parse {text file : String} {id : Option Int}
    (h : parse text file id = .ok p) : p.Lined := by
  intro n hn
  unfold parse at h
  split at h
  · rename_i q hq
    obtain rfl := Except.ok.inj h
    obtain ⟨r, hr, hq⟩ := bind_eq_ok.1 hq
    have start : Reading.Numbered {} := nofun
    have body : n ∈ (Block.ofSteps r.steps.reverse).nodes := by
      rw [← Reading.steps_of_finish hq]
      exact hn
    have step := List.mem_reverse.1 (Block.step_mem_of_mem_ofSteps body)
    exact start.addLines Nat.one_pos hr n.step step n.line n.line?_step
  · cases h

lemma isParsing_of_parse {text file : String} {id : Option Int} {d : Diagnostic}
    (h : parse text file id = .error d) : d.cause.isParsing = true := by
  unfold parse at h
  split at h
  · cases h
  · rename_i f _
    obtain rfl := Except.error.inj h
    obtain ⟨defect, line, column, source⟩ := f
    cases defect <;> rfl

end Program

end SeqAsm
