import Mathlib.Data.Nat.Notation
import SeqAsm.Program.Parser
import SeqAsm.Proofs.Running

/-!
What a text can say.

A text is read as a program whose instructions have a target that can be written to and a source,
whose calls name a program, and whose loops have a bounded length and do not nest too deep. The
steps of the lines are checked one by one; that the loops pair up follows from the count of the
loops that are open.
-/

namespace SeqAsm

namespace Operand

/-- No register has a negative index. -/
def Proper : Operand → Prop
  | .const _ => True
  | .reg i | .ind i => 0 ≤ i

/-- The id of a program. -/
def IsId : Operand → Prop
  | .const n => 0 ≤ n
  | _ => False

/-- A length that a loop may have: a register, or a constant that is not too large. -/
def IsLength : Operand → Prop
  | .const n => 0 ≤ n ∧ n ≤ maxLoopRange
  | _ => True

instance : ∀ o : Operand, Decidable o.Proper
  | .const _ => .isTrue trivial
  | .reg i | .ind i => inferInstanceAs (Decidable (0 ≤ i))

instance : ∀ o : Operand, Decidable o.IsId
  | .const n => inferInstanceAs (Decidable (0 ≤ n))
  | .reg _ | .ind _ => .isFalse id

instance : ∀ o : Operand, Decidable o.IsLength
  | .const n => inferInstanceAs (Decidable (0 ≤ n ∧ n ≤ maxLoopRange))
  | .reg _ | .ind _ => .isTrue trivial

end Operand

lemma Operand.IsId.exists_const {o : Operand} (h : o.IsId) : ∃ id, 0 ≤ id ∧ o = .const id := by
  cases o with
  | const id => exact ⟨id, h, rfl⟩
  | reg i => exact h.elim
  | ind i => exact h.elim

/-- An instruction has a target and a source, and the source of a call is the id of a program. -/
inductive Instruction.WellFormed : Instruction → Prop
  | mk {code : Opcode} {target source : Operand} : target.isRegister = true → target.Proper →
      source.Proper → (code.isCall = true → source.IsId) → WellFormed ⟨code, [target, source]⟩

structure LoopHeader.WellFormed (h : LoopHeader) : Prop where
  isRegister : h.target.isRegister = true
  target : h.target.Proper
  length : h.length.Proper
  isLength : h.length.IsLength

instance : ∀ i : Instruction, Decidable i.WellFormed
  | ⟨code, [target, source]⟩ =>
    decidable_of_iff (target.isRegister = true ∧ target.Proper ∧ source.Proper ∧
        (code.isCall = true → source.IsId))
      ⟨fun ⟨register, proper, right, call⟩ => .mk register proper right call,
        fun | .mk register proper right call => ⟨register, proper, right, call⟩⟩
  | ⟨_, []⟩ | ⟨_, [_]⟩ | ⟨_, _ :: _ :: _ :: _⟩ => .isFalse nofun

instance (h : LoopHeader) : Decidable h.WellFormed :=
  decidable_of_iff (h.target.isRegister = true ∧ h.target.Proper ∧ h.length.Proper ∧
      h.length.IsLength)
    ⟨fun ⟨register, proper, right, bounded⟩ => ⟨register, proper, right, bounded⟩,
      fun ⟨register, proper, right, bounded⟩ => ⟨register, proper, right, bounded⟩⟩

namespace Block

/-- Every node is one that a line can say. -/
def WellFormed : Block → Prop
  | nil => True
  | instr i _ rest => i.WellFormed ∧ rest.WellFormed
  | loop h _ body rest => h.WellFormed ∧ body.WellFormed ∧ rest.WellFormed

instance decidableWellFormed : ∀ b : Block, Decidable b.WellFormed
  | nil => .isTrue trivial
  | instr i _ rest =>
    have := rest.decidableWellFormed
    inferInstanceAs (Decidable (i.WellFormed ∧ rest.WellFormed))
  | loop h _ body rest =>
    have := body.decidableWellFormed
    have := rest.decidableWellFormed
    inferInstanceAs (Decidable (h.WellFormed ∧ body.WellFormed ∧ rest.WellFormed))

def depth : Block → ℕ
  | nil => 0
  | instr _ _ rest => rest.depth
  | loop _ _ body rest => max (body.depth + 1) rest.depth

end Block

def Node.WellFormed : Node → Prop
  | .instr i _ => i.WellFormed
  | .loop h _ => h.WellFormed

/-- A block is well formed if its nodes are, at any depth. -/
lemma Block.wellFormed_iff {b : Block} : b.WellFormed ↔ ∀ n ∈ b.nodes, n.WellFormed := by
  induction b with
  | nil => exact iff_of_true trivial nofun
  | instr i line rest ih =>
    rw [WellFormed, nodes, List.forall_mem_cons, ih]
    rfl
  | loop h line body rest ihb ihr =>
    rw [WellFormed, nodes, List.forall_mem_cons, List.forall_mem_append, ihb, ihr]
    rfl

structure Program.WellFormed (p : Program) : Prop where
  body : p.body.WellFormed
  depth : p.body.depth ≤ maxLoopDepth

instance (p : Program) : Decidable p.WellFormed :=
  decidable_of_iff (p.body.WellFormed ∧ p.body.depth ≤ maxLoopDepth)
    ⟨fun ⟨body, depth⟩ => ⟨body, depth⟩, fun ⟨body, depth⟩ => ⟨body, depth⟩⟩

def Step.WellFormed : Step → Prop
  | .instr i _ => i.WellFormed
  | .opening h _ => h.WellFormed
  | .closing => True

/-! ### A line -/

lemma Operand.one_isLength : (const 1).IsLength := by decide

lemma Operand.proper_of_read? {cs : List Char} {o : Operand} (h : Operand.read? cs = some o) :
    o.Proper := by
  unfold Operand.read? at h
  split at h
  · split at h
    · obtain rfl := Option.some.inj h
      exact Int.natCast_nonneg _
    · cases h
  · split at h
    · obtain rfl := Option.some.inj h
      exact Int.natCast_nonneg _
    · cases h
  · dsimp only at h
    split at h
    · obtain rfl := Option.some.inj h
      trivial
    · cases h

namespace Program

variable {t : Token} {o : Operand} {word : String} {code : Opcode} {line column : ℕ}
  {tokens : List Token} {step : Step}

lemma proper_of_operandOf (h : operandOf t = .ok o) : o.Proper := by
  unfold operandOf at h
  rcases ho : t.operand? with _ | o' <;> rw [ho] at h
  · cases h
  · obtain rfl := Except.ok.inj h
    exact Operand.proper_of_read? ho

lemma of_targetOf (h : targetOf word t = .ok o) : o.isRegister = true ∧ o.Proper := by
  obtain ⟨o', ho, h⟩ := bind_eq_ok.1 h
  split at h
  · obtain rfl := Except.ok.inj h
    exact ⟨‹_›, proper_of_operandOf ho⟩
  · cases h

lemma of_lengthOf (h : lengthOf t = .ok o) : o.Proper ∧ o.IsLength := by
  obtain ⟨o', ho, h⟩ := bind_eq_ok.1 h
  have proper := proper_of_operandOf ho
  rcases o' with n | i | i
  · dsimp only at h
    split at h
    · obtain rfl := Except.ok.inj h
      exact ⟨trivial, ‹_›⟩
    · cases h
  · obtain rfl := Except.ok.inj h
    exact ⟨proper, trivial⟩
  · obtain rfl := Except.ok.inj h
    exact ⟨proper, trivial⟩

lemma of_sourceOf (h : sourceOf code t = .ok o) : o.Proper ∧ (code.isCall = true → o.IsId) := by
  obtain ⟨o', ho, h⟩ := bind_eq_ok.1 h
  have proper := proper_of_operandOf ho
  by_cases hc : code.isCall = true
  · rw [if_pos hc] at h
    rcases o' with n | i | i
    · dsimp only at h
      split at h
      · obtain rfl := Except.ok.inj h
        exact ⟨trivial, fun _ => ‹_›⟩
      · cases h
    · cases h
    · cases h
  · rw [if_neg hc] at h
    obtain rfl := Except.ok.inj h
    exact ⟨proper, fun h => absurd h hc⟩

lemma wellFormed_of_stepOf (h : stepOf line word column tokens = .ok step) : step.WellFormed := by
  unfold stepOf at h
  split at h
  · cases h
  · split at h
    · obtain rfl := Except.ok.inj h
      trivial
    · cases h
  · split at h
    · obtain ⟨target, ht, h⟩ := bind_eq_ok.1 h
      obtain rfl := Except.ok.inj h
      exact ⟨(of_targetOf ht).1, (of_targetOf ht).2, trivial, Operand.one_isLength⟩
    · obtain ⟨target, ht, h⟩ := bind_eq_ok.1 h
      obtain ⟨length, hl, h⟩ := bind_eq_ok.1 h
      obtain rfl := Except.ok.inj h
      exact ⟨(of_targetOf ht).1, (of_targetOf ht).2, (of_lengthOf hl).1, (of_lengthOf hl).2⟩
    · cases h
  · split at h
    · obtain ⟨target, ht, h⟩ := bind_eq_ok.1 h
      obtain ⟨source, hs, h⟩ := bind_eq_ok.1 h
      obtain rfl := Except.ok.inj h
      exact .mk (of_targetOf ht).1 (of_targetOf ht).2 (of_sourceOf hs).1 (of_sourceOf hs).2
    · cases h

end Program

/-! ### Loop markers that pair up -/

/-- Inside `d` loops, steps close all loops and no more, and never are too many loops open. -/
def Nests : (d : ℕ) → List Step → Prop
  | d, [] => d = 0
  | d, .instr .. :: steps => Nests d steps
  | d, .opening .. :: steps => d < maxLoopDepth ∧ Nests (d + 1) steps
  | 0, .closing :: _ => False
  | d + 1, .closing :: steps => Nests d steps

/-- A well-formed block that fits inside `d` loops. -/
structure Block.Fits (d : ℕ) (b : Block) : Prop where
  wellFormed : b.WellFormed
  depth : b.depth + d ≤ maxLoopDepth

/-- Blocks of which the first is inside `d` loops, the next inside one less, and the last inside
none. -/
inductive Stacked : ℕ → List Block → Prop
  | bottom {b : Block} : b.Fits 0 → Stacked 0 [b]
  | inside {d : ℕ} {b : Block} {bs : List Block} : b.Fits (d + 1) → Stacked d bs →
      Stacked (d + 1) (b :: bs)

/-- The first block may be replaced. -/
lemma Stacked.head {d : ℕ} {bs : List Block} (h : Stacked d bs) :
    ∃ b rest, bs = b :: rest ∧ b.Fits d ∧ ∀ b' : Block, b'.Fits d → Stacked d (b' :: rest) := by
  cases h with
  | bottom hb => exact ⟨_, _, rfl, hb, fun _ => .bottom⟩
  | inside hb rest => exact ⟨_, _, rfl, hb, fun _ hb' => .inside hb' rest⟩

lemma stacked_assemble {steps : List Step} (hs : ∀ s ∈ steps, s.WellFormed) {d : ℕ}
    (hd : d ≤ maxLoopDepth) (h : Nests d steps) : Stacked d (Block.assemble steps) := by
  induction steps generalizing d with
  | nil =>
    obtain rfl : d = 0 := h
    exact .bottom ⟨trivial, Nat.zero_le _⟩
  | cons s steps ih =>
    obtain ⟨step, later⟩ := List.forall_mem_cons.1 hs
    cases s with
    | instr i line =>
      obtain ⟨b, rest, hb, fits, replace⟩ := (ih later hd h).head
      unfold Block.assemble
      rw [hb]
      exact replace _ ⟨⟨step, fits.wellFormed⟩, fits.depth⟩
    | opening g line =>
      obtain ⟨lt, h⟩ := h
      have all := ih later lt h
      unfold Block.assemble
      generalize Block.assemble steps = bs at all ⊢
      cases all with
      | @inside _ body _ inner outer =>
        obtain ⟨b, rest, rfl, fits, replace⟩ := outer.head
        refine replace _ ⟨⟨step, inner.wellFormed, fits.wellFormed⟩, ?_⟩
        have := inner.depth
        have := fits.depth
        unfold Block.depth
        omega
    | closing =>
      cases d with
      | zero => exact h.elim
      | succ d =>
        refine .inside ⟨trivial, ?_⟩ (ih later (by omega) h)
        unfold Block.depth
        omega

/-- Steps that pair up make a well-formed block. -/
lemma fits_ofSteps {steps : List Step} (hs : ∀ s ∈ steps, s.WellFormed) (h : Nests 0 steps) :
    (Block.ofSteps steps).Fits 0 := by
  obtain ⟨b, rest, hb, fits, -⟩ := (stacked_assemble hs (Nat.zero_le _) h).head
  unfold Block.ofSteps
  rw [hb]
  exact fits

/-! ### A text -/

namespace Program

/-- What holds of all that has been read: the steps are well formed, and together with steps that
close the loops still open they pair up. -/
structure Reading.Orderly (r : Reading) : Prop where
  steps : ∀ s ∈ r.steps, s.WellFormed
  opened : r.opened.length ≤ maxLoopDepth
  nests {rest : List Step} : Nests r.opened.length rest → Nests 0 (r.steps.reverse ++ rest)

namespace Reading.Orderly

variable {r r' : Reading} {line : ℕ} {source : List Char}

lemma empty : Orderly {} := ⟨nofun, Nat.zero_le _, fun h => h⟩

lemma addStep {step : Step} (h : Orderly r) (hs : step.WellFormed)
    (hr : r.addStep line source step = .ok r') : Orderly r' := by
  have steps : ∀ s ∈ step :: r.steps, s.WellFormed := List.forall_mem_cons.2 ⟨hs, h.steps⟩
  have nests {d : ℕ} (pass : ∀ {rest}, Nests d rest → Nests r.opened.length (step :: rest))
      {rest : List Step} (hn : Nests d rest) : Nests 0 ((step :: r.steps).reverse ++ rest) := by
    rw [List.reverse_cons, List.append_assoc]
    exact h.nests (pass hn)
  unfold Reading.addStep at hr
  cases step with
  | instr i line =>
    obtain rfl := Except.ok.inj hr
    exact ⟨steps, h.opened, nests fun hn => hn⟩
  | opening g line =>
    dsimp only at hr
    split at hr
    · cases hr
    · obtain rfl := Except.ok.inj hr
      refine ⟨steps, ?_, nests fun hn => ⟨?_, hn⟩⟩
      · rw [List.length_cons]
        omega
      · omega
  | closing =>
    rcases ho : r.opened with _ | ⟨o, opened⟩ <;> rw [ho] at hr
    · cases hr
    · obtain rfl := Except.ok.inj hr
      have fewer : r.opened.length = opened.length + 1 := by rw [ho, List.length_cons]
      refine ⟨steps, ?_, nests fun hn => ?_⟩
      · have := h.opened
        dsimp only
        omega
      · rw [fewer]
        exact hn

lemma addLine (h : Orderly r) (hr : r.addLine line source = .ok r') : Orderly r' := by
  unfold Reading.addLine at hr
  split at hr
  · cases hr
  · obtain rfl := Except.ok.inj hr
    exact h
  · split at hr
    · rename_i q hq
      obtain rfl := Except.ok.inj hr
      unfold Reading.addOffset at hq
      split at hq
      · cases hq
      · split at hq
        · cases hq
        · obtain rfl := Except.ok.inj hq
          exact ⟨h.steps, h.opened, h.nests⟩
    · cases hr
  · split at hr
    · cases hr
    · rename_i step hs
      split at hr
      · rename_i q hq
        obtain rfl := Except.ok.inj hr
        exact h.addStep (wellFormed_of_stepOf hs) hq
      · cases hr

lemma addLines {lines : List (List Char)} (h : Orderly r)
    (hr : r.addLines line lines = .ok r') : Orderly r' := by
  induction lines generalizing r line with
  | nil =>
    obtain rfl := Except.ok.inj hr
    exact h
  | cons source rest ih =>
    unfold Reading.addLines at hr
    split at hr
    · exact ih (h.addLine ‹_›) hr
    · cases hr

lemma finish {p : Program} (h : Orderly r) (hr : r.finish = .ok p) : p.WellFormed := by
  unfold Reading.finish at hr
  split at hr
  · cases hr
  · rename_i ho
    obtain rfl := Except.ok.inj hr
    have pairs : Nests 0 r.steps.reverse := by
      have closed : Nests 0 (r.steps.reverse ++ []) := h.nests (by rw [ho]; rfl)
      rwa [List.append_nil] at closed
    have body := fits_ofSteps (fun s hs => h.steps s (List.mem_reverse.1 hs)) pairs
    exact ⟨body.wellFormed, body.depth⟩

end Reading.Orderly

/-- **A text is read as a well-formed program.** -/
theorem wellFormed_of_parse {text file : String} {id : Option Int} {p : Program}
    (h : parse text file id = .ok p) : p.WellFormed := by
  unfold parse at h
  split at h
  · rename_i q hq
    obtain rfl := Except.ok.inj h
    obtain ⟨r, hr, hq⟩ := bind_eq_ok.1 hq
    have whole := (Reading.Orderly.empty.addLines hr).finish hq
    exact ⟨whole.body, whole.depth⟩
  · cases h

end Program

end SeqAsm
