import SeqAsm.Program.Printer
import SeqAsm.Proofs.Statement.Written

/-!
Canonical text reads back.

Each line of the text of a well-formed program says the step that it was written for. So the
lines of a block give its steps, a loop inside another the more open loops, and the steps of the
whole text form the block again; only its line numbers are now those of the text.
-/

namespace SeqAsm

namespace Text

lemma linesFrom_append {cs : List Char} (h : ∀ c ∈ cs, isLineEnd c = false)
    (line rest : List Char) :
    linesFrom line (cs ++ '\n' :: rest) = (line.reverse ++ cs) :: linesFrom [] rest := by
  induction cs generalizing line with
  | nil =>
    rw [List.nil_append, List.append_nil, linesFrom]
    · exact if_pos (by decide)
    · exact fun _ h => absurd h (by decide)
  | cons c cs ih =>
    obtain ⟨hc, hcs⟩ := List.forall_mem_cons.1 h
    have other : isLineEnd c ≠ true := by simp [hc]
    rw [List.cons_append, linesFrom, if_neg other, ih hcs, List.reverse_cons, List.append_assoc]
    · rfl
    · rintro r rfl
      exact absurd hc (by decide)

/-- The lines of a text are those it was joined from. -/
lemma lines_join {ls : List String} (h : ∀ l ∈ ls, ∀ c ∈ l.toList, isLineEnd c = false) :
    lines (String.join (ls.map (· ++ "\n"))).toList = ls.map String.toList := by
  rw [String.toList_join]
  induction ls with
  | nil => rfl
  | cons l ls ih =>
    obtain ⟨hl, hls⟩ := List.forall_mem_cons.1 h
    have first : (l ++ "\n").toList = l.toList ++ ['\n'] := String.toList_append
    rw [List.map_cons, List.flatMap_cons, first, List.append_assoc]
    exact (linesFrom_append hl [] _).trans (congrArg _ (ih hls))

end Text

/-! ### Printed lines -/

open Statement (written arguments listed)

lemma toList_intercalate_operands (o : Operand) (os : List Operand) :
    (",".intercalate ((o :: os).map Operand.text)).toList = o.chars ++ listed os := by
  rw [String.toList_intercalate]
  induction os generalizing o with
  | nil => simp [listed, Operand.chars]
  | cons o' os ih =>
    rw [List.map_cons, List.map_cons, List.map_cons, List.map_cons, List.intercalate_cons_cons]
    have next := ih o'
    rw [List.map_cons, List.map_cons] at next
    rw [next, List.append_assoc]
    rfl

lemma toList_indent (d : ℕ) (l : String) :
    (indent d ++ l).toList = List.replicate (2 * d) ' ' ++ l.toList := by
  rw [String.toList_append, indent, String.toList_ofList]

lemma Instruction.toList_line (d : ℕ) (i : Instruction) :
    (indent d ++ i.text).toList = written (2 * d) (.code i.opcode) i.operands := by
  obtain ⟨code, operands⟩ := i
  rw [toList_indent, written]
  cases operands with
  | nil => simp [Instruction.text, arguments, Mnemonic.word]
  | cons o os =>
    have text : Instruction.text ⟨code, o :: os⟩ =
        code.word ++ " " ++ ",".intercalate ((o :: os).map Operand.text) := rfl
    rw [text, String.toList_append, String.toList_append, toList_intercalate_operands,
      List.append_assoc]
    rfl

namespace LoopHeader

def operands (h : LoopHeader) : List Operand :=
  if h.length = .const 1 then [h.target] else [h.target, h.length]

lemma toList_line (d : ℕ) (h : LoopHeader) :
    (indent d ++ h.text).toList = written (2 * d) .lpb h.operands := by
  rw [toList_indent, written, text, operands]
  split
  · simp [arguments, listed, Operand.chars, Mnemonic.word]
  · simp [arguments, listed, Operand.chars, Mnemonic.word]

end LoopHeader

lemma toList_closing (d : ℕ) : (indent d ++ "lpe").toList = written (2 * d) .lpe [] := by
  rw [toList_indent]
  rfl

lemma Block.isPlain_of_mem_lines {b : Block} {d : ℕ} {l : String} (hl : l ∈ b.lines d) {c : Char}
    (hc : c ∈ l.toList) : Text.isPlain c = true := by
  induction b generalizing d with
  | nil => cases hl
  | instr i line rest ih =>
    rcases List.mem_cons.1 hl with rfl | hl
    · exact Statement.isPlain_of_mem_written (i.toList_line d ▸ hc)
    · exact ih hl
  | loop h line body rest body_ih rest_ih =>
    rcases List.mem_cons.1 hl with rfl | hl
    · exact Statement.isPlain_of_mem_written (h.toList_line d ▸ hc)
    rcases List.mem_append.1 hl with hl | hl
    · exact body_ih hl
    rcases List.mem_cons.1 hl with rfl | hl
    · exact Statement.isPlain_of_mem_written (toList_closing d ▸ hc)
    · exact rest_ih hl

/-! ### What a printed line says -/

namespace Program

variable {t : Token} {o : Operand} {tokens : List Token}

lemma operandOf_chars (ho : o.Proper) (h : t.chars = o.chars) : operandOf t = .ok o := by
  unfold operandOf Token.operand?
  rw [h, Operand.read?_chars ho]

lemma targetOf_chars (word : String) (ho : o.Proper) (hr : o.isRegister = true)
    (h : t.chars = o.chars) : targetOf word t = .ok o :=
  bind_eq_ok.2 ⟨o, operandOf_chars ho h, if_pos hr⟩

lemma lengthOf_chars (ho : o.Proper) (hl : o.IsLength) (h : t.chars = o.chars) :
    lengthOf t = .ok o := by
  refine bind_eq_ok.2 ⟨o, operandOf_chars ho h, ?_⟩
  cases o with
  | const n => exact if_pos hl
  | reg i => rfl
  | ind i => rfl

lemma sourceOf_chars {code : Opcode} (ho : o.Proper) (hc : code.isCall = true → o.IsId)
    (h : t.chars = o.chars) : sourceOf code t = .ok o := by
  refine bind_eq_ok.2 ⟨o, operandOf_chars ho h, ?_⟩
  split
  · obtain ⟨id, right, rfl⟩ := (hc ‹_›).exists_const
    exact if_pos right
  · rfl

lemma stepOf_instr {i : Instruction} (hi : i.WellFormed) (line column : ℕ)
    (h : tokens.map Token.chars = i.operands.map Operand.chars) :
    stepOf line (Mnemonic.code i.opcode).word column tokens = .ok (.instr i line) := by
  obtain ⟨register, target, source, call⟩ := hi
  obtain ⟨t, _, rfl, ht, h⟩ := List.map_eq_cons_iff.1 h
  obtain ⟨s, _, rfl, hs, h⟩ := List.map_eq_cons_iff.1 h
  obtain rfl := List.map_eq_nil_iff.1 h
  unfold stepOf
  rw [Mnemonic.ofWord?_word]
  dsimp only
  rw [targetOf_chars _ target register ht, sourceOf_chars source call hs]
  rfl

lemma stepOf_loop {g : LoopHeader} (hg : g.WellFormed) (line column : ℕ)
    (h : tokens.map Token.chars = g.operands.map Operand.chars) :
    stepOf line Mnemonic.lpb.word column tokens = .ok (.opening g line) := by
  obtain ⟨target, length⟩ := g
  unfold stepOf
  rw [Mnemonic.ofWord?_word]
  unfold LoopHeader.operands at h
  split at h
  · obtain ⟨t, _, rfl, ht, h⟩ := List.map_eq_cons_iff.1 h
    obtain rfl := List.map_eq_nil_iff.1 h
    obtain rfl : length = .const 1 := ‹_›
    dsimp only
    rw [targetOf_chars _ hg.target hg.isRegister ht]
    rfl
  · obtain ⟨t, _, rfl, ht, h⟩ := List.map_eq_cons_iff.1 h
    obtain ⟨l, _, rfl, hl, h⟩ := List.map_eq_cons_iff.1 h
    obtain rfl := List.map_eq_nil_iff.1 h
    dsimp only
    rw [targetOf_chars _ hg.target hg.isRegister ht, lengthOf_chars hg.length hg.isLength hl]
    rfl

lemma stepOf_closing (line column : ℕ) (h : tokens.map Token.chars = []) :
    stepOf line Mnemonic.lpe.word column tokens = .ok .closing := by
  obtain rfl := List.map_eq_nil_iff.1 h
  unfold stepOf
  rw [Mnemonic.ofWord?_word]

namespace Reading

def after (r : Reading) (steps : List Step) : Reading :=
  { r with steps := steps.reverse ++ r.steps }

def inside (r : Reading) (g : LoopHeader) (line : ℕ) (source : List Char) : Reading :=
  { r with steps := .opening g line :: r.steps, opened := (line, source) :: r.opened }

lemma addLine_written (r : Reading) (n line : ℕ) (m : Mnemonic) (os : List Operand)
    {step : Step} (h : ∀ tokens : List Token, tokens.map Token.chars = os.map Operand.chars →
      stepOf line m.word (n + 1) tokens = .ok step)
    {r' : Reading} (hr : r.addStep line (written n m os) step = .ok r') :
    r.addLine line (written n m os) = .ok r' := by
  obtain ⟨tokens, scanned, same⟩ := Statement.scan_written n m os
  unfold addLine
  rw [scanned]
  dsimp only
  rw [h tokens same]
  dsimp only
  rw [hr]

lemma addLines_cons {r r' : Reading} {line : ℕ} {source : List Char}
    (h : r.addLine line source = .ok r') (more : List (List Char)) :
    r.addLines line (source :: more) = r'.addLines (line + 1) more := by
  rw [addLines, h]

end Reading

end Program

/-! ### Blocks -/

namespace Block

/-- The block with the line numbers that it has in its own text from a line on. -/
def numbered (line : ℕ) : Block → Block
  | nil => nil
  | instr i _ rest => instr i line (rest.numbered (line + 1))
  | loop h _ body rest =>
    loop h line (body.numbered (line + 1)) (rest.numbered (line + 1 + body.steps.length + 1))

variable {b : Block} {d : ℕ}

@[simp] lemma unnumbered_numbered (line : ℕ) : (b.numbered line).unnumbered = b.unnumbered := by
  induction b generalizing line with
  | nil => rfl
  | instr i _ rest ih => rw [numbered, unnumbered, unnumbered, ih]
  | loop h _ body rest body_ih rest_ih =>
    rw [numbered, unnumbered, unnumbered, body_ih, rest_ih]

lemma assemble_steps (b : Block) {steps : List Step} {bs : List Block}
    (h : assemble steps = nil :: bs) : assemble (b.steps ++ steps) = b :: bs := by
  induction b generalizing steps bs with
  | nil => exact h
  | instr i line rest ih =>
    change assemble (.instr i line :: (rest.steps ++ steps)) = _
    rw [assemble, ih h]
  | loop g line body rest body_ih rest_ih =>
    have inside : assemble (body.steps ++ (.closing :: (rest.steps ++ steps))) =
        body :: rest :: bs := body_ih (by rw [assemble, rest_ih h])
    have flat : (loop g line body rest).steps ++ steps =
        .opening g line :: (body.steps ++ (.closing :: (rest.steps ++ steps))) := by
      simp [Block.steps]
    rw [flat, assemble, inside]

lemma ofSteps_steps (b : Block) : ofSteps b.steps = b := by
  have whole : assemble (b.steps ++ []) = [b] := assemble_steps b rfl
  rw [List.append_nil] at whole
  rw [ofSteps, whole]
  rfl

lemma map_lines_loop (g : LoopHeader) (l : ℕ) (body rest : Block) :
    ((loop g l body rest).lines d).map String.toList = written (2 * d) .lpb g.operands ::
      ((body.lines (d + 1)).map String.toList ++
        written (2 * d) .lpe [] :: (rest.lines d).map String.toList) := by
  rw [lines, List.map_cons, List.map_append, List.map_cons, g.toList_line, toList_closing]

/-- **The lines of a block give its steps**, if not too many loops are open before it. -/
lemma addLines_lines (hb : b.WellFormed) {r : Program.Reading}
    (fits : r.opened.length + b.depth ≤ maxLoopDepth) (line : ℕ) (more : List (List Char)) :
    r.addLines line ((b.lines d).map String.toList ++ more) =
      (r.after (b.numbered line).steps).addLines (line + b.steps.length) more := by
  induction b generalizing d r line more with
  | nil => rfl
  | instr i l rest ih =>
    obtain ⟨hi, hrest⟩ := hb
    have first : r.addLine line (written (2 * d) (.code i.opcode) i.operands) =
        .ok (r.after [.instr i line]) :=
      r.addLine_written (2 * d) line _ _ (fun _ h => Program.stepOf_instr hi line _ h) rfl
    rw [lines, List.map_cons, List.cons_append, i.toList_line,
      Program.Reading.addLines_cons first, ih (r := r.after [.instr i line]) hrest fits]
    simp [numbered, Block.steps, Nat.add_assoc, Nat.add_comm 1, Program.Reading.after]
  | loop g l body rest body_ih rest_ih =>
    obtain ⟨hg, hbody, hrest⟩ := hb
    rw [Block.depth] at fits
    let inside := r.inside g line (written (2 * d) .lpb g.operands)
    let inner := (body.numbered (line + 1)).steps
    let outside := r.after (.opening g line :: (inner ++ [.closing]))
    have first : r.addLine line (written (2 * d) .lpb g.operands) = .ok inside :=
      r.addLine_written (2 * d) line _ _ (fun _ h => Program.stepOf_loop hg line _ h)
        (if_neg (by omega))
    have last : (inside.after inner).addLine (line + 1 + body.steps.length)
        (written (2 * d) .lpe []) = .ok outside := by
      refine (inside.after inner).addLine_written (2 * d) _ .lpe []
        (fun _ h => Program.stepOf_closing _ _ h) ?_
      simp [Program.Reading.addStep, inside, outside, Program.Reading.after,
        Program.Reading.inside]
    have deeper : inside.opened.length + body.depth ≤ maxLoopDepth := by
      change r.opened.length + 1 + body.depth ≤ maxLoopDepth
      omega
    have level : outside.opened.length + rest.depth ≤ maxLoopDepth := by
      change r.opened.length + rest.depth ≤ maxLoopDepth
      omega
    have steps : outside.after (rest.numbered (line + 1 + body.steps.length + 1)).steps =
        r.after ((loop g l body rest).numbered line).steps := by
      simp [numbered, Block.steps, outside, inner, Program.Reading.after]
    have count : line + 1 + body.steps.length + 1 + rest.steps.length =
        line + (loop g l body rest).steps.length := by
      rw [Block.steps, List.length_cons, List.length_append, List.length_cons]
      omega
    rw [map_lines_loop, List.cons_append, List.append_assoc, List.cons_append,
      Program.Reading.addLines_cons first, body_ih hbody deeper,
      Program.Reading.addLines_cons last, rest_ih hrest level, steps, count]

end Block

/-! ### Programs -/

namespace Program

variable {p q : Program}

def firstLine (p : Program) : ℕ := if p.offset = 0 then 1 else 2

def numbered (p : Program) : Program := { p with body := p.body.numbered p.firstLine }

lemma lines_text (p : Program) : Text.lines p.text.toList = p.lines.map String.toList := by
  refine Text.lines_join fun l hl c hc => Text.isLineEnd_of_isPlain ?_
  rcases List.mem_append.1 hl with hl | hl
  · split at hl
    · cases hl
    · obtain rfl := List.mem_singleton.1 hl
      exact Statement.isPlain_of_mem_offset hc
  · exact Block.isPlain_of_mem_lines hl hc

lemma addLine_offset (r : Reading) (fresh : r.offset = none) (empty : r.steps = []) (line : ℕ)
    (n : Int) : r.addLine line ("#offset " ++ toString n).toList =
      .ok { r with offset := some n } := by
  unfold Reading.addLine
  rw [Statement.scan_offset]
  simp [Reading.addOffset, fresh, empty]

lemma addLines_text (hp : p.WellFormed) : ∃ r : Reading,
    Reading.addLines {} 1 (p.lines.map String.toList) = .ok r ∧ r.opened = [] ∧
      r.offset.getD 0 = p.offset ∧ r.steps.reverse = p.numbered.body.steps := by
  have fits : ([] : List (ℕ × List Char)).length + p.body.depth ≤ maxLoopDepth := by
    rw [List.length_nil, Nat.zero_add]
    exact hp.depth
  have block {r : Reading} (ho : r.opened = []) (line : ℕ) :
      r.addLines line ((p.body.lines 0).map String.toList) =
        .ok (r.after (p.body.numbered line).steps) := by
    have all := Block.addLines_lines (d := 0) hp.body (r := r) (by rwa [ho]) line []
    rwa [List.append_nil] at all
  unfold numbered firstLine
  by_cases h : p.offset = 0
  · rw [lines, if_pos h, List.nil_append, if_pos h]
    exact ⟨_, block rfl 1, rfl, h.symm, by simp [Reading.after]⟩
  · rw [lines, if_neg h, List.map_append, List.map_singleton, List.singleton_append, if_neg h,
      Reading.addLines_cons (addLine_offset {} rfl rfl 1 p.offset)]
    exact ⟨_, block rfl 2, rfl, rfl, by simp [Reading.after]⟩

lemma parse_text_eq (hp : p.WellFormed) (file : String) (id : Option Int) :
    parse p.text file id = .ok (p.numbered.withId id) := by
  obtain ⟨r, hr, opened, offset, steps⟩ := addLines_text hp
  have whole : ofText p.text = .ok ⟨p.numbered.body, p.offset, none⟩ := by
    unfold ofText
    rw [lines_text]
    refine bind_eq_ok.2 ⟨r, hr, ?_⟩
    unfold Reading.finish
    rw [opened]
    dsimp only
    rw [steps, offset, Block.ofSteps_steps]
  unfold parse
  rw [whole]
  rfl

lemma same_numbered (p : Program) (id : Option Int) :
    (p.numbered.withId id).same p = true := by
  simp [same, withId, numbered]

/-- **Canonical text reads back.** The text of a well-formed program is read as the same program,
and so is the text of whatever has been read. -/
theorem parse_text :
    (∀ p : Program, p.WellFormed → ∀ (file : String) (id : Option Int),
      ∃ q, parse p.text file id = .ok q ∧ q.same p = true) ∧
    ∀ (text file : String) (id : Option Int) (p : Program), parse text file id = .ok p →
      ∃ q, parse p.text file id = .ok q ∧ q.same p = true := by
  have back (p : Program) (hp : p.WellFormed) (file : String) (id : Option Int) :
      ∃ q, parse p.text file id = .ok q ∧ q.same p = true :=
    ⟨_, parse_text_eq hp file id, same_numbered p id⟩
  exact ⟨back, fun _ file id p h => back p (wellFormed_of_parse h) file id⟩

/-- A program with a loop inside a loop, a length that goes without saying and one that does not,
a call, and negative numbers. -/
def sample : Program where
  body :=
    .loop ⟨.reg 0, .ind 4⟩ 7
      (.instr ⟨.op .sub, [.reg 0, .const (-12)]⟩ 7
        (.loop ⟨.ind 3, .const 1⟩ 7 (.instr ⟨.seq, [.ind 3, .const 45]⟩ 7 .nil) .nil))
      (.loop ⟨.reg 1, .const 255⟩ 7 .nil .nil)
  offset := -3

theorem parse_text_sample :
    sample.text = "#offset -3\nlpb $0,$$4\n  sub $0,-12\n  lpb $$3\n    seq $$3,45\n  lpe\nlpe\n" ++
      "lpb $1,255\nlpe\n" ∧
    ∃ q, parse sample.text "sample" none = .ok q ∧ q.same sample = true ∧
      ∃ q', parse q.text "sample" none = .ok q' ∧ q'.same q = true := by
  obtain ⟨q, read, same⟩ := parse_text.1 sample (by decide) "sample" none
  exact ⟨by decide, q, read, same, parse_text.2 sample.text "sample" none q read⟩

end Program

end SeqAsm
