import SeqAsm.Program.Form
import SeqAsm.Proofs.Running
import SeqAsm.Proofs.Sexp.Written

/-!
Programs as forms.

The form of a program is plain: its words are those of the instruction set and of the headers, and
all else is integers. So its text is read as the form again. Reading a form follows the way it was
made, node by node; no node begins with the word of a header, so headers and nodes stay apart. Line
numbers are not part of a form.
-/

namespace SeqAsm

open Sexp (IsWord IsPlain)

lemma Opcode.isWord (code : Opcode) : IsWord code.word := by
  have all : ∀ m ∈ Mnemonic.all, IsWord m.word := by decide
  exact all (.code code) (Mnemonic.mem_all _)

/-- An opcode is none of the words that a form has besides. -/
lemma Opcode.word_ne (code : Opcode) :
    code.word ≠ "lpb" ∧ code.word ≠ "offset" ∧ code.word ≠ "id" := by
  have all : ∀ c ∈ Mnemonic.all, c = .lpb ∨ c.word ≠ "lpb" ∧ c.word ≠ "offset" ∧ c.word ≠ "id" := by
    decide
  exact (all (.code code) (Mnemonic.mem_all _)).resolve_left nofun

/-! ### Operands -/

namespace Operand

lemma toOperand_toSexp (o : Operand) : o.toSexp.toOperand = .ok o := by
  cases o <;> rfl

lemma mapM_toOperand (os : List Operand) :
    (os.map toSexp).mapM Sexp.toOperand = .ok os := by
  induction os with
  | nil => rfl
  | cons o os ih =>
    rw [List.map_cons, List.mapM_cons, toOperand_toSexp, ih]
    rfl

lemma isPlain_toSexp (o : Operand) : o.toSexp.IsPlain := by
  have pair {tag : String} (h : IsWord tag) (n : Int) :
      IsPlain (.list [.symbol tag, .int n]) := by
    refine .list fun x hx => ?_
    rcases List.mem_cons.1 hx with rfl | hx
    · exact .symbol h
    · obtain rfl := List.mem_singleton.1 hx
      exact .int n
  cases o with
  | const v => exact pair (by decide) v
  | reg i => exact pair (by decide) i
  | ind i => exact pair (by decide) i

end Operand

/-! ### Nodes -/

namespace Block

lemma isPlain_of_mem_toForms {b : Block} {x : Sexp} (h : x ∈ b.toForms) : x.IsPlain := by
  induction b generalizing x with
  | nil => cases h
  | instr i line rest ih =>
    rcases List.mem_cons.1 h with rfl | h
    · refine .list fun y hy => ?_
      rcases List.mem_cons.1 hy with rfl | hy
      · exact .symbol i.opcode.isWord
      · obtain ⟨o, -, rfl⟩ := List.mem_map.1 hy
        exact o.isPlain_toSexp
    · exact ih h
  | loop header line body rest ihb ihr =>
    rcases List.mem_cons.1 h with rfl | h
    · refine .list fun y hy => ?_
      simp only [List.mem_cons] at hy
      rcases hy with rfl | rfl | rfl | hy
      · exact .symbol (by decide)
      · exact header.target.isPlain_toSexp
      · exact header.length.isPlain_toSexp
      · exact ihb hy
    · exact ihr h

lemma ofForm_instr (i : Instruction) :
    ofForm (.list (.symbol i.opcode.word :: i.operands.map Operand.toSexp)) = .ok (instr i 0) := by
  have known : Mnemonic.ofWord? i.opcode.word = some (.code i.opcode) :=
    Mnemonic.ofWord?_word (.code i.opcode)
  unfold ofForm
  refine bind_eq_ok.2 ⟨i.opcode.word, rfl, ?_⟩
  rw [if_neg i.opcode.word_ne.1, known]
  dsimp only
  rw [Operand.mapM_toOperand]
  rfl

lemma ofForm_loop (h : LoopHeader) {body : Block} {forms : List Sexp}
    (hb : ofForms forms = .ok body) :
    ofForm (.list (.symbol "lpb" :: h.target.toSexp :: h.length.toSexp :: forms)) =
      .ok (loop h 0 body) := by
  unfold ofForm
  refine bind_eq_ok.2 ⟨"lpb", rfl, ?_⟩
  rw [if_pos rfl]
  refine bind_eq_ok.2 ⟨h.target, h.target.toOperand_toSexp, ?_⟩
  refine bind_eq_ok.2 ⟨h.length, h.length.toOperand_toSexp, ?_⟩
  exact bind_eq_ok.2 ⟨body, hb, rfl⟩

lemma ofForms_cons {x : Sexp} {xs : List Sexp} {put : Block → Block} {rest : Block}
    (hx : ofForm x = .ok put) (hxs : ofForms xs = .ok rest) :
    ofForms (x :: xs) = .ok (put rest) := by
  rw [ofForms]
  exact bind_eq_ok.2 ⟨put, hx, bind_eq_ok.2 ⟨rest, hxs, rfl⟩⟩

lemma ofForms_toForms (b : Block) : ofForms b.toForms = .ok b.unnumbered := by
  induction b with
  | nil => rfl
  | instr i line rest ih =>
    rw [unnumbered]
    exact ofForms_cons (ofForm_instr i) ih
  | loop h line body rest ihb ihr =>
    rw [unnumbered]
    exact ofForms_cons (ofForm_loop h ihb) ihr

lemma unnumbered_unnumbered (b : Block) : b.unnumbered.unnumbered = b.unnumbered := by
  induction b with
  | nil => rfl
  | instr i line rest ih => rw [unnumbered, unnumbered, ih]
  | loop h line body rest ihb ihr => rw [unnumbered, unnumbered, ihb, ihr]

end Block

/-! ### Programs -/

namespace Program

lemma isPlain_toSexp (p : Program) : p.toSexp.IsPlain := by
  have header {word : String} (h : IsWord word) (n : Int) :
      IsPlain (.list [.symbol word, .int n]) := by
    refine .list fun x hx => ?_
    rcases List.mem_cons.1 hx with rfl | hx
    · exact .symbol h
    · obtain rfl := List.mem_singleton.1 hx
      exact .int n
  refine .list fun x hx => ?_
  rw [List.cons_append, List.cons_append] at hx
  rcases List.mem_cons.1 hx with rfl | hx
  · exact .symbol (by decide)
  rcases List.mem_cons.1 hx with rfl | hx
  · exact header (by decide) p.offset
  rcases List.mem_append.1 hx with hx | hx
  · rcases hid : p.id with _ | id <;> rw [hid] at hx
    · cases hx
    · obtain rfl := List.mem_singleton.1 hx
      exact header (by decide) id
  · exact Block.isPlain_of_mem_toForms hx

/-- What is read as a node is an item of the body. -/
lemma readItems_node {word : String} {args xs : List Sexp} {put : Block → Block} {items : Items}
    (offset : word ≠ "offset") (id : word ≠ "id")
    (hx : Block.ofForm (.list (.symbol word :: args)) = .ok put) (hxs : readItems xs = .ok items) :
    readItems (.list (.symbol word :: args) :: xs) =
      .ok { items with body := put items.body } := by
  rw [readItems]
  refine bind_eq_ok.2 ⟨word, rfl, ?_⟩
  dsimp only
  rw [if_neg offset, if_neg id, hx, hxs]
  rfl

lemma readItems_toForms (b : Block) : readItems b.toForms = .ok { body := b.unnumbered } := by
  induction b with
  | nil => rfl
  | instr i line rest ih =>
    have words := i.opcode.word_ne.2
    exact readItems_node words.1 words.2 (Block.ofForm_instr i) ih
  | loop h line body rest ihb ihr =>
    have node := Block.ofForm_loop h body.ofForms_toForms
    exact readItems_node (by decide) (by decide) node ihr

lemma ofSexp_toSexp (p : Program) : ofSexp p.toSexp = .ok { p with body := p.body.unnumbered } := by
  obtain ⟨body, offset, id⟩ := p
  have nodes := readItems_toForms body
  unfold toSexp ofSexp
  rcases id with _ | id
  · simp only [Option.elim_none, List.cons_append, List.nil_append]
    refine bind_eq_ok.2 ⟨"program", rfl, ?_⟩
    rw [if_pos rfl, readItems, nodes]
    rfl
  · simp only [Option.elim_some, List.cons_append, List.nil_append]
    refine bind_eq_ok.2 ⟨"program", rfl, ?_⟩
    rw [if_pos rfl, readItems, readItems, nodes]
    rfl

/-- **A form loses nothing.** The text of the form of any program, whether or not the program could
be written in assembly, is read as the same program with the same id. -/
theorem ofFormText_formText (p : Program) :
    ∃ q, ofFormText p.formText = .ok q ∧ q.same p = true ∧ q.id = p.id := by
  refine ⟨{ p with body := p.body.unnumbered }, ?_, ?_, rfl⟩
  · unfold ofFormText formText
    rw [Sexp.read_text p.isPlain_toSexp]
    exact p.ofSexp_toSexp
  · simp [same, Block.unnumbered_unnumbered]

/-- A program that no assembly text has: an instruction without operands and one with three, a call
of what a register holds, a loop over a constant, and negative registers. -/
example : let p : Program := ⟨.loop ⟨.const (-1), .ind (-2)⟩ 3 (.instr ⟨.clr, []⟩ 4 .nil)
      (.instr ⟨.seq, [.reg 0, .ind 1, .const 7]⟩ 5 .nil), -4, some (-5)⟩
    p.formText = "(program (offset -4) (id -5) (lpb (const -1) (ind -2) (clr)) " ++
      "(seq (reg 0) (ind 1) (const 7)))" := by
  decide

end Program

end SeqAsm
