import SeqAsm.Proofs.Program.Walk

/-!
The nodes of a program, its canonical text and the text that it was read from.

Each node is a line of the canonical text, and each loop has a line more, which closes it. When a
program has been read, the lines that hold an instruction gave its steps one by one, so the lines of
its nodes are those that hold an instruction and do not close a loop.
-/

namespace SeqAsm

/-! ### Canonical text -/

open Statement (written arguments)

namespace Node

def mnemonic : Node → Mnemonic
  | instr i _ => .code i.opcode
  | loop _ _ => .lpb

def operands : Node → List Operand
  | instr i _ => i.operands
  | loop h _ => h.operands

variable (n : Node)

lemma toList_line (d : ℕ) :
    (indent d ++ n.text).toList = written (2 * d) n.mnemonic n.operands := by
  cases n with
  | instr i line => exact i.toList_line d
  | loop h line => exact h.toList_line d

lemma toList_text : n.text.toList = n.mnemonic.word.toList ++ arguments n.operands := by
  have line := n.toList_line 0
  rw [toList_indent] at line
  exact line

lemma text_ne_closing : n.text.toList ≠ "lpe".toList := by
  rw [toList_text]
  rcases n.operands with _ | ⟨o, os⟩
  · rw [arguments, List.append_nil]
    intro he
    have word : n.mnemonic.word = Mnemonic.lpe.word := String.toList_inj.1 he
    have same := Mnemonic.word_injective word
    cases n <;> cases same
  · intro he
    have blank : ' ' ∈ "lpe".toList := by
      rw [← he, List.mem_append]
      exact .inr List.mem_cons_self
    exact absurd blank (by decide)

end Node

/-- A line without its indentation. -/
def unindent (line : List Char) : List Char := line.dropWhile (· == ' ')

/-- Whether a line gives the index of the first term. -/
def isDirective (line : List Char) : Bool := "#offset".toList.isPrefixOf line

section

variable (n : ℕ) (m : Mnemonic) (os : List Operand)

lemma unindent_written : unindent (written n m os) = m.word.toList ++ arguments os := by
  obtain ⟨c, cs, word, letter, -⟩ := m.word_eq
  have stop : (c == ' ') = false := by
    rw [beq_eq_false_iff_ne]
    rintro rfl
    exact absurd letter (by decide)
  unfold unindent written
  rw [word, List.dropWhile_append_of_pos fun d hd => by simp [List.eq_of_mem_replicate hd]]
  simp [stop]

lemma isDirective_written : isDirective (written n m os) = false := by
  obtain ⟨c, cs, word, letter, -⟩ := m.word_eq
  have other : c ≠ '#' := by
    rintro rfl
    exact absurd letter (by decide)
  unfold isDirective written
  rw [word]
  cases n with
  | zero => simp [List.isPrefixOf, other.symm]
  | succ n => rfl

end

lemma unindent_closing (d : ℕ) : unindent (indent d ++ "lpe").toList = "lpe".toList := by
  rw [toList_closing, unindent_written]
  rfl

lemma Node.unindent_line (n : Node) (d : ℕ) :
    unindent (indent d ++ n.text).toList = n.text.toList := by
  rw [toList_line, unindent_written, toList_text]

/-- The texts that lines show, but for those that close a loop. -/
def shown (lines : List (List Char)) : List (List Char) :=
  (lines.map unindent).filter (· ≠ "lpe".toList)

lemma shown_append (ls ms : List (List Char)) : shown (ls ++ ms) = shown ls ++ shown ms := by
  rw [shown, List.map_append, List.filter_append]
  rfl

lemma shown_node (n : Node) (d : ℕ) (ls : List (List Char)) :
    shown ((indent d ++ n.text).toList :: ls) = n.text.toList :: shown ls := by
  rw [shown, List.map_cons, n.unindent_line, List.filter_cons_of_pos]
  · rfl
  · simpa using n.text_ne_closing

lemma shown_closing (d : ℕ) (ls : List (List Char)) :
    shown ((indent d ++ "lpe").toList :: ls) = shown ls := by
  rw [shown, List.map_cons, unindent_closing, List.filter_cons_of_neg]
  · rfl
  · simp

namespace Block

/-- Every line of a block is a word and operands behind an indentation. -/
lemma exists_written_of_mem_lines {b : Block} {d : ℕ} {l : String} (hl : l ∈ b.lines d) :
    ∃ n m os, l.toList = written n m os := by
  induction b generalizing d with
  | nil => cases hl
  | instr i line rest ih =>
    rcases List.mem_cons.1 hl with rfl | hl
    · exact ⟨_, _, _, i.toList_line d⟩
    · exact ih hl
  | loop h line body rest body_ih rest_ih =>
    rcases List.mem_cons.1 hl with rfl | hl
    · exact ⟨_, _, _, h.toList_line d⟩
    rcases List.mem_append.1 hl with hl | hl
    · exact body_ih hl
    rcases List.mem_cons.1 hl with rfl | hl
    · exact ⟨_, _, _, toList_closing d⟩
    · exact rest_ih hl

lemma shown_lines (b : Block) (d : ℕ) :
    shown ((b.lines d).map String.toList) = b.nodes.map fun n => n.text.toList := by
  induction b generalizing d with
  | nil => rfl
  | instr i line rest ih =>
    calc shown (((instr i line rest).lines d).map String.toList)
        = i.text.toList :: shown ((rest.lines d).map String.toList) :=
          shown_node (.instr i line) d _
      _ = i.text.toList :: rest.nodes.map fun n => n.text.toList := by rw [ih]
  | loop h line body rest body_ih rest_ih =>
    calc shown (((loop h line body rest).lines d).map String.toList)
        = h.text.toList :: shown ((body.lines (d + 1) ++ (indent d ++ "lpe") :: rest.lines d).map
            String.toList) := shown_node (.loop h line) d _
      _ = h.text.toList :: (body.nodes.map (fun n => n.text.toList) ++
            rest.nodes.map fun n => n.text.toList) := by
          rw [List.map_append, List.map_cons, shown_append, shown_closing, body_ih, rest_ih]
      _ = (loop h line body rest).nodes.map fun n => n.text.toList := by
          rw [nodes, List.map_cons, List.map_append]
          rfl

end Block

namespace Program

def statements (p : Program) : List (List Char) :=
  (Text.lines p.text.toList).filter fun l => !isDirective l

lemma isDirective_offset (n : Int) : isDirective ("#offset " ++ toString n).toList = true := by
  rw [isDirective, List.isPrefixOf_iff_prefix, String.toList_append]
  exact ⟨' ' :: (toString n).toList, rfl⟩

lemma statements_eq (p : Program) : p.statements = (p.body.lines 0).map String.toList := by
  have directive : ((if p.offset = 0 then [] else ["#offset " ++ toString p.offset]).map
      String.toList).filter (fun l => !isDirective l) = [] := by
    split
    · rfl
    · exact List.filter_cons_of_neg (by rw [isDirective_offset]; decide)
  have body : ((p.body.lines 0).map String.toList).filter (fun l => !isDirective l) =
      (p.body.lines 0).map String.toList := by
    rw [List.filter_eq_self]
    intro l hl
    obtain ⟨l, hl', rfl⟩ := List.mem_map.1 hl
    obtain ⟨n, m, os, line⟩ := Block.exists_written_of_mem_lines hl'
    rw [line, isDirective_written]
    rfl
  rw [statements, lines_text, lines, List.map_append, List.filter_append, directive, body,
    List.nil_append]

/-! ### Texts that are read -/

/-- The word of the instruction that a line holds, if any. -/
def wordOf? (source : List Char) : Option String :=
  match Statement.scan source with
  | .ok (some (.instruction word _ _)) => some word
  | _ => none

/-- The instructions that lines hold which are numbered from some number on: the number of each and
its word. -/
def heldFrom (line : ℕ) : List (List Char) → List (ℕ × String)
  | [] => []
  | source :: rest =>
    match wordOf? source with
    | some word => (line, word) :: heldFrom (line + 1) rest
    | none => heldFrom (line + 1) rest

def held (text : String) : List (ℕ × String) := heldFrom 1 (Text.lines text.toList)

/-- What the step of a line is: the end of a loop if the line says so, else one with the number of
the line. -/
inductive Yields : ℕ × String → Step → Prop
  | closing (line : ℕ) : Yields (line, "lpe") .closing
  | node {line : ℕ} {word : String} {step : Step} : word ≠ "lpe" → step.line? = some line →
      Yields (line, word) step

variable {line column : ℕ} {word : String} {tokens : List Token} {step : Step} {r r' : Reading}
  {source : List Char}

lemma word_of_ofWord? {m : Mnemonic} (h : Mnemonic.ofWord? word = some m) : word = m.word := by
  unfold Mnemonic.ofWord? at h
  have found := List.find?_some h
  exact (beq_iff_eq.1 found).symm

/-- The step of a line is of the kind that its word says. -/
lemma yields_of_stepOf (h : stepOf line word column tokens = .ok step) :
    Yields (line, word) step := by
  rcases hw : Mnemonic.ofWord? word with _ | m
  · unfold stepOf at h
    rw [hw] at h
    cases h
  obtain rfl := word_of_ofWord? hw
  have other (hm : m ≠ .lpe) : m.word ≠ "lpe" := fun he => hm (Mnemonic.word_injective he)
  unfold stepOf at h
  rw [hw] at h
  cases m with
  | lpe =>
    rcases tokens with _ | ⟨t, ts⟩
    · obtain rfl := Except.ok.inj h
      exact .closing line
    · cases h
  | lpb =>
    refine .node (other nofun) ?_
    dsimp only at h
    split at h
    · obtain ⟨target, -, h⟩ := bind_eq_ok.1 h
      obtain rfl := Except.ok.inj h
      rfl
    · obtain ⟨target, -, h⟩ := bind_eq_ok.1 h
      obtain ⟨length, -, h⟩ := bind_eq_ok.1 h
      obtain rfl := Except.ok.inj h
      rfl
    · cases h
  | code c =>
    refine .node (other nofun) ?_
    dsimp only at h
    split at h
    · obtain ⟨target, -, h⟩ := bind_eq_ok.1 h
      obtain ⟨operand, -, h⟩ := bind_eq_ok.1 h
      obtain rfl := Except.ok.inj h
      rfl
    · cases h

namespace Reading

lemma steps_of_addOffset {value : Int} (h : r.addOffset value = .ok r') :
    r'.steps = r.steps := by
  unfold addOffset at h
  split at h
  · cases h
  · split at h
    · cases h
    · obtain rfl := Except.ok.inj h
      rfl

lemma yields_addLine (h : r.addLine line source = .ok r') :
    (wordOf? source = none ∧ r'.steps = r.steps) ∨
      ∃ word step, wordOf? source = some word ∧ Yields (line, word) step ∧
        r'.steps = step :: r.steps := by
  unfold addLine at h
  unfold wordOf?
  rcases hs : Statement.scan source with u | _ | ⟨value, column⟩ | ⟨word, column, tokens⟩ <;>
    rw [hs] at h
  · cases h
  · obtain rfl := Except.ok.inj h
    exact .inl ⟨rfl, rfl⟩
  · dsimp only at h
    rcases ho : r.addOffset value with d | r₁ <;> rw [ho] at h
    · cases h
    · obtain rfl := Except.ok.inj h
      exact .inl ⟨rfl, steps_of_addOffset ho⟩
  · dsimp only at h
    rcases hstep : stepOf line word column tokens with ⟨d, c⟩ | step <;> rw [hstep] at h
    · cases h
    · dsimp only at h
      rcases ha : r.addStep line source step with d | r₁ <;> rw [ha] at h
      · cases h
      · obtain rfl := Except.ok.inj h
        exact .inr ⟨word, step, rfl, yields_of_stepOf hstep, steps_of_addStep ha⟩

lemma yields_addLines {ls : List (List Char)} (h : r.addLines line ls = .ok r') :
    ∃ steps, r'.steps.reverse = r.steps.reverse ++ steps ∧
      List.Forall₂ Yields (heldFrom line ls) steps := by
  induction ls generalizing r line with
  | nil =>
    obtain rfl := Except.ok.inj h
    exact ⟨[], (List.append_nil _).symm, .nil⟩
  | cons source rest ih =>
    unfold addLines at h
    split at h
    · rename_i r₁ hr
      obtain ⟨steps, more, all⟩ := ih h
      rw [heldFrom]
      rcases yields_addLine hr with ⟨none, same⟩ | ⟨word, step, found, yields, added⟩
      · rw [none]
        exact ⟨steps, same ▸ more, all⟩
      · rw [found]
        refine ⟨step :: steps, ?_, .cons yields all⟩
        rw [more, added, List.reverse_cons, List.append_assoc, List.singleton_append]
    · cases h

/-- All loops are closed in the end. -/
lemma Orderly.nests_of_finish {p : Program} (h : r.Orderly) (hr : r.finish = .ok p) :
    Nests 0 r.steps.reverse := by
  unfold Reading.finish at hr
  split at hr
  · cases hr
  · rename_i ho
    have closed : Nests 0 (r.steps.reverse ++ []) := h.nests (by rw [ho]; rfl)
    rwa [List.append_nil] at closed

end Reading

/-- The steps of a program that has been read are those of the lines that hold an instruction. -/
lemma yields_of_parse {text file : String} {id : Option Int} {p : Program}
    (h : parse text file id = .ok p) : List.Forall₂ Yields (held text) p.body.steps := by
  unfold parse at h
  split at h
  · rename_i q hq
    obtain rfl := Except.ok.inj h
    obtain ⟨r, hr, hq⟩ := bind_eq_ok.1 hq
    obtain ⟨steps, read, yields⟩ := Reading.yields_addLines hr
    have body : q.body.steps = r.steps.reverse := by
      rw [Reading.steps_of_finish hq]
      exact steps_ofSteps ((Reading.Orderly.empty.addLines hr).nests_of_finish hq)
    change List.Forall₂ Yields (held text) q.body.steps
    rw [body, read]
    exact yields
  · cases h

section

variable {lines : List (ℕ × String)} {steps : List Step}

/-- The steps with a number are those of the lines that do not close a loop. -/
lemma filterMap_line?_of_yields (h : List.Forall₂ Yields lines steps) :
    steps.filterMap Step.line? = (lines.filter fun l => l.2 ≠ "lpe").map Prod.fst := by
  induction h with
  | nil => rfl
  | @cons l step lines steps yields _ ih =>
    cases yields with
    | closing line =>
      rw [List.filter_cons_of_neg (by simp)]
      exact ih
    | node other numbered =>
      rw [List.filter_cons_of_pos (by simpa using other), List.map_cons, ← ih,
        List.filterMap_cons_some numbered]

lemma pairwise_heldFrom (line : ℕ) (ls : List (List Char)) :
    (∀ l ∈ heldFrom line ls, line ≤ l.1) ∧ (heldFrom line ls).Pairwise fun l m => l.1 < m.1 := by
  induction ls generalizing line with
  | nil => exact ⟨nofun, .nil⟩
  | cons source rest ih =>
    obtain ⟨above, ascending⟩ := ih (line + 1)
    have later : ∀ l ∈ heldFrom (line + 1) rest, line < l.1 := above
    rw [heldFrom]
    split
    · refine ⟨List.forall_mem_cons.2 ⟨le_rfl, fun l hl => (later l hl).le⟩, ?_⟩
      exact List.pairwise_cons.2 ⟨later, ascending⟩
    · exact ⟨fun l hl => (later l hl).le, ascending⟩

end

section

variable {text file : String} {id : Option Int} {p : Program}

/-- The lines of the nodes are the lines that hold an instruction and do not close a loop. -/
lemma map_line_of_parse (h : parse text file id = .ok p) :
    p.nodes.map Node.line = ((held text).filter fun l => l.2 ≠ "lpe").map Prod.fst := by
  rw [← filterMap_line?_of_yields (yields_of_parse h), Block.filterMap_line?_steps]
  rfl

lemma pairwise_line_of_parse (h : parse text file id = .ok p) :
    (p.nodes.map Node.line).Pairwise (· < ·) := by
  rw [map_line_of_parse h]
  have ascending := (pairwise_heldFrom 1 (Text.lines text.toList)).2
  exact (ascending.filter _).map Prod.fst fun _ _ h => h

lemma mem_line_of_parse (h : parse text file id = .ok p) (k : ℕ) :
    k ∈ p.nodes.map Node.line ↔ ∃ word, word ≠ "lpe" ∧ (k, word) ∈ held text := by
  rw [map_line_of_parse h, List.mem_map]
  constructor
  · rintro ⟨⟨k, word⟩, hl, rfl⟩
    obtain ⟨hl, other⟩ := List.mem_filter.1 hl
    exact ⟨word, by simpa using other, hl⟩
  · rintro ⟨word, other, hl⟩
    exact ⟨(k, word), List.mem_filter.2 ⟨hl, by simpa using other⟩, rfl⟩

lemma size_of_parse (h : parse text file id = .ok p) : p.size = (held text).length := by
  rw [size_eq, (yields_of_parse h).length_eq]

/-- A line holds one instruction at most. -/
lemma word_unique {k : ℕ} {v w : String} (hv : (k, v) ∈ held text) (hw : (k, w) ∈ held text) :
    v = w := by
  have ascending := (pairwise_heldFrom 1 (Text.lines text.toList)).2
  have nodup : ((held text).map Prod.fst).Nodup :=
    (ascending.map Prod.fst fun _ _ h => h).imp fun h => ne_of_lt h
  exact congrArg Prod.snd (List.inj_on_of_nodup_map nodup hv hw rfl)

end

/-- **Iterating, counting and printing describe the same program.** An iteration meets every node
once, each loop before its body. The nodes that it meets are shown by the lines of the canonical
text but for the first index and the ends of loops, and the size of the program is the number of
those lines and of the ends of loops. When a program has been read from a text, the lines of its
nodes ascend; with the ends of loops they are the lines that hold an instruction, and the size is
the number of these. -/
theorem walk_agrees :
    (∀ p : Program,
      (p.walk = p.nodes ∧ p.body.addresses.Pairwise (· < ·) ∧
        (∀ a, a ∈ p.body.addresses ↔ (p.body.node? a).isSome) ∧
        p.body.addresses.map p.body.node? = p.walk.map some) ∧
      shown p.statements = (p.walk.map fun n => n.text.toList) ∧
      p.size = p.statements.length) ∧
    ∀ (text file : String) (id : Option Int) (p : Program), parse text file id = .ok p →
      (p.walk.map Node.line).Pairwise (· < ·) ∧
      (∀ k, (∃ word, (k, word) ∈ held text) ↔
        k ∈ p.walk.map Node.line ∨ (k, "lpe") ∈ held text) ∧
      (∀ k ∈ p.walk.map Node.line, (k, "lpe") ∉ held text) ∧
      p.size = (held text).length := by
  constructor
  · intro p
    refine ⟨⟨p.walk_eq_nodes, p.walk_spec⟩, ?_, ?_⟩
    · rw [statements_eq, Block.shown_lines, walk_eq_nodes]
      rfl
    · rw [statements_eq, List.length_map, Block.length_lines, size_eq]
  · intro text file id p h
    rw [walk_eq_nodes]
    refine ⟨pairwise_line_of_parse h, fun k => ?_, fun k hk closing => ?_, size_of_parse h⟩
    · rw [mem_line_of_parse h]
      constructor
      · rintro ⟨word, hl⟩
        by_cases closing : word = "lpe"
        · exact .inr (closing ▸ hl)
        · exact .inl ⟨word, closing, hl⟩
      · rintro (⟨word, -, hl⟩ | hl)
        · exact ⟨word, hl⟩
        · exact ⟨"lpe", hl⟩
    · obtain ⟨word, other, hl⟩ := (mem_line_of_parse h k).1 hk
      exact other (word_unique hl closing)

/-- Five nodes, three of which are loops. -/
theorem walk_agrees_sample : ∃ p, parse sample.text "sample" none = .ok p ∧
    p.walk.map Node.line = [2, 3, 4, 5, 8] ∧ (p.walk.map Node.line).Pairwise (· < ·) ∧
      (held sample.text).length = 8 := by
  have read := parse_text_eq (p := sample) (by decide) "sample" none
  obtain ⟨⟨nodes, -⟩, -⟩ := walk_agrees.1 (sample.numbered.withId none)
  obtain ⟨ascending, -, -, size⟩ := walk_agrees.2 _ _ _ _ read
  exact ⟨_, read, by rw [nodes]; rfl, ascending, size.symm.trans rfl⟩

end Program

end SeqAsm
