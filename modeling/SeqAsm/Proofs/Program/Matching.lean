import Mathlib
import SeqAsm.Proofs.Program.Lines
import SeqAsm.Proofs.Program.RoundTrip

/-!
Loop markers that pair up.

In a text every line of which says nothing, or gives the first index before all statements, or
spells a statement that is right by itself, only the loop markers can still be wrong. They are right
exactly when their counts are: no prefix closes more loops than it opens or leaves too many open,
and all loops are closed in the end. Then the program is the sequence of statements, as a tree.
Otherwise the flaw is where the first prefix is wrong, or, if only the end is, where the last loop
is opened that is never closed.
-/

namespace SeqAsm

/-! ### Counting markers -/

namespace Step

def isOpening : Step → Bool
  | .opening .. => true
  | _ => false

def isClosing : Step → Bool
  | .closing => true
  | _ => false

end Step

def openings (steps : List Step) : ℕ := steps.countP Step.isOpening

def closings (steps : List Step) : ℕ := steps.countP Step.isClosing

/-- Steps close no more loops than they open, and do not leave too many open. -/
def Admissible (steps : List Step) : Prop :=
  closings steps ≤ openings steps ∧ openings steps ≤ closings steps + maxLoopDepth

/-- The loop that a step opens is never closed: what follows it never closes more loops than it
opens. -/
def Unclosed (steps : List Step) (k : ℕ) : Prop :=
  (∃ h line, steps[k]? = some (.opening h line)) ∧
    ∀ n, closings ((steps.drop (k + 1)).take n) ≤ openings ((steps.drop (k + 1)).take n)

section

variable {i : Instruction} {g : LoopHeader} {line k d : ℕ} {s : Step} {steps more : List Step}

@[simp] lemma openings_nil : openings [] = 0 := rfl

@[simp] lemma closings_nil : closings [] = 0 := rfl

@[simp] lemma openings_instr : openings (.instr i line :: steps) = openings steps :=
  List.countP_cons_of_neg Bool.false_ne_true

@[simp] lemma closings_instr : closings (.instr i line :: steps) = closings steps :=
  List.countP_cons_of_neg Bool.false_ne_true

@[simp] lemma openings_opening : openings (.opening g line :: steps) = openings steps + 1 :=
  List.countP_cons_of_pos rfl

@[simp] lemma closings_opening : closings (.opening g line :: steps) = closings steps :=
  List.countP_cons_of_neg Bool.false_ne_true

@[simp] lemma openings_closing : openings (.closing :: steps) = openings steps :=
  List.countP_cons_of_neg Bool.false_ne_true

@[simp] lemma closings_closing : closings (.closing :: steps) = closings steps + 1 :=
  List.countP_cons_of_pos rfl

@[simp] lemma openings_append : openings (steps ++ more) = openings steps + openings more :=
  List.countP_append

@[simp] lemma closings_append : closings (steps ++ more) = closings steps + closings more :=
  List.countP_append

/-- Inside `d` loops, no prefix of steps closes more loops than there are, and none leaves too many
open. -/
def Inside (d : ℕ) (steps : List Step) : Prop :=
  ∀ k, closings (steps.take k) ≤ d + openings (steps.take k) ∧
    d + openings (steps.take k) ≤ closings (steps.take k) + maxLoopDepth

lemma inside_zero_iff : Inside 0 steps ↔ ∀ k, Admissible (steps.take k) := by
  simp [Inside, Admissible]

lemma Inside.le (h : Inside d steps) : d ≤ maxLoopDepth := by
  have start := (h 0).2
  rwa [List.take_zero, openings_nil, closings_nil, Nat.add_zero, Nat.zero_add] at start

/-- Prefixes of a longer sequence. -/
lemma inside_cons : Inside d (s :: steps) ↔ d ≤ maxLoopDepth ∧
    ∀ k, closings (s :: steps.take k) ≤ d + openings (s :: steps.take k) ∧
      d + openings (s :: steps.take k) ≤ closings (s :: steps.take k) + maxLoopDepth := by
  refine ⟨fun h => ⟨h.le, fun k => h (k + 1)⟩, fun ⟨hd, h⟩ k => ?_⟩
  cases k with
  | zero => simpa using hd
  | succ k => exact h k

lemma inside_instr : Inside d (.instr i line :: steps) ↔ Inside d steps := by
  simp only [inside_cons, openings_instr, closings_instr]
  exact ⟨And.right, fun h => ⟨h.le, h⟩⟩

lemma inside_opening : Inside d (.opening g line :: steps) ↔ Inside (d + 1) steps := by
  simp only [inside_cons, openings_opening, closings_opening]
  constructor
  · rintro ⟨-, h⟩ k
    have := h k
    omega
  · intro h
    have start := h.le
    refine ⟨by omega, fun k => ?_⟩
    have := h k
    omega

lemma inside_closing : Inside d (.closing :: steps) ↔
    d ≤ maxLoopDepth ∧ ∃ e, d = e + 1 ∧ Inside e steps := by
  simp only [inside_cons, openings_closing, closings_closing]
  refine and_congr_right fun hd => ⟨fun h => ?_, ?_⟩
  · have start := h 0
    rw [List.take_zero, openings_nil, closings_nil] at start
    refine ⟨d - 1, by omega, fun k => ?_⟩
    have := h k
    omega
  · rintro ⟨e, rfl, h⟩ k
    have := h k
    omega

/-- Steps pair up when their prefixes are right and all loops are closed in the end. -/
lemma Inside.nests (h : Inside d steps) (total : d + openings steps = closings steps) :
    Nests d steps := by
  induction steps generalizing d with
  | nil => exact total
  | cons s steps ih =>
    cases s with
    | instr i line =>
      rw [openings_instr, closings_instr] at total
      exact ih (inside_instr.1 h) total
    | opening g line =>
      rw [openings_opening, closings_opening] at total
      have deeper := inside_opening.1 h
      exact ⟨deeper.le, ih deeper (by omega)⟩
    | closing =>
      rw [openings_closing, closings_closing] at total
      obtain ⟨-, d, rfl, outside⟩ := inside_closing.1 h
      exact ih outside (by omega)

end

/-- There is a first prefix that is wrong, and it is not the empty one. -/
lemma exists_first_wrong {steps : List Step} (wrong : ¬ ∀ k, Admissible (steps.take k)) :
    ∃ k < steps.length, (∀ j ≤ k, Admissible (steps.take j)) ∧
      ¬ Admissible (steps.take (k + 1)) := by
  classical
  have some : ∃ k, ¬ Admissible (steps.take k) := not_forall.1 wrong
  obtain ⟨n, hn, before⟩ : ∃ n, ¬ Admissible (steps.take n) ∧
      ∀ j < n, Admissible (steps.take j) :=
    ⟨Nat.find some, Nat.find_spec some, fun j hj => not_not.1 (Nat.find_min some hj)⟩
  cases n with
  | zero => exact absurd ⟨le_rfl, Nat.zero_le _⟩ hn
  | succ k =>
    refine ⟨k, ?_, fun j hj => before j (by omega), hn⟩
    by_contra beyond
    rw [List.take_of_length_le (by omega), ← List.take_of_length_le (not_lt.1 beyond)] at hn
    exact hn (before k (by omega))

lemma inside_take {steps : List Step} {k : ℕ} (h : ∀ j ≤ k, Admissible (steps.take j)) :
    Inside 0 (steps.take k) := by
  refine inside_zero_iff.2 fun j => ?_
  rw [List.take_take]
  exact h _ (min_le_right j k)

/-! ### The tree of steps that pair up -/

/-- **A block is its steps.** The blocks that steps begin inside `d` loops are the steps, with a
closing marker before each block but the first. -/
lemma exists_assemble {d : ℕ} {steps : List Step} (h : Nests d steps) :
    ∃ b bs, Block.assemble steps = b :: bs ∧ bs.length = d ∧
      b.steps ++ bs.flatMap (fun b => .closing :: b.steps) = steps := by
  induction steps generalizing d with
  | nil =>
    obtain rfl : d = 0 := h
    exact ⟨.nil, [], rfl, rfl, rfl⟩
  | cons s steps ih =>
    cases s with
    | instr i line =>
      obtain ⟨b, bs, hb, len, flat⟩ := ih (d := d) h
      refine ⟨.instr i line b, bs, by rw [Block.assemble, hb], len, ?_⟩
      rw [Block.steps, List.cons_append, flat]
    | opening g line =>
      obtain ⟨body, bs, hb, len, flat⟩ := ih h.2
      obtain ⟨rest, bs, rfl⟩ := List.exists_cons_of_length_eq_add_one len
      refine ⟨.loop g line body rest, bs, by rw [Block.assemble, hb], Nat.succ.inj len, ?_⟩
      rw [Block.steps, List.cons_append, ← flat, List.flatMap_cons, List.append_assoc]
    | closing =>
      cases d with
      | zero => exact h.elim
      | succ d =>
        obtain ⟨b, bs, hb, len, flat⟩ := ih (d := d) h
        refine ⟨.nil, b :: bs, by rw [Block.assemble, hb], by rw [List.length_cons, len], ?_⟩
        rw [Block.steps, List.nil_append, List.flatMap_cons, List.cons_append, flat]

lemma steps_ofSteps {steps : List Step} (h : Nests 0 steps) :
    (Block.ofSteps steps).steps = steps := by
  obtain ⟨b, bs, hb, len, flat⟩ := exists_assemble h
  obtain rfl := List.length_eq_zero_iff.1 len
  rw [Block.ofSteps, hb]
  simpa using flat

/-! ### The loop that is never closed -/

/-- If more loops are opened than closed, then after one of the opening markers the steps pair
up. -/
lemma exists_last_opening {steps : List Step}
    (more : ∃ k, closings (steps.drop k) < openings (steps.drop k)) :
    ∃ before g line after, steps = before ++ .opening g line :: after ∧
      openings after = closings after ∧
        ∀ k, openings (after.drop k) ≤ closings (after.drop k) := by
  induction steps with
  | nil =>
    obtain ⟨k, hk⟩ := more
    simp at hk
  | cons s steps ih =>
    by_cases later : ∃ k, closings (steps.drop k) < openings (steps.drop k)
    · obtain ⟨before, g, line, after, rfl, rest⟩ := ih later
      exact ⟨s :: before, g, line, after, rfl, rest⟩
    · have fewer (k : ℕ) : openings (steps.drop k) ≤ closings (steps.drop k) :=
        not_lt.1 fun hk => later ⟨k, hk⟩
      -- the surplus is that of the first step
      obtain ⟨k, hk⟩ := more
      have all := fewer 0
      rw [List.drop_zero] at all
      obtain rfl : k = 0 := by
        by_contra pos
        obtain ⟨j, rfl⟩ := Nat.exists_eq_succ_of_ne_zero pos
        exact absurd hk (not_lt.2 (fewer j))
      rw [List.drop_zero] at hk
      cases s with
      | instr i line =>
        rw [openings_instr, closings_instr] at hk
        omega
      | opening g line =>
        rw [openings_opening, closings_opening] at hk
        exact ⟨[], g, line, steps, rfl, by omega, fewer⟩
      | closing =>
        rw [openings_closing, closings_closing] at hk
        omega

/-- Steps that pair up from the end pair up from the start. -/
lemma closings_take_le {steps : List Step} (total : openings steps = closings steps)
    (fewer : ∀ k, openings (steps.drop k) ≤ closings (steps.drop k)) (n : ℕ) :
    closings (steps.take n) ≤ openings (steps.take n) := by
  have opens := congrArg openings (List.take_append_drop n steps)
  have closes := congrArg closings (List.take_append_drop n steps)
  rw [openings_append] at opens
  rw [closings_append] at closes
  have := fewer n
  omega

/-- That marker is never closed, and it is the last of its kind. -/
lemma unclosed_last (before : List Step) (g : LoopHeader) (line : ℕ) {after : List Step}
    (total : openings after = closings after)
    (fewer : ∀ k, openings (after.drop k) ≤ closings (after.drop k)) :
    Unclosed (before ++ .opening g line :: after) before.length ∧
      ∀ k > before.length, ¬ Unclosed (before ++ .opening g line :: after) k := by
  have behind (m : ℕ) :
      (before ++ .opening g line :: after).drop (before.length + (m + 1)) = after.drop m :=
    List.drop_length_add_append (m + 1)
  refine ⟨⟨⟨g, line, by simp⟩, fun n => ?_⟩, fun k hk => ?_⟩
  · rw [behind 0, List.drop_zero]
    exact closings_take_le total fewer n
  · rintro ⟨⟨g', line', there⟩, unclosed⟩
    obtain ⟨m, rfl⟩ : ∃ m, k = before.length + (m + 1) := ⟨k - before.length - 1, by omega⟩
    obtain ⟨hk, this⟩ := List.getElem?_eq_some_iff.1 there
    have cut : after.drop m = .opening g' line' :: after.drop (m + 1) := by
      rw [← behind m, ← behind (m + 1), List.drop_eq_getElem_cons hk, this, Nat.add_assoc]
    have surplus := fewer m
    have rest := unclosed after.length
    rw [Nat.add_assoc, behind (m + 1), List.take_of_length_le (by rw [List.length_drop]; omega)]
      at rest
    rw [cut, openings_opening, closings_opening] at surplus
    omega

/-! ### What the lines of a text say -/

structure Placed where
  line : ℕ
  column : ℕ
  source : List Char
  step : Step

/-- What lines spell that are numbered from some number on: each says nothing, or gives the index of
the first term before all statements, or makes a statement that is right by itself. -/
inductive Spells : ℕ → List (List Char) → Option Int → List Placed → Prop
  | nothing (line : ℕ) : Spells line [] none []
  | idle {line : ℕ} {source : List Char} {rest : List (List Char)} {offset : Option Int}
      {placed : List Placed} : Statement.scan source = .ok none →
      Spells (line + 1) rest offset placed → Spells line (source :: rest) offset placed
  | offset {line column : ℕ} {source : List Char} {rest : List (List Char)} {value : Int}
      {placed : List Placed} : Statement.scan source = .ok (some (.offset value column)) →
      Spells (line + 1) rest none placed → Spells line (source :: rest) (some value) placed
  | statement {line column : ℕ} {word : String} {tokens : List Token} {source : List Char}
      {rest : List (List Char)} {step : Step} {placed : List Placed} :
      Statement.scan source = .ok (some (.instruction word column tokens)) →
      Program.stepOf line word column tokens = .ok step → Spells (line + 1) rest none placed →
      Spells line (source :: rest) none (⟨line, column, source, step⟩ :: placed)

namespace Program

variable {line : ℕ} {lines : List (List Char)} {offset : Option Int} {placed more : List Placed}

lemma line_of_spells (spells : Spells line lines offset placed) :
    ∀ e ∈ placed, ∀ l, e.step.line? = some l → l = e.line := by
  induction spells with
  | nothing => exact nofun
  | idle _ _ ih => exact ih
  | offset _ _ ih => exact ih
  | statement _ step _ ih =>
    exact List.forall_mem_cons.2 ⟨fun l hl => eq_of_stepOf step hl, ih⟩

namespace Reading

variable {r r' : Reading}

def addPlaced (r : Reading) : List Placed → Except Flaw Reading
  | [] => .ok r
  | e :: placed =>
    match r.addStep e.line e.source e.step with
    | .ok r => r.addPlaced placed
    | .error d => .error ⟨d, e.line, e.column, e.source⟩

lemma addPlaced_append (r : Reading) (placed more : List Placed) :
    r.addPlaced (placed ++ more) = r.addPlaced placed >>= fun r => r.addPlaced more := by
  induction placed generalizing r with
  | nil => rfl
  | cons e placed ih =>
    rw [List.cons_append, addPlaced, addPlaced]
    rcases r.addStep e.line e.source e.step with d | r
    · rfl
    · exact ih r

lemma addLines_of_spells (spells : Spells line lines none placed) (r : Reading) :
    r.addLines line lines = r.addPlaced placed := by
  generalize ho : (none : Option Int) = offset at spells
  induction spells generalizing r with
  | nothing => rfl
  | idle scanned _ ih =>
    rw [addLines, addLine, scanned]
    exact ih r ho
  | offset => cases ho
  | @statement line _ _ _ source _ said _ scanned step _ ih =>
    rw [addLines, addLine, scanned, addPlaced]
    dsimp only
    rw [step]
    dsimp only
    rcases r.addStep line source said with d | r₁
    · rfl
    · exact ih r₁ rfl

lemma addLines_of_spells_offset {value : Int} (spells : Spells line lines (some value) placed)
    (fresh : r.offset = none) (empty : r.steps = []) :
    r.addLines line lines = { r with offset := some value }.addPlaced placed := by
  generalize ho : some value = offset at spells
  induction spells with
  | nothing => cases ho
  | idle scanned _ ih =>
    rw [addLines, addLine, scanned]
    exact ih ho
  | offset scanned later _ =>
    obtain rfl := Option.some.inj ho
    rw [addLines, addLine, scanned]
    dsimp only
    rw [addOffset, fresh, empty]
    exact addLines_of_spells later _
  | statement => cases ho

/-- What lines say is what a reading takes in. -/
lemma addLines_eq (spells : Spells line lines offset placed) :
    addLines {} line lines = addPlaced { offset } placed := by
  cases offset with
  | none => exact addLines_of_spells spells _
  | some value => exact addLines_of_spells_offset spells rfl rfl

/-! ### Open loops -/

/-- A reading has taken in statements: they come after the steps before, and the loops that they
open and close are counted. -/
structure Took (r : Reading) (placed : List Placed) (r' : Reading) : Prop where
  reads : r.addPlaced placed = .ok r'
  offset : r'.offset = r.offset
  steps : r'.steps = (placed.map Placed.step).reverse ++ r.steps
  opened : r'.opened.length + closings (placed.map Placed.step) =
    r.opened.length + openings (placed.map Placed.step)

lemma addStep_opening {g : LoopHeader} {l : ℕ} {source : List Char}
    (shallow : r.opened.length < maxLoopDepth) : r.addStep line source (.opening g l) =
      .ok { r with steps := .opening g l :: r.steps, opened := (line, source) :: r.opened } :=
  if_neg (not_le.2 shallow)

lemma addStep_closing {o : ℕ × List Char} {opened : List (ℕ × List Char)} {source : List Char}
    (ho : r.opened = o :: opened) :
    r.addStep line source .closing = .ok { r with steps := .closing :: r.steps, opened } := by
  unfold addStep
  rw [ho]

/-- Statements are taken in while the loop markers are right. -/
lemma exists_took (h : Inside r.opened.length (placed.map Placed.step)) :
    ∃ r', Took r placed r' := by
  induction placed generalizing r with
  | nil => exact ⟨r, rfl, rfl, rfl, rfl⟩
  | cons e placed ih =>
    obtain ⟨line, column, source, step⟩ := e
    have later {r₁ : Reading} (added : r.addStep line source step = .ok r₁)
        (offset : r₁.offset = r.offset) (steps : r₁.steps = step :: r.steps)
        (opened : r₁.opened.length + closings [step] = r.opened.length + openings [step])
        (inside : Inside r₁.opened.length (placed.map Placed.step)) :
        ∃ r', Took r (⟨line, column, source, step⟩ :: placed) r' := by
      obtain ⟨r', took⟩ := ih inside
      refine ⟨r', ?_, took.offset.trans offset, ?_, ?_⟩
      · rw [addPlaced, added]
        exact took.reads
      · rw [took.steps, steps, List.map_cons, List.reverse_cons, List.append_assoc]
        rfl
      · have counted := took.opened
        have opens : openings ([step] ++ placed.map Placed.step) = _ := openings_append
        have closes : closings ([step] ++ placed.map Placed.step) = _ := closings_append
        rw [List.map_cons, ← List.singleton_append, opens, closes]
        omega
    rw [List.map_cons] at h
    cases step with
    | instr i l => exact later rfl rfl rfl rfl (inside_instr.1 h)
    | opening g l =>
      have deeper := inside_opening.1 h
      have shallow : r.opened.length < maxLoopDepth := deeper.le
      exact later (addStep_opening shallow) rfl rfl rfl deeper
    | closing =>
      obtain ⟨-, d, hd, outside⟩ := inside_closing.1 h
      obtain ⟨o, opened, ho⟩ := List.exists_cons_of_length_eq_add_one hd
      rw [ho] at hd
      have same : opened.length = d := Nat.succ.inj hd
      refine later (addStep_closing ho) rfl rfl ?_ (same ▸ outside)
      rw [ho]
      rfl

/-- Statements that close no loops but their own and those on top leave the others open. -/
lemma opened_of_addPlaced (hr : r.addPlaced placed = .ok r') (top : List (ℕ × List Char))
    {base : List (ℕ × List Char)} (ho : r.opened = top ++ base)
    (own : ∀ k, closings ((placed.map Placed.step).take k) ≤
      top.length + openings ((placed.map Placed.step).take k)) :
    ∃ top', r'.opened = top' ++ base ∧ top'.length + closings (placed.map Placed.step) =
      top.length + openings (placed.map Placed.step) := by
  induction placed generalizing r top with
  | nil =>
    obtain rfl := Except.ok.inj hr
    exact ⟨top, ho, rfl⟩
  | cons e placed ih =>
    obtain ⟨line, column, source, step⟩ := e
    rw [addPlaced] at hr
    rcases added : r.addStep line source step with d | r₁ <;> rw [added] at hr
    · cases hr
    cases step with
    | instr i l =>
      obtain rfl := Except.ok.inj added
      rw [List.map_cons, closings_instr, openings_instr]
      refine ih hr top ho fun k => ?_
      have := own (k + 1)
      rwa [List.map_cons, List.take_succ_cons, closings_instr, openings_instr] at this
    | opening g l =>
      unfold addStep at added
      dsimp only at added
      split at added
      · cases added
      obtain rfl := Except.ok.inj added
      obtain ⟨top', left, counted⟩ : ∃ top', r'.opened = top' ++ base ∧ top'.length + _ = _ :=
          ih hr ((line, source) :: top) (congrArg _ ho) fun k => by
        have := own (k + 1)
        rw [List.map_cons, List.take_succ_cons, closings_opening, openings_opening] at this
        rw [List.length_cons]
        omega
      refine ⟨top', left, ?_⟩
      rw [List.map_cons, closings_opening, openings_opening]
      rw [List.length_cons] at counted
      omega
    | closing =>
      rcases top with _ | ⟨o, top⟩
      · have := own 1
        rw [List.map_cons, List.take_succ_cons, closings_closing] at this
        simp at this
      rw [addStep_closing ho] at added
      obtain rfl := Except.ok.inj added
      obtain ⟨top', left, counted⟩ : ∃ top', r'.opened = top' ++ base ∧ top'.length + _ = _ :=
          ih hr top rfl fun k => by
        have := own (k + 1)
        rw [List.map_cons, List.take_succ_cons, closings_closing, openings_closing,
          List.length_cons] at this
        omega
      refine ⟨top', left, ?_⟩
      rw [List.map_cons, closings_closing, openings_closing, List.length_cons]
      omega

end Reading

/-! ### Texts whose statements are right by themselves -/

/-- A text is refused, for a loop marker at a place. -/
def RefusedAt (span : Span) (result : Except Diagnostic Program) : Prop :=
  ∃ d message, result = .error d ∧ d.cause = .unbalancedLoop message ∧ d.span = span

section

variable {text file : String} {id : Option Int}

lemma ofText_of_spells (spells : Spells 1 (Text.lines text.toList) offset placed) :
    ofText text = Reading.addPlaced { offset } placed >>= Reading.finish := by
  rw [ofText, ofLines, Reading.addLines_eq spells]

lemma refusedAt_of_flaw {f : Flaw} {message : String} (h : ofText text = .error f)
    (hd : f.defect.cause = .unbalancedLoop message) (file : String) (id : Option Int) :
    RefusedAt ⟨file, f.line, f.column⟩ (parse text file id) := by
  refine ⟨f.diagnostic file, message, ?_, hd, rfl⟩
  rw [parse, h]

/-- Statements whose markers pair up are read as their block. -/
lemma parse_of_paired (spells : Spells 1 (Text.lines text.toList) offset placed)
    (inside : Inside 0 (placed.map Placed.step))
    (total : openings (placed.map Placed.step) = closings (placed.map Placed.step)) (file : String)
    (id : Option Int) :
    parse text file id =
      .ok { body := .ofSteps (placed.map Placed.step), offset := offset.getD 0, id } := by
  obtain ⟨r, took⟩ := Reading.exists_took (r := { offset }) inside
  have closed : r.opened = [] := by
    have counted : r.opened.length + _ = 0 + _ := took.opened
    exact List.length_eq_zero_iff.1 (by omega)
  have whole : ofText text =
      .ok { body := .ofSteps (placed.map Placed.step), offset := offset.getD 0 } := by
    rw [ofText_of_spells spells, took.reads]
    change r.finish = _
    rw [Reading.finish, closed, took.steps, took.offset]
    simp
  rw [parse, whole]
  rfl

/-- A marker that makes a prefix wrong is refused. -/
lemma refusedAt_of_prefix {e : Placed} (spells : Spells 1 (Text.lines text.toList) offset
      (placed ++ e :: more)) (inside : Inside 0 (placed.map Placed.step))
    (wrong : ¬ Admissible (placed.map Placed.step ++ [e.step])) (file : String) (id : Option Int) :
    RefusedAt ⟨file, e.line, e.column⟩ (parse text file id) := by
  obtain ⟨line, column, source, step⟩ := e
  obtain ⟨r, took⟩ := Reading.exists_took (r := { offset }) inside
  have counted : r.opened.length + _ = 0 + _ := took.opened
  have last := inside (placed.map Placed.step).length
  rw [List.take_length] at last
  have refuse {defect : Defect} (fails : r.addStep line source step = .error defect) :
      ofText text = .error ⟨defect, line, column, source⟩ := by
    rw [ofText_of_spells spells, Reading.addPlaced_append, took.reads]
    change (r.addPlaced (⟨line, column, source, step⟩ :: more) >>= _) = _
    rw [Reading.addPlaced, fails]
    rfl
  rw [Admissible, openings_append, closings_append] at wrong
  cases step with
  | instr i l =>
    rw [openings_instr, closings_instr, openings_nil, closings_nil] at wrong
    omega
  | opening g l =>
    rw [openings_opening, closings_opening, openings_nil, closings_nil] at wrong
    have deep : maxLoopDepth ≤ r.opened.length := by omega
    exact refusedAt_of_flaw (refuse (if_pos deep)) rfl file id
  | closing =>
    rw [openings_closing, closings_closing, openings_nil, closings_nil] at wrong
    have none : r.opened = [] := List.length_eq_zero_iff.1 (by omega)
    have fails : r.addStep line source .closing = .error .unopenedLoop := by
      unfold Reading.addStep
      rw [none]
    exact refusedAt_of_flaw (refuse fails) rfl file id

/-- A loop that is opened, and behind which the markers pair up, is refused. -/
lemma refusedAt_of_unclosed {e : Placed} {g : LoopHeader} {l : ℕ} (he : e.step = .opening g l)
    (spells : Spells 1 (Text.lines text.toList) offset (placed ++ e :: more))
    (inside : Inside 0 ((placed ++ e :: more).map Placed.step))
    (total : openings (more.map Placed.step) = closings (more.map Placed.step))
    (fewer : ∀ k, closings ((more.map Placed.step).take k) ≤
      openings ((more.map Placed.step).take k)) (file : String) (id : Option Int) :
    RefusedAt ⟨file, e.line, 0⟩ (parse text file id) := by
  obtain ⟨r, took⟩ := Reading.exists_took (r := { offset }) inside
  have reads := took.reads
  rw [Reading.addPlaced_append] at reads
  obtain ⟨r₁, first, reads⟩ := bind_eq_ok.1 reads
  rw [Reading.addPlaced, he] at reads
  rcases added : r₁.addStep e.line e.source (.opening g l) with d | r₂ <;> rw [added] at reads
  · cases reads
  -- the loop is still the innermost one in the end
  have innermost : r₂.opened = (e.line, e.source) :: r₁.opened := by
    unfold Reading.addStep at added
    dsimp only at added
    split at added
    · cases added
    · obtain rfl := Except.ok.inj added
      rfl
  obtain ⟨top, left, counted⟩ := Reading.opened_of_addPlaced reads [] rfl fun k => by
    rw [List.length_nil, Nat.zero_add]
    exact fewer k
  obtain rfl : top = [] := List.length_eq_zero_iff.1 (by rw [List.length_nil] at counted; omega)
  have left : r.opened = r₂.opened := left
  have flaw : ofText text = .error ⟨.unclosedLoop, e.line, 0, e.source⟩ := by
    rw [ofText_of_spells spells, took.reads]
    change r.finish = _
    rw [Reading.finish, left, innermost]
  exact refusedAt_of_flaw flaw rfl file id

lemma RefusedAt.not_ok {span : Span} {result : Except Diagnostic Program}
    (h : RefusedAt span result) (p : Program) : result ≠ .ok p := by
  obtain ⟨d, _, rfl, -, -⟩ := h
  exact nofun

lemma exists_refusedAt_of_wrong (spells : Spells 1 (Text.lines text.toList) offset placed)
    (wrong : ¬ ∀ k, Admissible ((placed.map Placed.step).take k)) (file : String)
    (id : Option Int) :
    ∃ (k : ℕ) (_ : k < placed.length), (∀ j ≤ k, Admissible ((placed.map Placed.step).take j)) ∧
      ¬ Admissible ((placed.map Placed.step).take (k + 1)) ∧
        RefusedAt ⟨file, placed[k].line, placed[k].column⟩ (parse text file id) := by
  obtain ⟨k, hk, before, first⟩ := exists_first_wrong wrong
  have short : k < placed.length := by rwa [List.length_map] at hk
  have parts : placed = placed.take k ++ placed[k] :: placed.drop (k + 1) := by
    rw [← List.drop_eq_getElem_cons short, List.take_append_drop]
  refine ⟨k, short, before, first, ?_⟩
  have inside : Inside 0 ((placed.take k).map Placed.step) := by
    rw [List.map_take]
    exact inside_take before
  rw [parts] at spells
  refine refusedAt_of_prefix spells inside ?_ file id
  rwa [List.map_take, ← List.getElem_map Placed.step (h := hk), List.take_append_getElem]

lemma exists_refusedAt_of_open (spells : Spells 1 (Text.lines text.toList) offset placed)
    (right : ∀ k, Admissible ((placed.map Placed.step).take k))
    (left : openings (placed.map Placed.step) ≠ closings (placed.map Placed.step)) (file : String)
    (id : Option Int) :
    ∃ (k : ℕ) (_ : k < placed.length), Unclosed (placed.map Placed.step) k ∧
      (∀ j > k, ¬ Unclosed (placed.map Placed.step) j) ∧
        RefusedAt ⟨file, placed[k].line, 0⟩ (parse text file id) := by
  have inside := inside_zero_iff.2 right
  have surplus : closings ((placed.map Placed.step).drop 0) <
      openings ((placed.map Placed.step).drop 0) := by
    have all := (right (placed.map Placed.step).length).1
    rw [List.take_length] at all
    rw [List.drop_zero]
    omega
  obtain ⟨before, g, l, after, split, total, fewer⟩ := exists_last_opening ⟨0, surplus⟩
  obtain ⟨unclosed, last⟩ := unclosed_last before g l total fewer
  obtain ⟨sofar, marked, rfl, rfl, hm⟩ := List.map_eq_append_iff.1 split
  obtain ⟨e, more, rfl, he, rfl⟩ := List.map_eq_cons_iff.1 hm
  rw [← split, List.length_map] at unclosed last
  refine ⟨sofar.length, by simp, unclosed, last, ?_⟩
  rw [List.getElem_of_append rfl rfl]
  exact refusedAt_of_unclosed he spells inside total (closings_take_le total fewer) file id

/-- **Loop markers are matched by their counts.** A text whose statements are right by themselves is
read exactly when no prefix of them closes more loops than it opens or leaves too many open, and
all loops are closed. Its program has the statements, in order and with their lines. Another text
is refused at the statement that makes the first prefix wrong, or, if no prefix is wrong, at the
last loop that is never closed. -/
theorem parse_of_spells (spells : Spells 1 (Text.lines text.toList) offset placed) (file : String)
    (id : Option Int) :
    let steps := placed.map Placed.step
    ((∃ p, parse text file id = .ok p) ↔
        (∀ k, Admissible (steps.take k)) ∧ openings steps = closings steps) ∧
      (∀ p, parse text file id = .ok p → p.body.steps = steps ∧ p.offset = offset.getD 0 ∧
        ∀ e ∈ placed, ∀ l, e.step.line? = some l → l = e.line) ∧
      ((¬ ∀ k, Admissible (steps.take k)) → ∃ (k : ℕ) (_ : k < placed.length),
        (∀ j ≤ k, Admissible (steps.take j)) ∧ ¬ Admissible (steps.take (k + 1)) ∧
          RefusedAt ⟨file, placed[k].line, placed[k].column⟩ (parse text file id)) ∧
      ((∀ k, Admissible (steps.take k)) → openings steps ≠ closings steps →
        ∃ (k : ℕ) (_ : k < placed.length), Unclosed steps k ∧ (∀ j > k, ¬ Unclosed steps j) ∧
          RefusedAt ⟨file, placed[k].line, 0⟩ (parse text file id)) := by
  intro steps
  have read : (∃ p, parse text file id = .ok p) ↔
      (∀ k, Admissible (steps.take k)) ∧ openings steps = closings steps := by
    refine ⟨fun ⟨p, hp⟩ => ?_, fun ⟨right, total⟩ =>
      ⟨_, parse_of_paired spells (inside_zero_iff.2 right) total file id⟩⟩
    have right : ∀ k, Admissible (steps.take k) := by
      by_contra wrong
      obtain ⟨k, hk, -, -, refused⟩ := exists_refusedAt_of_wrong spells wrong file id
      exact refused.not_ok p hp
    refine ⟨right, ?_⟩
    by_contra left
    obtain ⟨k, hk, -, -, refused⟩ := exists_refusedAt_of_open spells right left file id
    exact refused.not_ok p hp
  refine ⟨read, fun p hp => ?_,
    fun wrong => exists_refusedAt_of_wrong spells wrong file id,
    fun right left => exists_refusedAt_of_open spells right left file id⟩
  obtain ⟨right, total⟩ := read.1 ⟨p, hp⟩
  have inside := inside_zero_iff.2 right
  obtain rfl := Except.ok.inj ((parse_of_paired spells inside total file id).symm.trans hp)
  exact ⟨steps_ofSteps (inside.nests (by omega)), rfl, line_of_spells spells⟩

end

/-- The first of two loops is left open. -/
def firstOpen : String := "#offset 3\nlpb $0\n  mov $1,$$2 ; again\n\nlpb $1,2\nlpe\n"

def firstOpenStatements : List Placed :=
  [⟨2, 1, "lpb $0".toList, .opening ⟨.reg 0, .const 1⟩ 2⟩,
    ⟨3, 3, "  mov $1,$$2 ; again".toList, .instr ⟨.op .mov, [.reg 1, .ind 2]⟩ 3⟩,
    ⟨5, 1, "lpb $1,2".toList, .opening ⟨.reg 1, .const 2⟩ 5⟩,
    ⟨6, 1, "lpe".toList, .closing⟩]

theorem parse_of_spells_firstOpen :
    Spells 1 (Text.lines firstOpen.toList) (some 3) firstOpenStatements ∧
      RefusedAt ⟨"firstOpen", 2, 0⟩ (parse firstOpen "firstOpen" none) := by
  have spells : Spells 1 (Text.lines firstOpen.toList) (some 3) firstOpenStatements := by
    have lines : Text.lines firstOpen.toList = ["#offset 3".toList, "lpb $0".toList,
        "  mov $1,$$2 ; again".toList, [], "lpb $1,2".toList, "lpe".toList] := by decide
    have directive : Statement.scan "#offset 3".toList = .ok (some (.offset 3 1)) := by cbv
    rw [lines]
    exact .offset directive <| .statement (by cbv) (by cbv) <|
      .statement (by cbv) (by cbv) <| .idle (by cbv) <|
      .statement (by cbv) (by cbv) <| .statement (by cbv) (by cbv) <| .nothing 7
  have inside : Inside 0 (firstOpenStatements.map Placed.step) :=
    inside_opening.2 <| inside_instr.2 <| inside_opening.2 <| inside_closing.2
      ⟨by decide, 1, rfl, fun k => by simp [maxLoopDepth]⟩
  obtain ⟨-, -, -, late⟩ := parse_of_spells spells "firstOpen" none
  obtain ⟨k, hk, unclosed, -, refused⟩ := late (inside_zero_iff.1 inside) (by decide)
  have short : k < 4 := hk
  obtain ⟨⟨g, l, there⟩, fewer⟩ := unclosed
  interval_cases k
  · exact ⟨spells, refused⟩
  · cases there
  · exact absurd (fewer 1) (by decide)
  · cases there

end Program

end SeqAsm
