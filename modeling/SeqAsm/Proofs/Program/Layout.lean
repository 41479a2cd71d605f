import Mathlib
import SeqAsm.Program.Parser
import SeqAsm.Proofs.Statement.Layout

/-!
The layout of a text does not matter.

The reading of a text depends on what its lines say and on nothing else, apart from the lines and
columns that it notes. So two readings of lines that say the same go on in step, and a line that
says nothing leaves a reading as it is; only the numbers of the lines after it change. What is
compared is the outline of a reading: the first index, the steps without their lines, and how many
loops are open.
-/

namespace SeqAsm

/-! ### Answers at a glance -/

section Glimpse

variable {ε ε' α β γ δ : Type} {e : ε → ε'} {v : α → β} {w : γ → δ}

/-- An answer, with a function on its errors and one on its values. -/
def glimpse (e : ε → ε') (v : α → β) : Except ε α → Except ε' β
  | .ok a => .ok (v a)
  | .error x => .error (e x)

/-- Computations that look the same, and go on to look the same, look the same as a whole. -/
lemma glimpse_bind {x y : Except ε α} {f g : α → Except ε γ} (h : glimpse e v x = glimpse e v y)
    (next : ∀ a b, v a = v b → glimpse e w (f a) = glimpse e w (g b)) :
    glimpse e w (x >>= f) = glimpse e w (y >>= g) := by
  rcases x with x | a <;> rcases y with y | b
  · exact congrArg Except.error (Except.error.inj h)
  · cases h
  · cases h
  · exact next a b (Except.ok.inj h)

lemma glimpse_ite {c : Prop} [Decidable c] {x x' y y' : Except ε α}
    (yes : glimpse e v x = glimpse e v x') (no : glimpse e v y = glimpse e v y') :
    glimpse e v (if c then x else y) = glimpse e v (if c then x' else y') := by
  split
  · exact yes
  · exact no

end Glimpse

def Defect.code (d : Defect) : Code := d.cause.code

/-! ### Steps without lines -/

def Step.unnumbered : Step → Step
  | .instr i _ => .instr i 0
  | .opening h _ => .opening h 0
  | .closing => .closing

namespace Block

lemma map_unnumbered_assemble (steps : List Step) :
    (assemble steps).map unnumbered = assemble (steps.map Step.unnumbered) := by
  induction steps with
  | nil => rfl
  | cons s steps ih =>
    cases s with
    | instr i line =>
      rw [List.map_cons, Step.unnumbered, assemble, assemble, ← ih]
      rcases assemble steps with _ | ⟨b, bs⟩ <;> rfl
    | opening h line =>
      rw [List.map_cons, Step.unnumbered, assemble, assemble, ← ih]
      rcases assemble steps with _ | ⟨body, _ | ⟨rest, bs⟩⟩ <;> rfl
    | closing =>
      rw [List.map_cons, Step.unnumbered, assemble, assemble, ← ih]
      rfl

lemma unnumbered_ofSteps (steps : List Step) :
    (ofSteps steps).unnumbered = ofSteps (steps.map Step.unnumbered) := by
  rw [ofSteps, ofSteps, ← map_unnumbered_assemble]
  rcases assemble steps with _ | ⟨b, bs⟩ <;> rfl

end Block

/-! ### The checks of a line -/

section Checks

open Program (operandOf targetOf lengthOf sourceOf stepOf)

variable {t u : Token} {ts us : List Token} {α β : Type}

def finding (v : α → β) : Except (Defect × ℕ) α → Except Code β := glimpse (fun e => e.1.code) v

lemma finding_operandOf (h : t.chars = u.chars) :
    finding id (operandOf t) = finding id (operandOf u) := by
  have operand : t.operand? = u.operand? := by rw [Token.operand?, h, ← Token.operand?]
  have text : t.text = u.text := by rw [Token.text, h, ← Token.text]
  unfold operandOf
  rw [operand, text]
  rcases u.operand? with _ | o <;> rfl

lemma finding_targetOf (word : String) (h : t.chars = u.chars) :
    finding id (targetOf word t) = finding id (targetOf word u) := by
  refine glimpse_bind (finding_operandOf h) fun o o' same => ?_
  obtain rfl : o = o' := same
  exact glimpse_ite rfl rfl

lemma finding_lengthOf (h : t.chars = u.chars) :
    finding id (lengthOf t) = finding id (lengthOf u) := by
  refine glimpse_bind (finding_operandOf h) fun o o' same => ?_
  obtain rfl : o = o' := same
  cases o with
  | const n => exact glimpse_ite rfl rfl
  | reg i => rfl
  | ind i => rfl

lemma finding_sourceOf (code : Opcode) (h : t.chars = u.chars) :
    finding id (sourceOf code t) = finding id (sourceOf code u) := by
  refine glimpse_bind (finding_operandOf h) fun o o' same => ?_
  obtain rfl : o = o' := same
  refine glimpse_ite ?_ rfl
  cases o with
  | const n => exact glimpse_ite rfl rfl
  | reg i => rfl
  | ind i => rfl

/-- The step of a line does not depend on where the line and its words stand. -/
lemma finding_stepOf (word : String) (h : ts.map Token.chars = us.map Token.chars)
    (line line' column column' : ℕ) :
    finding Step.unnumbered (stepOf line word column ts) =
      finding Step.unnumbered (stepOf line' word column' us) := by
  have pairs : List.Forall₂ (fun t u => t.chars = u.chars) ts us := by
    have : List.Forall₂ (· = ·) (ts.map Token.chars) (us.map Token.chars) := h ▸ List.forall₂_refl _
    rwa [List.forall₂_map_left_iff, List.forall₂_map_right_iff] at this
  unfold stepOf
  -- A wrong number of operands is the same defect at any place.
  rcases Mnemonic.ofWord? word with _ | code | _ | _
  · rfl
  · rcases pairs with _ | ⟨target, _ | ⟨source, _ | ⟨_, rest⟩⟩⟩
    · rfl
    · rfl
    · refine glimpse_bind (finding_targetOf word target) fun o o' same => ?_
      obtain rfl : o = o' := same
      refine glimpse_bind (finding_sourceOf code source) fun o₂ o₂' same => ?_
      obtain rfl : o₂ = o₂' := same
      rfl
    · rfl
  · rcases pairs with _ | ⟨target, _ | ⟨length, _ | ⟨_, rest⟩⟩⟩
    · rfl
    · refine glimpse_bind (finding_targetOf word target) fun o o' same => ?_
      obtain rfl : o = o' := same
      rfl
    · refine glimpse_bind (finding_targetOf word target) fun o o' same => ?_
      obtain rfl : o = o' := same
      refine glimpse_bind (finding_lengthOf length) fun o₂ o₂' same => ?_
      obtain rfl : o₂ = o₂' := same
      rfl
    · rfl
  · rcases pairs with _ | ⟨_, rest⟩
    · rfl
    · rfl

end Checks

namespace Program

open Statement (meaning Respaced Idle)

/-! ### Readings -/

/-- What is compared of a program, or of the flaw of a text. -/
def content (x : Except Flaw Program) : Except Code (Block × Int) :=
  glimpse (fun f => f.defect.code) (fun p => (p.body.unnumbered, p.offset)) x

namespace Reading

def outline (r : Reading) : Option Int × List Step × ℕ :=
  (r.offset, r.steps.map Step.unnumbered, r.opened.length)

variable {r r' : Reading} {line line' : ℕ} {source source' : List Char}

lemma outline_iff : r.outline = r'.outline ↔ r.offset = r'.offset ∧
    r.steps.map Step.unnumbered = r'.steps.map Step.unnumbered ∧
      r.opened.length = r'.opened.length := by
  rw [outline, outline, Prod.mk.injEq, Prod.mk.injEq]

lemma glimpse_addOffset (h : r.outline = r'.outline) (value : Int) :
    glimpse Defect.code outline (r.addOffset value) =
      glimpse Defect.code outline (r'.addOffset value) := by
  obtain ⟨offset, steps, opened⟩ := outline_iff.1 h
  have empty : r.steps.isEmpty = r'.steps.isEmpty := by
    rw [← List.isEmpty_map, steps, List.isEmpty_map]
  unfold addOffset
  rw [offset, empty]
  split
  · rfl
  · split
    · rfl
    · exact congrArg Except.ok (outline_iff.2 ⟨rfl, steps, opened⟩)

lemma glimpse_addStep (h : r.outline = r'.outline) {step step' : Step}
    (same : step.unnumbered = step'.unnumbered) (line line' : ℕ) (source source' : List Char) :
    glimpse Defect.code outline (r.addStep line source step) =
      glimpse Defect.code outline (r'.addStep line' source' step') := by
  obtain ⟨offset, steps, opened⟩ := outline_iff.1 h
  have more : (step :: r.steps).map Step.unnumbered = (step' :: r'.steps).map Step.unnumbered := by
    rw [List.map_cons, List.map_cons, same, steps]
  unfold addStep
  cases step <;> cases step' <;> try cases same
  · exact congrArg Except.ok (outline_iff.2 ⟨offset, more, opened⟩)
  · dsimp only
    rw [opened]
    split
    · rfl
    · refine congrArg Except.ok (outline_iff.2 ⟨offset, more, ?_⟩)
      rw [List.length_cons, List.length_cons, opened]
  · dsimp only
    rcases ho : r.opened with _ | ⟨o, os⟩
    · have : r'.opened = [] := List.length_eq_zero_iff.1 (by rw [← opened, ho, List.length_nil])
      rw [this]
    · have some : 0 < r'.opened.length := by
        rw [← opened, ho, List.length_cons]
        omega
      obtain ⟨o', os', ho'⟩ := List.exists_cons_of_length_pos some
      rw [ho, ho', List.length_cons, List.length_cons] at opened
      rw [ho']
      exact congrArg Except.ok (outline_iff.2 ⟨offset, more, Nat.succ.inj opened⟩)

/-- What is compared of a reading. -/
def Alike (x y : Except Flaw Reading) : Prop :=
  glimpse (fun f => f.defect.code) outline x = glimpse (fun f => f.defect.code) outline y

/-- Readings are alike also when their defects get places. -/
lemma alike_of_glimpse (x y : Except Defect Reading) (line column line' column' : ℕ)
    (source source' : List Char) : glimpse Defect.code outline x = glimpse Defect.code outline y →
      Alike (match x with | .ok r => .ok r | .error d => .error ⟨d, line, column, source⟩)
        (match y with | .ok r => .ok r | .error d => .error ⟨d, line', column', source'⟩) := by
  intro h
  rcases x with d | q <;> rcases y with d' | q'
  · exact congrArg Except.error (Except.error.inj h)
  · cases h
  · cases h
  · exact congrArg Except.ok (Except.ok.inj h)

/-- **Lines that say the same are taken in alike.** -/
lemma alike_addLine (h : r.outline = r'.outline) (same : meaning source = meaning source')
    (line line' : ℕ) : Alike (r.addLine line source) (r'.addLine line' source') := by
  unfold addLine
  rcases Statement.scan_of_meaning_eq same with ⟨u, v, left, right⟩ | ⟨left, right⟩ |
    ⟨value, i, j, left, right⟩ | ⟨word, i, j, ts, us, left, right, tokens⟩ <;> rw [left, right]
  · rfl
  · exact congrArg Except.ok h
  · exact alike_of_glimpse _ _ _ _ _ _ _ _ (glimpse_addOffset h value)
  · have checked := finding_stepOf word tokens line line' i j
    dsimp only
    rcases hs : stepOf line word i ts with ⟨d, c⟩ | step <;>
      rcases hs' : stepOf line' word j us with ⟨d', c'⟩ | step' <;> rw [hs, hs'] at checked
    · exact congrArg Except.error (Except.error.inj checked)
    · cases checked
    · cases checked
    · have steps := glimpse_addStep h (Except.ok.inj checked) line line' source source'
      exact alike_of_glimpse _ _ _ _ _ _ _ _ steps

/-- A line that says nothing leaves a reading as it is. -/
lemma addLine_idle (h : meaning source = some none) (r : Reading) (line : ℕ) :
    r.addLine line source = .ok r := by
  unfold meaning at h
  unfold addLine
  generalize Statement.scan source = x at h ⊢
  rcases x with u | _ | statement
  · cases h
  · rfl
  · cases Option.some.inj h

/-- Two readings go on alike, if they do with what the first ones come to. -/
lemma alike_addLines_cons {ls ls' : List (List Char)}
    (h : Alike (r.addLine line source) (r'.addLine line' source'))
    (next : ∀ q q' : Reading, q.outline = q'.outline →
      Alike (q.addLines (line + 1) ls) (q'.addLines (line' + 1) ls')) :
    Alike (r.addLines line (source :: ls)) (r'.addLines line' (source' :: ls')) := by
  unfold Alike at h
  unfold addLines
  rcases hx : r.addLine line source with f | q <;>
    rcases hy : r'.addLine line' source' with f' | q' <;> rw [hx, hy] at h
  · exact h
  · cases h
  · cases h
  · exact next q q' (Except.ok.inj h)

/-- **Texts the lines of which say the same are read alike.** -/
lemma alike_addLines {ls ls' : List (List Char)} (h : r.outline = r'.outline)
    (same : ls.map meaning = ls'.map meaning) (line line' : ℕ) :
    Alike (r.addLines line ls) (r'.addLines line' ls') := by
  induction ls generalizing r r' ls' line line' with
  | nil =>
    obtain rfl := List.map_eq_nil_iff.1 same.symm
    exact congrArg Except.ok h
  | cons l ls ih =>
    obtain ⟨l', ls', rfl, first, others⟩ := List.map_eq_cons_iff.1 same.symm
    exact alike_addLines_cons (alike_addLine h first.symm line line') fun q q' hq =>
      ih hq others.symm (line + 1) (line' + 1)

/-- A line that says nothing may stand anywhere. -/
lemma alike_addLines_insert {l : List Char} (idle : meaning l = some none)
    (h : r.outline = r'.outline) (before after : List (List Char)) (line line' : ℕ) :
    Alike (r.addLines line (before ++ after)) (r'.addLines line' (before ++ l :: after)) := by
  induction before generalizing r r' line line' with
  | nil =>
    -- The lines after it are the same, with other numbers.
    have skipped : r'.addLines line' (l :: after) = r'.addLines (line' + 1) after := by
      rw [addLines, addLine_idle idle]
    rw [List.nil_append, List.nil_append, skipped]
    exact alike_addLines h rfl line (line' + 1)
  | cons b before ih =>
    exact alike_addLines_cons (alike_addLine h rfl line line') fun q q' hq =>
      ih hq (line + 1) (line' + 1)

lemma content_finish (h : r.outline = r'.outline) : content r.finish = content r'.finish := by
  obtain ⟨offset, steps, opened⟩ := outline_iff.1 h
  have body : (Block.ofSteps r.steps.reverse).unnumbered =
      (Block.ofSteps r'.steps.reverse).unnumbered := by
    rw [Block.unnumbered_ofSteps, Block.unnumbered_ofSteps, List.map_reverse, steps,
      List.map_reverse]
  unfold finish
  rcases ho : r.opened with _ | ⟨o, os⟩ <;> rcases ho' : r'.opened with _ | ⟨o', os'⟩
  · exact congrArg Except.ok (Prod.ext body (congrArg (·.getD 0) offset))
  · rw [ho, ho'] at opened
    cases opened
  · rw [ho, ho'] at opened
    cases opened
  · rfl

end Reading

/-! ### Texts -/

/-- One change of layout, as the lines of a text show it: a line is laid out in another way, or a
line is added that is blank or holds only a remark. -/
inductive Edit : List (List Char) → List (List Char) → Prop
  | line {l l' : List Char} (h : Respaced l l') (before after : List (List Char)) :
      Edit (before ++ l :: after) (before ++ l' :: after)
  | insert {l : List Char} (h : Idle l) (before after : List (List Char)) :
      Edit (before ++ after) (before ++ l :: after)

/-- Changes of layout, and their reversals, lead from the one text to the other. -/
def Relaid (t t' : String) : Prop :=
  Relation.EqvGen Edit (Text.lines t.toList) (Text.lines t'.toList)

lemma content_ofLines_of_edit {ls ls' : List (List Char)} (h : Edit ls ls') :
    content (ofLines ls) = content (ofLines ls') := by
  refine glimpse_bind (v := Reading.outline) ?_ fun _ _ => Reading.content_finish
  cases h with
  | line h before after =>
    refine Reading.alike_addLines rfl ?_ 1 1
    rw [List.map_append, List.map_append, List.map_cons, List.map_cons, h.meaning_eq]
  | insert h before after => exact Reading.alike_addLines_insert h.meaning_eq rfl before after 1 1

lemma content_ofLines {ls ls' : List (List Char)} (h : Relation.EqvGen Edit ls ls') :
    content (ofLines ls) = content (ofLines ls') := by
  induction h with
  | rel _ _ edit => exact content_ofLines_of_edit edit
  | refl => rfl
  | symm _ _ _ ih => exact ih.symm
  | trans _ _ _ _ _ first second => exact first.trans second

/-- **The layout of a text does not matter.** A text and the same text with another layout are both
read, and as the same program, or neither is, and for a defect of the same kind. -/
theorem parse_of_relaid {t t' : String} (h : Relaid t t') (file : String) (id : Option Int) :
    (∀ p, parse t file id = .ok p → ∃ p', parse t' file id = .ok p' ∧ p.same p' = true) ∧
    ∀ d, parse t file id = .error d →
      ∃ d', parse t' file id = .error d' ∧ d.cause.code = d'.cause.code := by
  have same : content (ofText t) = content (ofText t') := content_ofLines h
  unfold parse
  generalize ofText t = x at same ⊢
  generalize ofText t' = y at same ⊢
  rcases x with f | q <;> rcases y with f' | q'
  · refine ⟨nofun, fun d hd => ⟨_, rfl, ?_⟩⟩
    obtain rfl := Except.error.inj hd
    exact Except.error.inj same
  · cases same
  · cases same
  · have equal : (q.withId id).same (q'.withId id) = true := by
      obtain ⟨body, offset⟩ := Prod.mk.inj (Except.ok.inj same)
      simp [Program.same, withId, body, offset]
    refine ⟨fun p hp => ⟨q'.withId id, rfl, ?_⟩, fun d hd => ?_⟩
    · obtain rfl : q.withId id = p := Except.ok.inj hp
      exact equal
    · cases hd

/-- A text of two lines, and the same with an indentation, blanks, remarks and a blank line. -/
theorem parse_of_relaid_copy :
    Relaid "#offset 2\nmov $1,$0" "; first\n#offset 2 \n\n\tmov $1 , $0;copy\r\n" ∧
      ∃ p p', parse "#offset 2\nmov $1,$0" "copy" none = .ok p ∧
        parse "; first\n#offset 2 \n\n\tmov $1 , $0;copy\r\n" "copy" none = .ok p' ∧
          p.same p' = true := by
  have blanks (gap : List Char) (h : gap.all Text.isBlank = true) :
      ∀ c ∈ gap, Text.isBlank c = true := List.all_eq_true.1 h
  have single (note : List Char) (h : note.all (!Text.isLineEnd ·) = true) :
      ∀ c ∈ note, Text.isLineEnd c = false := fun c hc => by
    simpa using List.all_eq_true.1 h c hc
  have blank : Idle "".toList := .blank nofun
  have remark : Idle "; first".toList :=
    .remark (nofun : ∀ c ∈ [], _) (single " first".toList (by decide))
  have finish : Respaced "#offset 2".toList "#offset 2 ".toList :=
    .finish (blanks " ".toList (by decide)) "#offset 2".toList
  have comma : Respaced "mov $1,$0".toList "mov $1 , $0".toList :=
    .comma (blanks " ".toList (by decide)) (blanks " ".toList (by decide)) "mov $1".toList
      "$0".toList
  have start : Respaced "mov $1 , $0".toList "\tmov $1 , $0".toList :=
    .start (blanks "\t".toList (by decide)) "mov $1 , $0".toList
  have copy : Respaced "\tmov $1 , $0".toList "\tmov $1 , $0;copy".toList :=
    .remark (single "copy".toList (by decide)) "\tmov $1 , $0".toList
  have relaid : Relation.EqvGen Edit ["#offset 2".toList, "mov $1,$0".toList]
      ["; first".toList, "#offset 2 ".toList, "".toList, "\tmov $1 , $0;copy".toList] :=
    .trans _ _ _ (.rel _ _ (.insert remark [] _)) <|
    .trans _ _ _ (.rel _ _ (.line finish ["; first".toList] _)) <|
    .trans _ _ _ (.rel _ _ (.insert blank ["; first".toList, "#offset 2 ".toList] _)) <|
    .trans _ _ _ (.rel _ _ (.line comma ["; first".toList, "#offset 2 ".toList, "".toList] _)) <|
    .trans _ _ _ (.rel _ _ (.line start ["; first".toList, "#offset 2 ".toList, "".toList] _)) <|
    .rel _ _ (.line copy ["; first".toList, "#offset 2 ".toList, "".toList] _)
  have relaid : Relaid "#offset 2\nmov $1,$0" "; first\n#offset 2 \n\n\tmov $1 , $0;copy\r\n" :=
    relaid
  have read : ∃ p, parse "#offset 2\nmov $1,$0" "copy" none = .ok p := ⟨_, by cbv⟩
  obtain ⟨p, hp⟩ := read
  obtain ⟨p', hp', same⟩ := (parse_of_relaid relaid "copy" none).1 p hp
  exact ⟨relaid, p, p', hp, hp', same⟩

end Program

end SeqAsm
