import SeqAsm.Proofs.Statement.Written

/-!
The layout of a line does not matter.

A line may be indented, may have blanks at its end and around its commas, and may end in a remark.
The scanner reads a line and the same line with another layout in step: what is left of the one
and of the other stays the same up to the place of the change, and no word, token or numeral goes
over that place, because a comma, a semicolon and a blank end all of them. So both lines say the
same, at other columns, or neither can be read.
-/

namespace SeqAsm.Statement

open Text

/-- Another layout of a line: blanks at its start, at its end or around a comma, or a remark. -/
inductive Respaced : List Char → List Char → Prop
  | start {gap : List Char} (blank : ∀ c ∈ gap, isBlank c = true) (cs : List Char) :
      Respaced cs (gap ++ cs)
  | finish {gap : List Char} (blank : ∀ c ∈ gap, isBlank c = true) (cs : List Char) :
      Respaced cs (cs ++ gap)
  | comma {gap gap' : List Char} (blank : ∀ c ∈ gap, isBlank c = true)
      (blank' : ∀ c ∈ gap', isBlank c = true) (before after : List Char) :
      Respaced (before ++ ',' :: after) (before ++ (gap ++ ',' :: (gap' ++ after)))
  | remark {note : List Char} (single : ∀ c ∈ note, isLineEnd c = false) (cs : List Char) :
      Respaced cs (cs ++ ';' :: note)

/-- A line that is blank or holds only a remark. -/
inductive Idle : List Char → Prop
  | blank {gap : List Char} (space : ∀ c ∈ gap, isSpace c = true) : Idle gap
  | remark {gap note : List Char} (space : ∀ c ∈ gap, isSpace c = true)
      (single : ∀ c ∈ note, isLineEnd c = false) : Idle (gap ++ ';' :: note)

/-! ### What is said, wherever it stands -/

/-- A statement without its columns. -/
def placeless : Statement → Statement
  | .offset value _ => .offset value 0
  | .instruction word _ operands => .instruction word 0 (operands.map fun t => ⟨t.chars, 0⟩)

/-- What a line says; `none` if it cannot be read. -/
def meaning (cs : List Char) : Option (Option Statement) :=
  match scan cs with
  | .ok statement => some (statement.map placeless)
  | .error _ => none

lemma map_placeless {ts us : List Token} (h : ts.map Token.chars = us.map Token.chars) :
    (ts.map fun t => (⟨t.chars, 0⟩ : Token)) = us.map fun t => ⟨t.chars, 0⟩ := by
  have := congrArg (List.map fun cs => (⟨cs, 0⟩ : Token)) h
  rwa [List.map_map, List.map_map] at this

/-- Lines that say the same: neither can be read, neither has a statement, or both have the same
directive or the same word with the same operands. -/
lemma scan_of_meaning_eq {cs ds : List Char} (h : meaning cs = meaning ds) :
    (∃ u v, scan cs = .error u ∧ scan ds = .error v) ∨
    scan cs = .ok none ∧ scan ds = .ok none ∨
    (∃ value i j, scan cs = .ok (some (.offset value i)) ∧
      scan ds = .ok (some (.offset value j))) ∨
    ∃ word i j ts us, scan cs = .ok (some (.instruction word i ts)) ∧
      scan ds = .ok (some (.instruction word j us)) ∧
        ts.map Token.chars = us.map Token.chars := by
  unfold meaning at h
  generalize scan cs = x at h ⊢
  generalize scan ds = y at h ⊢
  rcases x with u | _ | ⟨value, i⟩ | ⟨word, i, ts⟩ <;>
    rcases y with v | _ | ⟨value', j⟩ | ⟨word', j, us⟩ <;> try cases h
  · exact .inl ⟨u, v, rfl, rfl⟩
  · exact .inr (.inl ⟨rfl, rfl⟩)
  · exact .inr (.inr (.inl ⟨value, i, j, rfl, rfl⟩))
  · obtain ⟨rfl, -, tokens⟩ := Statement.instruction.inj (Option.some.inj (Option.some.inj h))
    have chars := congrArg (List.map Token.chars) tokens
    rw [List.map_map, List.map_map] at chars
    exact .inr (.inr (.inr ⟨word, i, j, ts, us, rfl, rfl, chars⟩))

/-! ### Two layouts, read in step -/

/-- The characters that end words, tokens and numerals. -/
def isStop (c : Char) : Bool := c == ',' || c == ';' || isBlank c

/-- Nothing follows, or a character that ends words. -/
def Stopped (cs : List Char) : Prop := ∀ c ∈ cs.head?, isStop c = true

/-- What is left of a line, and of the same line with another layout. -/
inductive Near : List Char → List Char → Prop
  | same (cs : List Char) : Near cs cs
  | cons (c : Char) {cs ds : List Char} (rest : Near cs ds) : Near (c :: cs) (c :: ds)
  | finish {gap : List Char} (blank : ∀ c ∈ gap, isBlank c = true) : Near [] gap
  | remark {note : List Char} (single : '\n' ∉ note) : Near [] (';' :: note)
  | comma {gap gap' : List Char} (blank : ∀ c ∈ gap, isBlank c = true)
      (blank' : ∀ c ∈ gap', isBlank c = true) (after : List Char) :
      Near (',' :: after) (gap ++ ',' :: (gap' ++ after))

variable {gap cs ds : List Char} {p : Char → Bool}

lemma Near.append (h : Near cs ds) (before : List Char) : Near (before ++ cs) (before ++ ds) := by
  induction before with
  | nil => exact h
  | cons c before ih => exact .cons c ih

lemma stopped_nil : Stopped [] := nofun

lemma stopped_cons (h : isStop c = true) (cs : List Char) : Stopped (c :: cs) := by
  intro d hd
  obtain rfl : c = d := Option.some.inj hd
  exact h

lemma stopped_gap (blank : ∀ c ∈ gap, isBlank c = true) (h : Stopped cs) :
    Stopped (gap ++ cs) := by
  cases gap with
  | nil => exact h
  | cons c gap =>
    refine stopped_cons ?_ _
    rw [isStop, blank c List.mem_cons_self, Bool.or_true]

/-- Two layouts go on with the same character, or a word ends in both. -/
lemma Near.head (h : Near cs ds) :
    (∃ c cs' ds', cs = c :: cs' ∧ ds = c :: ds' ∧ Near cs' ds') ∨ Stopped cs ∧ Stopped ds := by
  cases h with
  | same =>
    cases cs with
    | nil => exact .inr ⟨stopped_nil, stopped_nil⟩
    | cons c cs => exact .inl ⟨c, cs, cs, rfl, rfl, .same cs⟩
  | cons c rest => exact .inl ⟨c, _, _, rfl, rfl, rest⟩
  | finish blank =>
    have := stopped_gap blank stopped_nil
    rw [List.append_nil] at this
    exact .inr ⟨stopped_nil, this⟩
  | remark => exact .inr ⟨stopped_nil, stopped_cons (by decide) _⟩
  | comma blank blank' after =>
    have comma (cs : List Char) : Stopped (',' :: cs) := stopped_cons (by decide) cs
    exact .inr ⟨comma after, stopped_gap blank (comma _)⟩

lemma Stopped.skip (h : Stopped cs) (stop : ∀ c, isStop c = true → p c = false) :
    cs.takeWhile p = [] ∧ cs.dropWhile p = cs :=
  skip_stop fun c hc => stop c (h c hc)

/-- Two layouts agree on the next word, numeral or token. -/
lemma Near.span (h : Near cs ds) (stop : ∀ c, isStop c = true → p c = false) :
    cs.takeWhile p = ds.takeWhile p ∧ Near (cs.dropWhile p) (ds.dropWhile p) := by
  induction cs generalizing ds with
  | nil =>
    rcases h.head with ⟨c, cs', ds', hc, -⟩ | ⟨_, ended⟩
    · cases hc
    · obtain ⟨take, drop⟩ := ended.skip stop
      rw [take, drop]
      exact ⟨rfl, h⟩
  | cons c cs ih =>
    rcases h.head with ⟨c', cs', ds', hc, rfl, rest⟩ | ⟨ended, ended'⟩
    · obtain ⟨rfl, rfl⟩ := List.cons.inj hc
      by_cases hp : p c = true
      · obtain ⟨take, drop⟩ := ih rest
        rw [List.takeWhile_cons_of_pos hp, List.takeWhile_cons_of_pos hp,
          List.dropWhile_cons_of_pos hp, List.dropWhile_cons_of_pos hp, take]
        exact ⟨rfl, drop⟩
      · rw [List.takeWhile_cons_of_neg hp, List.takeWhile_cons_of_neg hp,
          List.dropWhile_cons_of_neg hp, List.dropWhile_cons_of_neg hp]
        exact ⟨rfl, h⟩
    · obtain ⟨take, drop⟩ := ended.skip stop
      obtain ⟨take', drop'⟩ := ended'.skip stop
      rw [take, drop, take', drop']
      exact ⟨rfl, h⟩

/-- Either both layouts begin with a literal, or neither. -/
lemma Near.strip {literal : List Char} (ink : ∀ c ∈ literal, isStop c = false) (h : Near cs ds) :
    (∃ cs' ds', cs = literal ++ cs' ∧ ds = literal ++ ds' ∧ Near cs' ds') ∨
    (∀ cs', cs ≠ literal ++ cs') ∧ ∀ ds', ds ≠ literal ++ ds' := by
  induction literal generalizing cs ds with
  | nil => exact .inl ⟨cs, ds, rfl, rfl, h⟩
  | cons c literal ih =>
    obtain ⟨first, others⟩ := List.forall_mem_cons.1 ink
    rcases h.head with ⟨d, cs, ds, rfl, rfl, rest⟩ | ⟨ended, ended'⟩
    · by_cases hd : d = c
      · subst hd
        rcases ih others rest with ⟨cs', ds', rfl, rfl, near⟩ | ⟨other, other'⟩
        · exact .inl ⟨cs', ds', rfl, rfl, near⟩
        · exact .inr ⟨fun cs' h => other cs' (List.cons.inj h).2,
            fun ds' h => other' ds' (List.cons.inj h).2⟩
      · exact .inr ⟨fun _ h => hd (List.cons.inj h).1, fun _ h => hd (List.cons.inj h).1⟩
    · have apart {cs : List Char} (ended : Stopped cs) (cs' : List Char) :
          cs ≠ c :: literal ++ cs' := by
        rintro rfl
        have stop : isStop c = true := ended c rfl
        rw [first] at stop
        cases stop
      exact .inr ⟨apart ended, apart ended'⟩

/-! ### White space -/

lemma isSpace_of_mem_gap (blank : ∀ c ∈ gap, isBlank c = true) : ∀ c ∈ gap, isSpace c = true :=
  fun c hc => isSpace_of_isBlank (blank c hc)

lemma dropWhile_gap (skip : ∀ c ∈ gap, p c = true) : gap.dropWhile p = [] :=
  List.dropWhile_eq_nil_iff.2 skip

lemma Near.skip (h : Near cs ds) (blank : ∀ c, isBlank c = true → p c = true)
    (comma : p ',' = false) (remark : p ';' = false) :
    Near (cs.dropWhile p) (ds.dropWhile p) := by
  induction h with
  | same cs => exact .same _
  | cons c rest ih =>
    by_cases hp : p c = true
    · rw [List.dropWhile_cons_of_pos hp, List.dropWhile_cons_of_pos hp]
      exact ih
    · rw [List.dropWhile_cons_of_neg hp, List.dropWhile_cons_of_neg hp]
      exact .cons c rest
  | finish gap =>
    rw [dropWhile_gap fun c hc => blank c (gap c hc)]
    exact .same []
  | remark single =>
    rw [List.dropWhile_cons_of_neg (by simp [remark])]
    exact .remark single
  | comma gap gap' after =>
    rw [List.dropWhile_append_of_pos fun c hc => blank c (gap c hc),
      List.dropWhile_cons_of_neg (by simp [comma]), List.dropWhile_cons_of_neg (by simp [comma])]
    have none : ∀ c ∈ ([] : List Char), isBlank c = true := nofun
    exact .comma none gap' after

lemma Near.skipSpace (h : Near cs ds) : Near (cs.dropWhile isSpace) (ds.dropWhile isSpace) :=
  h.skip (fun _ => isSpace_of_isBlank) (by decide) (by decide)

/-- Two layouts have the same blanks before a word, or no word follows in either. -/
lemma Near.blanks (h : Near cs ds) : cs.takeWhile isBlank = ds.takeWhile isBlank ∨
    Stopped (cs.dropWhile isBlank) ∧ Stopped (ds.dropWhile isBlank) := by
  induction h with
  | same cs => exact .inl rfl
  | cons c rest ih =>
    by_cases hp : isBlank c = true
    · rw [List.takeWhile_cons_of_pos hp, List.takeWhile_cons_of_pos hp,
        List.dropWhile_cons_of_pos hp, List.dropWhile_cons_of_pos hp]
      rcases ih with same | stopped
      · exact .inl (by rw [same])
      · exact .inr stopped
    · rw [List.takeWhile_cons_of_neg hp, List.takeWhile_cons_of_neg hp]
      exact .inl rfl
  | finish blank =>
    rw [dropWhile_gap blank]
    exact .inr ⟨stopped_nil, stopped_nil⟩
  | remark single => exact .inl rfl
  | comma blank blank' after =>
    rw [List.dropWhile_append_of_pos blank]
    have stopped (cs : List Char) : Stopped ((',' :: cs).dropWhile isBlank) :=
      stopped_cons (by decide) cs
    exact .inr ⟨stopped after, stopped _⟩

/-- Either both layouts go on with a comma, or neither. -/
lemma Near.comma_or (h : Near cs ds) :
    (∃ r s, cs.dropWhile isSpace = ',' :: r ∧ ds.dropWhile isSpace = ',' :: s ∧
      Near (r.dropWhile isSpace) (s.dropWhile isSpace)) ∨
    (∀ r, cs.dropWhile isSpace ≠ ',' :: r) ∧ ∀ s, ds.dropWhile isSpace ≠ ',' :: s := by
  induction h with
  | same cs =>
    by_cases h : ∃ r, cs.dropWhile isSpace = ',' :: r
    · obtain ⟨r, hr⟩ := h
      exact .inl ⟨r, r, hr, hr, .same _⟩
    · have none : ∀ r, cs.dropWhile isSpace ≠ ',' :: r := fun r hr => h ⟨r, hr⟩
      exact .inr ⟨none, none⟩
  | cons c rest ih =>
    by_cases hp : isSpace c = true
    · rw [List.dropWhile_cons_of_pos hp, List.dropWhile_cons_of_pos hp]
      exact ih
    · rw [List.dropWhile_cons_of_neg hp, List.dropWhile_cons_of_neg hp]
      by_cases hc : c = ','
      · subst hc
        exact .inl ⟨_, _, rfl, rfl, rest.skipSpace⟩
      · exact .inr ⟨fun r hr => hc (List.cons.inj hr).1, fun s hs => hc (List.cons.inj hs).1⟩
  | finish blank =>
    rw [dropWhile_gap (isSpace_of_mem_gap blank)]
    exact .inr ⟨nofun, nofun⟩
  | remark single => exact .inr ⟨nofun, fun s hs => absurd (List.cons.inj hs).1 (by decide)⟩
  | comma blank blank' after =>
    -- Behind the comma only the blanks on its right differ, and these are skipped as well.
    rw [List.dropWhile_append_of_pos (isSpace_of_mem_gap blank)]
    refine .inl ⟨after, _, rfl, rfl, ?_⟩
    rw [List.dropWhile_append_of_pos (isSpace_of_mem_gap blank')]
    exact .same _

/-! ### Operands -/

lemma isTokenChar_of_isStop (c : Char) (h : isStop c = true) : isTokenChar c = false := by
  simp only [isStop, Bool.or_eq_true, beq_iff_eq] at h
  rcases h with (rfl | rfl) | h
  · rfl
  · rfl
  · simp [isTokenChar, isSpace_of_isBlank h]

lemma moreOperands_comma {r : List Char} (hr : cs.dropWhile isSpace = ',' :: r) (column : ℕ) :
    moreOperands column cs =
      if ((r.dropWhile isSpace).takeWhile isTokenChar).isEmpty then ([], cs, column)
      else
        let start := column + (cs.takeWhile isSpace).length + 1 + (r.takeWhile isSpace).length
        let more := moreOperands (start + ((r.dropWhile isSpace).takeWhile isTokenChar).length)
          ((r.dropWhile isSpace).dropWhile isTokenChar)
        (⟨(r.dropWhile isSpace).takeWhile isTokenChar, start⟩ :: more.1, more.2) := by
  rw [moreOperands]
  split
  · rename_i r' hr'
    obtain rfl := (List.cons.inj (hr.symm.trans hr')).2
    rfl
  · rename_i other
    exact absurd hr (other r)

lemma moreOperands_other (h : ∀ r, cs.dropWhile isSpace ≠ ',' :: r) (column : ℕ) :
    moreOperands column cs = ([], cs, column) := by
  rw [moreOperands]
  split
  · rename_i r hr
    exact absurd hr (h r)
  · rfl

lemma Near.moreOperands (h : Near cs ds) (column column' : ℕ) :
    (moreOperands column cs).1.map Token.chars = (moreOperands column' ds).1.map Token.chars ∧
      Near (moreOperands column cs).2.1 (moreOperands column' ds).2.1 := by
  -- By the length of what is left: each operand takes a comma off it.
  induction n : cs.length using Nat.strong_induction_on generalizing cs ds column column' with
  | h n ih =>
    subst n
    rcases h.comma_or with ⟨r, s, hr, hs, near⟩ | ⟨hr, hs⟩
    · obtain ⟨token, rest⟩ := near.span isTokenChar_of_isStop
      rw [moreOperands_comma hr, moreOperands_comma hs, token]
      split
      · exact ⟨rfl, h⟩
      · have shorter : ((r.dropWhile isSpace).dropWhile isTokenChar).length < cs.length := by
          have one := (List.dropWhile_sublist isTokenChar (l := r.dropWhile isSpace)).length_le
          have two := (List.dropWhile_sublist isSpace (l := r)).length_le
          have three := (List.dropWhile_sublist isSpace (l := cs)).length_le
          rw [hr, List.length_cons] at three
          omega
        obtain ⟨tokens, more⟩ := ih _ shorter rest _ _ rfl
        refine ⟨?_, more⟩
        rw [List.map_cons, List.map_cons, tokens]
    · rw [moreOperands_other hr, moreOperands_other hs]
      exact ⟨rfl, h⟩

lemma operands_stopped (h : Stopped (cs.dropWhile isBlank)) (column : ℕ) :
    operands column cs = ([], cs) := by
  unfold operands
  dsimp only
  rw [(h.skip isTokenChar_of_isStop).1]
  exact if_pos (Bool.or_true _)

lemma Near.operands (h : Near cs ds) (column column' : ℕ) :
    (operands column cs).1.map Token.chars = (operands column' ds).1.map Token.chars ∧
      Near (operands column cs).2 (operands column' ds).2 := by
  have inside : Near (cs.dropWhile isBlank) (ds.dropWhile isBlank) :=
    h.skip (fun _ hc => hc) (by decide) (by decide)
  rcases h.blanks with gap | ⟨ended, ended'⟩
  · obtain ⟨token, rest⟩ := inside.span isTokenChar_of_isStop
    unfold Statement.operands
    dsimp only
    rw [gap, token]
    split
    · exact ⟨rfl, h⟩
    · obtain ⟨tokens, more⟩ := rest.moreOperands
        (column + (ds.takeWhile isBlank).length +
          ((ds.dropWhile isBlank).takeWhile isTokenChar).length)
        (column' + (ds.takeWhile isBlank).length +
          ((ds.dropWhile isBlank).takeWhile isTokenChar).length)
      refine ⟨?_, more⟩
      rw [List.map_cons, List.map_cons, tokens]
  · rw [operands_stopped ended, operands_stopped ended']
    exact ⟨rfl, h⟩

/-! ### Statements -/

lemma isDigit_of_isStop (c : Char) (h : isStop c = true) : Text.isDigit c = false := by
  simp only [isStop, isBlank, Bool.or_eq_true, beq_iff_eq] at h
  rcases h with (rfl | rfl) | rfl | rfl <;> decide

lemma isWordChar_of_isStop (c : Char) (h : isStop c = true) : isWordChar c = false := by
  simp only [isStop, isBlank, Bool.or_eq_true, beq_iff_eq] at h
  rcases h with (rfl | rfl) | rfl | rfl <;> decide

lemma isAlpha_of_isStop (c : Char) (h : isStop c = true) : c.isAlpha = false := by
  simp only [isStop, isBlank, Bool.or_eq_true, beq_iff_eq] at h
  rcases h with (rfl | rfl) | rfl | rfl <;> decide

lemma Stopped.takeSign (h : Stopped cs) : takeSign cs = (false, cs) := by
  unfold Text.takeSign
  split
  · exact absurd (h '-' rfl) (by decide)
  · exact absurd (h '+' rfl) (by decide)
  · rfl

lemma Near.takeSign (h : Near cs ds) :
    (takeSign cs).1 = (takeSign ds).1 ∧ Near (takeSign cs).2 (takeSign ds).2 := by
  rcases h.head with ⟨c, cs', ds', rfl, rfl, rest⟩ | ⟨ended, ended'⟩
  · by_cases minus : c = '-'
    · subst minus
      exact ⟨rfl, rest⟩
    by_cases plus : c = '+'
    · subst plus
      exact ⟨rfl, rest⟩
    have unsigned (cs : List Char) : Text.takeSign (c :: cs) = (false, c :: cs) := by
      unfold Text.takeSign
      split
      · rename_i hc
        exact absurd (List.cons.inj hc).1 minus
      · rename_i hc
        exact absurd (List.cons.inj hc).1 plus
      · rfl
    rw [unsigned, unsigned]
    exact ⟨rfl, h⟩
  · rw [ended.takeSign, ended'.takeSign]
    exact ⟨rfl, h⟩

lemma offsetValue?_stopped (h : Stopped (cs.dropWhile isBlank)) : offsetValue? cs = none := by
  unfold offsetValue?
  dsimp only
  rw [h.takeSign]
  dsimp only
  rw [(h.skip isDigit_of_isStop).1]
  exact if_pos (Bool.or_true _)

lemma Near.offsetValue? (h : Near cs ds) :
    offsetValue? cs = none ∧ offsetValue? ds = none ∨
      ∃ n r s, offsetValue? cs = some (n, r) ∧ offsetValue? ds = some (n, s) ∧ Near r s := by
  have inside : Near (cs.dropWhile isBlank) (ds.dropWhile isBlank) :=
    h.skip (fun _ hc => hc) (by decide) (by decide)
  rcases h.blanks with gap | ⟨ended, ended'⟩
  · obtain ⟨sign, unsigned⟩ := inside.takeSign
    obtain ⟨digits, rest⟩ := unsigned.span isDigit_of_isStop
    unfold Statement.offsetValue?
    dsimp only
    rw [gap, digits, sign]
    split
    · exact .inl ⟨rfl, rfl⟩
    · exact .inr ⟨_, _, _, rfl, rfl, rest⟩
  · exact .inl ⟨offsetValue?_stopped ended, offsetValue?_stopped ended'⟩

def directive : List Char := ['#', 'o', 'f', 'f', 's', 'e', 't']

lemma isStop_directive : ∀ c ∈ directive, isStop c = false := by
  have all : directive.all (!isStop ·) = true := by decide
  intro c hc
  simpa using List.all_eq_true.1 all c hc

lemma front_directive (column : ℕ) (cs : List Char) : front column (directive ++ cs) =
    match offsetValue? cs with
    | some (value, rest) => (some (.offset value column), rest)
    | none => (none, directive ++ cs) := rfl

lemma front_other (column : ℕ) (h : ∀ cs', cs ≠ directive ++ cs')
    (first : ∀ c ∈ cs.head?, c.isAlpha = false) : front column cs = (none, cs) := by
  unfold front
  split
  · exact absurd rfl (h _)
  · rename_i c cs' _
    have : c.isAlpha = false := first c rfl
    rw [if_neg (by simp [this])]
  · rfl

lemma Near.front (h : Near cs ds) (column column' : ℕ) :
    (front column cs).1.map placeless = (front column' ds).1.map placeless ∧
      Near (front column cs).2 (front column' ds).2 := by
  rcases h.strip isStop_directive with ⟨cs, ds, rfl, rfl, rest⟩ | ⟨other, other'⟩
  · rw [front_directive, front_directive]
    rcases rest.offsetValue? with ⟨left, right⟩ | ⟨n, r, s, left, right, near⟩ <;>
      rw [left, right]
    · exact ⟨rfl, h⟩
    · exact ⟨rfl, near⟩
  rcases h.head with ⟨c, cs, ds, rfl, rfl, rest⟩ | ⟨ended, ended'⟩
  · by_cases alpha : c.isAlpha = true
    · obtain ⟨word, after⟩ := rest.span isWordChar_of_isStop
      rw [front_of_isAlpha column alpha, front_of_isAlpha column' alpha, word]
      obtain ⟨tokens, more⟩ := after.operands
        (column + (c :: ds.takeWhile isWordChar).length)
        (column' + (c :: ds.takeWhile isWordChar).length)
      refine ⟨?_, more⟩
      simp only [Prod.map_fst, Option.map_some, placeless, map_placeless tokens]
    · have first (cs : List Char) : ∀ d ∈ (c :: cs).head?, d.isAlpha = false := by
        rintro d hd
        obtain rfl : c = d := Option.some.inj hd
        simpa using alpha
      rw [front_other column other (first cs), front_other column' other' (first ds)]
      exact ⟨rfl, h⟩
  · have first {cs : List Char} (ended : Stopped cs) : ∀ d ∈ cs.head?, d.isAlpha = false :=
      fun d hd => isAlpha_of_isStop d (ended d hd)
    rw [front_other column other (first ended), front_other column' other' (first ended')]
    exact ⟨rfl, h⟩

/-! ### Lines -/

lemma dropComment_cons_space {c : Char} (h : isSpace c = true) (cs : List Char) :
    dropComment (c :: cs) = dropComment cs := by
  unfold dropComment
  rw [List.dropWhile_cons_of_pos h]

lemma dropComment_remark : dropComment (';' :: cs) = cs.dropWhile (· != '\n') := rfl

lemma dropComment_ink {c : Char} (space : ¬ isSpace c = true) (hc : c ≠ ';') (cs : List Char) :
    dropComment (c :: cs) = c :: cs := by
  unfold dropComment
  rw [List.dropWhile_cons_of_neg space]
  split
  · rename_i h
    exact absurd (List.cons.inj h).1 hc
  · rfl

lemma dropComment_gap (space : ∀ c ∈ gap, isSpace c = true) (cs : List Char) :
    dropComment (gap ++ cs) = dropComment cs := by
  unfold dropComment
  rw [List.dropWhile_append_of_pos space]

/-- A remark takes up the rest of a line. -/
lemma dropComment_remark_eq_nil : dropComment (';' :: cs) = [] ↔ '\n' ∉ cs := by
  rw [dropComment_remark, List.dropWhile_eq_nil_iff]
  constructor
  · intro h hc
    exact absurd (h _ hc) (by decide)
  · intro h c hc
    rw [bne_iff_ne]
    rintro rfl
    exact h hc

lemma Near.newline_mem_iff (h : Near cs ds) : '\n' ∈ cs ↔ '\n' ∈ ds := by
  have gapless {gap : List Char} (blank : ∀ c ∈ gap, isBlank c = true) : '\n' ∉ gap :=
    fun hc => absurd (blank _ hc) (by decide)
  induction h with
  | same cs => exact Iff.rfl
  | cons c rest ih =>
    rw [List.mem_cons, List.mem_cons]
    exact or_congr Iff.rfl ih
  | finish blank => exact iff_of_false List.not_mem_nil (gapless blank)
  | remark single =>
    refine iff_of_false List.not_mem_nil ?_
    rw [List.mem_cons, not_or]
    exact ⟨by decide, single⟩
  | comma blank blank' after =>
    rw [List.mem_append, List.mem_cons, List.mem_cons, List.mem_append]
    simp only [gapless blank, gapless blank', false_or]

lemma Near.dropComment_eq_nil (h : Near cs ds) : dropComment cs = [] ↔ dropComment ds = [] := by
  induction h with
  | same cs => exact Iff.rfl
  | cons c rest ih =>
    by_cases space : isSpace c = true
    · rw [dropComment_cons_space space, dropComment_cons_space space]
      exact ih
    by_cases hc : c = ';'
    · subst hc
      rw [dropComment_remark_eq_nil, dropComment_remark_eq_nil, rest.newline_mem_iff]
    · rw [dropComment_ink space hc, dropComment_ink space hc]
      exact iff_of_false (List.cons_ne_nil _ _) (List.cons_ne_nil _ _)
  | finish blank =>
    have := dropComment_gap (isSpace_of_mem_gap blank) []
    rw [List.append_nil] at this
    rw [this]
  | remark single => exact iff_of_true rfl (dropComment_remark_eq_nil.2 single)
  | comma blank blank' after =>
    rw [dropComment_gap (isSpace_of_mem_gap blank), dropComment_ink (by decide) (by decide),
      dropComment_ink (by decide) (by decide)]
    exact iff_of_false (List.cons_ne_nil _ _) (List.cons_ne_nil _ _)

lemma meaning_eq (cs : List Char) : ∃ column, meaning cs =
    if dropComment (front column (cs.dropWhile isSpace)).2 = [] then
      some ((front column (cs.dropWhile isSpace)).1.map placeless)
    else none := by
  refine ⟨(cs.takeWhile isSpace).length + 1, ?_⟩
  unfold meaning scan
  dsimp only
  split
  · rename_i h
    split at h
    · rename_i ended
      rw [if_pos (List.isEmpty_iff.1 ended), Except.ok.inj h]
    · cases h
  · rename_i h
    split at h
    · cases h
    · rename_i left
      rw [if_neg (fun ended => left (List.isEmpty_iff.2 ended))]

lemma Near.meaning_eq (h : Near (cs.dropWhile isSpace) (ds.dropWhile isSpace)) :
    meaning cs = meaning ds := by
  obtain ⟨column, left⟩ := Statement.meaning_eq cs
  obtain ⟨column', right⟩ := Statement.meaning_eq ds
  obtain ⟨statement, rest⟩ := h.front column column'
  rw [left, right, statement]
  simp only [rest.dropComment_eq_nil]

/-- **The layout of a line does not matter.** -/
theorem Respaced.meaning_eq (h : Respaced cs ds) : meaning cs = meaning ds := by
  have single {note : List Char} (h : ∀ c ∈ note, isLineEnd c = false) : '\n' ∉ note :=
    fun hc => absurd (h _ hc) (by decide)
  cases h with
  | start blank cs =>
    refine Near.meaning_eq ?_
    rw [List.dropWhile_append_of_pos (isSpace_of_mem_gap blank)]
    exact .same _
  | finish blank cs =>
    have near := (Near.finish blank).append cs
    rw [List.append_nil] at near
    exact near.skipSpace.meaning_eq
  | comma blank blank' before after =>
    exact ((Near.comma blank blank' after).append before).skipSpace.meaning_eq
  | remark note cs =>
    have near := (Near.remark (single note)).append cs
    rw [List.append_nil] at near
    exact near.skipSpace.meaning_eq

/-- A blank line says nothing, and neither does a remark. -/
theorem Idle.meaning_eq (h : Idle cs) : meaning cs = some none := by
  have blank {gap : List Char} (space : ∀ c ∈ gap, isSpace c = true) : meaning gap = some none := by
    obtain ⟨column, said⟩ := Statement.meaning_eq gap
    rw [said, dropWhile_gap space]
    rfl
  cases h with
  | blank space => exact blank space
  | @remark gap note space single => exact (Respaced.remark single gap).meaning_eq ▸ blank space

end SeqAsm.Statement
