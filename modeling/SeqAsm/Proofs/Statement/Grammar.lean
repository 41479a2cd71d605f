import Mathlib.Data.List.Basic
import SeqAsm.Proofs.Statement.Layout

/-!
The grammar of a line.

The grammar says what lines there are, as sequences of parts, and leaves open how to find where a
part ends. The scanner takes as much as it can for each part and never goes back. Nothing is lost by
that, because what may follow a part never begins with a character that the part could go on with.
So the scanner reads a line exactly as the grammar does, and the words and tokens that it finds stand
at their columns.
-/

namespace SeqAsm

open Text

/-! ### Numerals and operands -/

namespace Text

/-- Digits of any scripts, at least one. -/
def Numeral (ds : List Char) : Prop := ds ≠ [] ∧ ∀ c ∈ ds, isDigit c = true

/-- An integer with digits and perhaps a sign. -/
inductive Signed : List Char → Int → Prop
  | plain {ds : List Char} : Numeral ds → Signed ds (natValue ds)
  | plus {ds : List Char} : Numeral ds → Signed ('+' :: ds) (natValue ds)
  | minus {ds : List Char} : Numeral ds → Signed ('-' :: ds) (-natValue ds)

variable {cs ds : List Char} {n : Int}

lemma numeral_iff : Numeral ds ↔ (!ds.isEmpty && ds.all isDigit) = true := by
  simp [Numeral]

lemma Numeral.exists_cons (h : Numeral ds) : ∃ d ds', ds = d :: ds' ∧ isDigit d = true := by
  obtain ⟨d, ds', rfl⟩ := List.exists_cons_of_ne_nil h.1
  exact ⟨d, ds', rfl, h.2 d List.mem_cons_self⟩

lemma takeSign_cases (cs : List Char) :
    (∃ ds, cs = '-' :: ds ∧ takeSign cs = (true, ds)) ∨
    (∃ ds, cs = '+' :: ds ∧ takeSign cs = (false, ds)) ∨ takeSign cs = (false, cs) := by
  unfold takeSign
  split
  · exact .inl ⟨_, rfl, rfl⟩
  · exact .inr (.inl ⟨_, rfl, rfl⟩)
  · exact .inr (.inr rfl)

lemma Numeral.takeSign_append (h : Numeral ds) (rest : List Char) :
    takeSign (ds ++ rest) = (false, ds ++ rest) := by
  obtain ⟨d, ds', rfl, digit⟩ := h.exists_cons
  rcases takeSign_cases (d :: ds' ++ rest) with ⟨_, hs, -⟩ | ⟨_, hs, -⟩ | unsigned
  · obtain rfl := (List.cons.inj hs).1
    exact absurd digit (by decide)
  · obtain rfl := (List.cons.inj hs).1
    exact absurd digit (by decide)
  · exact unsigned

lemma Signed.takeSign_append (h : Signed cs n) (rest : List Char) : ∃ ds, Numeral ds ∧
    (takeSign (cs ++ rest)).2 = ds ++ rest ∧
      n = if (takeSign (cs ++ rest)).1 then -(natValue ds : Int) else natValue ds := by
  cases h with
  | plain numeral =>
    rw [numeral.takeSign_append]
    exact ⟨_, numeral, rfl, rfl⟩
  | plus numeral => exact ⟨_, numeral, rfl, rfl⟩
  | minus numeral => exact ⟨_, numeral, rfl, rfl⟩

/-- What is left when a sign is taken off makes an integer with it. -/
lemma signed_of_takeSign {rest : List Char} (left : (takeSign cs).2 = ds ++ rest)
    (numeral : Numeral ds) : ∃ front, cs = front ++ rest ∧
      Signed front (if (takeSign cs).1 then -(natValue ds : Int) else natValue ds) := by
  rcases takeSign_cases cs with ⟨cs', rfl, sign⟩ | ⟨cs', rfl, sign⟩ | sign <;> rw [sign] at left ⊢
  · obtain rfl : cs' = ds ++ rest := left
    exact ⟨'-' :: ds, rfl, .minus numeral⟩
  · obtain rfl : cs' = ds ++ rest := left
    exact ⟨'+' :: ds, rfl, .plus numeral⟩
  · obtain rfl : cs = ds ++ rest := left
    exact ⟨ds, rfl, .plain numeral⟩

lemma signed_iff : Signed cs n ↔ Numeral (takeSign cs).2 ∧ intValue cs = n := by
  have value (cs : List Char) : intValue cs = if (takeSign cs).1 then
      -(natValue (takeSign cs).2 : Int) else natValue (takeSign cs).2 := by
    unfold intValue
    rcases takeSign cs with ⟨_ | _, _⟩ <;> rfl
  rw [value]
  constructor
  · intro h
    obtain ⟨ds, numeral, left, rfl⟩ := h.takeSign_append []
    rw [List.append_nil, List.append_nil] at left
    rw [List.append_nil, left]
    exact ⟨numeral, rfl⟩
  · rintro ⟨numeral, rfl⟩
    obtain ⟨front, whole, signed⟩ := signed_of_takeSign (List.append_nil _).symm numeral
    rw [List.append_nil] at whole
    subst whole
    exact signed

end Text

namespace Operand

/-- What characters denote as an operand. -/
inductive Denoted : List Char → Operand → Prop
  | ind {ds : List Char} : Numeral ds → Denoted ('$' :: '$' :: ds) (.ind (natValue ds))
  | reg {ds : List Char} : Numeral ds → Denoted ('$' :: ds) (.reg (natValue ds))
  | const {cs : List Char} {n : Int} : Signed cs n → Denoted cs (.const n)

/-- **An operand is read from the characters that denote it**, and from no others. -/
lemma read?_eq_some_iff {cs : List Char} {o : Operand} : read? cs = some o ↔ Denoted cs o := by
  have dollar {ds : List Char} (h : Numeral ('$' :: ds)) : False :=
    absurd (h.2 _ List.mem_cons_self) (by decide)
  constructor
  · intro h
    unfold read? at h
    split at h
    · split at h
      · obtain rfl := Option.some.inj h
        exact .ind (numeral_iff.2 ‹_›)
      · cases h
    · split at h
      · obtain rfl := Option.some.inj h
        exact .reg (numeral_iff.2 ‹_›)
      · cases h
    · dsimp only at h
      split at h
      · obtain rfl := Option.some.inj h
        exact .const (signed_iff.2 ⟨numeral_iff.2 ‹_›, rfl⟩)
      · cases h
  · intro h
    cases h with
    | ind numeral => exact if_pos (numeral_iff.1 numeral)
    | reg numeral =>
      unfold read?
      split
      · rename_i hs
        obtain rfl := (List.cons.inj hs).2
        exact (dollar numeral).elim
      · rename_i hs
        obtain rfl := (List.cons.inj hs).2
        exact if_pos (numeral_iff.1 numeral)
      · rename_i hs
        exact absurd rfl (hs _)
    | @const _ n signed =>
      have unsigned (ds : List Char) : ¬ Signed ('$' :: ds) n := by
        rintro ⟨numeral⟩
        exact dollar numeral
      obtain ⟨numeral, rfl⟩ := signed_iff.1 signed
      unfold read?
      split
      · exact absurd signed (unsigned _)
      · exact absurd signed (unsigned _)
      · exact if_pos (numeral_iff.1 numeral)

end Operand

namespace Statement

/-! ### The grammar -/

/-- What may stand behind a statement: white space, and a remark up to the end of the line. -/
inductive Tail : List Char → Prop
  | space {gap : List Char} (space : ∀ c ∈ gap, isSpace c = true) : Tail gap
  | remark {gap note : List Char} (space : ∀ c ∈ gap, isSpace c = true) (single : '\n' ∉ note) :
      Tail (gap ++ ';' :: note)

/-- A word: a letter, and then letters, digits and underscores. -/
inductive Word : List Char → Prop
  | mk {c : Char} {cs : List Char} : c.isAlpha = true → (∀ d ∈ cs, isWordChar d = true) →
      Word (c :: cs)

/-- Characters other than commas, semicolons and white space, at least one. -/
def IsToken (cs : List Char) : Prop := cs ≠ [] ∧ ∀ c ∈ cs, isTokenChar c = true

/-- Tokens that follow others from a column on, each behind a comma with or without white space
around it. -/
inductive Further : ℕ → List Char → List Token → Prop
  | none (column : ℕ) : Further column [] []
  | comma {column : ℕ} {gap gap' token cs : List Char} {tokens : List Token}
      (space : ∀ c ∈ gap, isSpace c = true) (space' : ∀ c ∈ gap', isSpace c = true)
      (whole : IsToken token)
      (rest : Further (column + gap.length + 1 + gap'.length + token.length) cs tokens) :
      Further column (gap ++ ',' :: (gap' ++ (token ++ cs)))
        (⟨token, column + gap.length + 1 + gap'.length⟩ :: tokens)

/-- What may stand behind a word from a column on: nothing, or blanks and tokens. -/
inductive Arguments : ℕ → List Char → List Token → Prop
  | none (column : ℕ) : Arguments column [] []
  | blank {column : ℕ} {gap token cs : List Char} {tokens : List Token} (apart : gap ≠ [])
      (blank : ∀ c ∈ gap, isBlank c = true) (whole : IsToken token)
      (rest : Further (column + gap.length + token.length) cs tokens) :
      Arguments column (gap ++ (token ++ cs)) (⟨token, column + gap.length⟩ :: tokens)

/-- The lines that there are, with what they say. -/
inductive Line : List Char → Option Statement → Prop
  | idle {cs : List Char} (tail : Tail cs) : Line cs none
  | offset {lead gap numeral cs : List Char} {value : Int} (space : ∀ c ∈ lead, isSpace c = true)
      (apart : gap ≠ []) (blank : ∀ c ∈ gap, isBlank c = true) (signed : Signed numeral value)
      (tail : Tail cs) :
      Line (lead ++ (directive ++ (gap ++ (numeral ++ cs))))
        (some (.offset value (lead.length + 1)))
  | instruction {lead word arguments cs : List Char} {tokens : List Token}
      (space : ∀ c ∈ lead, isSpace c = true) (isWord : Word word)
      (found : Arguments (lead.length + 1 + word.length) arguments tokens) (tail : Tail cs) :
      Line (lead ++ (word ++ (arguments ++ cs)))
        (some (.instruction (String.ofList word) (lead.length + 1) tokens))

variable {cs gap rest : List Char} {column column' : ℕ} {tokens : List Token} {p : Char → Bool}

/-! ### The end of a line -/

lemma takeWhile_all (p : Char → Bool) (cs : List Char) : ∀ c ∈ cs.takeWhile p, p c = true :=
  fun _ hc => List.mem_takeWhile_imp hc

/-- Behind its white space the end of a line has at most a remark. -/
lemma Tail.dropWhile (h : Tail cs) :
    cs.dropWhile isSpace = [] ∨ ∃ note, cs.dropWhile isSpace = ';' :: note ∧ '\n' ∉ note := by
  cases h with
  | space space => exact .inl (dropWhile_gap space)
  | remark space single =>
    rw [List.dropWhile_append_of_pos space]
    exact .inr ⟨_, rfl, single⟩

lemma Tail.append (h : Tail cs) (space : ∀ c ∈ gap, isSpace c = true) : Tail (gap ++ cs) := by
  cases h with
  | space space' => exact .space (List.forall_mem_append.2 ⟨space, space'⟩)
  | remark space' single =>
    rw [← List.append_assoc]
    exact .remark (List.forall_mem_append.2 ⟨space, space'⟩) single

/-- **A line ends in white space and a remark.** -/
lemma dropComment_eq_nil_iff : dropComment cs = [] ↔ Tail cs := by
  constructor
  · intro h
    have space := takeWhile_all isSpace cs
    have split := List.takeWhile_append_dropWhile (p := isSpace) (l := cs)
    rw [← split, dropComment_gap space] at h
    rcases hd : cs.dropWhile isSpace with _ | ⟨c, note⟩ <;> rw [hd] at h split
    · rw [← split, List.append_nil]
      exact .space space
    · have ink : ¬ isSpace c = true := by
        have := List.head_dropWhile_not isSpace (l := cs) (by simp [hd])
        simpa [hd] using this
      by_cases hc : c = ';'
      · subst hc
        rw [← split]
        exact .remark space (dropComment_remark_eq_nil.1 h)
      · rw [dropComment_ink ink hc] at h
        cases h
  · intro h
    cases h with
    | space space =>
      have := dropComment_gap space []
      rwa [List.append_nil] at this
    | remark space single =>
      rw [dropComment_gap space]
      exact dropComment_remark_eq_nil.2 single

/-! ### What a part cannot go on with -/

/-- White space holds no digits and no characters of words. -/
lemma other_of_isSpace {c : Char} (h : isSpace c = true) :
    isDigit c = false ∧ isWordChar c = false := by
  have spaces : ∀ n ∈ [9, 10, 11, 12, 13, 0x20, 0x85, 0xA0, 0x1680, 0x2000, 0x2001, 0x2002, 0x2003,
      0x2004, 0x2005, 0x2006, 0x2007, 0x2008, 0x2009, 0x200A, 0x2028, 0x2029, 0x202F, 0x205F,
      0x3000], isDigit (Char.ofNat n) = false ∧ isWordChar (Char.ofNat n) = false := by decide
  have here := spaces c.toNat (by
    simp only [isSpace, Bool.or_eq_true, Bool.and_eq_true, decide_eq_true_eq, beq_iff_eq] at h
    simp only [List.mem_cons, List.not_mem_nil, or_false]
    omega)
  rwa [Char.ofNat_toNat] at here

lemma isSpace_of_isAlpha {c : Char} (h : c.isAlpha = true) : isSpace c = false := by
  by_contra space
  have := (other_of_isSpace (by simpa using space)).2
  simp [isWordChar, Char.isAlphanum, h] at this

lemma isSpace_of_isTokenChar {c : Char} (h : isTokenChar c = true) : isSpace c = false := by
  simp only [isTokenChar, Bool.and_eq_true, Bool.not_eq_true'] at h
  exact h.2

lemma isBlank_of_not_isSpace {c : Char} (h : isSpace c = false) : isBlank c = false := by
  by_contra blank
  rw [isSpace_of_isBlank (by simpa using blank)] at h
  cases h

lemma Tail.head (h : Tail cs) {c : Char} (hc : c ∈ cs.head?) : isSpace c = true ∨ c = ';' := by
  cases h with
  | space space => exact .inl (space c (List.mem_of_mem_head? hc))
  | @remark gap note space single =>
    rcases gap with _ | ⟨d, gap⟩
    · exact .inr (Option.some.inj hc).symm
    · obtain rfl : d = c := Option.some.inj hc
      exact .inl (space d List.mem_cons_self)

lemma Tail.isDigit_head (h : Tail cs) : ∀ c ∈ cs.head?, isDigit c = false := by
  intro c hc
  rcases h.head hc with space | rfl
  · exact (other_of_isSpace space).1
  · decide

lemma Tail.note {note : List Char} (single : '\n' ∉ note) : Tail (';' :: note) := by
  have tail := Tail.remark (List.forall_mem_nil fun c => isSpace c = true) single
  rwa [List.nil_append] at tail

/-- What is left of the end of a line without its first blanks ends the line, too. -/
lemma Tail.skip (h : Tail cs) : Tail (cs.dropWhile isBlank) := by
  cases h with
  | space space => exact .space fun c hc => space c ((List.dropWhile_sublist isBlank).mem hc)
  | @remark gap note space single =>
    rw [List.dropWhile_append]
    split
    · rw [List.dropWhile_cons_of_neg (by decide)]
      exact .note single
    · exact .remark (fun c hc => space c ((List.dropWhile_sublist isBlank).mem hc)) single

lemma Tail.takeWhile_isTokenChar (h : Tail cs) : cs.takeWhile isTokenChar = [] := by
  refine (skip_stop fun c hc => ?_).1
  rcases h.head hc with space | rfl
  · simp [isTokenChar, space]
  · rfl

lemma Signed.isBlank_head {n : Int} (h : Signed cs n) (rest : List Char) :
    ∀ c ∈ (cs ++ rest).head?, isBlank c = false := by
  have digit {c : Char} (hc : isDigit c = true) : isBlank c = false := by
    refine isBlank_of_not_isSpace (by_contra fun space => ?_)
    rw [(other_of_isSpace (by simpa using space)).1] at hc
    cases hc
  intro c hc
  cases h with
  | plain numeral =>
    obtain ⟨d, ds, rfl, hd⟩ := numeral.exists_cons
    obtain rfl : d = c := Option.some.inj hc
    exact digit hd
  | plus numeral =>
    obtain rfl : '+' = c := Option.some.inj hc
    decide
  | minus numeral =>
    obtain rfl : '-' = c := Option.some.inj hc
    decide

lemma Further.isTokenChar_head (h : Further column cs tokens) (tail : Tail rest) :
    ∀ c ∈ (cs ++ rest).head?, isTokenChar c = false := by
  have space {c : Char} (h : isSpace c = true) : isTokenChar c = false := by simp [isTokenChar, h]
  intro c hc
  cases h with
  | none =>
    rcases tail.head hc with h | rfl
    · exact space h
    · rfl
  | @comma _ gap _ _ _ _ blank =>
    rcases gap with _ | ⟨d, gap⟩
    · obtain rfl : ',' = c := Option.some.inj hc
      rfl
    · obtain rfl : d = c := Option.some.inj hc
      exact space (blank d List.mem_cons_self)

lemma Arguments.isWordChar_head (h : Arguments column cs tokens) (tail : Tail rest) :
    ∀ c ∈ (cs ++ rest).head?, isWordChar c = false := by
  intro c hc
  cases h with
  | none =>
    rcases tail.head hc with h | rfl
    · exact (other_of_isSpace h).2
    · decide
  | @blank gap _ _ _ apart blank =>
    obtain ⟨d, gap, rfl⟩ := List.exists_cons_of_ne_nil apart
    obtain rfl : d = c := Option.some.inj hc
    exact (other_of_isSpace (isSpace_of_isBlank (blank d List.mem_cons_self))).2

lemma IsToken.head {token : List Char} (whole : IsToken token) (rest : List Char) :
    ∀ c ∈ (token ++ rest).head?, isSpace c = false := by
  obtain ⟨d, token, rfl⟩ := List.exists_cons_of_ne_nil whole.1
  rintro c hc
  obtain rfl : d = c := Option.some.inj hc
  exact isSpace_of_isTokenChar (whole.2 d List.mem_cons_self)

/-! ### Operands -/

/-- Tokens are found as the grammar has them. -/
lemma Further.moreOperands_eq (h : Further column cs tokens) (tail : Tail rest) :
    ∃ column', moreOperands column (cs ++ rest) = (tokens, rest, column') := by
  induction h with
  | none column =>
    refine ⟨column, moreOperands_other (fun r hr => ?_) column⟩
    rw [List.nil_append] at hr
    rcases tail.dropWhile with h | ⟨note, h, -⟩ <;> cases h.symm.trans hr
  | @comma column gap gap' token cs tokens space space' whole rest' ih =>
    obtain ⟨column', more⟩ := ih
    have inside := fun c hc => whole.2 c hc
    have after := rest'.isTokenChar_head tail
    have comma (r : List Char) : ∀ c ∈ (',' :: r).head?, isSpace c = false := by
      rintro c hc
      obtain rfl : ',' = c := Option.some.inj hc
      decide
    have front := whole.head (cs ++ rest)
    refine ⟨column', ?_⟩
    rw [List.append_assoc, List.cons_append, List.append_assoc, List.append_assoc,
      moreOperands_comma (dropWhile_append_stop space (comma _)),
      takeWhile_append_stop space (comma _), takeWhile_append_stop space' front,
      dropWhile_append_stop space' front, takeWhile_append_stop inside after,
      dropWhile_append_stop inside after, if_neg (by simpa using whole.1)]
    dsimp only
    rw [more]

lemma Arguments.operands_eq (h : Arguments column cs tokens) (tail : Tail rest) :
    operands column (cs ++ rest) = (tokens, rest) := by
  unfold operands
  dsimp only
  cases h with
  | none =>
    rw [List.nil_append, tail.skip.takeWhile_isTokenChar]
    exact if_pos (Bool.or_true _)
  | @blank gap token cs tokens apart blank whole rest' =>
    obtain ⟨column', more⟩ := rest'.moreOperands_eq tail
    have inside := fun c hc => whole.2 c hc
    have after := rest'.isTokenChar_head tail
    have front : ∀ c ∈ (token ++ (cs ++ rest)).head?, isBlank c = false :=
      fun c hc => isBlank_of_not_isSpace (whole.head _ c hc)
    rw [List.append_assoc, List.append_assoc, takeWhile_append_stop blank front,
      dropWhile_append_stop blank front, takeWhile_append_stop inside after,
      dropWhile_append_stop inside after, if_neg (by simp [apart, whole.1]), more]

/-- What is taken for a token is one, if it is anything. -/
lemma isToken_takeWhile {cs : List Char} (some : ¬ (cs.takeWhile isTokenChar).isEmpty = true) :
    IsToken (cs.takeWhile isTokenChar) :=
  ⟨fun none => some (List.isEmpty_iff.2 none), takeWhile_all isTokenChar cs⟩

/-- The grammar has the tokens that are found. -/
lemma further_of_moreOperands (column : ℕ) (cs : List Char) : ∃ front,
    cs = front ++ (moreOperands column cs).2.1 ∧ Further column front (moreOperands column cs).1 := by
  fun_induction moreOperands column cs with
  | case1 column cs => exact ⟨[], rfl, .none column⟩
  | case2 column cs gap r hr gap' token rest some start tokens rest' column' more ih =>
    obtain ⟨front, split, further⟩ := ih
    rw [more] at split further
    refine ⟨gap ++ ',' :: (gap' ++ (token ++ front)), ?_,
      .comma (takeWhile_all isSpace cs) (takeWhile_all isSpace r) (isToken_takeWhile some) further⟩
    calc cs = gap ++ ',' :: r := by rw [← hr, List.takeWhile_append_dropWhile]
      _ = gap ++ ',' :: (gap' ++ (token ++ rest)) := by
        rw [List.takeWhile_append_dropWhile, List.takeWhile_append_dropWhile]
      _ = (gap ++ ',' :: (gap' ++ (token ++ front))) ++ rest' := by
        rw [split]
        simp only [List.append_assoc, List.cons_append]
  | case3 column cs => exact ⟨[], rfl, .none column⟩

lemma arguments_of_operands (column : ℕ) (cs : List Char) : ∃ front,
    cs = front ++ (operands column cs).2 ∧ Arguments column front (operands column cs).1 := by
  unfold operands
  dsimp only
  split
  · exact ⟨[], rfl, .none column⟩
  · rename_i some
    rw [Bool.or_eq_true, not_or] at some
    obtain ⟨front, split, further⟩ := further_of_moreOperands
      (column + (cs.takeWhile isBlank).length + ((cs.dropWhile isBlank).takeWhile isTokenChar).length)
      ((cs.dropWhile isBlank).dropWhile isTokenChar)
    have apart : cs.takeWhile isBlank ≠ [] := fun none => some.1 (List.isEmpty_iff.2 none)
    refine ⟨_, ?_, .blank apart (takeWhile_all isBlank cs) (isToken_takeWhile some.2) further⟩
    rw [List.append_assoc, List.append_assoc, ← split, List.takeWhile_append_dropWhile,
      List.takeWhile_append_dropWhile]

/-! ### Statements -/

lemma offsetValue?_eq {numeral : List Char} {value : Int} (apart : gap ≠ [])
    (blank : ∀ c ∈ gap, isBlank c = true) (signed : Signed numeral value) (tail : Tail rest) :
    offsetValue? (gap ++ (numeral ++ rest)) = some (value, rest) := by
  have front := Signed.isBlank_head signed rest
  obtain ⟨ds, digits, left, rfl⟩ := signed.takeSign_append rest
  unfold offsetValue?
  dsimp only
  rw [takeWhile_append_stop blank front, dropWhile_append_stop blank front, left,
    takeWhile_append_stop digits.2 tail.isDigit_head, dropWhile_append_stop digits.2 tail.isDigit_head,
    if_neg (by simp [apart, digits.1])]

lemma signed_of_offsetValue? {value : Int} (h : offsetValue? cs = some (value, rest)) :
    ∃ gap numeral, gap ≠ [] ∧ (∀ c ∈ gap, isBlank c = true) ∧ Signed numeral value ∧
      cs = gap ++ (numeral ++ rest) := by
  unfold offsetValue? at h
  dsimp only at h
  split at h
  · cases h
  · rename_i some
    rw [Bool.or_eq_true, not_or] at some
    obtain ⟨rfl, rfl⟩ := Prod.mk.inj (Option.some.inj h)
    have left := (List.takeWhile_append_dropWhile (p := isDigit)
      (l := (takeSign (cs.dropWhile isBlank)).2)).symm
    have numeral : Numeral ((takeSign (cs.dropWhile isBlank)).2.takeWhile isDigit) :=
      ⟨fun none => some.2 (List.isEmpty_iff.2 none), takeWhile_all isDigit _⟩
    obtain ⟨front, split, signed⟩ := signed_of_takeSign left numeral
    have apart : cs.takeWhile isBlank ≠ [] := fun none => some.1 (List.isEmpty_iff.2 none)
    refine ⟨cs.takeWhile isBlank, front, apart, takeWhile_all isBlank cs, signed, ?_⟩
    rw [← split, List.takeWhile_append_dropWhile]

/-- What is found in front is a directive, a word with what belongs to it, or no statement. -/
lemma front_cases (column : ℕ) (cs : List Char) :
    (∃ gap numeral value rest, gap ≠ [] ∧ (∀ c ∈ gap, isBlank c = true) ∧ Signed numeral value ∧
      cs = directive ++ (gap ++ (numeral ++ rest)) ∧
        front column cs = (some (.offset value column), rest)) ∨
    (∃ word arguments tokens rest, Word word ∧
      Arguments (column + word.length) arguments tokens ∧ cs = word ++ (arguments ++ rest) ∧
        front column cs = (some (.instruction (String.ofList word) column tokens), rest)) ∨
    front column cs = (none, cs) := by
  by_cases hd : ∃ cs', cs = directive ++ cs'
  · obtain ⟨cs', rfl⟩ := hd
    rw [front_directive]
    rcases hv : offsetValue? cs' with _ | ⟨value, rest⟩
    · exact .inr (.inr rfl)
    · obtain ⟨gap, numeral, apart, blank, signed, rfl⟩ := signed_of_offsetValue? hv
      exact .inl ⟨gap, numeral, value, rest, apart, blank, signed, rfl, rfl⟩
  rcases cs with _ | ⟨c, cs⟩
  · exact .inr (.inr rfl)
  by_cases alpha : c.isAlpha = true
  · obtain ⟨arguments, parts, found⟩ := arguments_of_operands
      (column + (c :: cs.takeWhile isWordChar).length) (cs.dropWhile isWordChar)
    refine .inr (.inl ⟨c :: cs.takeWhile isWordChar, arguments, _, _,
      .mk alpha (takeWhile_all isWordChar cs), found, ?_, front_of_isAlpha column alpha cs⟩)
    change _ = _ ++ (arguments ++ (operands _ _).2)
    rw [← parts, List.cons_append, List.takeWhile_append_dropWhile]
  · refine .inr (.inr (front_other column (fun cs' h => hd ⟨cs', h⟩) fun d hd => ?_))
    obtain rfl : c = d := Option.some.inj hd
    simpa using alpha

/-! ### Lines -/

lemma scan_eq_ok_iff {statement : Option Statement} : scan cs = .ok statement ↔
    (front ((cs.takeWhile isSpace).length + 1) (cs.dropWhile isSpace)).1 = statement ∧
      Tail (front ((cs.takeWhile isSpace).length + 1) (cs.dropWhile isSpace)).2 := by
  unfold scan
  dsimp only
  rw [← dropComment_eq_nil_iff]
  split
  · rename_i ended
    rw [and_iff_left (List.isEmpty_iff.1 ended)]
    exact ⟨Except.ok.inj, congrArg _⟩
  · rename_i left
    exact ⟨nofun, fun h => absurd (List.isEmpty_iff.2 h.2) left⟩

lemma Line.scan_eq {statement : Option Statement} (h : Line cs statement) :
    scan cs = .ok statement := by
  rw [scan_eq_ok_iff]
  cases h with
  | idle tail =>
    rcases tail.dropWhile with none | ⟨note, remark, single⟩
    · rw [none]
      exact ⟨rfl, .space nofun⟩
    · rw [remark]
      exact ⟨rfl, .note single⟩
  | @offset lead gap numeral cs value space apart blank signed tail =>
    have stop : ∀ c ∈ (directive ++ (gap ++ (numeral ++ cs))).head?, isSpace c = false := by
      intro c hc
      obtain rfl : '#' = c := Option.some.inj hc
      decide
    rw [takeWhile_append_stop space stop, dropWhile_append_stop space stop, front_directive,
      offsetValue?_eq apart blank signed tail]
    exact ⟨rfl, tail⟩
  | @instruction lead word arguments cs tokens space isWord found tail =>
    obtain @⟨c, word, alpha, others⟩ := isWord
    have stop : ∀ d ∈ (c :: word ++ (arguments ++ cs)).head?, isSpace d = false := by
      intro d hd
      obtain rfl : c = d := Option.some.inj hd
      exact isSpace_of_isAlpha alpha
    have after := found.isWordChar_head tail
    rw [takeWhile_append_stop space stop, dropWhile_append_stop space stop, List.cons_append,
      front_of_isAlpha _ alpha, takeWhile_append_stop others after,
      dropWhile_append_stop others after, found.operands_eq tail]
    exact ⟨rfl, tail⟩

lemma line_of_scan {statement : Option Statement} (h : scan cs = .ok statement) :
    Line cs statement := by
  obtain ⟨rfl, tail⟩ := scan_eq_ok_iff.1 h
  have space := takeWhile_all isSpace cs
  have split := List.takeWhile_append_dropWhile (p := isSpace) (l := cs)
  generalize cs.takeWhile isSpace = lead at *
  generalize cs.dropWhile isSpace = ink at *
  subst split
  rcases front_cases (lead.length + 1) ink with
    ⟨gap, numeral, value, rest, apart, blank, signed, rfl, front⟩ |
    ⟨word, arguments, tokens, rest, isWord, found, rfl, front⟩ | front <;> rw [front] at tail ⊢
  · exact .offset space apart blank signed tail
  · exact .instruction space isWord found tail
  · exact .idle (tail.append space)

/-! ### Places -/

/-- Characters stand in a line from a column on; columns are counted from one. -/
def StandsAt (source : List Char) (column : ℕ) (cs : List Char) : Prop :=
  ∃ before after, source = before ++ (cs ++ after) ∧ column = before.length + 1

/-- A token stands in a line at a column, and it is a whole one: the characters next to it are no
part of a token. -/
def TokenAt (source : List Char) (column : ℕ) (token : List Char) : Prop :=
  ∃ before after, source = before ++ (token ++ after) ∧ column = before.length + 1 ∧
    IsToken token ∧ (∀ c ∈ before.getLast?, isTokenChar c = false) ∧
      ∀ c ∈ after.head?, isTokenChar c = false

variable {source token before : List Char}

lemma StandsAt.le (h : StandsAt source column cs) : column ≤ source.length + 1 := by
  obtain ⟨before, after, rfl, rfl⟩ := h
  rw [List.length_append]
  omega

/-- White space, and a comma before it or not, ends a token. -/
lemma isTokenChar_last {c : Char} (h : ∀ d ∈ c :: gap, isTokenChar d = false) :
    ∀ d ∈ (before ++ c :: gap).getLast?, isTokenChar d = false := by
  intro d hd
  rw [List.getLast?_append_cons] at hd
  exact h d (List.mem_of_getLast? hd)

lemma Further.tokenAt (h : Further column cs tokens) (before : List Char) (tail : Tail rest)
    (place : column = before.length + 1) :
    ∀ t ∈ tokens, TokenAt (before ++ (cs ++ rest)) t.column t.chars := by
  induction h generalizing before with
  | none => exact nofun
  | @comma column gap gap' token cs tokens space space' whole further ih =>
    subst place
    have separator : ∀ c ∈ ',' :: gap', isTokenChar c = false :=
      List.forall_mem_cons.2 ⟨rfl, fun c hc => by simp [isTokenChar, space' c hc]⟩
    refine List.forall_mem_cons.2 ⟨⟨before ++ gap ++ ',' :: gap', cs ++ rest, ?_, ?_, whole,
      isTokenChar_last separator, further.isTokenChar_head tail⟩, fun t ht => ?_⟩
    · simp only [List.append_assoc, List.cons_append]
    · simp only [List.length_append, List.length_cons]
      omega
    · have later := ih (before ++ gap ++ ',' :: (gap' ++ token))
        (by simp only [List.length_append, List.length_cons]; omega) t ht
      simpa only [List.append_assoc, List.cons_append] using later

lemma Arguments.tokenAt (h : Arguments column cs tokens) (before : List Char) (tail : Tail rest)
    (place : column = before.length + 1) :
    ∀ t ∈ tokens, TokenAt (before ++ (cs ++ rest)) t.column t.chars := by
  cases h with
  | none => exact nofun
  | @blank gap token cs tokens apart blank whole further =>
    subst place
    obtain ⟨c, gap, rfl⟩ := List.exists_cons_of_ne_nil apart
    have separator : ∀ d ∈ c :: gap, isTokenChar d = false :=
      fun d hd => by simp [isTokenChar, isSpace_of_isBlank (blank d hd)]
    refine List.forall_mem_cons.2 ⟨⟨before ++ c :: gap, cs ++ rest, ?_, ?_, whole,
      isTokenChar_last separator, further.isTokenChar_head tail⟩, fun t ht => ?_⟩
    · simp only [List.append_assoc, List.cons_append]
    · simp only [List.length_append, List.length_cons]
      omega
    · have later := further.tokenAt (before ++ c :: gap ++ token) tail
        (by simp only [List.length_append, List.length_cons]; omega) t ht
      simpa only [List.append_assoc, List.cons_append] using later

lemma Line.standsAt_directive {value : Int} (h : Line cs (some (.offset value column))) :
    StandsAt cs column directive := by
  cases h with
  | @offset lead gap numeral rest => exact ⟨lead, gap ++ (numeral ++ rest), rfl, rfl⟩

/-- **The words and tokens of a line stand at their columns.** -/
lemma Line.places {word : String} (h : Line cs (some (.instruction word column tokens))) :
    StandsAt cs column word.toList ∧ ∀ t ∈ tokens, TokenAt cs t.column t.chars := by
  cases h with
  | @instruction lead word arguments rest tokens space isWord found tail =>
    refine ⟨⟨lead, arguments ++ rest, by rw [String.toList_ofList], rfl⟩, fun t ht => ?_⟩
    have there := found.tokenAt (lead ++ word) tail
      (by rw [List.length_append]; omega) t ht
    rwa [List.append_assoc] at there

/-- **The scanner reads the grammar.** A line is read just when the grammar has it, and then as the
grammar has it: as nothing, as a directive with its integer, or as a word with its tokens. Other
lines cannot be read. The directive, the word and the tokens stand at their columns, the tokens as
whole ones, and a token has the operand that its characters denote, if they denote any. -/
theorem scan_reads_grammar (cs : List Char) :
    (∀ statement, scan cs = .ok statement ↔ Line cs statement) ∧
      ((∃ u, scan cs = .error u) ↔ ∀ statement, ¬ Line cs statement) ∧
      (∀ value column, Line cs (some (.offset value column)) → StandsAt cs column directive) ∧
      ∀ word column tokens, Line cs (some (.instruction word column tokens)) →
        StandsAt cs column word.toList ∧ ∀ t ∈ tokens, TokenAt cs t.column t.chars ∧
          ∀ o, t.operand? = some o ↔ Operand.Denoted t.chars o := by
  refine ⟨fun statement => ⟨line_of_scan, Line.scan_eq⟩, ⟨?_, fun none => ?_⟩,
    fun value column h => h.standsAt_directive, fun word column tokens h => ?_⟩
  · rintro ⟨u, hu⟩ statement line
    cases hu.symm.trans line.scan_eq
  · rcases h : scan cs with u | statement
    · exact ⟨u, rfl⟩
    · exact absurd (line_of_scan h) (none statement)
  · obtain ⟨word, places⟩ := h.places
    exact ⟨word, fun t ht => ⟨places t ht, fun o => Operand.read?_eq_some_iff⟩⟩

/-- Blanks, a comma with white space on both sides, a token that denotes nothing, and a remark. -/
example : scan "\tadd  $0 , -5x; $1".toList =
    .ok (some (.instruction "add" 2 [⟨"$0".toList, 7⟩, ⟨"-5x".toList, 12⟩])) := by cbv

end Statement

end SeqAsm
