import Mathlib.Data.List.TakeWhile
import SeqAsm.Proofs.Program.WellFormed
import SeqAsm.Proofs.Text.Decimal
import SeqAsm.Statement.Scanner

/-!
Lines as the printer writes them.

A line is a number of blanks, a word and operands, with one blank before the first operand and a
comma before each other. The scanner finds that word and tokens that denote those operands.
-/

namespace SeqAsm

open Text

/-! ### Characters -/

namespace Text

/-- A visible character of ASCII, or a space. -/
def isPlain (c : Char) : Bool := 0x20 ≤ c.toNat && c.toNat ≤ 0x7E

/-- A plain character that separates nothing. -/
def isInk (c : Char) : Bool := isPlain c && c != ' ' && c != ',' && c != ';'

variable {c : Char}

lemma isPlain_iff : isPlain c = true ↔ 0x20 ≤ c.toNat ∧ c.toNat ≤ 0x7E := by simp [isPlain]

lemma toNat_ne {d : Char} (h : c ≠ d) : c.toNat ≠ d.toNat := fun he => h (Char.toNat_inj.1 he)

lemma isSpace_of_isPlain (h : isPlain c = true) (hs : c ≠ ' ') : isSpace c = false := by
  have bounds := isPlain_iff.1 h
  have other : c.toNat ≠ 32 := toNat_ne hs
  unfold isSpace
  simp only [Bool.or_eq_false_iff, Bool.and_eq_false_iff, decide_eq_false_iff_not,
    beq_eq_false_iff_ne]
  omega

lemma isLineEnd_of_isPlain (h : isPlain c = true) : isLineEnd c = false := by
  have bounds := isPlain_iff.1 h
  unfold isLineEnd
  simp only [Bool.or_eq_false_iff, Bool.and_eq_false_iff, decide_eq_false_iff_not,
    beq_eq_false_iff_ne]
  omega

lemma isInk_iff : isInk c = true ↔ isPlain c = true ∧ c ≠ ' ' ∧ c ≠ ',' ∧ c ≠ ';' := by
  simp [isInk, and_assoc]

lemma isSpace_of_isInk (h : isInk c = true) : isSpace c = false :=
  isSpace_of_isPlain (isInk_iff.1 h).1 (isInk_iff.1 h).2.1

lemma isBlank_of_isInk (h : isInk c = true) : isBlank c = false := by
  have space := isSpace_of_isInk h
  by_contra hb
  rw [isSpace_of_isBlank (by simpa using hb)] at space
  cases space

lemma isInk_of_isDigit (h : c.isDigit = true) : isInk c = true := by
  have := toNat_of_isDigit h
  refine isInk_iff.2 ⟨isPlain_iff.2 (by omega), ?_, ?_, ?_⟩
  all_goals
    rintro rfl
    exact absurd h (by decide)

lemma isInk_of_mem_toString {n : Int} (h : c ∈ (toString n).toList) : isInk c = true := by
  rw [toList_toString] at h
  rcases List.mem_append.1 h with h | h
  · split at h
    · rw [List.mem_singleton.1 h]
      decide
    · cases h
  · exact isInk_of_isDigit (isDigit_of_mem_digits h)

end Text

lemma Statement.isTokenChar_of_isInk {c : Char} (h : isInk c = true) : isTokenChar c = true := by
  have space := isSpace_of_isInk h
  have other := isInk_iff.1 h
  simp [isTokenChar, space, other]

/-! ### Words -/

namespace Mnemonic

lemma isInk_word (m : Mnemonic) {c : Char} (h : c ∈ m.word.toList) : isInk c = true := by
  have key : ∀ m ∈ all, m.word.toList.all isInk = true := by decide
  exact List.all_eq_true.1 (key m (mem_all m)) c h

/-- A word is a letter and more word characters. -/
lemma word_eq (m : Mnemonic) : ∃ c cs, m.word.toList = c :: cs ∧ c.isAlpha = true ∧
    ∀ d ∈ cs, Statement.isWordChar d = true := by
  have key : ∀ m ∈ all, (match m.word.toList with
      | c :: cs => c.isAlpha && cs.all Statement.isWordChar
      | [] => false) = true := by decide
  have word := key m (mem_all m)
  split at word
  · rename_i c cs hw
    obtain ⟨first, others⟩ := Bool.and_eq_true_iff.1 word
    exact ⟨c, cs, hw, first, List.all_eq_true.1 others⟩
  · cases word

end Mnemonic

/-! ### Operands -/

namespace Operand

def chars (o : Operand) : List Char := o.text.toList

lemma chars_const (n : Int) : (const n).chars = (toString n).toList := rfl

lemma chars_reg (i : Int) : (reg i).chars = '$' :: (toString i).toList := by
  change ("$" ++ toString i).toList = _
  rw [String.toList_append]
  rfl

lemma chars_ind (i : Int) : (ind i).chars = '$' :: '$' :: (toString i).toList := by
  change ("$$" ++ toString i).toList = _
  rw [String.toList_append]
  rfl

lemma isInk_of_mem_chars {o : Operand} {c : Char} (h : c ∈ o.chars) : isInk c = true := by
  cases o with
  | const n => exact isInk_of_mem_toString h
  | reg i =>
    rw [chars_reg, List.mem_cons] at h
    rcases h with rfl | h
    · decide
    · exact isInk_of_mem_toString h
  | ind i =>
    rw [chars_ind, List.mem_cons, List.mem_cons] at h
    rcases h with rfl | rfl | h
    · decide
    · decide
    · exact isInk_of_mem_toString h

lemma chars_ne_nil (o : Operand) : o.chars ≠ [] := by
  cases o with
  | const n =>
    rw [chars_const, toList_toString]
    exact List.append_ne_nil_of_right_ne_nil _ (digits_ne_nil _)
  | reg i => simp [chars_reg]
  | ind i => simp [chars_ind]

lemma ne_dollar_of_mem_toString {n : Int} : '$' ∉ (toString n).toList := by
  rw [toList_toString, List.mem_append, not_or]
  refine ⟨?_, fun h => absurd (isDigit_of_mem_digits h) (by decide)⟩
  split
  · decide
  · exact List.not_mem_nil

/-- **A printed operand denotes itself.** -/
lemma read?_chars {o : Operand} (h : o.Proper) : read? o.chars = some o := by
  have index {i : Int} (hi : 0 ≤ i) : (toString i).toList = digits i.natAbs := by
    rw [toList_toString, if_neg (by omega)]
    rfl
  have all (n : ℕ) : (!(digits n).isEmpty && (digits n).all isDigit) = true := by
    rw [all_isDigit_digits, Bool.and_true, Bool.not_eq_true', List.isEmpty_eq_false_iff]
    exact digits_ne_nil n
  cases o with
  | const n =>
    have sign := takeSign_toString n []
    rw [List.append_nil, List.append_nil] at sign
    rw [chars_const]
    unfold read?
    split
    · rename_i hs
      exact absurd (hs ▸ List.mem_cons_self) (ne_dollar_of_mem_toString (n := n))
    · rename_i hs
      exact absurd (hs ▸ List.mem_cons_self) (ne_dollar_of_mem_toString (n := n))
    · dsimp only
      rw [sign, if_pos (all _), intValue_toString]
  | reg i =>
    have hi : 0 ≤ i := h
    have first : '$' ∉ digits i.natAbs := index hi ▸ ne_dollar_of_mem_toString
    rw [chars_reg, index hi]
    unfold read?
    split
    · rename_i hs
      exact absurd ((List.cons.inj hs).2 ▸ List.mem_cons_self) first
    · rename_i hs
      obtain rfl := (List.cons.inj hs).2
      rw [if_pos (all _), natValue_digits, Int.natAbs_of_nonneg hi]
    · rename_i hs
      exact absurd rfl (hs _)
  | ind i =>
    have hi : 0 ≤ i := h
    rw [chars_ind, index hi]
    refine (if_pos (all _)).trans ?_
    rw [natValue_digits, Int.natAbs_of_nonneg hi]

end Operand

/-! ### Lines -/

namespace Statement

/-- Operands after the first, each with a comma before it. -/
def listed (os : List Operand) : List Char := os.flatMap fun o => ',' :: o.chars

/-- Operands after a word. -/
def arguments : List Operand → List Char
  | [] => []
  | o :: os => ' ' :: (o.chars ++ listed os)

def written (n : ℕ) (m : Mnemonic) (os : List Operand) : List Char :=
  List.replicate n ' ' ++ (m.word.toList ++ arguments os)

variable {os : List Operand} {o : Operand} {p : Char → Bool} {cs rest : List Char}

lemma skip_stop (stop : ∀ c ∈ rest.head?, p c = false) :
    rest.takeWhile p = [] ∧ rest.dropWhile p = rest := by
  cases rest with
  | nil => exact ⟨rfl, rfl⟩
  | cons c rest => simp [stop c rfl]

lemma takeWhile_append_stop (h : ∀ c ∈ cs, p c = true) (stop : ∀ c ∈ rest.head?, p c = false) :
    (cs ++ rest).takeWhile p = cs := by
  rw [List.takeWhile_append_of_pos h, (skip_stop stop).1, List.append_nil]

lemma dropWhile_append_stop (h : ∀ c ∈ cs, p c = true) (stop : ∀ c ∈ rest.head?, p c = false) :
    (cs ++ rest).dropWhile p = rest := by
  rw [List.dropWhile_append_of_pos h, (skip_stop stop).2]

lemma head_chars {c : Char} (h : c ∈ (o.chars ++ rest).head?) : isInk c = true := by
  obtain ⟨d, ds, hd⟩ := List.exists_cons_of_ne_nil o.chars_ne_nil
  rw [hd] at h
  obtain rfl : d = c := by simpa using h
  exact Operand.isInk_of_mem_chars (o := o) (hd ▸ List.mem_cons_self)

lemma head_listed {c : Char} (h : c ∈ (listed os).head?) : c = ',' := by
  cases os with
  | nil => cases h
  | cons o os =>
    have : ',' = c := by simpa [listed] using h
    exact this.symm

lemma skip_chars (o : Operand) (rest : List Char) (h : ∀ c, isInk c = true → p c = false) :
    (o.chars ++ rest).takeWhile p = [] ∧ (o.chars ++ rest).dropWhile p = o.chars ++ rest :=
  skip_stop fun c hc => h c (head_chars hc)

lemma token_chars (o : Operand) (os : List Operand) :
    (o.chars ++ listed os).takeWhile isTokenChar = o.chars ∧
      (o.chars ++ listed os).dropWhile isTokenChar = listed os := by
  have inside : ∀ c ∈ o.chars, isTokenChar c = true :=
    fun c hc => isTokenChar_of_isInk (Operand.isInk_of_mem_chars hc)
  have stop : ∀ c ∈ (listed os).head?, isTokenChar c = false := by
    intro c hc
    rw [head_listed hc]
    decide
  exact ⟨takeWhile_append_stop inside stop, dropWhile_append_stop inside stop⟩

lemma moreOperands_listed (column : ℕ) (os : List Operand) : ∃ tokens column',
    moreOperands column (listed os) = (tokens, [], column') ∧
      tokens.map Token.chars = os.map Operand.chars := by
  induction os generalizing column with
  | nil => exact ⟨[], column, by rw [moreOperands]; rfl, rfl⟩
  | cons o os ih =>
    have here : listed (o :: os) = ',' :: (o.chars ++ listed os) := rfl
    have comma : (listed (o :: os)).takeWhile isSpace = [] ∧
        (listed (o :: os)).dropWhile isSpace = listed (o :: os) := ⟨rfl, rfl⟩
    obtain ⟨gap, skip⟩ := skip_chars o (listed os) fun _ => isSpace_of_isInk
    obtain ⟨token, rest⟩ := token_chars o os
    obtain ⟨tokens, column', more, same⟩ := ih (column + 0 + 1 + 0 + o.chars.length)
    refine ⟨⟨o.chars, column + 0 + 1 + 0⟩ :: tokens, column', ?_, ?_⟩
    · rw [moreOperands]
      split
      · rename_i r hr
        rw [comma.2, here] at hr
        obtain rfl := (List.cons.inj hr).2
        rw [comma.1, gap, skip, token, rest]
        dsimp only [List.length_nil]
        rw [if_neg (by simpa using o.chars_ne_nil), more]
      · rename_i other
        exact absurd (comma.2.trans here) (other _)
    · rw [List.map_cons, List.map_cons, same]

lemma operands_arguments (column : ℕ) (os : List Operand) : ∃ tokens,
    operands column (arguments os) = (tokens, []) ∧
      tokens.map Token.chars = os.map Operand.chars := by
  cases os with
  | nil => exact ⟨[], rfl, rfl⟩
  | cons o os =>
    have blank : isBlank ' ' = true := by decide
    obtain ⟨gap, skip⟩ := skip_chars o (listed os) fun _ => isBlank_of_isInk
    obtain ⟨token, rest⟩ := token_chars o os
    have gap' : (arguments (o :: os)).takeWhile isBlank = [' '] := by
      rw [arguments, List.takeWhile_cons_of_pos blank, gap]
    have skip' : (arguments (o :: os)).dropWhile isBlank = o.chars ++ listed os := by
      rw [arguments, List.dropWhile_cons_of_pos blank, skip]
    obtain ⟨tokens, column', more, same⟩ := moreOperands_listed (column + 1 + o.chars.length) os
    refine ⟨⟨o.chars, column + 1⟩ :: tokens, ?_, ?_⟩
    · unfold operands
      dsimp only
      rw [gap', skip', token, rest]
      dsimp only [List.length_singleton]
      rw [if_neg (by simpa using o.chars_ne_nil), more]
    · rw [List.map_cons, List.map_cons, same]

lemma head_arguments {c : Char} (h : c ∈ (arguments os).head?) : c = ' ' := by
  cases os with
  | nil => cases h
  | cons o os =>
    have : ' ' = c := by simpa [arguments] using h
    exact this.symm

lemma front_of_isAlpha (column : ℕ) {c : Char} (hc : c.isAlpha = true) (cs : List Char) :
    front column (c :: cs) =
      (operands (column + (c :: cs.takeWhile isWordChar).length) (cs.dropWhile isWordChar)).map
        (fun tokens => some (.instruction (String.ofList (c :: cs.takeWhile isWordChar)) column
          tokens)) id := by
  unfold front
  split
  · rename_i hd
    cases hd
    exact absurd hc (by decide)
  · rename_i hd
    obtain ⟨rfl, rfl⟩ := List.cons.inj hd
    exact if_pos hc
  · rename_i hd
    cases hd

/-- A word and operands, and nothing else. -/
lemma front_written (column : ℕ) (m : Mnemonic) (os : List Operand) : ∃ tokens,
    front column (m.word.toList ++ arguments os) =
      (some (.instruction m.word column tokens), []) ∧
        tokens.map Token.chars = os.map Operand.chars := by
  obtain ⟨c, cs, word, first, others⟩ := m.word_eq
  have stop : ∀ d ∈ (arguments os).head?, isWordChar d = false := by
    intro d hd
    rw [head_arguments hd]
    decide
  obtain ⟨tokens, found, same⟩ := operands_arguments (column + (c :: cs).length) os
  refine ⟨tokens, ?_, same⟩
  rw [word, List.cons_append, front_of_isAlpha column first, takeWhile_append_stop others stop,
    dropWhile_append_stop others stop, found, ← word, String.ofList_toList]
  rfl

/-- What stands after blanks is the statement of a line, if it takes up the line. -/
lemma scan_indented (n : ℕ) {cs : List Char} {statement : Option Statement}
    (ink : ∀ c ∈ cs.head?, isInk c = true) (h : front (n + 1) cs = (statement, [])) :
    scan (List.replicate n ' ' ++ cs) = .ok statement := by
  have blanks : ∀ c ∈ List.replicate n ' ', isSpace c = true := by
    intro c hc
    rw [(List.mem_replicate.1 hc).2]
    decide
  have stop : ∀ c ∈ cs.head?, isSpace c = false := fun c hc => isSpace_of_isInk (ink c hc)
  unfold scan
  rw [takeWhile_append_stop blanks stop, dropWhile_append_stop blanks stop,
    List.length_replicate, h]
  rfl

/-- **A written line says what was written.** -/
lemma scan_written (n : ℕ) (m : Mnemonic) (os : List Operand) : ∃ tokens,
    scan (written n m os) = .ok (some (.instruction m.word (n + 1) tokens)) ∧
      tokens.map Token.chars = os.map Operand.chars := by
  obtain ⟨tokens, found, same⟩ := front_written (n + 1) m os
  refine ⟨tokens, scan_indented n (fun c hc => m.isInk_word ?_) found, same⟩
  obtain ⟨d, ds, word, -⟩ := m.word_eq
  rw [word] at hc ⊢
  obtain rfl : d = c := by simpa using hc
  exact List.mem_cons_self

/-! ### The directive -/

lemma offsetValue?_toString (n : Int) :
    offsetValue? (' ' :: (toString n).toList) = some (n, []) := by
  have blank : isBlank ' ' = true := by decide
  have stop : ∀ c ∈ (toString n).toList.head?, isBlank c = false :=
    fun c hc => isBlank_of_isInk (isInk_of_mem_toString (List.mem_of_mem_head? hc))
  obtain ⟨gap, numeral⟩ := skip_stop stop
  have sign := takeSign_toString n []
  have all : ∀ c ∈ digits n.natAbs, isDigit c = true :=
    fun c hc => isDigit_of_isDigit (isDigit_of_mem_digits hc)
  have whole := List.takeWhile_eq_self_iff.2 all
  have left := List.dropWhile_eq_nil_iff.2 all
  rw [List.append_nil, List.append_nil] at sign
  unfold offsetValue?
  dsimp only
  rw [List.takeWhile_cons_of_pos blank, List.dropWhile_cons_of_pos blank, gap, numeral, sign]
  dsimp only
  rw [whole, left, natValue_digits, signed_natAbs, if_neg (by simpa using digits_ne_nil _)]

lemma scan_offset (n : Int) :
    scan ("#offset " ++ toString n).toList = .ok (some (.offset n 1)) := by
  have line : ("#offset " ++ toString n).toList =
      "#offset".toList ++ ' ' :: (toString n).toList := by
    rw [String.toList_append]
    rfl
  have ink : ∀ c ∈ ("#offset".toList ++ ' ' :: (toString n).toList).head?, isInk c = true := by
    intro c hc
    obtain rfl : '#' = c := Option.some.inj hc
    decide
  rw [line]
  refine scan_indented 0 ink ?_
  change front 1 ('#' :: 'o' :: 'f' :: 'f' :: 's' :: 'e' :: 't' :: ' ' :: (toString n).toList) = _
  rw [front, offsetValue?_toString]

/-! ### Characters of a line -/

lemma isPlain_of_mem_written {n : ℕ} {m : Mnemonic} {c : Char} (h : c ∈ written n m os) :
    isPlain c = true := by
  have operand {o : Operand} (hc : c ∈ o.chars) : isPlain c = true :=
    (isInk_iff.1 (Operand.isInk_of_mem_chars hc)).1
  have comma {os : List Operand} (hc : c ∈ listed os) : isPlain c = true := by
    obtain ⟨o, -, hc⟩ := List.mem_flatMap.1 hc
    rcases List.mem_cons.1 hc with rfl | hc
    · decide
    · exact operand hc
  rcases List.mem_append.1 h with h | h
  · rw [(List.mem_replicate.1 h).2]
    decide
  rcases List.mem_append.1 h with h | h
  · exact (isInk_iff.1 (m.isInk_word h)).1
  cases os with
  | nil => cases h
  | cons o os =>
    rcases List.mem_cons.1 h with rfl | h
    · decide
    · exact (List.mem_append.1 h).elim operand comma

lemma isPlain_of_mem_offset {n : Int} {c : Char} (h : c ∈ ("#offset " ++ toString n).toList) :
    isPlain c = true := by
  rw [String.toList_append] at h
  rcases List.mem_append.1 h with h | h
  · have key : "#offset ".toList.all isPlain = true := by decide
    exact List.all_eq_true.1 key c h
  · exact (isInk_iff.1 (isInk_of_mem_toString h)).1

end Statement

end SeqAsm
