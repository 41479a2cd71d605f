import SeqAsm.Proofs.Text.Decimal
import SeqAsm.Sexp.Reader

/-!
Written forms read back.

A plain form is built from integers and words of lower-case letters by lists. It is written lexeme
by lexeme: a bracket is a lexeme of its own, and an atom ends where the blank or the bracket after
it begins. The lexemes of a form inside a list add that form to the contents of the list, whatever
comes after them.
-/

namespace SeqAsm

/-! ### Atoms -/

namespace Text

variable {c : Char} {cs : List Char}

/-- The characters of printed integers and of words. -/
def isAtomChar (c : Char) : Bool := c.isDigit || c.isLower || c == '-'

lemma toNat_of_isLower (h : c.isLower = true) : 97 ≤ c.toNat ∧ c.toNat ≤ 122 := by
  delta Char.isLower at h
  simp only [Bool.and_eq_true, decide_eq_true_eq] at h
  exact ⟨h.1, h.2⟩

lemma toNat_of_isAtomChar (h : isAtomChar c = true) : 0x2D ≤ c.toNat ∧ c.toNat ≤ 0x7A := by
  simp only [isAtomChar, Bool.or_eq_true, beq_iff_eq] at h
  rcases h with (h | h) | rfl
  · have := toNat_of_isDigit h
    omega
  · have := toNat_of_isLower h
    omega
  · decide

lemma isEdge_of_isAtomChar (h : isAtomChar c = true) : isEdge c = false := by
  have bounds := toNat_of_isAtomChar h
  unfold isEdge isSpace
  simp only [Bool.or_eq_false_iff, Bool.and_eq_false_iff, decide_eq_false_iff_not,
    beq_eq_false_iff_ne]
  omega

lemma trim_of_isAtomChar (h : ∀ c ∈ cs, isAtomChar c = true) : trim cs = cs := by
  have kept {ds : List Char} (hd : ∀ c ∈ ds, isAtomChar c = true) : ds.dropWhile isEdge = ds := by
    rcases ds with _ | ⟨d, ds⟩
    · rfl
    · rw [List.dropWhile_cons_of_neg]
      simp [isEdge_of_isAtomChar (hd d List.mem_cons_self)]
  unfold trim trimRight
  rw [kept h, kept fun c hc => h c (List.mem_reverse.1 hc), List.reverse_reverse]

lemma dropUnderscores_of_isAtomChar (h : ∀ c ∈ cs, isAtomChar c = true) (afterDigit : Bool) :
    dropUnderscores afterDigit cs = some cs := by
  induction cs generalizing afterDigit with
  | nil => rfl
  | cons c cs ih =>
    obtain ⟨hc, hcs⟩ := List.forall_mem_cons.1 h
    have other : c ≠ '_' := by
      rintro rfl
      exact absurd hc (by decide)
    rw [dropUnderscores, ih hcs]
    · rfl
    · rintro d ds rfl
      exact absurd rfl other
    · rintro rfl
      exact absurd rfl other

lemma isAtomChar_of_mem_toString {n : Int} (h : c ∈ (toString n).toList) :
    isAtomChar c = true := by
  rw [toList_toString] at h
  rcases List.mem_append.1 h with h | h
  · split at h
    · obtain rfl := List.mem_singleton.1 h
      rfl
    · cases h
  · simp [isAtomChar, isDigit_of_mem_digits h]

/-- **A printed integer is read as that integer.** -/
lemma int?_toString (n : Int) : int? (toString n).toList = some n := by
  have atom (c : Char) (hc : c ∈ (toString n).toList) := isAtomChar_of_mem_toString hc
  have sign := takeSign_toString n []
  rw [List.append_nil, List.append_nil] at sign
  unfold int?
  rw [trim_of_isAtomChar atom, dropUnderscores_of_isAtomChar atom]
  dsimp only
  rw [sign, if_neg, intValue_toString]
  simp [digits_ne_nil, all_isDigit_digits]

lemma isDigit_of_isLower (h : c.isLower = true) : isDigit c = false := by
  have bounds := toNat_of_isLower h
  unfold isDigit digit?
  dsimp only
  rw [if_pos (by omega), if_neg (by omega)]
  rfl

lemma toLower_of_isLower (h : c.isLower = true) : c.toLower = c := by
  have bounds := toNat_of_isLower h
  unfold Char.toLower
  rw [dif_neg]
  rintro ⟨-, below⟩
  have : c.toNat ≤ 90 := below
  omega

end Text

namespace Sexp

open Text

/-- A word of lower-case letters that is no atom of another kind. -/
structure IsWord (w : String) : Prop where
  ne_empty : w ≠ ""
  lower : w.toList.all Char.isLower = true
  other : w ∉ ["nil", "t", "nan", "inf", "infinity"]

instance (w : String) : Decidable (IsWord w) :=
  decidable_of_iff (w ≠ "" ∧ w.toList.all Char.isLower = true ∧
    w ∉ ["nil", "t", "nan", "inf", "infinity"])
    ⟨fun h => ⟨h.1, h.2.1, h.2.2⟩, fun h => ⟨h.ne_empty, h.lower, h.other⟩⟩

variable {w : String}

lemma IsWord.isLower (h : IsWord w) {c : Char} (hc : c ∈ w.toList) : c.isLower = true :=
  List.all_eq_true.1 h.lower c hc

lemma IsWord.isAtomChar (h : IsWord w) {c : Char} (hc : c ∈ w.toList) : isAtomChar c = true := by
  simp [Text.isAtomChar, h.isLower hc]

lemma IsWord.exists_cons (h : IsWord w) :
    ∃ c cs, w.toList = c :: cs ∧ c.isLower = true ∧ takeSign w.toList = (false, w.toList) := by
  obtain ⟨c, cs, hw⟩ := List.exists_cons_of_ne_nil (mt String.toList_eq_nil_iff.1 h.ne_empty)
  have hc : c.isLower = true := h.isLower (hw ▸ List.mem_cons_self)
  refine ⟨c, cs, hw, hc, ?_⟩
  rw [hw]
  unfold takeSign
  split
  · rename_i same
    cases same
    exact absurd hc (by decide)
  · rename_i same
    cases same
    exact absurd hc (by decide)
  · rfl

lemma int?_word (h : IsWord w) : int? w.toList = none := by
  obtain ⟨c, cs, hw, hc, sign⟩ := h.exists_cons
  unfold int?
  rw [trim_of_isAtomChar fun _ => h.isAtomChar, dropUnderscores_of_isAtomChar fun _ => h.isAtomChar]
  dsimp only
  rw [sign, hw, if_pos]
  simp [isDigit_of_isLower hc]

lemma real?_word (h : IsWord w) : real? w.toList = none := by
  obtain ⟨c, cs, hw, hc, sign⟩ := h.exists_cons
  have name : String.ofList (w.toList.map Char.toLower) = w := by
    rw [List.map_congr_left fun c hc => toLower_of_isLower (h.isLower hc), List.map_id',
      String.ofList_toList]
  have ne {v : String} (hv : v ∈ ["nil", "t", "nan", "inf", "infinity"]) : w ≠ v :=
    fun e => h.other (e ▸ hv)
  have digit := isDigit_of_isLower hc
  have point : c ≠ '.' := by
    rintro rfl
    exact absurd hc (by decide)
  unfold real?
  rw [trim_of_isAtomChar fun _ => h.isAtomChar, dropUnderscores_of_isAtomChar fun _ => h.isAtomChar]
  dsimp only
  rw [sign]
  dsimp only
  rw [name, if_neg (ne (by simp)), if_neg (not_or_intro (ne (by simp)) (ne (by simp)))]
  -- neither a digit nor a point begins the word
  unfold decimal?
  rw [hw]
  simp [digit, point]

lemma ofAtom_word (h : IsWord w) : ofAtom w.toList = .symbol w := by
  have ne {v : String} (hv : v ∈ ["nil", "t", "nan", "inf", "infinity"]) :
      w.toList ≠ v.toList := fun e => h.other (String.toList_inj.1 e ▸ hv)
  have nil : w.toList ≠ ['n', 'i', 'l'] := ne (v := "nil") (by simp)
  have truth : w.toList ≠ ['t'] := ne (v := "t") (by simp)
  unfold ofAtom
  rw [if_neg nil, if_neg truth, int?_word h, real?_word h]
  dsimp only
  rw [String.ofList_toList]

lemma ofAtom_toString (n : Int) : ofAtom (toString n).toList = .int n := by
  have noWord {v : List Char} (hv : int? v = none) : (toString n).toList ≠ v := by
    rintro rfl
    exact nomatch (int?_toString n).symm.trans hv
  unfold ofAtom
  rw [if_neg (noWord (by decide)), if_neg (noWord (by decide)), int?_toString]

/-! ### Plain forms -/

/-- Lists of lists of words and integers. -/
inductive IsPlain : Sexp → Prop
  | int (n : Int) : IsPlain (.int n)
  | symbol {w : String} : IsWord w → IsPlain (.symbol w)
  | list {xs : List Sexp} : (∀ x ∈ xs, IsPlain x) → IsPlain (.list xs)

mutual

/-- The lexemes of a plain form. -/
def lexemes : Sexp → List Lexeme
  | .list xs => .opening .round :: (lexemesOf xs ++ [.closing .round])
  | .int n => [.atom (toString n).toList]
  | .symbol w => [.atom w.toList]
  | _ => []

/-- The lexemes of plain forms one after the other. -/
def lexemesOf : List Sexp → List Lexeme
  | [] => []
  | x :: xs => lexemes x ++ lexemesOf xs

end

variable {x : Sexp} {xs : List Sexp} {rest : List Char} {done : List Lexeme}

/-! ### Lexemes of a text -/

namespace Lexeme

/-- What follows an atom does not belong to it. -/
def Breaks (rest : List Char) : Prop := ∀ c cs, rest = c :: cs → endsAtom c = true

lemma breaks_nil : Breaks [] := nofun

lemma breaks_cons {c : Char} (h : endsAtom c = true) : Breaks (c :: rest) := by
  rintro _ _ ⟨⟩
  exact h

section

variable {c : Char} {cs : List Char} (h : isAtomChar c = true)

include h

lemma endsAtom_of_isAtomChar : endsAtom c = false := by
  have ne {d : Char} (hd : isAtomChar d = false) : c ≠ d := by
    rintro rfl
    exact nomatch h.symm.trans hd
  unfold endsAtom isWhite
  simp only [Bool.or_eq_false_iff, beq_eq_false_iff_ne]
  refine ⟨⟨⟨⟨⟨⟨⟨⟨⟨⟨⟨?_, ?_⟩, ?_⟩, ?_⟩, ?_⟩, ?_⟩, ?_⟩, ?_⟩, ?_⟩, ?_⟩, ?_⟩, ?_⟩ <;>
    exact ne (by decide)

lemma start_of_isAtomChar : start c = ([], .atom [c]) := by
  have white : isWhite c = false := by
    have ends := endsAtom_of_isAtomChar h
    unfold endsAtom at ends
    simp only [Bool.or_eq_false_iff] at ends
    exact ends.1.1.1.1.1.1
  have ne {d : Char} (hd : isAtomChar d = false) : c ≠ d := by
    rintro rfl
    exact nomatch h.symm.trans hd
  unfold start
  rw [if_neg (by simp [white])]
  split
  case h_9 => rfl
  all_goals exact absurd rfl (ne (by decide))

lemma next_of_isAtomChar (sofar : List Char) :
    next c (.atom sofar) = ([], .atom (c :: sofar)) := by
  have other : c ≠ '\\' := by
    rintro rfl
    exact absurd h (by decide)
  simp [next, endsAtom_of_isAtomChar h, other]

end

/-- An atom goes on until something breaks it. -/
lemma scanFrom_inside {cs : List Char} (h : ∀ c ∈ cs, isAtomChar c = true) (hr : Breaks rest)
    (sofar : List Char) : scanFrom done (.atom sofar) (cs ++ rest) =
      scanFrom (.atom (sofar.reverse ++ cs) :: done) .between rest := by
  induction cs generalizing sofar with
  | nil =>
    rw [List.nil_append, List.append_nil]
    rcases rest with _ | ⟨c, rest⟩
    · simp [scanFrom, last]
    · simp [scanFrom, next, hr c rest rfl]
  | cons c cs ih =>
    obtain ⟨hc, hcs⟩ := List.forall_mem_cons.1 h
    rw [List.cons_append, scanFrom, next_of_isAtomChar hc]
    dsimp only
    rw [List.reverse_nil, List.nil_append, ih hcs, List.reverse_cons, List.append_assoc]
    rfl

lemma scanFrom_atom {cs : List Char} (ne : cs ≠ []) (h : ∀ c ∈ cs, isAtomChar c = true)
    (hr : Breaks rest) :
    scanFrom done .between (cs ++ rest) = scanFrom (.atom cs :: done) .between rest := by
  obtain ⟨c, cs, rfl⟩ := List.exists_cons_of_ne_nil ne
  obtain ⟨hc, hcs⟩ := List.forall_mem_cons.1 h
  rw [List.cons_append, scanFrom, next, start_of_isAtomChar hc]
  exact scanFrom_inside hcs hr [c]

/-- The forms of a list, each of which is scanned as its lexemes, up to the closing bracket. -/
lemma scanFrom_texts (h : ∀ x ∈ xs, ∀ (done : List Lexeme) (rest : List Char), Breaks rest →
      scanFrom done .between (x.text.toList ++ rest) =
        scanFrom ((lexemes x).reverse ++ done) .between rest) :
    scanFrom done .between ((" ".intercalate (texts xs)).toList ++ ')' :: rest) =
      scanFrom ((lexemesOf xs).reverse ++ done) .between (')' :: rest) := by
  rw [String.toList_intercalate]
  induction xs generalizing done with
  | nil => rfl
  | cons x xs ih =>
    obtain ⟨hx, hxs⟩ := List.forall_mem_cons.1 h
    rw [lexemesOf, List.reverse_append, List.append_assoc, ← ih hxs]
    rcases xs with _ | ⟨y, ys⟩
    · simp only [texts, List.map_cons, List.map_nil, List.intercalate_singleton]
      exact hx _ _ (breaks_cons rfl)
    · rw [texts, texts, List.map_cons, List.map_cons, List.intercalate_cons_cons,
        List.append_assoc, List.append_assoc]
      exact hx done (' ' :: _) (breaks_cons rfl)

lemma scanFrom_text (h : x.IsPlain) (hr : Breaks rest) :
    scanFrom done .between (x.text.toList ++ rest) =
      scanFrom ((lexemes x).reverse ++ done) .between rest := by
  induction h generalizing done rest with
  | int n =>
    have ne : (toString n).toList ≠ [] := by
      rw [toList_toString]
      simp [digits_ne_nil]
    exact scanFrom_atom ne (fun _ => isAtomChar_of_mem_toString) hr
  | @symbol w hw =>
    exact scanFrom_atom (mt String.toList_eq_nil_iff.1 hw.ne_empty) (fun _ => hw.isAtomChar) hr
  | @list xs _ ih =>
    have text : (Sexp.list xs).text.toList ++ rest =
        '(' :: ((" ".intercalate (texts xs)).toList ++ ')' :: rest) := by
      rw [Sexp.text, String.toList_append, String.toList_append, List.append_assoc,
        List.append_assoc]
      rfl
    have opened : scanFrom done .between ((Sexp.list xs).text.toList ++ rest) =
        scanFrom (.opening .round :: done) .between
          ((" ".intercalate (texts xs)).toList ++ ')' :: rest) := by
      rw [text]
      rfl
    have closed (done : List Lexeme) : scanFrom done .between (')' :: rest) =
        scanFrom (.closing .round :: done) .between rest := rfl
    rw [opened, scanFrom_texts fun x hx _ _ hr => ih x hx hr, closed, lexemes]
    simp

end Lexeme

/-! ### Forms of lexemes -/

variable {inner : Contents} {outer : List (Shape × Contents)} {ls : List Lexeme}

lemma foldl_add (fs : List Sexp) : xs.foldl Contents.add ⟨0, fs⟩ = ⟨0, xs.reverse ++ fs⟩ := by
  induction xs generalizing fs with
  | nil => rfl
  | cons x xs ih =>
    rw [List.foldl_cons, Contents.add, quoteTimes, ih, List.reverse_cons, List.append_assoc]
    rfl

lemma readFrom_lexemesOf (h : ∀ x ∈ xs, ∀ (inner : Contents) (ls : List Lexeme),
      readFrom inner outer (lexemes x ++ ls) = readFrom (inner.add x) outer ls) :
    readFrom inner outer (lexemesOf xs ++ ls) =
      readFrom (xs.foldl Contents.add inner) outer ls := by
  induction xs generalizing inner with
  | nil => rfl
  | cons x xs ih =>
    obtain ⟨hx, hxs⟩ := List.forall_mem_cons.1 h
    rw [lexemesOf, List.append_assoc, hx, ih hxs]
    rfl

/-- The lexemes of a plain form add it to the contents of the innermost bracket. -/
lemma readFrom_lexemes (h : x.IsPlain) :
    readFrom inner outer (lexemes x ++ ls) = readFrom (inner.add x) outer ls := by
  induction h generalizing inner outer ls with
  | int n =>
    rw [lexemes, List.singleton_append, readFrom, ofAtom_toString]
  | symbol hw =>
    rw [lexemes, List.singleton_append, readFrom, ofAtom_word hw]
  | @list xs _ ih =>
    have contents : xs.foldl Contents.add {} = ⟨0, xs.reverse⟩ := by
      rw [foldl_add, List.append_nil]
    rw [lexemes, List.cons_append, List.append_assoc, readFrom,
      readFrom_lexemesOf fun x hx _ _ => ih x hx, contents, List.singleton_append, readFrom]
    simp [ofShape]

/-- **A plain form is read as it was written.** -/
theorem read_text (h : x.IsPlain) : read x.text = .ok x := by
  have scanned : Lexeme.scan x.text.toList = lexemes x := by
    have all : Lexeme.scanFrom [] .between (x.text.toList ++ []) = _ :=
      Lexeme.scanFrom_text h Lexeme.breaks_nil
    rw [List.append_nil, List.append_nil] at all
    rw [Lexeme.scan, all, Lexeme.scanFrom, List.reverse_reverse]
    exact List.append_nil _
  have formed : readFrom {} [] (lexemes x ++ []) = _ := readFrom_lexemes h
  rw [List.append_nil] at formed
  unfold read
  rw [scanned, formed]
  rfl

end Sexp

end SeqAsm
