import Mathlib.Tactic.Lemma
import Mathlib.Data.List.Basic

/-!
The DOT language, as far as graphs with attributes need it: a directed graph with a name, and
statements that each end in a semicolon. A statement sets an attribute of the graph, gives default
attributes, or is a node or an edge with attributes. Comments, ports, subgraphs and markup are left
out.

Between double quotes all characters stand for themselves, but a double quote with a backslash
before it stands for the quote alone and does not end the text. There is no other escape, so a
backslash cannot be the last character of a text.
-/

namespace SeqAsm.Dot

/-- A name or number, or a text between double quotes. -/
inductive Id where
  | bare (s : String)
  | quoted (s : String)
  deriving DecidableEq, Repr

def Id.text : Id → String
  | bare s | quoted s => s

inductive Mark where
  | leftBrace | rightBrace | leftBracket | rightBracket | equals | comma | semicolon | arrow
  deriving DecidableEq, Repr

def Mark.ofChar? : Char → Option Mark
  | '\x7b' => some leftBrace
  | '\x7d' => some rightBrace
  | '[' => some leftBracket
  | ']' => some rightBracket
  | '=' => some equals
  | ',' => some comma
  | ';' => some semicolon
  | _ => none

inductive Keyword where
  | strict | graph | digraph | subgraph | node | edge
  deriving DecidableEq, Repr

/-- The keyword with a spelling, in capital or small letters. -/
def Keyword.ofWord? (cs : List Char) : Option Keyword :=
  match String.ofList (cs.map Char.toLower) with
  | "strict" => some strict
  | "graph" => some graph
  | "digraph" => some digraph
  | "subgraph" => some subgraph
  | "node" => some node
  | "edge" => some edge
  | _ => none

inductive Token where
  | keyword (k : Keyword)
  | id (i : Id)
  | mark (m : Mark)
  deriving DecidableEq, Repr

/-! ### Tokens -/

namespace Token

/-- A word is a keyword or a name. -/
def ofWord (cs : List Char) : Token :=
  match Keyword.ofWord? cs with
  | some k => keyword k
  | none => id (.bare (String.ofList cs))

/-- What a scan is inside of; texts under construction have their last character first. -/
inductive Mode where
  | between
  /-- A minus sign that begins an arrow. -/
  | dash
  | word (done : List Char)
  | number (done : List Char)
  | quoted (done : List Char)

def isBlank (c : Char) : Bool := c == ' ' || c == '\t' || c == '\n' || c == '\r'

def isLetter (c : Char) : Bool := c.isAlpha || c == '_'

def start (c : Char) : Option (List Token × Mode) :=
  if isBlank c then some ([], .between)
  else if isLetter c then some ([], .word [c])
  else if c.isDigit then some ([], .number [c])
  else if c = '"' then some ([], .quoted [])
  else if c = '-' then some ([], .dash)
  else (Mark.ofChar? c).map fun m => ([mark m], .between)

/-- A token ends and the next one begins. -/
def restart (t : Token) (c : Char) : Option (List Token × Mode) :=
  (start c).map fun (tokens, mode) => (t :: tokens, mode)

def next (c : Char) : Mode → Option (List Token × Mode)
  | .between => start c
  | .dash => if c = '>' then some ([mark .arrow], .between) else none
  | .word done =>
    if isLetter c || c.isDigit then some ([], .word (c :: done))
    else restart (ofWord done.reverse) c
  | .number done =>
    if c.isDigit then some ([], .number (c :: done))
    else if isLetter c then none
    else restart (id (.bare (String.ofList done.reverse))) c
  | .quoted done =>
    if c = '"' then
      match done with
      | '\\' :: done => some ([], .quoted ('"' :: done))
      | done => some ([id (.quoted (String.ofList done.reverse))], .between)
    else some ([], .quoted (c :: done))

def last : Mode → Option (List Token)
  | .between => some []
  | .word done => some [ofWord done.reverse]
  | .number done => some [id (.bare (String.ofList done.reverse))]
  | .dash | .quoted _ => none

/-- The tokens of a text, put in reverse order before `done`. -/
def scanFrom (done : List Token) (mode : Mode) : List Char → Option (List Token)
  | [] => (last mode).map (done.reverse ++ ·)
  | c :: cs =>
    match next c mode with
    | none => none
    | some (tokens, mode) => scanFrom (tokens.reverse ++ done) mode cs

def scan (cs : List Char) : Option (List Token) := scanFrom [] .between cs

end Token

/-! ### Graphs -/

structure Attribute where
  key : Id
  value : Id
  deriving DecidableEq, Repr

inductive Statement where
  /-- An attribute of the graph. -/
  | set (a : Attribute)
  /-- Attributes of all that come later of a kind. -/
  | defaults (kind : Keyword) (attributes : List Attribute)
  | node (name : Id) (attributes : List Attribute)
  | edge (tail head : Id) (attributes : List Attribute)
  deriving DecidableEq, Repr

structure Figure where
  name : Id
  statements : List Statement
  deriving DecidableEq, Repr

mutual

/-- Reads statements up to the brace at the end of the text. -/
def statements? : List Token → Option (List Statement)
  | [.mark .rightBrace] => some []
  | .id key :: .mark .equals :: .id value :: .mark .semicolon :: ts =>
    (.set ⟨key, value⟩ :: ·) <$> statements? ts
  | .keyword kind :: .mark .leftBracket :: ts =>
    if kind ∈ [.graph, .node, .edge] then attributes? (.defaults kind) [] ts else none
  | .id name :: .mark .leftBracket :: ts => attributes? (.node name) [] ts
  | .id tail :: .mark .arrow :: .id head :: .mark .leftBracket :: ts =>
    attributes? (.edge tail head) [] ts
  | _ => none

/-- Reads attributes, with those before in reverse order, and then the statements behind the one
they belong to. -/
def attributes? (put : List Attribute → Statement) (done : List Attribute) :
    List Token → Option (List Statement)
  | .id key :: .mark .equals :: .id value :: .mark .comma :: ts =>
    attributes? put (⟨key, value⟩ :: done) ts
  | .id key :: .mark .equals :: .id value :: .mark .rightBracket :: .mark .semicolon :: ts =>
    (put (⟨key, value⟩ :: done).reverse :: ·) <$> statements? ts
  | _ => none

end

/-- Reads a text as a directed graph. -/
def read? (text : String) : Option Figure :=
  match Token.scan text.toList with
  | some (.keyword .digraph :: .id name :: .mark .leftBrace :: ts) =>
    Figure.mk name <$> statements? ts
  | _ => none

/-! ### Statements in tokens -/

def Attribute.tokens (a : Attribute) : List Token := [.id a.key, .mark .equals, .id a.value]

def bracketed : List Attribute → List Token
  | [] => [.mark .rightBracket]
  | [a] => a.tokens ++ [.mark .rightBracket]
  | a :: b :: as => a.tokens ++ .mark .comma :: bracketed (b :: as)

def Statement.tokens : Statement → List Token
  | set a => a.tokens ++ [.mark .semicolon]
  | defaults kind as => .keyword kind :: .mark .leftBracket :: (bracketed as ++ [.mark .semicolon])
  | node name as => .id name :: .mark .leftBracket :: (bracketed as ++ [.mark .semicolon])
  | edge tail head as =>
    .id tail :: .mark .arrow :: .id head :: .mark .leftBracket ::
      (bracketed as ++ [.mark .semicolon])

def Figure.tokens (f : Figure) : List Token :=
  .keyword .digraph :: .id f.name :: .mark .leftBrace ::
    (f.statements.flatMap Statement.tokens ++ [.mark .rightBrace])

/-- A statement that can be read: brackets are not empty, and defaults are for what has any. -/
def Statement.Complete : Statement → Prop
  | set _ => True
  | defaults kind as => kind ∈ [.graph, .node, .edge] ∧ as ≠ []
  | node _ as | edge _ _ as => as ≠ []

lemma attributes?_bracketed (put : List Attribute → Statement) (done : List Attribute)
    (a : Attribute) (as : List Attribute) (ts : List Token) :
    attributes? put done (bracketed (a :: as) ++ .mark .semicolon :: ts) =
      (put (done.reverse ++ a :: as) :: ·) <$> statements? ts := by
  induction as generalizing done a with
  | nil =>
    rw [bracketed, Attribute.tokens]
    simp [attributes?]
  | cons b as ih =>
    have further : attributes? put done (bracketed (a :: b :: as) ++ .mark .semicolon :: ts) =
        attributes? put (a :: done) (bracketed (b :: as) ++ .mark .semicolon :: ts) := by
      rw [bracketed, Attribute.tokens]
      simp [attributes?]
    rw [further, ih, List.reverse_cons, List.append_assoc, List.singleton_append]

lemma statements?_tokens {s : Statement} (complete : s.Complete) (ts : List Token) :
    statements? (s.tokens ++ ts) = (s :: ·) <$> statements? ts := by
  cases s with
  | set a => simp [Statement.tokens, Attribute.tokens, statements?]
  | defaults kind as =>
    obtain ⟨hk, nonempty⟩ := complete
    obtain ⟨a, as, rfl⟩ := List.exists_cons_of_ne_nil nonempty
    have rest := attributes?_bracketed (.defaults kind) [] a as ts
    simpa [Statement.tokens, statements?, hk] using rest
  | node name as =>
    obtain ⟨a, as, rfl⟩ := List.exists_cons_of_ne_nil complete
    have rest := attributes?_bracketed (.node name) [] a as ts
    simpa [Statement.tokens, statements?] using rest
  | edge tail head as =>
    obtain ⟨a, as, rfl⟩ := List.exists_cons_of_ne_nil complete
    have rest := attributes?_bracketed (.edge tail head) [] a as ts
    simpa [Statement.tokens, statements?] using rest

lemma statements?_flatMap {ss : List Statement} (complete : ∀ s ∈ ss, s.Complete) :
    statements? (ss.flatMap Statement.tokens ++ [.mark .rightBrace]) = some ss := by
  induction ss with
  | nil => simp [statements?]
  | cons s ss ih =>
    obtain ⟨hs, hss⟩ := List.forall_mem_cons.1 complete
    rw [List.flatMap_cons, List.append_assoc, statements?_tokens hs, ih hss]
    rfl

/-! ### Pieces of a text -/

namespace Token

variable {cs ds : List Char} {ts us : List Token} {c : Char} {mode after : Mode}

/-- A piece of a text is read as some tokens, whatever stands around it. -/
def Reads (cs : List Char) (ts : List Token) : Prop :=
  ∀ done rest, scanFrom done .between (cs ++ rest) = scanFrom (ts.reverse ++ done) .between rest

lemma reads_nil : Reads [] [] := fun _ _ => rfl

lemma Reads.append (hc : Reads cs ts) (hd : Reads ds us) : Reads (cs ++ ds) (ts ++ us) := by
  intro done rest
  rw [List.append_assoc, hc, hd, List.reverse_append, List.append_assoc]

lemma Reads.scan (h : Reads cs ts) : scan cs = some ts := by
  have whole := h [] []
  rw [List.append_nil] at whole
  rw [Token.scan, whole, scanFrom, last]
  simp

/-- Lines with a line break behind each. -/
def lined (lines : List (List Char)) : List Char := lines.flatMap (· ++ ['\n'])

lemma lined_append (ls ms : List (List Char)) : lined (ls ++ ms) = lined ls ++ lined ms :=
  List.flatMap_append

/-- Line breaks between lines stand behind all but the last. -/
lemma intercalate_concat (ls : List (List Char)) (l : List Char) :
    ['\n'].intercalate (ls ++ [l]) = lined ls ++ l := by
  induction ls with
  | nil => exact List.intercalate_singleton
  | cons m ls ih =>
    obtain ⟨k, ks, hk⟩ := List.exists_cons_of_ne_nil
      (List.append_ne_nil_of_right_ne_nil ls (List.cons_ne_nil l []))
    rw [List.cons_append, hk, List.intercalate_cons_cons, ← hk, ih]
    simp [lined]

lemma reads_lined {α : Type} {line : α → List Char} {tokens : α → List Token} {l : List α}
    (h : ∀ a ∈ l, Reads (line a) (tokens a)) : Reads (lined (l.map line)) (l.flatMap tokens) := by
  induction l with
  | nil => exact reads_nil
  | cons a l ih =>
    obtain ⟨ha, hl⟩ := List.forall_mem_cons.1 h
    have broken : Reads (line a ++ ['\n']) (tokens a ++ []) := ha.append fun _ _ => rfl
    rw [List.append_nil] at broken
    exact broken.append (ih hl)

/-! ### Quotes -/

/-- A text with a backslash before each quote. -/
def escaped (cs : List Char) : List Char := cs.flatMap fun c => if c = '"' then ['\\', '"'] else [c]

lemma escaped_of_not_mem (h : '"' ∉ cs) : escaped cs = cs := by
  unfold escaped
  induction cs with
  | nil => rfl
  | cons c cs ih =>
    have hc : c ≠ '"' := fun same => h (same ▸ List.mem_cons_self)
    rw [List.flatMap_cons, if_neg hc, ih fun hcs => h (List.mem_cons_of_mem c hcs)]
    rfl

def quote (cs : List Char) : List Char := '"' :: (escaped cs ++ ['"'])

/-- Between quotes all characters are taken as they were. -/
lemma scanFrom_escaped (done : List Token) (taken cs rest : List Char) :
    scanFrom done (.quoted taken) (escaped cs ++ rest) =
      scanFrom done (.quoted (cs.reverse ++ taken)) rest := by
  induction cs generalizing taken with
  | nil => rfl
  | cons c cs ih =>
    have further : scanFrom done (.quoted taken) (escaped (c :: cs) ++ rest) =
        scanFrom done (.quoted (c :: taken)) (escaped cs ++ rest) := by
      by_cases hc : c = '"'
      · subst hc
        rfl
      · have stays : next c (.quoted taken) = some ([], .quoted (c :: taken)) := if_neg hc
        rw [escaped, List.flatMap_cons, if_neg hc, List.append_assoc, List.singleton_append,
          scanFrom, stays]
        rfl
    rw [further, ih, List.reverse_cons, List.append_assoc, List.singleton_append]

/-- A quote ends a text, unless there is a backslash before it. -/
lemma next_close {taken : List Char} (h : taken.head? ≠ some '\\') :
    next '"' (.quoted taken) =
      some ([id (.quoted (String.ofList taken.reverse))], .between) := by
  dsimp only [next]
  rw [if_pos rfl]
  split
  · exact absurd rfl h
  · rfl

lemma scanFrom_quote (done : List Token) (cs rest : List Char) :
    scanFrom done .between (quote cs ++ rest) =
      scanFrom done (.quoted cs.reverse) ('"' :: rest) := by
  calc
    scanFrom done .between (quote cs ++ rest)
      = scanFrom done (.quoted []) (escaped cs ++ ('"' :: rest)) := by
        rw [quote, List.cons_append, List.append_assoc]
        rfl
    _ = scanFrom done (.quoted cs.reverse) ('"' :: rest) := by
        rw [scanFrom_escaped, List.append_nil]

/-- **A text between quotes is read as it was**, unless its last character is a backslash. -/
lemma reads_quote (h : cs.getLast? ≠ some '\\') :
    Reads (quote cs) [id (.quoted (String.ofList cs))] := by
  intro done rest
  have last : cs.reverse.head? ≠ some '\\' := by rwa [List.head?_reverse]
  rw [scanFrom_quote, scanFrom, next_close last, List.reverse_reverse]

/-- Whether a scan is between quotes. A quote would end the text there. -/
def Mode.Quoting : Bool → Mode → Prop
  | true, .quoted done => done.head? ≠ some '\\'
  | false, .quoted _ => False
  | true, _ => False
  | false, _ => True

lemma quoting_start (h : start c = some (ts, after)) : after.Quoting (c == '"') := by
  by_cases hc : c = '"'
  · subst hc
    cases h
    exact nofun
  · have other : (c == '"') = false := by simpa using hc
    rw [other]
    unfold start at h
    rw [if_neg hc] at h
    split_ifs at h
    · cases h
      trivial
    · cases h
      trivial
    · cases h
      trivial
    · cases h
      trivial
    · obtain ⟨m, -, same⟩ := Option.map_eq_some_iff.1 h
      cases same
      trivial

lemma quoting_restart {t : Token} (h : restart t c = some (ts, after)) :
    after.Quoting (c == '"') := by
  obtain ⟨⟨tokens, mode⟩, hs, same⟩ := Option.map_eq_some_iff.1 h
  obtain ⟨-, rfl⟩ := Prod.mk.inj same
  exact quoting_start hs

/-- A word or number goes on with characters that are no quotes. -/
lemma quoting_outside (hm : mode.Quoting false) (h : next c mode = some (ts, after)) :
    after.Quoting (c == '"') := by
  by_cases hc : c = '"'
  · subst hc
    cases mode with
    | between => exact quoting_start h
    | dash => cases h
    | word taken => exact quoting_restart h
    | number taken => exact quoting_restart h
    | quoted taken => cases hm
  · have other : (c == '"') = false := by simpa using hc
    cases mode with
    | between => exact quoting_start h
    | quoted taken => cases hm
    | dash =>
      dsimp only [next] at h
      split_ifs at h
      cases h
      rw [other]
      trivial
    | word taken =>
      dsimp only [next] at h
      split_ifs at h
      · cases h
        rw [other]
        trivial
      · exact quoting_restart h
    | number taken =>
      dsimp only [next] at h
      split_ifs at h
      · cases h
        rw [other]
        trivial
      · exact quoting_restart h

lemma quoting_inside (plain : c ≠ '\\') (hm : mode.Quoting true)
    (h : next c mode = some (ts, after)) : after.Quoting (!(c == '"')) := by
  cases mode with
  | quoted taken =>
    by_cases hc : c = '"'
    · subst hc
      rw [next_close hm] at h
      cases h
      trivial
    · have stays : next c (.quoted taken) = some ([], .quoted (c :: taken)) := if_neg hc
      have other : (c == '"') = false := by simpa using hc
      cases stays.symm.trans h
      rw [other]
      exact fun same => plain (Option.some.inj same)
  | _ => cases hm

lemma odd_count_cons (c : Char) (cs : List Char) : ((c :: cs).count '"' % 2 == 1) =
    ((cs.count '"' % 2 == 1) != (c == '"')) := by
  rw [List.count_cons]
  rcases Nat.mod_two_eq_zero_or_one (cs.count '"') with even | odd
  · rcases c == '"' <;> simp [Nat.add_mod, even]
  · rcases c == '"' <;> simp [Nat.add_mod, odd]

/-- Without backslashes each quote begins or ends a text, so a scan that does not fail has an odd
number of them before it exactly when it begins between quotes. -/
lemma odd_count_of_scanFrom {inside : Bool} (plain : '\\' ∉ cs) (hm : mode.Quoting inside)
    {done : List Token} (h : scanFrom done mode cs = some ts) :
    inside = (cs.count '"' % 2 == 1) := by
  induction cs generalizing mode done inside with
  | nil =>
    cases mode with
    | quoted taken => cases h
    | _ =>
      cases inside
      · rfl
      · cases hm
  | cons c cs ih =>
    rw [scanFrom] at h
    split at h
    · cases h
    rename_i tokens after step
    have plain_c : c ≠ '\\' := fun same => plain (same ▸ List.mem_cons_self)
    have plain_cs : '\\' ∉ cs := fun hc => plain (List.mem_cons_of_mem c hc)
    rw [odd_count_cons]
    cases inside with
    | false => rw [← ih plain_cs (quoting_outside hm step) h, bne_self_eq_false]
    | true =>
      rw [← ih plain_cs (quoting_inside plain_c hm step) h]
      cases c == '"'
      · rfl
      · rfl

/-- A text without backslashes, in which quotes come in pairs. -/
structure Paired (cs : List Char) : Prop where
  plain : '\\' ∉ cs
  even : cs.count '"' % 2 = 0

lemma Paired.append (hc : Paired cs) (hd : Paired ds) : Paired (cs ++ ds) where
  plain h := (List.mem_append.1 h).elim hc.plain hd.plain
  even := by rw [List.count_append, Nat.add_mod, hc.even, hd.even]

lemma paired_lined {ls : List (List Char)} (h : ∀ l ∈ ls, Paired l) : Paired (lined ls) := by
  induction ls with
  | nil => exact ⟨nofun, rfl⟩
  | cons l ls ih =>
    obtain ⟨hl, hls⟩ := List.forall_mem_cons.1 h
    exact (hl.append ⟨by decide, rfl⟩).append (ih hls)

/-- Such a text cannot be read from between quotes. -/
lemma Paired.scanFrom_eq_none (h : Paired cs) (hm : mode.Quoting true) (done : List Token) :
    scanFrom done mode cs = none := by
  rcases hs : scanFrom done mode cs with _ | ts
  · rfl
  · have odd := odd_count_of_scanFrom h.plain hm hs
    rw [h.even] at odd
    cases odd

/-- A backslash at the end of a text takes in the quote, and all that follows is misread. -/
lemma scanFrom_quote_eq_none (h : cs.getLast? = some '\\') (hd : Paired ds) (done : List Token) :
    scanFrom done .between (quote cs ++ ds) = none := by
  rw [← List.head?_reverse] at h
  obtain ⟨before, hb⟩ := List.head?_eq_some_iff.1 h
  have open' : next '"' (.quoted ('\\' :: before)) = some ([], .quoted ('"' :: before)) := rfl
  rw [scanFrom_quote, hb, scanFrom, open']
  refine hd.scanFrom_eq_none ?_ _
  exact fun same => absurd (Option.some.inj same) (by decide)

/-- A text in which nothing has to be escaped. -/
def Plain (cs : List Char) : Prop := ∀ c ∈ cs, c ≠ '"' ∧ c ≠ '\\'

instance : Decidable (Plain cs) := List.decidableBAll _ cs

lemma Plain.append (hc : Plain cs) (hd : Plain ds) : Plain (cs ++ ds) :=
  List.forall_mem_append.2 ⟨hc, hd⟩

lemma Plain.quote_eq (h : Plain cs) : quote cs = '"' :: (cs ++ ['"']) := by
  rw [quote, escaped_of_not_mem fun hc => (h _ hc).1 rfl]

/-- A piece of a text that is read as some tokens, whatever stands around it, and has its quotes in
pairs. -/
structure Piece (cs : List Char) (ts : List Token) : Prop extends Paired cs where
  reads : Reads cs ts

namespace Piece

lemma append (hc : Piece cs ts) (hd : Piece ds us) : Piece (cs ++ ds) (ts ++ us) :=
  ⟨hc.toPaired.append hd.toPaired, hc.reads.append hd.reads⟩

lemma lines {α : Type} {line : α → List Char} {tokens : α → List Token} {l : List α}
    (h : ∀ a ∈ l, Piece (line a) (tokens a)) : Piece (lined (l.map line)) (l.flatMap tokens) :=
  ⟨paired_lined (List.forall_mem_map.2 fun a ha => (h a ha).toPaired),
    reads_lined fun a ha => (h a ha).reads⟩

lemma quote (h : Plain cs) : Piece (quote cs) [id (.quoted (String.ofList cs))] := by
  have none : cs.count '"' = 0 := List.count_eq_zero.2 fun hc => (h _ hc).1 rfl
  have plain : '\\' ∉ cs := fun hc => (h _ hc).2 rfl
  refine ⟨⟨?_, ?_⟩, reads_quote fun last => plain (List.mem_of_getLast? last)⟩
  · rw [h.quote_eq]
    simpa using plain
  · rw [h.quote_eq, List.count_cons_self, List.count_append, none]
    rfl

end Piece

end Token

lemma read?_of_reads {text : String} {f : Figure} (h : Token.Reads text.toList f.tokens)
    (complete : ∀ s ∈ f.statements, s.Complete) : read? text = some f := by
  rw [read?, h.scan, Figure.tokens]
  dsimp only
  rw [statements?_flatMap complete]
  rfl

example : read? "digraph G \x7b a -> \"\\b\\\"\" [label=\"\", len=2]; \x7d" =
    some ⟨.bare "G", [.edge (.bare "a") (.quoted "\\b\"")
      [⟨.bare "label", .quoted ""⟩, ⟨.bare "len", .bare "2"⟩]]⟩ := by
  decide

end SeqAsm.Dot
