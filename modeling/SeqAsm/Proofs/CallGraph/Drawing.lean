import Mathlib.Data.List.TakeWhile
import SeqAsm.CallGraph.Dot
import SeqAsm.Proofs.CallGraph.Crawl
import SeqAsm.Proofs.Program.Form
import SeqAsm.Proofs.Text.Dot

/-!
Drawings of call graphs.

The text of a call graph is a figure of the DOT language, and the figure shows the title, the nodes
and the calls. Names and labels are made of letters, digits, signs and colons, so nothing has to be
escaped in them; only the title can be any text. A quote in the title has a backslash before it, but
a backslash at its end takes in the quote that is to end the title. From there on the scan is
between quotes where it should not be, and as quotes come in pairs in all that follows, it still is
at the end of the text.
-/

namespace SeqAsm

/-! ### Drawings -/

namespace CallGraph

/-- A call as it is drawn. -/
structure Arrow where
  caller : String
  callee : String
  word : String
  line : Int
  deriving DecidableEq, Repr

/-- What can be seen in a figure: names of nodes with their kinds, and calls. -/
structure Drawing where
  title : Option String
  nodes : List (String × NodeKind)
  edges : List Arrow
  deriving DecidableEq, Repr

end CallGraph

namespace Dot

open CallGraph (NodeKind Arrow Drawing)

/-- The text of an attribute. -/
def value? (key : String) (attributes : List Attribute) : Option String :=
  (attributes.find? (·.key.text == key)).map (·.value.text)

namespace Statement

def title? : Statement → Option String
  | set a => value? "label" [a]
  | _ => none

/-- A node under its name; one that is missing is a diamond. -/
def node? : Statement → Option (String × NodeKind)
  | node name attributes =>
    if value? "label" attributes = some name.text then
      some (name.text,
        if value? "shape" attributes = some "diamond" then .missing else .program)
    else none
  | _ => none

/-- A word with the number behind its colon; without a colon the number is zero. -/
def call? (label : String) : Option (String × Int) :=
  match label.toList.dropWhile (· != ':') with
  | [] => some (label, 0)
  | _ :: number =>
    (Text.int? number).map (String.ofList (label.toList.takeWhile (· != ':')), ·)

def edge? : Statement → Option Arrow
  | edge tail head attributes =>
    (value? "label" attributes >>= call?).map fun (word, line) => ⟨tail.text, head.text, word, line⟩
  | _ => none

end Statement

def Figure.drawing (f : Figure) : Drawing where
  title := (f.statements.filterMap Statement.title?).head?
  nodes := f.statements.filterMap Statement.node?
  edges := f.statements.filterMap Statement.edge?

end Dot

namespace CallGraph

open Dot (Attribute Figure)
open Dot.Token (Reads Paired Plain Piece quote lined lined_append intercalate_concat reads_nil
  reads_quote scanFrom_quote_eq_none)

variable {g : CallGraph} {e : Edge} {title : String} {loader : Loader} {top : List Int}

/-! ### Figures of graphs -/

def NodeKind.attributes : NodeKind → List Attribute
  | .program =>
    [⟨.bare "style", .bare "filled"⟩, ⟨.bare "fillcolor", .quoted "#ddeeff"⟩]
  | .missing =>
    [⟨.bare "style", .bare "filled"⟩, ⟨.bare "fillcolor", .quoted "#ffcccc"⟩,
      ⟨.bare "shape", .bare "diamond"⟩]

def Node.statement (n : Node) : Dot.Statement :=
  .node (.quoted n.name) (⟨.bare "label", .quoted n.name⟩ :: n.kind.attributes)

def Edge.label (e : Edge) : String :=
  if e.line = 0 then e.word else e.word ++ ":" ++ toString e.line

def Edge.statement (e : Edge) : Dot.Statement :=
  .edge (.quoted (programName e.caller)) (.quoted (programName e.callee))
    [⟨.bare "label", .quoted e.label⟩]

/-- All nodes are boxes unless they say otherwise. -/
def boxes : Dot.Statement :=
  .defaults .node [⟨.bare "shape", .bare "box"⟩, ⟨.bare "fontname", .quoted "Helvetica"⟩,
    ⟨.bare "fontsize", .bare "10"⟩]

/-- The statement of a title; an empty one is left out. -/
def heading (title : String) : List Dot.Statement :=
  if title.isEmpty then [] else [.set ⟨.bare "label", .quoted title⟩]

/-- What stands before the nodes. -/
def opening (title : String) : List Dot.Statement :=
  .set ⟨.bare "rankdir", .bare "TB"⟩ :: (heading title ++ [boxes])

/-- The figure that a graph with a title is to be. -/
def figure (g : CallGraph) (title : String) : Figure where
  name := .bare "CallGraph"
  statements := opening title ++ g.nodes.map Node.statement ++ g.edges.map Edge.statement

def drawing (g : CallGraph) (title : String) : Drawing where
  title := if title.isEmpty then none else some title
  nodes := g.nodes.map fun n => (n.name, n.kind)
  edges := g.edges.map fun e => ⟨programName e.caller, programName e.callee, e.word, e.line⟩

/-- Edges are calls that some instruction makes. -/
def Spoken (g : CallGraph) : Prop := ∀ e ∈ g.edges, ∃ o : Opcode, e.word = o.word

lemma call?_of_not_mem {word : String} (h : ':' ∉ word.toList) :
    Dot.Statement.call? word = some (word, 0) := by
  have all : word.toList.dropWhile (· != ':') = [] :=
    List.dropWhile_eq_nil_iff.2 fun c hc => bne_iff_ne.2 fun same => h (same ▸ hc)
  rw [Dot.Statement.call?, all]

lemma call?_numbered {word : String} (h : ':' ∉ word.toList) (line : Int) :
    Dot.Statement.call? (word ++ ":" ++ toString line) = some (word, line) := by
  have before : ∀ c ∈ word.toList, (c != ':') = true := fun c hc =>
    bne_iff_ne.2 fun same => h (same ▸ hc)
  have label : (word ++ ":" ++ toString line).toList =
      word.toList ++ ':' :: (toString line).toList := by
    rw [String.toList_append, String.toList_append, List.append_assoc]
    rfl
  have number : (word.toList ++ ':' :: (toString line).toList).dropWhile (· != ':') =
      ':' :: (toString line).toList := by
    rw [List.dropWhile_append_of_pos before]
    rfl
  have spoken : (word.toList ++ ':' :: (toString line).toList).takeWhile (· != ':') =
      word.toList := by
    rw [List.takeWhile_append_of_pos before, List.takeWhile_cons_of_neg (by decide),
      List.append_nil]
  rw [Dot.Statement.call?, label, number, spoken]
  dsimp only
  rw [Text.int?_toString, String.ofList_toList]
  rfl

lemma call?_label {o : Opcode} (h : e.word = o.word) :
    Dot.Statement.call? e.label = some (e.word, e.line) := by
  have colon : ':' ∉ e.word.toList := fun hc =>
    absurd (o.isWord.isAtomChar (h ▸ hc)) (by decide)
  unfold Edge.label
  split
  · rename_i none
    rw [call?_of_not_mem colon, none]
  · exact call?_numbered colon e.line

lemma node?_statement (n : Node) : n.statement.node? = some (n.name, n.kind) := by
  have labelled : Dot.value? "label" (⟨.bare "label", .quoted n.name⟩ :: n.kind.attributes) =
      some n.name := rfl
  unfold Node.statement Dot.Statement.node?
  dsimp only
  rw [labelled]
  refine (if_pos rfl).trans ?_
  rcases h : n.kind with _ | _
  · rfl
  · rfl

lemma edge?_statement {o : Opcode} (h : e.word = o.word) : e.statement.edge? =
    some ⟨programName e.caller, programName e.callee, e.word, e.line⟩ := by
  have labelled : Dot.value? "label" [⟨.bare "label", .quoted e.label⟩] = some e.label := rfl
  rw [Edge.statement, Dot.Statement.edge?, labelled, Option.bind_eq_bind, Option.bind_some,
    call?_label h]
  rfl

lemma filterMap_figure {α : Type} (f : Dot.Statement → Option α) (title : String) :
    (g.figure title).statements.filterMap f = (opening title).filterMap f ++
      g.nodes.filterMap (f ∘ Node.statement) ++ g.edges.filterMap (f ∘ Edge.statement) := by
  rw [figure, List.filterMap_append, List.filterMap_append, List.filterMap_map, List.filterMap_map]

lemma filterMap_title? (g : CallGraph) (title : String) :
    (g.figure title).statements.filterMap Dot.Statement.title? =
      if title.isEmpty then [] else [title] := by
  have nodes : g.nodes.filterMap (Dot.Statement.title? ∘ Node.statement) = [] :=
    List.filterMap_eq_nil_iff.2 fun _ _ => rfl
  have edges : g.edges.filterMap (Dot.Statement.title? ∘ Edge.statement) = [] :=
    List.filterMap_eq_nil_iff.2 fun _ _ => rfl
  rw [filterMap_figure, nodes, edges, List.append_nil, List.append_nil, opening, heading]
  split
  · rfl
  · rfl

lemma filterMap_node? (g : CallGraph) (title : String) :
    (g.figure title).statements.filterMap Dot.Statement.node? =
      g.nodes.map fun n => (n.name, n.kind) := by
  have before : (opening title).filterMap Dot.Statement.node? = [] := by
    rw [opening, heading]
    split
    · rfl
    · rfl
  have edges : g.edges.filterMap (Dot.Statement.node? ∘ Edge.statement) = [] :=
    List.filterMap_eq_nil_iff.2 fun _ _ => rfl
  rw [filterMap_figure, before, edges, List.nil_append, List.append_nil, ← List.filterMap_eq_map]
  exact List.filterMap_congr fun n _ => node?_statement n

lemma filterMap_edge? (spoken : g.Spoken) (title : String) :
    (g.figure title).statements.filterMap Dot.Statement.edge? =
      g.edges.map fun e => ⟨programName e.caller, programName e.callee, e.word, e.line⟩ := by
  have before : (opening title).filterMap Dot.Statement.edge? = [] := by
    rw [opening, heading]
    split
    · rfl
    · rfl
  have nodes : g.nodes.filterMap (Dot.Statement.edge? ∘ Node.statement) = [] :=
    List.filterMap_eq_nil_iff.2 fun _ _ => rfl
  rw [filterMap_figure, before, nodes, List.nil_append, List.nil_append, ← List.filterMap_eq_map]
  refine List.filterMap_congr fun e he => ?_
  obtain ⟨o, ho⟩ := spoken e he
  exact edge?_statement ho

lemma drawing_figure (spoken : g.Spoken) (title : String) :
    (g.figure title).drawing = g.drawing title := by
  rw [Figure.drawing, filterMap_title?, filterMap_node?, filterMap_edge? spoken, drawing]
  split
  · rfl
  · rfl

/-! ### Texts -/

lemma plain_of_isAtomChar {cs : List Char} (h : ∀ c ∈ cs, Text.isAtomChar c = true) : Plain cs := by
  intro c hc
  constructor
  · rintro rfl
    exact absurd (h _ hc) (by decide)
  · rintro rfl
    exact absurd (h _ hc) (by decide)

lemma plain_programName (id : Int) : Plain (programName id).toList := by
  obtain ⟨k, hk⟩ := Text.toList_padded 6 id
  have places : Plain (Text.places k id.natAbs) :=
    plain_of_isAtomChar fun c hc => by simp [Text.isAtomChar, Text.isDigit_of_mem_places hc]
  have numeral : Plain (Text.padded 6 id).toList := by
    rw [hk]
    split
    · exact List.forall_mem_cons.2 ⟨by decide, places⟩
    · exact places
  rw [programName, String.toList_append]
  exact Plain.append (by decide) numeral

lemma plain_label {o : Opcode} (h : e.word = o.word) : Plain e.label.toList := by
  have word : Plain e.word.toList :=
    plain_of_isAtomChar fun c hc => o.isWord.isAtomChar (h ▸ hc)
  unfold Edge.label
  split
  · exact word
  · have number : Plain (toString e.line).toList :=
      plain_of_isAtomChar fun _ => Text.isAtomChar_of_mem_toString
    rw [String.toList_append, String.toList_append]
    exact (word.append (by decide)).append number

lemma Node.toList_dot (n : Node) : n.dot.toList =
    "  ".toList ++ (quote n.name.toList ++ (" [label=".toList ++ (quote n.name.toList ++
      (", ".toList ++ n.kind.dotStyle.toList ++ "];".toList)))) := by
  rw [Node.name, (plain_programName n.id).quote_eq]
  simp [Node.dot, Node.name, String.toList_append]

lemma Edge.toList_dot {o : Opcode} (h : e.word = o.word) : e.dot.toList =
    "  ".toList ++ (quote (programName e.caller).toList ++ (" -> ".toList ++
      (quote (programName e.callee).toList ++ (" [label=".toList ++ (quote e.label.toList ++
        "];".toList))))) := by
  rw [(plain_programName e.caller).quote_eq, (plain_programName e.callee).quote_eq,
    (plain_label h).quote_eq]
  simp [Edge.dot, Edge.label, String.toList_append]

lemma piece_node (n : Node) : Piece n.dot.toList n.statement.tokens := by
  have name := Piece.quote (plain_programName n.id)
  rw [String.ofList_toList] at name
  have blanks : Piece "  ".toList [] := ⟨⟨by decide, rfl⟩, fun _ _ => rfl⟩
  have label : Piece " [label=".toList [.mark .leftBracket, .id (.bare "label"), .mark .equals] :=
    ⟨⟨by decide, rfl⟩, fun _ _ => rfl⟩
  have style : Piece (", ".toList ++ n.kind.dotStyle.toList ++ "];".toList)
      (.mark .comma :: (Dot.bracketed n.kind.attributes ++ [.mark .semicolon])) := by
    rcases n.kind with _ | _
    · exact ⟨⟨by decide, rfl⟩, fun _ _ => rfl⟩
    · exact ⟨⟨by decide, rfl⟩, fun _ _ => rfl⟩
  have tokens : n.statement.tokens = .id (.quoted n.name) :: .mark .leftBracket ::
      .id (.bare "label") :: .mark .equals :: .id (.quoted n.name) :: .mark .comma ::
        (Dot.bracketed n.kind.attributes ++ [.mark .semicolon]) := by
    rw [Node.statement]
    rcases n.kind with _ | _
    · rfl
    · rfl
  rw [n.toList_dot, tokens]
  exact blanks.append (name.append (label.append (name.append style)))

lemma piece_edge {o : Opcode} (h : e.word = o.word) : Piece e.dot.toList e.statement.tokens := by
  have caller := Piece.quote (plain_programName e.caller)
  have callee := Piece.quote (plain_programName e.callee)
  have word := Piece.quote (plain_label h)
  rw [String.ofList_toList] at caller callee word
  have blanks : Piece "  ".toList [] := ⟨⟨by decide, rfl⟩, fun _ _ => rfl⟩
  have arrow : Piece " -> ".toList [.mark .arrow] := ⟨⟨by decide, rfl⟩, fun _ _ => rfl⟩
  have label : Piece " [label=".toList [.mark .leftBracket, .id (.bare "label"), .mark .equals] :=
    ⟨⟨by decide, rfl⟩, fun _ _ => rfl⟩
  have close : Piece "];".toList [.mark .rightBracket, .mark .semicolon] :=
    ⟨⟨by decide, rfl⟩, fun _ _ => rfl⟩
  have right := callee.append (label.append (word.append close))
  rw [Edge.toList_dot h]
  exact blanks.append (caller.append (arrow.append right))

def headline (title : String) : List Char :=
  if title.isEmpty then [] else "  label=".toList ++ (quote title.toList ++ ";\n".toList)

def below (g : CallGraph) : List Char :=
  lined ["  node [shape=box, fontname=\"Helvetica\", fontsize=10];".toList] ++
    (lined (g.nodes.map fun n => n.dot.toList) ++
      (lined (g.edges.map fun e => e.dot.toList) ++ ['\x7d']))

lemma toList_dotString (s : String) : (dotString s).toList = quote s.toList := by
  rw [dotString, String.toList_ofList]
  rfl

lemma toList_dot (g : CallGraph) (title : String) : (g.dot title).toList =
    lined ["digraph CallGraph \x7b".toList, "  rankdir=TB;".toList] ++
      (headline title ++ g.below) := by
  have brace : "\x7d".toList = ['\x7d'] := rfl
  have lineBreak : "\n".toList = ['\n'] := rfl
  have titled : lined (List.map String.toList
      (if title.isEmpty then [] else ["  label=" ++ dotString title ++ ";"])) = headline title := by
    unfold headline
    split
    · rfl
    · simp [lined, toList_dotString, String.toList_append]
  rw [dot, String.toList_intercalate, List.map_append, List.map_singleton, brace, lineBreak,
    intercalate_concat]
  simp only [List.map_append, lined_append, titled, below, List.append_assoc, List.map_map]
  rfl

lemma piece_below (spoken : g.Spoken) : Piece g.below
    (boxes.tokens ++ (g.nodes.flatMap (·.statement.tokens) ++
      (g.edges.flatMap (·.statement.tokens) ++ [.mark .rightBrace]))) := by
  have defaults : Piece
      (lined ["  node [shape=box, fontname=\"Helvetica\", fontsize=10];".toList]) boxes.tokens :=
    ⟨⟨by decide, rfl⟩, fun _ _ => rfl⟩
  have nodes : Piece (lined (g.nodes.map fun n => n.dot.toList))
      (g.nodes.flatMap (·.statement.tokens)) := Piece.lines fun n _ => piece_node n
  have edges : Piece (lined (g.edges.map fun e => e.dot.toList))
      (g.edges.flatMap (·.statement.tokens)) := Piece.lines fun e he => by
    obtain ⟨o, ho⟩ := spoken e he
    exact piece_edge ho
  have brace : Piece ['\x7d'] [.mark .rightBrace] := ⟨⟨by decide, rfl⟩, fun _ _ => rfl⟩
  exact defaults.append (nodes.append (edges.append brace))

lemma complete_figure (g : CallGraph) (title : String) :
    ∀ s ∈ (g.figure title).statements, s.Complete := by
  have before : ∀ s ∈ opening title, s.Complete := by
    unfold opening heading
    split
    · simp [Dot.Statement.Complete, boxes]
    · simp [Dot.Statement.Complete, boxes]
  refine List.forall_mem_append.2 ⟨List.forall_mem_append.2 ⟨before, ?_⟩, ?_⟩
  · exact List.forall_mem_map.2 fun n _ => List.cons_ne_nil _ _
  · exact List.forall_mem_map.2 fun e _ => List.cons_ne_nil _ _

def openingTokens : List Dot.Token :=
  [.keyword .digraph, .id (.bare "CallGraph"), .mark .leftBrace, .id (.bare "rankdir"),
    .mark .equals, .id (.bare "TB"), .mark .semicolon]

lemma reads_opening :
    Reads (lined ["digraph CallGraph \x7b".toList, "  rankdir=TB;".toList]) openingTokens :=
  fun _ _ => rfl

lemma reads_key : Reads "  label=".toList [.id (.bare "label"), .mark .equals] := fun _ _ => rfl

lemma reads_headline (h : title.toList.getLast? ≠ some '\\') :
    Reads (headline title) ((heading title).flatMap Dot.Statement.tokens) := by
  unfold headline heading
  split
  · exact reads_nil
  · have text := reads_quote h
    rw [String.ofList_toList] at text
    have line : Reads ";\n".toList [.mark .semicolon] := fun _ _ => rfl
    exact reads_key.append (text.append line)

lemma tokens_figure (g : CallGraph) (title : String) : (g.figure title).tokens =
    openingTokens ++ ((heading title).flatMap Dot.Statement.tokens ++ (boxes.tokens ++
      (g.nodes.flatMap (·.statement.tokens) ++
        (g.edges.flatMap (·.statement.tokens) ++ [.mark .rightBrace])))) := by
  unfold Figure.tokens figure opening
  simp only [List.flatMap_append, List.flatMap_cons, List.flatMap_nil, List.flatMap_map,
    List.append_assoc, List.append_nil]
  rfl

/-- **The text of a graph is read as its figure**, when the title does not end in a backslash. -/
lemma read?_dot (spoken : g.Spoken) (h : title.toList.getLast? ≠ some '\\') :
    Dot.read? (g.dot title) = some (g.figure title) := by
  refine Dot.read?_of_reads ?_ (g.complete_figure title)
  rw [toList_dot, tokens_figure]
  exact reads_opening.append ((reads_headline h).append (piece_below spoken).reads)

/-- A backslash at the end of the title takes in the quote behind it, and the scan is between quotes
from there to the end of the text. -/
lemma read?_dot_eq_none (spoken : g.Spoken) (h : title.toList.getLast? = some '\\') :
    Dot.read? (g.dot title) = none := by
  have nonempty : ¬ title.isEmpty = true := by
    intro empty
    rw [String.isEmpty_iff.1 empty] at h
    cases h
  have rest : Paired (";\n".toList ++ g.below) :=
    Paired.append ⟨by decide, rfl⟩ (piece_below spoken).toPaired
  have unscanned : Dot.Token.scan (g.dot title).toList = none := by
    rw [toList_dot, headline, if_neg nonempty, Dot.Token.scan, reads_opening, List.append_assoc,
      reads_key, List.append_assoc, scanFrom_quote_eq_none h rest]
  rw [Dot.read?, unscanned]

/-! ### Graphs of crawls -/

lemma Spoken.addCalls (spoken : g.Spoken) (id : Int) (sites : List CallSite) :
    (sites.foldl (·.addCall id) g).Spoken := by
  intro e he
  rw [edges_addCalls] at he
  rcases List.mem_append.1 he with he | he
  · exact spoken e he
  · obtain ⟨s, -, rfl⟩ := List.mem_map.1 he
    exact ⟨s.opcode, rfl⟩

lemma Spoken.addNode (spoken : g.Spoken) (id : Int) (kind : NodeKind) (program : Option Program) :
    (g.addNode id kind program).Spoken := by
  rw [Spoken, edges_addNode]
  exact spoken

lemma Spoken.addProgram (spoken : g.Spoken) (id : Int) (p : Program) :
    (g.addProgram id p).1.Spoken :=
  (spoken.addNode id .program (some p)).addCalls id _

lemma spoken_of_crawlFrom {fuel : ℕ} {seen queue : List Int} {findings : List Finding}
    {g' : CallGraph} (spoken : g.Spoken)
    (h : (crawlFrom loader fuel seen g findings queue).answer = .ok g') : g'.Spoken := by
  fun_induction crawlFrom loader fuel seen g findings queue with
  | case1 => exact Except.ok.inj h ▸ spoken
  | case2 fuel seen g findings id queue known ih => exact ih spoken h
  | case4 fuel seen g before id queue new findings missing ih =>
    exact ih (spoken.addNode id .missing none) h
  | case8 seen g before id queue new findings p found fuel after called calls added ih =>
    have step := spoken.addProgram id (p.withId (some id))
    rw [added] at step
    exact ih step h
  | _ => cases h

lemma spoken_of_crawl (h : (crawl loader top).answer = .ok g) : g.Spoken :=
  spoken_of_crawlFrom (g := {}) nofun h

/-! ### The result -/

/-- **Drawings can be read back, if the title allows it.** The graph of a crawl is drawn as a figure
of the DOT language with any title that does not end in a backslash, and the figure shows the title,
the nodes in the order of discovery and the calls in their order. With a backslash at the end of the
title the text is no figure. -/
theorem crawl_drawn (h : (crawl loader top).answer = .ok g) (title : String) :
    (title.toList.getLast? ≠ some '\\' → Dot.read? (g.dot title) = some (g.figure title) ∧
      (g.figure title).drawing = g.drawing title) ∧
    (title.toList.getLast? = some '\\' → Dot.read? (g.dot title) = none) := by
  have spoken := spoken_of_crawl h
  constructor
  · intro closed
    exact ⟨read?_dot spoken closed, drawing_figure spoken title⟩
  · exact read?_dot_eq_none spoken

/-- A program that calls another one. -/
def callsMissing : Program where
  body := .instr ⟨.seq, [.reg 0, .const 11]⟩ 1 .nil

/-- There is no other program. -/
def missingCallee : Loader := ⟨fun id => .ok (if id = 10 then some callsMissing else none), 1⟩

def missingCalleeGraph : CallGraph where
  nodes := [⟨10, .program, some (callsMissing.withId (some 10))⟩, ⟨11, .missing, none⟩]
  edges := [⟨10, 11, "seq", 1⟩]

lemma crawl_missingCallee : (crawl missingCallee [10]).answer = .ok missingCalleeGraph := by
  have calls : callsMissing.dependencies = .ok [11] := by decide
  have added : ({} : CallGraph).addProgram 10 (callsMissing.withId (some 10)) =
      (missingCalleeGraph, none) := rfl
  have known : missingCalleeGraph.addNode 11 .missing none = missingCalleeGraph := rfl
  simp [crawl, crawlFrom, missingCallee, calls, added, known]

/-- A title with quotes, and with backslashes before quotes and before other characters. -/
theorem crawl_drawn_missingCallee : (crawl missingCallee [10]).answer = .ok missingCalleeGraph ∧
    (Dot.read? (missingCalleeGraph.dot "\\\"C:\\seq\\\"")).map Figure.drawing =
      some ⟨some "\\\"C:\\seq\\\"", [("A000010", .program), ("A000011", .missing)],
        [⟨"A000010", "A000011", "seq", 1⟩]⟩ ∧
    Dot.read? (missingCalleeGraph.dot "C:\\") = none := by
  have drawn := crawl_drawn crawl_missingCallee
  obtain ⟨read, seen⟩ := (drawn "\\\"C:\\seq\\\"").1 (by decide)
  refine ⟨crawl_missingCallee, ?_, (drawn "C:\\").2 (by decide)⟩
  rw [read, Option.map_some, seen]
  rfl

/-- A title that ends in a backslash. -/
theorem crawl_not_drawn : (crawl missingCallee [10]).answer = .ok missingCalleeGraph ∧
    Dot.read? (missingCalleeGraph.dot "C:\\") = none :=
  ⟨crawl_missingCallee, read?_dot_eq_none (spoken_of_crawl crawl_missingCallee) (by decide)⟩

end CallGraph

end SeqAsm
