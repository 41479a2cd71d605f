import SeqAsm.Opcode
import SeqAsm.Operand
import SeqAsm.Diagnostic.Basic
import SeqAsm.Ids

/-!
Programs. A program is a block of nodes with the index of its first term and, if known, an id. A
`Block` is a tree: an instruction or a loop, each with what follows it; a loop also has a block
of its own as body. A `Step` is an instruction or a loop marker, and a block is the same thing
as a balanced sequence of steps.
-/

namespace SeqAsm

structure Instruction where
  opcode : Opcode
  operands : List Operand
  deriving DecidableEq, Repr

/-- What a loop compares: a range of registers by its first register and its length. -/
structure LoopHeader where
  target : Operand
  length : Operand
  deriving DecidableEq, Repr

inductive Block where
  | nil
  | instr (i : Instruction) (line : Nat) (rest : Block)
  | loop (h : LoopHeader) (line : Nat) (body rest : Block)
  deriving DecidableEq, Repr

/-- A node by itself, without its body. -/
inductive Node where
  | instr (i : Instruction) (line : Nat)
  | loop (h : LoopHeader) (line : Nat)
  deriving DecidableEq, Repr

inductive Step where
  | instr (i : Instruction) (line : Nat)
  | opening (h : LoopHeader) (line : Nat)
  | closing
  deriving DecidableEq, Repr

structure Program where
  body : Block
  /-- The index of the first term. -/
  offset : Int := 0
  id : Option Int := none
  deriving DecidableEq, Repr

namespace Instruction

def text (i : Instruction) : String :=
  if i.operands.isEmpty then i.opcode.word
  else i.opcode.word ++ " " ++ ",".intercalate (i.operands.map Operand.text)

/-- The program that a call names by a constant. Other instructions name none. -/
def callee (i : Instruction) : Except Crash (Option Int) :=
  if i.opcode.isCall then
    match i.operands with
    | _ :: .const id :: _ => .ok (some id)
    | _ :: _ :: _ => .ok none
    | _ => .error .missingOperand
  else .ok none

end Instruction

/-- The assembly text that opens a loop. A length of one goes without saying. -/
def LoopHeader.text (h : LoopHeader) : String :=
  if h.length = .const 1 then "lpb " ++ h.target.text
  else "lpb " ++ h.target.text ++ "," ++ h.length.text

namespace Node

def line : Node → Nat
  | instr _ line | loop _ line => line

def text : Node → String
  | instr i _ => i.text
  | loop h _ => h.text

/-- How many instructions of a source text a node stands for; a loop has two markers. -/
def weight : Node → Nat
  | instr .. => 1
  | loop .. => 2

end Node

structure CallSite where
  callee : Int
  opcode : Opcode
  line : Nat
  deriving DecidableEq, Repr

namespace Block

/-- The nodes in source order, each loop before its body. -/
def nodes : Block → List Node
  | nil => []
  | instr i line rest => .instr i line :: rest.nodes
  | loop h line body rest => .loop h line :: (body.nodes ++ rest.nodes)

def steps : Block → List Step
  | nil => []
  | instr i line rest => .instr i line :: rest.steps
  | loop h line body rest => .opening h line :: (body.steps ++ .closing :: rest.steps)

/-- The blocks that a sequence of steps begins: the first ends at the first closing marker that
has no opening one, the second at the next such marker, and so on. -/
def assemble : List Step → List Block
  | [] => [nil]
  | .instr i line :: steps =>
    match assemble steps with
    | b :: bs => instr i line b :: bs
    | [] => []
  | .closing :: steps => nil :: assemble steps
  | .opening h line :: steps =>
    match assemble steps with
    | body :: rest :: bs => loop h line body rest :: bs
    | bs => bs

def ofSteps (steps : List Step) : Block := (assemble steps).headD nil

def unnumbered : Block → Block
  | nil => nil
  | instr i _ rest => instr i 0 rest.unnumbered
  | loop h _ body rest => loop h 0 body.unnumbered rest.unnumbered

/-- The calls among nodes in order, up to the first that lacks operands. -/
def leadingCalls : List Node → List CallSite × Option Crash
  | [] => ([], none)
  | .loop .. :: ns => leadingCalls ns
  | .instr i line :: ns =>
    match i.callee with
    | .error c => ([], some c)
    | .ok none => leadingCalls ns
    | .ok (some id) =>
      let (sites, crash) := leadingCalls ns
      (⟨id, i.opcode, line⟩ :: sites, crash)

def callSites (b : Block) : Except Crash (List CallSite) :=
  match leadingCalls b.nodes with
  | (sites, none) => .ok sites
  | (_, some c) => .error c

end Block

namespace Program

def nodes (p : Program) : List Node := p.body.nodes

/-- How many instructions the source of a program has, loop markers included. -/
def size (p : Program) : Nat := (p.nodes.map Node.weight).foldr (· + ·) 0

def callSites (p : Program) : Except Crash (List CallSite) := p.body.callSites

/-- The ids of the called programs in source order, repetitions kept. -/
def callees (p : Program) : Except Crash (List Int) := (·.map (·.callee)) <$> p.callSites

def dependencies (p : Program) : Except Crash (List Int) := Ids.ofList <$> p.callees

/-- Two programs are the same when their instructions and first indices are; line numbers and
ids do not matter. -/
def same (p q : Program) : Bool :=
  p.body.unnumbered = q.body.unnumbered && p.offset = q.offset

def withId (p : Program) (id : Option Int) : Program := { p with id }

end Program

end SeqAsm
