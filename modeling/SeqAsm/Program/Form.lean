import SeqAsm.Program.Basic
import SeqAsm.Sexp.Reader

/-!
Programs as S-expressions: `(program (offset n) (id n) node …)`, where a node is an opcode with
operands, or `lpb` with target, length and body. A form may give an instruction any number of
operands; nodes read from a form have no line.
-/

namespace SeqAsm

inductive FormFault where
  | text (f : Sexp.Fault)
  | notProgram
  | notSymbol
  | notOperand
  | unknownTag
  | notNode
  | unknownInstruction
  | incompleteLoop
  /-- A header without a value. -/
  | missingValue
  /-- A header value that denotes no integer. -/
  | notInteger
  | infiniteValue
  /-- A header value of a kind that never denotes an integer. -/
  | notAtom
  deriving DecidableEq, Repr

namespace Operand

def toSexp : Operand → Sexp
  | .const v => .list [.symbol "const", .int v]
  | .reg i => .list [.symbol "reg", .int i]
  | .ind i => .list [.symbol "ind", .int i]

def ofTag? (tag : String) (n : Int) : Option Operand :=
  if tag = "const" then some (.const n)
  else if tag = "reg" then some (.reg n)
  else if tag = "ind" then some (.ind n)
  else none

end Operand

namespace Sexp

def name : Sexp → Except FormFault String
  | .symbol s => .ok s
  | _ => .error .notSymbol

/-- An atom that is an integer as it stands. Truth equals one and is taken as such: an operand does
not keep that it was written `t`. -/
def integer? : Sexp → Option Int
  | .int n => some n
  | .truth => some 1
  | _ => none

/-- The integer that a header value denotes. A real number is cut to its whole part. -/
def toInteger : Sexp → Except FormFault Int
  | .int n => .ok n
  | .truth => .ok 1
  | .real .nan => .error .notInteger
  | .real (.infinite _) => .error .infiniteValue
  | .real (.decimal negative m e) =>
    match Text.wholeOfDecimal m e with
    | some n => .ok (if negative then -(n : Int) else n)
    | none => .error .infiniteValue
  | .str s | .symbol s =>
    match Text.int? s.toList with
    | some n => .ok n
    | none => .error .notInteger
  | .list _ | .bracket _ | .quoted _ => .error .notAtom

def toOperand : Sexp → Except FormFault Operand
  | .list [tag, value] =>
    match value.integer? with
    | none => .error .notOperand
    | some n => do
      match Operand.ofTag? (← tag.name) n with
      | some o => return o
      | none => throw .unknownTag
  | _ => .error .notOperand

end Sexp

namespace Block

def toForms : Block → List Sexp
  | nil => []
  | instr i _ rest => .list (.symbol i.opcode.word :: i.operands.map Operand.toSexp) :: rest.toForms
  | loop h _ body rest =>
    .list (.symbol "lpb" :: h.target.toSexp :: h.length.toSexp :: body.toForms) :: rest.toForms

mutual

/-- Reads a form as a node; the node is given as what it puts before the rest of a block. -/
def ofForm : Sexp → Except FormFault (Block → Block)
  | .list (head :: args) => do
    let word ← head.name
    if word = "lpb" then
      match args with
      | target :: length :: body =>
        let target ← target.toOperand
        let length ← length.toOperand
        let body ← ofForms body
        return loop ⟨target, length⟩ 0 body
      | _ => throw .incompleteLoop
    else match Mnemonic.ofWord? word with
      | some (.code code) => return instr ⟨code, ← args.mapM Sexp.toOperand⟩ 0
      | _ => throw .unknownInstruction
  | _ => .error .notNode

def ofForms : List Sexp → Except FormFault Block
  | [] => .ok nil
  | x :: xs => do
    let put ← ofForm x
    let rest ← ofForms xs
    return put rest

end

end Block

namespace Program

def toSexp (p : Program) : Sexp :=
  .list (.symbol "program" :: .list [.symbol "offset", .int p.offset]
    :: (p.id.elim [] fun id => [.list [.symbol "id", .int id]]) ++ p.body.toForms)

structure Items where
  offset : Option Int := none
  id : Option Int := none
  body : Block := .nil

def headerValue : List Sexp → Except FormFault Int
  | [] => .error .missingValue
  | x :: _ => x.toInteger

/-- The word that an item begins with; nodes that are no lists have none. -/
def itemWord : Sexp → Except FormFault String
  | .list (head :: _) => head.name
  | _ => .ok ""

/-- Reads the items of a form. Of several headers of a kind the last one counts. -/
def readItems : List Sexp → Except FormFault Items
  | [] => .ok {}
  | x :: xs => do
    let word ← itemWord x
    let args := match x with
      | .list (_ :: args) => args
      | _ => []
    if word = "offset" then
      let n ← headerValue args
      let items ← readItems xs
      return { items with offset := items.offset.or (some n) }
    else if word = "id" then
      let n ← headerValue args
      let items ← readItems xs
      return { items with id := items.id.or (some n) }
    else
      let put ← Block.ofForm x
      let items ← readItems xs
      return { items with body := put items.body }

def ofSexp : Sexp → Except FormFault Program
  | .list (head :: args) => do
    if (← head.name) = "program" then
      let items ← readItems args
      return ⟨items.body, items.offset.getD 0, items.id⟩
    else throw .notProgram
  | _ => .error .notProgram

def ofFormText (text : String) : Except FormFault Program :=
  match Sexp.read text with
  | .ok x => ofSexp x
  | .error f => .error (.text f)

def formText (p : Program) : String := p.toSexp.text

end Program

end SeqAsm
