import SeqAsm.Program.Basic

/-!
The two ways to write a program for reading: canonical assembly text, in which a loop body is
indented by two blanks, and a data tree.
-/

namespace SeqAsm

def indent (depth : Nat) : String := String.ofList (List.replicate (2 * depth) ' ')

namespace Block

def lines (depth : Nat) : Block → List String
  | nil => []
  | instr i _ rest => (indent depth ++ i.text) :: rest.lines depth
  | loop h _ body rest =>
    (indent depth ++ h.text) ::
      (body.lines (depth + 1) ++ (indent depth ++ "lpe") :: rest.lines depth)

def data : Block → List Datum
  | nil => []
  | instr i _ rest =>
    .record
      [("op", .str i.opcode.word), ("operands", .list (i.operands.map fun o => .str o.text))]
      :: rest.data
  | loop h _ body rest =>
    .record
      [("op", .str "lpb"), ("target", .str h.target.text), ("length", .str h.length.text),
        ("body", .list body.data)]
      :: rest.data

end Block

namespace Program

/-- The lines of the canonical text. A first index of zero goes without saying. -/
def lines (p : Program) : List String :=
  (if p.offset = 0 then [] else ["#offset " ++ toString p.offset]) ++ p.body.lines 0

def text (p : Program) : String := String.join (p.lines.map (· ++ "\n"))

def datum (p : Program) : Datum :=
  .record
    [("id", p.id.elim .null .int), ("offset", .int p.offset), ("body", .list p.body.data)]

end Program

end SeqAsm
