/-!
The words of the instruction set. An `Operation` combines two integers into one; an `Opcode` is
what an instruction may carry; a `Mnemonic` is any word that may open a line, the two loop
markers included. The loop markers are no opcodes: in a program tree a loop is a node.
-/

namespace SeqAsm

inductive Operation where
  | mov | add | sub | trn | mul | div | dif | dir | mod | pow | gcd | bin | cmp | equ | neq | leq
  | geq | min | max | ban | bor | bxo | log | nrt | dgs | dgr
  deriving DecidableEq, Repr

/-- What an instruction does: an operation, the clearing of registers, or a call of another
program, which has two spellings. -/
inductive Opcode where
  | op (o : Operation)
  | clr
  | seq
  | cal
  deriving DecidableEq, Repr

inductive Mnemonic where
  | code (o : Opcode)
  | lpb
  | lpe
  deriving DecidableEq, Repr

namespace Operation

def all : List Operation :=
  [.mov, .add, .sub, .trn, .mul, .div, .dif, .dir, .mod, .pow, .gcd, .bin, .cmp, .equ, .neq, .leq,
    .geq, .min, .max, .ban, .bor, .bxo, .log, .nrt, .dgs, .dgr]

def word : Operation → String
  | .mov => "mov" | .add => "add" | .sub => "sub" | .trn => "trn" | .mul => "mul"
  | .div => "div" | .dif => "dif" | .dir => "dir" | .mod => "mod" | .pow => "pow"
  | .gcd => "gcd" | .bin => "bin" | .cmp => "cmp" | .equ => "equ" | .neq => "neq"
  | .leq => "leq" | .geq => "geq" | .min => "min" | .max => "max" | .ban => "ban"
  | .bor => "bor" | .bxo => "bxo" | .log => "log" | .nrt => "nrt" | .dgs => "dgs"
  | .dgr => "dgr"

end Operation

namespace Opcode

def all : List Opcode := Operation.all.map .op ++ [.clr, .seq, .cal]

def word : Opcode → String
  | .op o => o.word
  | .clr => "clr"
  | .seq => "seq"
  | .cal => "cal"

def isCall : Opcode → Bool
  | .seq | .cal => true
  | _ => false

end Opcode

namespace Mnemonic

def all : List Mnemonic := Opcode.all.map .code ++ [.lpb, .lpe]

def word : Mnemonic → String
  | .code o => o.word
  | .lpb => "lpb"
  | .lpe => "lpe"

/-- The mnemonic with a given spelling; case matters. -/
def ofWord? (w : String) : Option Mnemonic := all.find? fun m => m.word == w

theorem mem_all (m : Mnemonic) : m ∈ all := by
  rcases m with ⟨⟨o⟩ | _ | _ | _⟩ | _ | _ <;> first | (cases o <;> decide) | decide

theorem word_injective {m n : Mnemonic} (h : m.word = n.word) : m = n := by
  have key : ∀ a ∈ all, ∀ b ∈ all, a.word = b.word → a = b := by decide
  exact key m (mem_all m) n (mem_all n) h

theorem ofWord?_word (m : Mnemonic) : ofWord? m.word = some m := by
  have key : ∀ a ∈ all, ofWord? a.word = some a := by decide
  exact key m (mem_all m)

end Mnemonic

end SeqAsm
