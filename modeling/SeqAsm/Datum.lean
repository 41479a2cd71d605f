import SeqAsm.Text.Quoted

/-!
Plain data trees: what a report carries as context and what a program looks like as a document.
A tree prints in two ways, on one line as a literal and over indented lines as a document.
-/

namespace SeqAsm

inductive Datum where
  | null
  | bool (b : Bool)
  | int (n : Int)
  | str (s : String)
  | list (items : List Datum)
  /-- Named fields in order. -/
  | record (fields : List (String × Datum))
  deriving Inhabited

namespace Datum

mutual

def inline : Datum → String
  | .null => "None"
  | .bool b => if b then "True" else "False"
  | .int n => toString n
  | .str s => Text.literal s
  | .list items => "[" ++ ", ".intercalate (inlineItems items) ++ "]"
  | .record fields => "\x7b" ++ ", ".intercalate (inlineFields fields) ++ "\x7d"

def inlineItems : List Datum → List String
  | [] => []
  | d :: ds => inline d :: inlineItems ds

def inlineFields : List (String × Datum) → List String
  | [] => []
  | (k, d) :: fs => (Text.literal k ++ ": " ++ inline d) :: inlineFields fs

end

def margin (depth : Nat) : String := "\n" ++ String.ofList (List.replicate (2 * depth) ' ')

def block (depth : Nat) (opening closing : String) (entries : List String) : String :=
  if entries.isEmpty then opening ++ closing
  else
    opening ++ margin (depth + 1) ++ ("," ++ margin (depth + 1)).intercalate entries
      ++ margin depth ++ closing

mutual

/-- A tree as a document whose first line is already indented to `depth`. -/
def documentAt (depth : Nat) : Datum → String
  | .null => "null"
  | .bool b => if b then "true" else "false"
  | .int n => toString n
  | .str s => Text.documentString s
  | .list items => block depth "[" "]" (documentItems (depth + 1) items)
  | .record fields => block depth "\x7b" "\x7d" (documentFields (depth + 1) fields)

def documentItems (depth : Nat) : List Datum → List String
  | [] => []
  | d :: ds => documentAt depth d :: documentItems depth ds

def documentFields (depth : Nat) : List (String × Datum) → List String
  | [] => []
  | (k, d) :: fs => (Text.documentString k ++ ": " ++ documentAt depth d) :: documentFields depth fs

end

def document (d : Datum) : String := documentAt 0 d

end Datum

end SeqAsm
