/-!
White space. Three sets of characters matter to the language and they differ: the white space
of the Unicode property, which separates the words of a line; the slightly larger set that is
cut from the ends of a text; and the blanks that must stand between a mnemonic and its first
operand.
-/

namespace SeqAsm.Text

/-- The characters with the Unicode property White_Space. -/
def isSpace (c : Char) : Bool :=
  let n := c.toNat
  (9 ≤ n && n ≤ 13) || n == 0x20 || n == 0x85 || n == 0xA0 || n == 0x1680
    || (0x2000 ≤ n && n ≤ 0x200A) || n == 0x2028 || n == 0x2029 || n == 0x202F
    || n == 0x205F || n == 0x3000

/-- The characters cut from the ends of a text: white space and the four information
separators. -/
def isEdge (c : Char) : Bool :=
  isSpace c || (0x1C ≤ c.toNat && c.toNat ≤ 0x1F)

def isBlank (c : Char) : Bool := c == ' ' || c == '\t'

def trimRight (cs : List Char) : List Char := (cs.reverse.dropWhile isEdge).reverse

def trim (cs : List Char) : List Char := trimRight (cs.dropWhile isEdge)

theorem isSpace_of_isBlank {c : Char} (h : isBlank c = true) : isSpace c = true := by
  simp only [isBlank, Bool.or_eq_true, beq_iff_eq] at h
  rcases h with rfl | rfl <;> decide

end SeqAsm.Text
