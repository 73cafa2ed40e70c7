import StackScript.Text.Span

/-!
# Blank characters

The characters that trimming removes: the spaces and line separators of every script together
with the four information separators of the control block.
-/

namespace StackScript.Text

def blankEdges : Array Nat := #[
  0x9, 0xE, 0x1C, 0x21, 0x85, 0x86, 0xA0, 0xA1, 0x1680, 0x1681, 0x2000, 0x200B, 0x2028, 0x202A,
  0x202F, 0x2030, 0x205F, 0x2060, 0x3000, 0x3001]

def isBlank (c : Char) : Bool :=
  inSpans blankEdges c.toNat

def trim (cs : List Char) : List Char :=
  ((cs.dropWhile isBlank).reverse.dropWhile isBlank).reverse

def trimText (s : String) : String :=
  String.ofList (trim s.toList)

def trimStart (s : String) : String :=
  String.ofList (s.toList.dropWhile isBlank)

end StackScript.Text
