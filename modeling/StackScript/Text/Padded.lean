/-!
# Padded text

A text is filled up with blanks to a width; a text that is wider stays as it is.
-/

namespace StackScript.Text

def blanks (count : Nat) : String := String.ofList (List.replicate count ' ')

def padEnd (width : Nat) (text : String) : String := text ++ blanks (width - text.length)

def padStart (width : Nat) (text : String) : String := blanks (width - text.length) ++ text

end StackScript.Text
