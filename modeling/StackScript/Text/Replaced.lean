/-!
# Replacing inside a text

All places where one text occurs inside another are found from left to right, without overlap, and
replaced.
-/

namespace StackScript.Text

/-- Replaces `old` by `new`; `skip` characters belong to an occurrence that has been replaced. -/
def replaceChars (old new : List Char) (skip : Nat) : List Char → List Char
  | [] => []
  | c :: rest =>
    match skip with
    | skip + 1 => replaceChars old new skip rest
    | 0 =>
      if old.isPrefixOf (c :: rest) then new ++ replaceChars old new (old.length - 1) rest
      else c :: replaceChars old new 0 rest

/-- A text with `new` for each occurrence of `old`, which is not empty. -/
def replaced (old new text : String) : String :=
  String.ofList (replaceChars old.toList new.toList 0 text.toList)

end StackScript.Text
