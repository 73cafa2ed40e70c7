/-!
# Paths as texts

A path is a text whose parts stand between slashes. Here are the operations on the text alone: the
last part, the text before it, the extension, and the joining of two paths. An extension starts at
the last dot of the last part, but dots at the start of that part do not count.
-/

namespace StackScript.Path

/-- The stretches of characters between the occurrences of one. -/
def splitChars (mark : Char) : List Char → List (List Char)
  | [] => [[]]
  | c :: rest =>
    match splitChars mark rest with
    | [] => [[c]]
    | first :: others => if c = mark then [] :: first :: others else (c :: first) :: others

def split (path : String) : List String := (splitChars '/' path.toList).map String.ofList

def isAbsolute (path : String) : Bool := path.toList.head? == some '/'

def endsWithSlash (path : String) : Bool := path.toList.getLast? == some '/'

/-- The parts of a path without those that stay where they are. -/
def parts (path : String) : List String :=
  (split path).filter fun part => part ≠ "" && part ≠ "."

/-- Characters up to the last occurrence of one, with it, and those after it. -/
def breakLast (mark : Char) (cs : List Char) : List Char × List Char :=
  let after := (cs.reverse.takeWhile (· ≠ mark)).reverse
  (cs.take (cs.length - after.length), after)

def baseName (path : String) : String := String.ofList (breakLast '/' path.toList).2

def directory (path : String) : String :=
  let front := (breakLast '/' path.toList).1
  if front.all (· == '/') then String.ofList front
  else String.ofList (front.reverse.dropWhile (· == '/')).reverse

/-- A path without its extension, and the extension with its dot. -/
def splitExtension (path : String) : String × String :=
  let (front, name) := breakLast '/' path.toList
  let dots := name.takeWhile (· == '.')
  let (stem, extension) := breakLast '.' (name.dropWhile (· == '.'))
  match stem.getLast? with
  | none => (path, "")
  | some _ => (String.ofList (front ++ dots ++ stem.dropLast), String.ofList ('.' :: extension))

def withExtension (extension path : String) : String := (splitExtension path).1 ++ extension

/-- A path that leads from the end of another; a path from the root stands alone. -/
def join (a b : String) : String :=
  if isAbsolute b then b
  else if a.isEmpty || endsWithSlash a then a ++ b
  else a ++ "/" ++ b

/-- Parts of a path, latest first, followed by one more; a step up takes back a step down. -/
def stepNormal (absolute : Bool) (taken : List String) (part : String) : List String :=
  if part ≠ ".." then part :: taken
  else match taken with
    | [] => if absolute then [] else [".."]
    | ".." :: _ => ".." :: taken
    | _ :: rest => rest

/-- A path without parts that stay in place and without steps down that are taken back. -/
def normal (path : String) : String :=
  let absolute := isAbsolute path
  let taken := (parts path).foldl (stepNormal absolute) []
  let text := "/".intercalate taken.reverse
  if absolute then "/" ++ text
  else if text.isEmpty then "." else text

/-- The suffix of a name: from its last dot, unless that is at the start or at the end. -/
def suffix (name : String) : String :=
  let (stem, after) := breakLast '.' name.toList
  if stem.length ≤ 1 || after.isEmpty then "" else String.ofList ('.' :: after)

end StackScript.Path
