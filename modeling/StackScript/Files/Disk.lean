import StackScript.Files.Archive
import StackScript.Files.Path
import StackScript.Text.Quoted

/-!
# Files and folders

A place is the list of names that leads to it from the root. A disk has entries at places: files
and folders; the root is always a folder. A path leads from the working folder, or from the root,
to a place: each part goes down into a folder, and `..` goes up. On its way it must meet folders
only, so that a step down into a missing folder fails even if it is taken back at once.
-/

namespace StackScript

abbrev Place := List String

/-- What a file holds. -/
inductive Content where
  | data (bytes : List UInt8)
  | archive (members : Archive)
  /-- A tool that has been installed, under its name. -/
  | program (name : String)
  deriving DecidableEq, Repr

def Content.bytes : Content → List UInt8
  | data bytes => bytes
  | archive members => members.encode
  | program _ => []

def Content.archive? : Content → Except ArchiveError Archive
  | archive members => .ok members
  | c => Archive.decode c.bytes

/-- What is at a place. -/
inductive Entry where
  | folder
  | file (content : Content)
  deriving DecidableEq, Repr

/-- Why a file or folder cannot be reached. -/
inductive FileCause where
  | missing
  | exists
  | notFolder
  | isFolder
  | longName
  | nullCharacter
  | notEmpty
  | busy
  deriving DecidableEq, Repr

/-- The cause, and the path that was asked for. -/
structure FileError where
  cause : FileCause
  path : String
  deriving DecidableEq, Repr

def FileError.message (e : FileError) : String :=
  let text := match e.cause with
    | .missing => "[Errno 2] No such file or directory"
    | .exists => "[Errno 17] File exists"
    | .notFolder => "[Errno 20] Not a directory"
    | .isFolder => "[Errno 21] Is a directory"
    | .longName => "[Errno 36] File name too long"
    | .notEmpty => "[Errno 39] Directory not empty"
    | .busy => "[Errno 16] Device or resource busy"
    | .nullCharacter => "embedded null byte"
  match e.cause with
  | .nullCharacter => text
  | _ => text ++ ": " ++ Text.quoted e.path

/-- Files and folders, and the folder from which paths lead. -/
structure Disk where
  entries : List (Place × Entry) := []
  working : Place := []
  deriving Repr

namespace Disk

/-! ## Places -/

def get? (d : Disk) (place : Place) : Option Entry :=
  if place = [] then some .folder else d.entries.lookup place

def put (d : Disk) (place : Place) (entry : Entry) : Disk :=
  { d with entries := (place, entry) :: d.entries.filter (·.1 ≠ place) }

def isInside (folder place : Place) : Bool :=
  folder.isPrefixOf place && folder.length < place.length

def clear (d : Disk) (place : Place) : Disk :=
  { d with entries := d.entries.filter fun e => !isInside place e.1 }

def erase (d : Disk) (place : Place) : Disk :=
  { d with entries := d.entries.filter (·.1 ≠ place) }

def names (d : Disk) (folder : Place) : List String :=
  (d.entries.filterMap fun e =>
    if e.1.dropLast = folder && isInside folder e.1 then e.1.getLast? else none).mergeSort
    fun a b => decide (a ≤ b)

/-- The files inside a folder at any depth, each with the names that lead to it from there, in the
order of these names. -/
def filesInside (d : Disk) (folder : Place) : List (Place × Content) :=
  (d.entries.filterMap fun e =>
    match e.2 with
    | .file content => if isInside folder e.1 then some (e.1.drop folder.length, content) else none
    | .folder => none).mergeSort fun a b => !b.1.lex a.1 (decide <| · < ·)

def plant (d : Disk) (place : Place) (content : Content) : Disk :=
  let folders := (List.range place.length).map place.take
  (folders.foldl (fun d folder => if (d.get? folder).isNone then d.put folder .folder else d)
    d).put place (.file content)

/-- The files inside a folder by their paths from there, in the order of the paths; installed
tools are left out. -/
def listing (d : Disk) (folder : Place) : List (String × Content) :=
  ((d.filesInside folder).filterMap fun (names, content) =>
    match content with
    | .program _ => none
    | _ => some ("/".intercalate names, content)).mergeSort fun a b => decide (a.1 ≤ b.1)

/-! ## Paths -/

def longestName : Nat := 255

/-- Goes through the parts of a path; `reached` is a folder. -/
def walk (d : Disk) (reached : Place) : List String → Except FileCause (Place × Option Entry)
  | [] => .ok (reached, d.get? reached)
  | "." :: rest => walk d reached rest
  | ".." :: rest => walk d reached.dropLast rest
  | name :: rest =>
    if longestName < (Text.encodeUtf8 name).length then .error .longName
    else
      let place := reached ++ [name]
      match d.get? place, rest with
      | some .folder, _ => walk d place rest
      | found, [] => .ok (place, found)
      | some (.file _), _ :: _ => .error .notFolder
      | none, _ :: _ => .error .missing

def locate (d : Disk) (path : String) : Except FileCause (Place × Option Entry) := do
  if path.isEmpty then throw .missing
  if path.toList.contains '\x00' then throw .nullCharacter
  let start := if Path.isAbsolute path then [] else d.working
  if (d.get? start).isNone then throw .missing
  walk d start ((Path.split path).filter (· ≠ ""))

/-- Where a path leads, and what is there; a path with a slash at its end leads to no file. -/
def reach (d : Disk) (path : String) : Except FileCause (Place × Option Entry) := do
  match ← d.locate path with
  | (place, some (.file content)) =>
    if Path.endsWithSlash path then throw .notFolder
    return (place, some (.file content))
  | found => return found

def entryAt? (d : Disk) (path : String) : Option Entry :=
  match d.reach path with
  | .ok (_, found) => found
  | .error _ => none

def holds (d : Disk) (path : String) : Bool := (d.entryAt? path).isSome

def read (d : Disk) (path : String) : Except FileError Content :=
  match d.reach path with
  | .error cause => .error ⟨cause, path⟩
  | .ok (_, some (.file content)) => .ok content
  | .ok (_, some .folder) => .error ⟨.isFolder, path⟩
  | .ok (_, none) => .error ⟨.missing, path⟩

def write (d : Disk) (path : String) (content : Content) : Except FileError Disk :=
  match d.locate path with
  | .error cause => .error ⟨cause, path⟩
  | .ok (_, some .folder) => .error ⟨.isFolder, path⟩
  | .ok (place, _) =>
    if Path.endsWithSlash path then .error ⟨.isFolder, path⟩
    else .ok (d.put place (.file content))

def makeFolder (d : Disk) (path : String) : Except FileError Disk :=
  match d.locate path with
  | .error cause => .error ⟨cause, path⟩
  | .ok (_, some _) => .error ⟨.exists, path⟩
  | .ok (place, none) => .ok (d.put place .folder)

def remove (d : Disk) (path : String) : Except FileError Disk :=
  match d.reach path with
  | .error cause => .error ⟨cause, path⟩
  | .ok (_, some .folder) => .error ⟨.isFolder, path⟩
  | .ok (place, some (.file _)) => .ok (d.erase place)
  | .ok (_, none) => .error ⟨.missing, path⟩

end Disk

end StackScript
