import StackScript.Files.Disk

/-!
# The files of an editor

A manager works on the files of one folder, its root. A path is taken from the root; a path from
the root of the disk stands for itself, and `..` leads up. Reading gives no text when there is
none to be had; the other operations tell whether they succeeded. Folders above a new file are
made, and they stay even if the file cannot be written.
-/

namespace StackScript.Editor

/-- Work on a disk that keeps what was done before an error. -/
abbrev Filing (α : Type) := EStateM FileError Disk α

namespace Filing

def change (f : Disk → Except FileError Disk) : Filing Unit := do
  match f (← get) with
  | .ok disk => set disk
  | .error e => throw e

def succeeds (work : Filing Unit) (disk : Disk) : Bool × Disk :=
  match work disk with
  | .ok _ disk => (true, disk)
  | .error _ disk => (false, disk)

end Filing

/-- A path by its parts. -/
structure Route where
  absolute : Bool
  parts : List String

namespace Route

def ofPath (path : String) : Route := ⟨Path.isAbsolute path, Path.parts path⟩

def path (r : Route) : String :=
  let text := "/".intercalate r.parts
  if r.absolute then "/" ++ text else if text.isEmpty then "." else text

def under (root path : String) : Route :=
  let inner := ofPath path
  if inner.absolute then inner
  else { ofPath root with parts := Path.parts root ++ inner.parts }

def parent (r : Route) : Route := { r with parts := r.parts.dropLast }

def makeFolder (path : String) : Filing Unit := do
  match (← get).makeFolder path with
  | .ok disk => set disk
  | .error e =>
    if (← get).entryAt? path ≠ some .folder then throw e

/-- Makes a folder and the folders above it; `parts` are the parts of its path, last part first. -/
def makeFoldersFrom (absolute : Bool) : List String → Filing Unit
  | [] => return ()
  | name :: above => do
    let path := Route.path ⟨absolute, (name :: above).reverse⟩
    match (← get).makeFolder path with
    | .ok disk => set disk
    | .error ⟨.missing, _⟩ => do
      makeFoldersFrom absolute above
      makeFolder path
    | .error _ => makeFolder path

def makeFolders (r : Route) : Filing Unit := makeFoldersFrom r.absolute r.parts.reverse

end Route

/-! ## Operations -/

def fileText? (disk : Disk) (root path : String) : Option String :=
  match disk.read (Route.under root path).path with
  | .error _ => none
  | .ok content =>
    match Text.decodeUtf8 content.bytes with
    | .ok text => some (String.ofList (Text.plainLineEnds text.toList))
    | .error _ => none

/-- Writes a text; if there is none to write, the file is left empty and the work fails. -/
def saveWork (root path : String) (text : Option String) : Filing Unit := do
  let r := Route.under root path
  r.parent.makeFolders
  Filing.change (Disk.write · r.path (.data (Text.encodeUtf8 (text.getD ""))))
  if text.isNone then throw ⟨.missing, r.path⟩

def save (root path : String) (text : Option String) (disk : Disk) : Bool × Disk :=
  (saveWork root path text).succeeds disk

def createWork (root path : String) : Filing Unit := do
  let r := Route.under root path
  r.parent.makeFolders
  if !(← get).holds r.path then Filing.change (Disk.write · r.path (.data []))

def create (root path : String) (disk : Disk) : Bool × Disk :=
  (createWork root path).succeeds disk

def removeFolder (path : String) : Filing Unit := do
  let disk ← get
  match disk.locate path with
  | .error cause => throw ⟨cause, path⟩
  | .ok (place, _) =>
    if (Path.parts path).getLast? = some ".." || !(disk.names place).isEmpty then
      throw ⟨.notEmpty, path⟩
    if place.isEmpty then throw ⟨.busy, path⟩
    set (disk.erase place)

/-- Removes a file, or a folder with all that is in it. What is in a folder goes first; then the
path must still lead to it. -/
def deleteWork (root path : String) : Filing Unit := do
  let path := (Route.under root path).path
  let disk ← get
  match disk.locate path with
  | .error .longName => throw ⟨.longName, path⟩
  | .error _ | .ok (_, none) => return ()
  | .ok (_, some (.file _)) => Filing.change (Disk.remove · path)
  | .ok (place, some .folder) => do
    set (disk.clear place)
    removeFolder path

def delete (root path : String) (disk : Disk) : Bool × Disk :=
  (deleteWork root path).succeeds disk

/-! ## The tree of files -/

/-- A file or folder in the tree, by its name and its path from the root. -/
inductive Item where
  | file (name path : String) (size : Nat) (suffix : String)
  | folder (name path : String) (children : List Item)

/-- The items in a folder, no deeper than the fuel; names that start with a dot are left out.
`above` are the names that lead to the folder from the root. -/
def itemsIn (disk : Disk) (root above : Place) : Nat → List Item
  | 0 => []
  | fuel + 1 =>
    ((disk.names (root ++ above)).filter fun name => !name.startsWith ".").map fun name =>
      let names := above ++ [name]
      let path := "/".intercalate names
      match disk.get? (root ++ names) with
      | some (.file content) => .file name path content.bytes.length (Path.suffix name)
      | _ => .folder name path (itemsIn disk root names fuel)

def tree (disk : Disk) (root : String) : Except FileError (List Item) :=
  match disk.locate root with
  | .error cause => .error ⟨cause, root⟩
  | .ok (_, none) => .error ⟨.missing, root⟩
  | .ok (_, some (.file _)) => .error ⟨.notFolder, root⟩
  | .ok (place, some .folder) => .ok (itemsIn disk place [] (disk.entries.length + 1))

end StackScript.Editor
