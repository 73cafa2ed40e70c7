import StackScript.Command.Compiler
import StackScript.Command.Runner
import StackScript.Datum.Tagged

/-!
# Packages

A package is an archive with a manifest, the main code file, and all other code files that stand
in the folder of the main one or below it. A file with the name of the main one is left out
wherever it stands. Extracting writes the members in their order, so that of several members with
one name the last one remains.
-/

namespace StackScript

/-- What a package says of itself. -/
structure Manifest where
  name : String
  version : String := "1.0.0"
  description : String := ""
  author : String := ""

namespace Package

open Job

def manifestName : String := "manifest.json"

def mainName : String := "main.acode"

def extension : String := ".apack"

def manifestDatum (m : Manifest) : Datum :=
  Datum.object [
    ("name", .str m.name), ("version", .str m.version), ("main", .str mainName),
    ("description", .str m.description), ("author", .str m.author),
    ("dependencies", .list []), ("aqua_version", .str "1.0")]

/-! ## Packing -/

def manifestMember (m : Manifest) : Member :=
  ⟨manifestName, Text.encodeUtf8 ((manifestDatum m).writeIndented 0)⟩

/-- The member with the main program; a folder in its place stays a folder. -/
def mainMember : Entry → Member
  | .file content => ⟨mainName, content.bytes⟩
  | .folder => ⟨mainName ++ "/", []⟩

/-- The code files in a folder and below it, except those with the name of the main one. -/
def otherMembers (disk : Disk) (folder : Place) (main : String) : Archive :=
  (disk.filesInside folder).filterMap fun (names, content) =>
    let name := names.getLastD ""
    if name.endsWith Compiler.codeExtension && name ≠ main then
      some ⟨"/".intercalate names, content.bytes⟩
    else none

/-- The members of a package. A main program without a folder in its path comes alone. -/
def members (disk : Disk) (main : String) (entry : Entry) (manifest : Manifest) : Archive :=
  let folder := Path.directory main
  let others :=
    if folder.isEmpty then []
    else match disk.locate folder with
      | .ok (place, _) => otherMembers disk place (Path.baseName main)
      | .error _ => []
  manifestMember manifest :: mainMember entry :: others

def packagePath (output : String) : String :=
  if output.endsWith extension then output else output ++ extension

def create (main output : String) (manifest : Manifest) : Job Bool := do
  match (← get).disk.entryAt? main with
  | none =>
    print s!"Error: Main file '{main}' not found"
    return false
  | some entry =>
    let name :=
      if manifest.name.isEmpty then (Path.splitExtension (Path.baseName main)).1
      else manifest.name
    let manifest := { manifest with name }
    let path := packagePath output
    let work : Job Bool := do
      writeContent path (.archive (members (← get).disk main entry manifest))
      print s!"Package created: {path}"
      print s!"Main file: {main}"
      print s!"Package name: {name}"
      print s!"Version: {manifest.version}"
      return true
    handling work fun e => do
      print ("Packaging Error: " ++ e.message)
      return false

/-! ## Extracting -/

/-- The path to which a member is extracted; its name cannot lead out of the folder. -/
def memberPath (folder name : String) : String :=
  let inner := (Path.parts name).filter (· ≠ "..")
  Path.normal (Path.join folder ("/".intercalate inner))

/-- The paths of a folder and of the folders above it, the outermost first. -/
def pathsTo (path : String) : List String :=
  let names := Path.split path
  ((List.range names.length).map fun n => "/".intercalate (names.take (n + 1))).filter (· ≠ "")

/-- Makes a folder and the folders above it, as far as there are none. -/
def makeFolders (path : String) : Job Unit :=
  (pathsTo path).forM fun p => do
    if !(← holds p) then change (Disk.makeFolder · p)

def isFolder (path : String) : Job Bool :=
  return (← get).disk.entryAt? path = some .folder

def extractMember (folder : String) (m : Member) : Job Unit := do
  let path := memberPath folder m.name
  let above := Path.directory path
  if !above.isEmpty then makeFolders above
  if Path.endsWithSlash m.name then
    if !(← isFolder path) then change (Disk.makeFolder · path)
  else writeBytes path m.bytes

/-- Extracts all members; under each name the last member is found. -/
def extractAll (archive : Archive) (folder : String) : Job Unit :=
  archive.forM fun m => extractMember folder ((archive.find? m.name).getD m)

def readArchive (path : String) : Job Archive := do
  ofExcept .archive (← readContent path).archive?

def readData (bytes : List UInt8) : Job Datum := do
  let text ← ofExcept .encoding (Text.decodeUtf8 bytes)
  ofExcept .data (Datum.read text)

def demand (path : String) (work : Job Bool) : Job Bool := do
  if ← holds path then work
  else
    print s!"Error: Package file '{path}' not found"
    return false

def extract (package : String) (output : Option String) : Job Bool :=
  demand package do
    let folder := output.getD (Path.splitExtension package).1
    let work : Job Bool := do
      let archive ← readArchive package
      let manifest ← readData (← ofExcept .archive (archive.read manifestName))
      let name ← ofExcept .fault (manifest.part "name")
      let version ← ofExcept .fault (manifest.part "version")
      print ("Extracting package: " ++ name.text ++ " v" ++ version.text)
      extractAll archive folder
      print s!"Extracted to: {folder}"
      return true
    handling work fun e => do
      print ("Extraction Error: " ++ e.message)
      return false

/-- Runs the main program of a package; tells whether it succeeded. -/
def runMain (archive : Archive) : Job Ran := do
  extractAll archive ""
  let manifest ← readData (← readBytes manifestName)
  let main ← ofExcept .fault (manifest.part "main")
  inside (Runner.wide [main.text])

def run (package : String) : Job Bool :=
  demand package do
    let work : Job Bool := do
      let ran ← elsewhere (runMain (← readArchive package))
      out ran.output
      complain ran.complaints
      return ran.succeeded
    handling work fun e => do
      print ("Runtime Error: " ++ e.message)
      return false

/-! ## The command -/

def form (program : String) : Arguments.Form where
  program := program
  description := "AquaScript Package Manager"
  argument := "command"
  argumentHelp := "Available commands"
  arity := .rest
  choices := [
    ("pack", "Create a package"), ("extract", "Extract a package"), ("run", "Run a package")]

def packForm (program : String) : Arguments.Form where
  program := program ++ " pack"
  switches := [
    ⟨["-o", "--output"], .value, "Output .apack file"⟩,
    ⟨["-n", "--name"], .value, "Package name"⟩,
    ⟨["-v", "--version"], .value, "Package version"⟩,
    ⟨["-d", "--description"], .value, "Package description"⟩,
    ⟨["-a", "--author"], .value, "Package author"⟩]
  argument := "main"
  argumentHelp := "Main .acode file"

def extractForm (program : String) : Arguments.Form where
  program := program ++ " extract"
  switches := [⟨["-o", "--output"], .value, "Output directory"⟩]
  argument := "package"
  argumentHelp := "Package .apack file"

def runForm (program : String) : Arguments.Form where
  program := program ++ " run"
  argument := "package"
  argumentHelp := "Package .apack file"

def forms (program : String) : List (String × Arguments.Form) :=
  [("pack", packForm program), ("extract", extractForm program), ("run", runForm program)]

def given (taken : Arguments.Taken) (name fallback : String) : String :=
  match taken.value? name with
  | some value => if value.isEmpty then fallback else value
  | none => fallback

def pack (taken : Arguments.Taken) (main : String) : Job Bool :=
  let output := given taken "output" (Path.withExtension extension main)
  create main output {
    name := given taken "name" ""
    version := given taken "version" "1.0.0"
    description := given taken "description" ""
    author := given taken "author" "" }

def command (arguments : List String) : Job Unit := do
  let top := form "apack.py"
  if arguments.isEmpty then out top.help
  else
    let (word, taken) ← Job.arguments (top.takeCommand (forms "apack.py") arguments)
    let argument := taken.argument?.getD ""
    let succeeded ← match word with
      | some "pack" => pack taken argument
      | some "extract" => extract argument (taken.value? "output")
      | some "run" => run argument
      | _ => do
        out top.help
        pure false
    if !succeeded then leave 1

end Package

end StackScript
