import StackScript.Command.Shell

/-!
# Builds

A build compiles, packs and runs the programs of the folder `examples` and runs the checks of the
folder `tests`, each of them as a command of its own. A failure of one does not stop the others of
its stage, but it stops the stages after it.
-/

namespace StackScript.Build

open Job

def examples : String := "examples"

def tests : String := "tests"

def namesIn (folder : String) (fits : String → Bool) : Job (List String) := do
  let disk := (← get).disk
  match disk.locate folder with
  | .ok (place, some .folder) => return (disk.names place).filter fits
  | _ => return []

/-- The names in the folder of the programs that end with a text. -/
def examplesWith (ending : String) : Job (List String) :=
  namesIn examples fun name => name.endsWith ending

/-- Does all parts of a stage; tells whether each of them succeeded. -/
def each (names : List String) (part : String → Job Bool) : Job Bool := do
  return (← names.mapM part).all id

def needing (path complaint : String) (stage : Job Bool) : Job Bool := do
  if ← holds path then stage
  else
    print complaint
    return false

def compile : Job Bool := do
  print "Compiling example programs..."
  let tool := "compiler/aquac.py"
  needing tool "Error: Compiler not found" do
    each (← examplesWith ".aqua") fun name => do
      print s!"  Compiling {name}..."
      let ran ← Shell.run s!"python {tool} examples/{name}" none
      if ran.succeeded then print s!"    ✓ {name} compiled successfully"
      else
        print s!"    ✗ Failed to compile {name}"
        print s!"    Error: {ran.complaints}"
      return ran.succeeded

def test : Job Bool := do
  print "Running tests..."
  let fits (name : String) : Bool :=
    name.startsWith "test_" && name.endsWith ".py" && 8 ≤ name.length
  each (← namesIn tests fits) fun name => do
    print s!"  Running {name}..."
    let ran ← Shell.run s!"python tests/{name}" none
    if ran.succeeded then print s!"    ✓ {name} passed"
    else
      print s!"    ✗ {name} failed"
      print s!"    Output: {ran.output}"
      print s!"    Error: {ran.complaints}"
    return ran.succeeded

def package : Job Bool := do
  print "Creating packages..."
  let tool := "tools/apack.py"
  needing tool "Error: Packer not found" do
    each (← examplesWith ".acode") fun name => do
      let stem := String.ofList (name.toList.take (name.length - (Path.suffix name).length))
      let package := stem ++ ".apack"
      print s!"  Creating {package}..."
      let ran ← Shell.run s!"python {tool} pack examples/{name} -o examples/{package}" none
      if ran.succeeded then print s!"    ✓ {package} created successfully"
      else
        print s!"    ✗ Failed to create {package}"
        print s!"    Error: {ran.complaints}"
      return ran.succeeded

def run : Job Bool := do
  print "Running example programs..."
  let tool := "vm/aquavm.py"
  let rule := "  " ++ String.ofList (List.replicate 40 '=')
  needing tool "Error: Virtual machine not found" do
    each (← examplesWith ".acode") fun name => do
      print s!"  Running {name}..."
      print rule
      let ran ← Shell.run s!"python {tool} examples/{name}" none
      if ran.succeeded then
        print ran.output
        print rule
        print s!"    ✓ {name} executed successfully"
      else
        print s!"    ✗ Failed to run {name}"
        print s!"    Error: {ran.complaints}"
      print ""
      return ran.succeeded

def clean : Job Bool := do
  print "Cleaning generated files..."
  for ending in [".acode", ".apack"] do
    for name in ← examplesWith ending do
      let path := Path.join examples name
      change (Disk.remove · path)
      print s!"  Removed {path}"
  print "Clean completed"
  return true

def inTurn : List (Job Bool) → Job Bool
  | [] => return true
  | stage :: rest => do if ← stage then inTurn rest else return false

def usage : List String := [
  "AquaScript Build Tool",
  "Usage: python build.py <command>",
  "Commands:",
  "  test      - Run tests",
  "  compile   - Compile examples",
  "  package   - Create packages",
  "  run       - Run examples",
  "  all       - Do everything",
  "  clean     - Clean generated files"]

def stage (word : String) : Job Bool := do
  match word with
  | "test" => test
  | "compile" => compile
  | "package" => package
  | "run" => run
  | "all" => inTurn [test, compile, package, run]
  | "clean" => clean
  | _ =>
    print s!"Unknown command: {word}"
    return false

def command (arguments : List String) : Job Unit := do
  match arguments with
  | [] => usage.forM print
  | word :: _ =>
    if ← stage word then print "Build completed successfully!"
    else
      print "Build failed!"
      leave 1

end StackScript.Build
