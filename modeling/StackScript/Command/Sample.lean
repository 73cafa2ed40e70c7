import StackScript.Command.Job
import StackScript.Machine.Wide.Extended

/-!
# Samples

Commands without arguments that show a stage on a sample program: its tokens, its tree, its code;
and one that shows the library of an extended machine.
-/

namespace StackScript.Sample

open Job

def greeting (last : String) : String :=
  "\n".intercalate [
    "",
    "def greet(name):",
    "    if name:",
    "        print(\"Hello, \" + name + \"!\")",
    "    else:",
    "        print(\"Hello, World!\")",
    "    return True",
    "",
    last,
    ""]

def addition : String :=
  "\n".intercalate [
    "",
    "def add(a, b):",
    "    return a + b",
    "",
    "result = add(3, 4)",
    "print(result)",
    ""]

def tokens : Job Unit := do
  let tokens ← scan (greeting "greet(\"AquaScript\")")
  tokens.forM fun t =>
    let kind := Text.padEnd 15 t.kind.label
    let text := Text.padEnd 10 t.text
    print s!"{kind} {text} Line: {t.line}, Col: {t.column}"

def tree : Job Unit := do
  let _ ← parse (← scan (greeting "result = greet(\"AquaScript\")"))
  print "AST:"

def code : Job Unit := do
  let compiled ← compile (← parse (← scan addition))
  writeBytes "test.acode" compiled.bytes
  print s!"Generated bytecode: {compiled.bytes.length} bytes"

def libraryCall : Wide.Service (String × String) := do
  let items ← Wide.Service.op (Value.ofDatum (Datum.list [.str "sin", .str "pi"]))
  let library ← Wide.Service.importLibrary (.str "math") (some items)
  let shown ← Wide.Service.textOf library
  let sine ← Wide.Service.op (library.item (.str "sin"))
  let result ← Wide.Service.callLibrary sine [.float (3.14159 / 2)]
  return (shown, ← Wide.Service.textOf result)

def library : Job Unit := do
  let machine : Wide.State := { functions := .extended }
  match libraryCall machine with
  | .ok (shown, result) _ => do
    print ("Math module imported: " ++ shown)
    print ("sin(π/2) = " ++ result)
  | .error e _ => print ("Error: " ++ e.message)

end StackScript.Sample
