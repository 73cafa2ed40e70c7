import StackScript.Command.Job

/-!
# The compiler as a command

A source file is compiled to a code file, which has the name of the source with another extension
unless a name is given.
-/

namespace StackScript.Compiler

open Job

def sourceExtension : String := ".aqua"

def codeExtension : String := ".acode"

def outputPath (source : String) : String := Path.withExtension codeExtension source

def compileStages (source output : String) : Job Unit := do
  let text ← readText source
  print s!"Compiling {source}..."
  print "  Lexical analysis..."
  let tokens ← scan text
  print "  Syntax analysis..."
  let program ← parse tokens
  print "  Code generation..."
  let compiled ← compile program
  writeBytes output compiled.bytes
  let size := compiled.bytes.length
  let constants := compiled.unit.constants.length
  let routines := compiled.unit.routines.length
  print s!"  Output: {output}"
  print s!"  Size: {size} bytes"
  print s!"  Constants: {constants}"
  print s!"  Functions: {routines}"
  print "Compilation successful!"

def compileFile (source : String) (output : Option String) : Job Bool := do
  if !(← holds source) then
    print s!"Error: Source file '{source}' not found"
    return false
  let work : Job Bool := do
    compileStages source (output.getD (outputPath source))
    return true
  handling work fun e => do
    let title := if e.isWrongProgram then "Syntax Error: " else "Compilation Error: "
    print (title ++ e.message)
    return false

def form (program : String) : Arguments.Form where
  program := program
  description := "AquaScript Compiler"
  switches := [
    ⟨["-o", "--output"], .value, "Output file (.acode)"⟩,
    ⟨["-v", "--verbose"], .flag, "Verbose output"⟩]
  argument := "source"
  argumentHelp := "Source file (.aqua)"

def command (arguments : List String) : Job Unit := do
  let taken ← Job.arguments ((form "aquac.py").take arguments)
  let source := taken.argument?.getD ""
  if !source.endsWith sourceExtension then
    print "Warning: Source file should have .aqua extension"
  if !(← compileFile source (taken.value? "output")) then leave 1

end StackScript.Compiler
