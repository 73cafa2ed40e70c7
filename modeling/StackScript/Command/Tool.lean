import StackScript.Command.Checks
import StackScript.Command.Dump
import StackScript.Command.Extended
import StackScript.Command.Package
import StackScript.Command.Sample

/-!
# Tools

The commands that a command line or a build can start, and the folders in which they are
installed.
-/

namespace StackScript

/-- A command. -/
inductive Tool where
  | compiler
  | wide
  | fast
  | packager
  | extended
  | sampleTokens
  | sampleTree
  | sampleCode
  | sampleLibrary
  | checks
  | dumpCode
  | dumpTokens
  | dumpReading
  | dumpIndentation
  deriving DecidableEq, Repr

namespace Tool

def command (tool : Tool) (arguments : List String) : Job Unit :=
  match tool with
  | compiler => Compiler.command arguments
  | wide => Runner.wide arguments
  | fast => Runner.fast arguments
  | packager => Package.command arguments
  | extended => Extended.command "enhanced.py" arguments
  | sampleTokens => Sample.tokens
  | sampleTree => Sample.tree
  | sampleCode => Sample.code
  | sampleLibrary => Sample.library
  | checks => Checks.command
  | dumpCode => Dump.code arguments
  | dumpTokens => Dump.tokens
  | dumpReading => Dump.reading
  | dumpIndentation => Dump.indentation

/-- The folders that can be installed, with the tools in them by the names of their files. -/
def folders : List (String × List (String × Tool)) := [
  ("compiler", [("aquac.py", compiler), ("lexer.py", sampleTokens), ("parser.py", sampleTree),
    ("codegen.py", sampleCode)]),
  ("vm", [("aquavm.py", wide), ("optimized_aquavm.py", fast),
    ("enhanced_aquavm.py", sampleLibrary)]),
  ("tools", [("apack.py", packager)]),
  ("tests", [("test_lexer.py", checks)])]

def ofFile? (name : String) : Option Tool := (folders.flatMap (·.2)).lookup name

def install (disk : Disk) (folder : String) : Disk :=
  match folders.lookup folder with
  | none => disk
  | some tools =>
    let place := disk.working ++ [folder]
    tools.foldl (fun disk tool => disk.put (place ++ [tool.1]) (.file (.program tool.1)))
      (disk.put place .folder)

end Tool

end StackScript
