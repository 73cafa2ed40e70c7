import StackScript.Command.Shell

/-!
# Compiling and running for an editor

An editor starts the compiler and the fast machine as commands of their own and answers with what
they have shown. A command that does not come to its end is given up.
-/

namespace StackScript.Editor

/-- What a compilation has led to. -/
structure Compilation where
  succeeded : Bool
  output : String
  complaints : String
  /-- The code file, if there is one; there is nothing to say of it when the compiler was given
  up. -/
  codeFile : Option (Option String)

def codePath (source : String) : String :=
  Text.replaced Compiler.sourceExtension Compiler.codeExtension source

def compile (source : String) (w : World) : Compilation × World :=
  match Job.inside (Compiler.command [source]) w with
  | .ok ran w =>
    (⟨ran.succeeded, Shell.readBack ran.output, Shell.readBack ran.complaints,
      some (if ran.succeeded then some (codePath source) else none)⟩, w)
  | .error _ w => (⟨false, "", "编译超时", none⟩, w)

def run (path : String) (w : World) : Job.Ran × World :=
  match Job.inside (Runner.fast [path]) w with
  | .ok ran w => (⟨ran.succeeded, Shell.readBack ran.output, Shell.readBack ran.complaints⟩, w)
  | .error _ w => (⟨false, "", "运行超时"⟩, w)

end StackScript.Editor
