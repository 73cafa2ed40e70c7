import StackScript.Command.Compiler
import StackScript.Prompt
import StackScript.Text.Replaced

/-!
# Compiling and running in one command

The command compiles a source file and runs the code file at once on an extended machine, or does
one of the two, or opens the prompt.
-/

namespace StackScript.Extended

open Job

def outputPath (source : String) : String :=
  Text.replaced Compiler.sourceExtension Compiler.codeExtension source

def tell (verbose : Bool) (line : String) : Job Unit := if verbose then print line else return ()

def compileFile (source : String) (output : Option String) (verbose : Bool) : Job Bool :=
  let work : Job Bool := do
    let text ← readText source
    tell verbose s!"正在编译: {source}"
    let tokens ← scan text
    let count := tokens.length
    tell verbose s!"词法分析完成，生成 {count} 个token"
    let program ← parse tokens
    tell verbose "语法分析完成"
    let compiled ← compile program
    tell verbose "代码生成完成"
    let path := output.getD (outputPath source)
    writeBytes path compiled.bytes
    tell verbose s!"字节码已写入: {path}"
    return true
  handling work fun e => do
    print ("编译错误: " ++ e.message)
    return false

def runFile (path : String) (verbose : Bool) : Job Bool :=
  let work : Job Bool := do
    tell verbose s!"正在运行: {path}"
    runWide .extended (← readBytes path)
    tell verbose "程序执行完成"
    return true
  handling work fun e => do
    print ("运行错误: " ++ e.message)
    return false

/-- Compiles and runs a source file; tells whether it succeeded. -/
def compileAndRun (source : String) (verbose : Bool) : Job Bool := do
  let path := outputPath source
  if ← compileFile source (some path) verbose then runFile path verbose
  else return false

def converse : Job Unit := do
  let w ← get
  let session : Prompt.Session := { left := w.limit }
  let (ending, outputs) := session.converse (w.lines.map .line)
  out (Prompt.banner ++ String.join outputs)
  match ending with
  | .done => return ()
  | .limit => throw .limit
  | .endless => throw .endless

def form (program : String) : Arguments.Form where
  program := program
  description := "AquaScript 增强版编译器"
  switches := [
    ⟨["-c", "--compile"], .flag, "只编译，不运行"⟩,
    ⟨["-r", "--run"], .flag, "运行字节码文件"⟩,
    ⟨["-o", "--output"], .value, "输出文件名"⟩,
    ⟨["-v", "--verbose"], .flag, "详细输出"⟩,
    ⟨["-i", "--interactive"], .flag, "交互式模式"⟩]
  argument := "file"
  argumentHelp := "要编译/运行的AquaScript文件"
  arity := .atMostOne

def command (program : String) (arguments : List String) : Job Unit := do
  let form := form program
  let taken ← Job.arguments (form.take arguments)
  let path := taken.argument?.getD ""
  let verbose := taken.has "verbose"
  if taken.has "interactive" then converse
  else if path.isEmpty then
    print "错误: 请指定要处理的文件"
    out form.help
  else if !(← holds path) then print s!"错误: 文件 '{path}' 不存在"
  else
    let succeeded ←
      if taken.has "run" then runFile path verbose
      else if taken.has "compile" then compileFile path (taken.value? "output") verbose
      else compileAndRun path verbose
    if !succeeded then leave 1

end StackScript.Extended
