import StackScript.Command.Job

/-!
# Dumps

Commands that show what the stages make of a file: the sections and instructions of a code file,
the tokens of a source file, the reading of its tokens, and the indentation of a sample.
-/

namespace StackScript.Dump

open Job

/-! ## Code files -/

def opcodeName (code : Datum) : Except Fault String :=
  match Opcode.fastSet.find? fun row => code.same (.int row.1) with
  | some row => .ok row.2.2
  | none => .error (.notOpcode code.shown)

def instructionLine (index : Nat) (row : Datum) : Except Fault String := do
  let (code, operand) ← row.pair
  let name ← opcodeName code
  return Text.padStart 3 (toString index) ++ ": " ++ Text.padEnd 15 name ++ " " ++ operand.text

def instructions (rows : Datum) : Job Unit := do
  let rows ← ofExcept .fault (rows.parts .notIterable)
  rows.zipIdx.forM fun (row, i) => do
    print (← ofExcept .fault (instructionLine i row))

def keys (d : Datum) : Except Fault (List Datum) :=
  match d with
  | .dict entries => .ok (entries.map (·.1))
  | d => .error (.noAttribute d.kindName "keys")

def routine (name routine : Datum) : Job Unit := do
  let part (label : String) : Job Datum := ofExcept .fault (routine.part label)
  print ("\n=== Function: " ++ name.text ++ " ===")
  print ("Parameters: " ++ (← part "parameters").text)
  print ("Local vars: " ++ (← part "local_vars").text)
  print "Instructions:"
  instructions (← part "instructions")

def takeSection (bytes : List UInt8) : Job (Datum × List UInt8) :=
  ofExcept .load (nextSection bytes)

def codeFile (path : String) : Job Unit := do
  let bytes ← readBytes path
  if bytes.take 4 ≠ CodeFile.magic then fail .notCode
  let (version, rest) ← ofExcept (.load ∘ .file) (CodeFile.takeNumber 2 (bytes.drop 4))
  print s!"Version: {version}"
  let (constants, rest) ← takeSection rest
  let count ← ofExcept .fault constants.length
  print (s!"Constants ({count}): " ++ constants.text)
  let (slots, rest) ← takeSection rest
  print ("Global vars: " ++ slots.text)
  let (routines, rest) ← takeSection rest
  let names ← ofExcept .fault (keys routines)
  print ("Functions: " ++ (Datum.list names).text)
  let (code, _) ← takeSection rest
  print "\n=== Main Program Instructions ==="
  instructions code
  (← ofExcept .fault routines.entries).forM fun (name, d) => routine name d

def code (arguments : List String) : Job Unit := do
  match arguments with
  | [path] => codeFile path
  | _ =>
    print "Usage: python debug_bytecode.py <bytecode_file>"
    leave 1

/-! ## Source files -/

def tokenLine (index : Nat) (t : Token) : String :=
  Text.padStart 2 (toString index) ++ ": " ++ Text.padEnd 15 t.kind.label ++
    s!" '{t.text}' Line: {t.line}, Col: {t.column}"

def tokens : Job Unit := do
  let source ← readText "test_class.aqua"
  print "Source code:"
  print (Text.quoted source)
  print "\nTokens:"
  (← scan source).zipIdx.forM fun (t, i) => print (tokenLine i t)

def quotedLine (index : Nat) (t : Token) : String :=
  Text.padStart 2 (toString index) ++ ": " ++ Text.padEnd 15 t.kind.label ++ " " ++
    Text.quoted t.text

def whole (t : Token) : String :=
  let label := t.kind.label
  let text := Text.quoted t.text
  s!"Token(type=<TokenType.{label}: '{label}'>, value={text}, line={t.line}, column={t.column})"

/-- Shows where reading has stopped, with the tokens around. -/
def stopped (tokens : List Token) (tape : Tape Token) (e : ParseError) : Job Unit := do
  let position := tape.position
  print ("语法分析失败: " ++ e.message)
  print s!"当前位置: {position}"
  print ("当前token: " ++ (tape.current?.map whole).getD "None")
  print "\n当前位置附近的token:"
  let window := (tokens.zipIdx.drop (position - 5)).take (position + 5 - (position - 5))
  window.forM fun (t, i) =>
    let mark := if i = position then " -> " else "    "
    print (mark ++ quotedLine i t)

/-- Shows the first tokens of a source file, and whether it can be read. -/
def reading : Job Unit := do
  let source ← readText "examples/new_syntax_demo.aqua"
  print "开始词法分析..."
  let tokens ← scan source
  let count := tokens.length
  print s!"生成了 {count} 个token"
  print "\n前50个token:"
  (tokens.take 50).zipIdx.forM fun (t, i) => print (quotedLine i t)
  print "\n开始语法分析..."
  match Reading.program.run (Tape.ofList tokens) with
  | .ok _ _ => print "语法分析成功!"
  | .error .endless _ => throw .endless
  | .error e tape => stopped tokens tape e

def indentedSample : List String := [
  "def test():",
  "    if True:",
  "        print(\"Hello\")",
  "    else:",
  "        print(\"World\")",
  ""]

/-- Shows the indentation of a sample. The kinds of tokens that it asks for are not all there. -/
def indentation : Job Unit := do
  print "Source code:"
  print (Text.quoted ("\n".intercalate indentedSample))
  print "\nLine by line analysis:"
  indentedSample.zipIdx.forM fun (line, i) => do
    if !(Text.trimText line).isEmpty then
      let width := Text.padStart 2 (toString (line.length - (Text.trimStart line).length))
      let number := i + 1
      print s!"Line {number}: indent={width} '{line}'"
  print "\nTokens:"
  match ["INDENT", "DEDENT", "NEWLINE", "DEF", "IF", "ELSE"].find? fun label =>
    (TokenKind.ofLabel? label).isNone with
  | some label => fail (.noTokenKind label)
  | none => return ()

end StackScript.Dump
