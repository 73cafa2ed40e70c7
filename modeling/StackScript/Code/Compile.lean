import StackScript.Code.File
import StackScript.Code.Generator
import StackScript.Tree.Statement

/-!
# Compiling trees

Expressions and statements are compiled by recursion on the tree. The expressions inside a
formatted literal are texts, which are scanned, read and compiled where the literal stands; such a
text is shorter than the one around it, which bounds the nesting.
-/

namespace StackScript

def binaryOpcode? (operator : String) : Option Opcode :=
  ([("+", Opcode.add), ("-", .sub), ("*", .mul), ("/", .div), ("%", .mod), ("**", .pow),
    ("==", .eq), ("!=", .ne), ("<", .lt), (">", .gt), ("<=", .le), (">=", .ge), ("in", .isIn),
    ("and", .both), ("or", .either)].find? fun row => row.1 == operator).map (·.2)

/-- The items that a list of pieces is made of, when it is walked through. -/
def piecesOf (d : Datum) : Except CompileError (List Datum) :=
  match d with
  | .list items => .ok items
  | .tuple items => .ok items
  | .dict entries => .ok (entries.map (·.1))
  | .str s => .ok (s.toList.map fun c => .str c.toString)
  | other => .error (.notIterable other.kindName)

def pieceField (name : String) (piece : Datum) : Except CompileError Datum :=
  match piece with
  | .dict _ => match piece.field? name with
    | some d => .ok d
    | none => .error (.noKey s!"'{name}'")
  | .str _ => .error .textIndex
  | .list _ => .error .listIndex
  | other => .error (.notSubscriptable other.kindName)

/-- The source text of an expression inside a formatted literal; an empty sequence counts as an
empty text. -/
def holeSource (d : Datum) : Except CompileError String :=
  match d with
  | .str s => .ok s
  | .list [] | .dict [] | .list (.null :: _) => .ok ""
  | .list (item :: _) => .error (.notText item.kindName)
  | .dict _ => .error (.noKey "0")
  | other => .error (.noLength other.kindName)

namespace Gen

/-- Takes over the result of a step that does not change the generator. -/
def lift {α : Type} (x : Except CompileError α) : Gen α :=
  match x with
  | .ok a => return a
  | .error e => throw e

/-- Compiles one piece of a formatted literal; a piece of another type does nothing. -/
def piece (embedded : String → Gen Unit) (d : Datum) : Gen Unit := do
  let type ← lift (pieceField "type" d)
  if type.same (.str "text") then loadConst (← lift (pieceField "value" d))
  else if type.same (.str "expression") then
    embedded (← lift (holeSource (← lift (pieceField "value" d))))
    emit' .formatValue

/-- Compiles a formatted literal: each piece, then the joining of all of them. -/
def formatted (embedded : String → Gen Unit) (d : Datum) : Gen Unit := do
  let pieces ← lift (piecesOf d)
  pieces.forM (piece embedded)
  (List.range (pieces.length - 1)).forM fun _ => emit' .add

mutual

/-- Compiles an expression; `embedded` compiles the text of one inside a formatted literal. -/
def expr (embedded : String → Gen Unit) : Expr → Gen Unit
  | .literal d => loadConst d
  | .formatted pieces => formatted embedded pieces
  | .name word => loadName word
  | .binary left operator right => do
    expr embedded left
    expr embedded right
    match binaryOpcode? operator with
    | some op => emit' op
    | none => throw (.unknownBinary operator)
  | .unary operator operand => do
    if operator == "not" then
      expr embedded operand
      emit' .negate
    else if operator == "-" then
      loadConst (.int 0)
      expr embedded operand
      emit' .sub
    else if operator == "+" then expr embedded operand
    else throw (.unknownUnary operator)
  | .call (.member object word) arguments => do
    expr embedded object
    exprs embedded arguments
    let index ← constant (.str word)
    emitAt .callMethod ((arguments.length <<< 16) ||| index)
  | .call (.name word) arguments => do
    loadCallee word
    exprs embedded arguments
    emitAt .call arguments.length
  | .call function arguments => do
    expr embedded function
    exprs embedded arguments
    emitAt .call arguments.length
  | .member object word => do
    expr embedded object
    emitAt .getAttr (← constant (.str word))
  | .index object index => do
    expr embedded object
    expr embedded index
    emit' .getItem
  | .list elements => do
    exprs embedded elements
    emitAt .buildList elements.length
  | .tuple elements => do
    exprs embedded elements
    emitAt .buildTuple elements.length
  | .dict pairs => do
    exprPairs embedded pairs
    emitAt .buildDict pairs.length
  | .comprehension element target iterable condition => do
    emitAt .buildList 0
    expr embedded iterable
    emit' .getIter
    let start ← here
    emitAt .forIter 0
    storeName target
    let skip ← match condition with
      | some c => do
        expr embedded c
        let skip ← here
        emitAt .jumpIfFalse 0
        pure (some skip)
      | none => pure none
    expr embedded element
    emit' .listAppend
    match skip with
    | some skip => patch skip (← here)
    | none => pure ()
    emitAt .jump start
    patch start (← here)
  | .lambda _ _ | .await _ | .inert => pure ()

def exprs (embedded : String → Gen Unit) : List Expr → Gen Unit
  | [] => pure ()
  | e :: rest => do
    expr embedded e
    exprs embedded rest

def exprPairs (embedded : String → Gen Unit) : List (Expr × Expr) → Gen Unit
  | [] => pure ()
  | (key, value) :: rest => do
    expr embedded key
    expr embedded value
    exprPairs embedded rest

end

def expressionOf (source : String) : Except CompileError Expr := do
  let tokens ← (Token.scan source).mapError .scan
  match Reading.expression.run (Tape.ofList tokens) with
  | .ok e _ => return e
  | .error e _ => throw (.parse e)

/-- Compiles the text of an expression, with formatted literals nested no deeper than the fuel. -/
def embeddedN : Nat → String → Gen Unit
  | 0, _ => throw (.parse .exhausted)
  | fuel + 1, source => do
    expr (embeddedN fuel) (← lift (expressionOf source))

def embedded (source : String) : Gen Unit := embeddedN (source.length + 1) source

def expression (e : Expr) : Gen Unit := expr embedded e

def initialValue (hint : Option String) : Datum :=
  match hint with
  | some "int" => .int 0
  | some "float" => .float 0
  | some "str" => .str ""
  | some "bool" => .bool false
  | _ => .null

mutual

def statement : Stmt → Gen Unit
  | .expression e => do
    expression e
    emit' .pop
  | .assign target value => do
    expression value
    assignName target
  | .assignMember object word value => do
    expression object
    expression value
    loadConst (.str word)
    emit' .setAttr
  | .assignIndex object index value => do
    expression object
    expression index
    expression value
    emit' .setItem
  | .declare name value hint => do
    match value with
    | some e => expression e
    | none => loadConst (initialValue hint)
    storeName name
  | .function name parameters body => do
    routine name parameters (statements body)
    emitAt .loadFunc (← constant (.str name))
    storeName name
  | .classDef name body => do
    let table ← methods name [] body
    loadConst (.dict table)
    emitAt .createClass (← constant (.str name))
    storeName name
  | .branch condition thenBody elifs elseBody => do
    expression condition
    let skip ← here
    emitAt .jumpIfFalse 0
    statements thenBody
    let others := elseBody.getD []
    let ends ← if elifs.isEmpty && others.isEmpty then pure [] else do
      let leave ← here
      emitAt .jump 0
      pure [leave]
    patch skip (← here)
    let more ← elifClauses elifs
    match elseBody with
    | some body => statements body
    | none => pure ()
    let stop ← here
    (ends ++ more).forM fun leave => patch leave stop
  | .forLoop target iterable body => do
    expression iterable
    emit' .getIter
    let start ← here
    emitAt .forIter 0
    storeName target
    withLoop false (statements body)
    emitAt .jump start
    patch start (← here)
  | .whileLoop condition body => do
    let start ← here
    expression condition
    let leave ← here
    emitAt .jumpIfFalse 0
    withLoop true (statements body)
    emitAt .jump start
    patch leave (← here)
  | .repeatLoop condition body => do
    let start ← here
    statements body
    expression condition
    emitAt .jumpIfTrue start
  | .switch subject cases _ => do
    expression subject
    let ends ← caseClauses cases
    defaultClause cases
    emit' .pop
    let stop ← here
    ends.forM fun leave => patch leave stop
  | .importModule source items => do
    loadConst (.str source)
    match items with
    | some (first :: rest) =>
      loadConst (.list ((first :: rest).map .str))
      emit' .importFrom
      (first :: rest).forM storeName
    | _ =>
      emit' .importModule
      storeName source
  | .returnValue value => do
    match value with
    | some e => expression e
    | none => loadConst .null
    emit' .ret
  | .breakLoop | .continueLoop => do
    if (← get).inWhile then emit .jump (.int (-1))
  | .tryBlock body catches finallyBody => do
    emit' .tryBegin
    statements body
    emit' .tryEnd
    catchClauses catches
    match finallyBody with
    | some (first :: rest) => do
      emit' .finallyBegin
      statements (first :: rest)
      emit' .finallyEnd
    | _ => pure ()
  | .throwValue e => do
    expression e
    emit' .throwTop
  | .asyncFunction _ _ _ | .decorated _ _ _ _ | .withBlock _ _ _ | .globals _ | .nonlocals _
  | .assertion _ _ | .deletion _ | .pass | .inert => pure ()

def statements : List Stmt → Gen Unit
  | [] => pure ()
  | s :: rest => do
    statement s
    statements rest

/-- Compiles the functions of a class; yields the table of their names. -/
def methods (name : String) (table : List (Datum × Datum)) :
    List Stmt → Gen (List (Datum × Datum))
  | [] => return table
  | .function method parameters body :: rest => do
    let full := name ++ "." ++ method
    routine full parameters (statements body)
    methods name (Datum.enter (.str method) (.str full) table) rest
  | _ :: rest => methods name table rest

/-- Compiles further alternatives; yields the jumps that lead to the end. -/
def elifClauses : List (Expr × List Stmt) → Gen (List Nat)
  | [] => return []
  | (condition, body) :: rest => do
    expression condition
    let skip ← here
    emitAt .jumpIfFalse 0
    statements body
    let leave ← here
    emitAt .jump 0
    patch skip (← here)
    return leave :: (← elifClauses rest)

/-- Compiles the cases that have a value; yields the jumps that lead to the end. -/
def caseClauses : List (Option Expr × List Stmt) → Gen (List Nat)
  | [] => return []
  | (none, _) :: rest => caseClauses rest
  | (some value, body) :: rest => do
    emit' .dup
    expression value
    emit' .eq
    let skip ← here
    emit .jumpIfFalse (.int (-1))
    statements body
    let leave ← here
    emit .jump (.int (-1))
    patch skip (← here)
    return leave :: (← caseClauses rest)

def defaultClause : List (Option Expr × List Stmt) → Gen Unit
  | [] => pure ()
  | (none, body) :: _ => statements body
  | (some _, _) :: rest => defaultClause rest

def catchClauses : List (Option String × Option String × List Stmt) → Gen Unit
  | [] => pure ()
  | (type, target, body) :: rest => do
    match type.filter (· ≠ "") with
    | some name => emitAt .catchBegin (← constant (.str name))
    | none => emit' .catchBegin
    match target.filter (· ≠ "") with
    | some name => storeName name
    | none => emit' .pop
    statements body
    emit' .catchEnd
    catchClauses rest

end

def longInteger (d : Datum) : Bool :=
  match d with
  | .int i => Number.exceedsDigitLimit i
  | _ => false

def bytesOf (unit : CodeUnit) : Except CompileError (List UInt8) :=
  if unit.constants.any longInteger then .error .longInteger
  else match (Datum.list unit.constants).badKey? with
    | some kind => .error (.badKey kind)
    | none =>
      if CodeFile.fits unit then
        if unit.instructions.any (longInteger ·.operand) then .error .longInteger
        else .ok (CodeFile.ofUnit unit)
      else .error .longSection

def serialize : Gen (List UInt8) := do
  lift (bytesOf (← get).unit)

def generate (program : Program) : Gen (List UInt8) := do
  statements program
  emit' .halt
  serialize

end Gen

/-- A compiled program with the bytes of its code file. -/
structure Compiled where
  unit : CodeUnit
  bytes : List UInt8

def Program.compile (program : Program) : Except CompileError Compiled :=
  match (Gen.generate program).run {} with
  | .ok bytes g => .ok ⟨g.unit, bytes⟩
  | .error e _ => .error e

def compileTokens (tokens : List Token) : Except CompileError Compiled := do
  (← (Program.ofTokens tokens).mapError .parse).compile

def compileText (source : String) : Except CompileError Compiled := do
  compileTokens (← (Token.scan source).mapError .scan)

end StackScript
