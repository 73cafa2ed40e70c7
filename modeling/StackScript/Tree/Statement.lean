import StackScript.Tree.Expression

/-!
# Reading statements

Each kind of statement has a reading, given the reading of a statement for its blocks; `statementN`
ties the knot. A block stands between braces, or follows a colon as indented lines.
-/

namespace StackScript.Reading

/-- Statements one after another until `stop` is seen; tokens of the kinds `skipped` between them
are passed. -/
def statementsUntil (fuel : Nat) (stop skipped : List TokenKind) (stmt : Reading Stmt) :
    Reading (List Stmt) := do
  let body ← iterate fuel
    (fun body => do
      if ← sees stop then return none
      if ← accepts skipped then return some body
      let s ← stmt
      skipLines fuel
      return some (s :: body))
    []
  return body.reverse

/-- A block between braces; indentation inside it does not count. -/
def braceBlock (fuel : Nat) (stmt : Reading Stmt) : Reading (List Stmt) := do
  expect .lbrace
  skipLines fuel
  discard (accepts [.indent])
  let body ← statementsUntil fuel [.rbrace, .eof] [.newline, .comment, .indent, .dedent] stmt
  expect .rbrace
  return body

def indentedBody (fuel : Nat) (skipped : List TokenKind) (stmt : Reading Stmt) :
    Reading (List Stmt) := do
  let body ← statementsUntil fuel [.dedent, .eof] skipped stmt
  discard (accepts [.dedent])
  return body

def colonBlock (fuel : Nat) (skipped : List TokenKind) (stmt : Reading Stmt) :
    Reading (List Stmt) := do
  expect .colon
  skipLines fuel
  expect .indent
  indentedBody fuel skipped stmt

def block (fuel : Nat) (skipped : List TokenKind) (stmt : Reading Stmt) : Reading (List Stmt) := do
  if ← sees [.lbrace] then braceBlock fuel stmt else colonBlock fuel skipped stmt

def hintWords : List TokenKind := [.kwInt, .kwFloat, .kwStr, .kwBool]

def hint : Reading String := do
  match ← current? with
  | none => throw .noToken
  | some token =>
    if hintWords.contains token.kind then
      advance
      return token.text
    else name

def parameter : Reading String := do
  let word ← match ← accept? [.kwSelf] with
    | some token => pure token.text
    | none => name
  if ← accepts [.colon] then discard hint
  return word

def parameters (fuel : Nat) (item : Reading String) : Reading (List String) := do
  expect .lparen
  let found ← if ← sees [.rparen] then pure [] else commaSeparated fuel item
  expect .rparen
  return found

def function (fuel : Nat) (stmt : Reading Stmt) :
    Reading (String × List String × List Stmt) := do
  expect .kwFunc
  let word ← name
  let found ← parameters fuel parameter
  if ← accepts [.arrow] then discard (accepts (.name :: hintWords))
  let body ← block fuel [.newline] stmt
  return (word, found, body)

def functionDef (fuel : Nat) (stmt : Reading Stmt) : Reading Stmt := do
  let (word, found, body) ← function fuel stmt
  return .function word found body

def asyncFunction (fuel : Nat) (stmt : Reading Stmt) : Reading Stmt := do
  expect .kwAsync
  expect .kwFunc
  let word ← name
  let found ← parameters fuel name
  let body ← block fuel [.newline, .comment] stmt
  return .asyncFunction word found body

def decorator? (fuel : Nat) (expr : Reading Expr) : Reading (Option (String × List Expr)) := do
  if ← accepts [.at] then
    let word ← name
    let found ← if ← accepts [.lparen] then arguments fuel expr else pure []
    skipLines fuel
    return some (word, found)
  else return none

def decorated (fuel : Nat) (expr : Reading Expr) (stmt : Reading Stmt) : Reading Stmt := do
  let decorators ← many fuel (decorator? fuel expr)
  let (word, found, body) ← function fuel stmt
  return .decorated decorators word found body

def declaration (expr : Reading Expr) : Reading Stmt := do
  expect .kwVar
  let word ← name
  let found ← if ← accepts [.colon] then pure (some (← hint)) else pure none
  let value ← if ← accepts [.assign] then pure (some (← expr)) else pure none
  return .declare word value found

def classDef (fuel : Nat) (stmt : Reading Stmt) : Reading Stmt := do
  expect .kwClass
  let word ← name
  return .classDef word (← colonBlock fuel [.newline, .comment] stmt)

def repeatLoop (fuel : Nat) (expr : Reading Expr) (stmt : Reading Stmt) : Reading Stmt := do
  expect .kwRepeat
  let body ← colonBlock fuel [.newline, .comment] stmt
  expect .kwWhile
  return .repeatLoop (← expr) body

def caseBody (fuel : Nat) (stmt : Reading Stmt) : Reading (List Stmt) := do
  expect .colon
  skipLines fuel
  if ← accepts [.indent] then indentedBody fuel [.newline, .comment] stmt else return []

/-- What has been read of a switch: the cases, latest first, and the default body that ends it. -/
structure Cases where
  cases : List (Option Expr × List Stmt) := []
  defaultBody : Option (List Stmt) := none

/-- The next case of a switch. A token that cannot start a case is never passed. -/
def nextCase? (fuel : Nat) (expr : Reading Expr) (stmt : Reading Stmt) (found : Cases) :
    Reading (Option Cases) := do
  if found.defaultBody.isSome then return none
  match ← kind? with
  | some .dedent | some .eof => return none
  | some .newline | some .comment => advance; return some found
  | some .kwCase =>
    advance
    let value ← expr
    let body ← caseBody fuel stmt
    return some { found with cases := (some value, body) :: found.cases }
  | some .kwDefault =>
    advance
    return some { found with defaultBody := some (← caseBody fuel stmt) }
  | _ => throw .endless

def switch (fuel : Nat) (expr : Reading Expr) (stmt : Reading Stmt) : Reading Stmt := do
  expect .kwSwitch
  let subject ← expr
  expect .colon
  skipLines fuel
  expect .indent
  let found ← iterate fuel (nextCase? fuel expr stmt) {}
  discard (accepts [.dedent])
  return .switch subject found.cases.reverse found.defaultBody

/-- The rest of an import after the first name: further names behind points, or the items of the
module between parentheses. -/
def importRest (fuel : Nat) (source : String) : Reading Stmt := do
  let (source, items) ← iterate fuel
    (fun (state : String × Option (List String)) => do
      if state.2.isSome then return none
      if ← accepts [.dot] then
        if ← accepts [.lparen] then
          let items ← commaSeparated fuel name
          expect .rparen
          return some (state.1, some items)
        else return some (state.1 ++ "." ++ (← name), none)
      else return none)
    (source, none)
  return .importModule source items

def importModule (fuel : Nat) : Reading Stmt := do
  if ← accepts [.kwFrom] then
    let source ← name
    expect .kwImport
    return .importModule source (some (← commaSeparated fuel name))
  else
    expect .kwImport
    importRest fuel (← name)

def branch (fuel : Nat) (expr : Reading Expr) (stmt : Reading Stmt) : Reading Stmt := do
  expect .kwIf
  let condition ← expr
  let thenBody ← block fuel [.newline] stmt
  let elifs ← many fuel do
    if ← accepts [.kwElif] then
      let condition ← expr
      return some (condition, ← block fuel [.newline] stmt)
    else return none
  let elseBody ← if ← accepts [.kwElse] then pure (some (← block fuel [.newline] stmt))
    else pure none
  return .branch condition thenBody elifs elseBody

def forLoop (fuel : Nat) (expr : Reading Expr) (stmt : Reading Stmt) : Reading Stmt := do
  expect .kwFor
  let target ← name
  expect .kwIn
  let iterable ← expr
  return .forLoop target iterable (← block fuel [.newline] stmt)

def whileLoop (fuel : Nat) (expr : Reading Expr) (stmt : Reading Stmt) : Reading Stmt := do
  expect .kwWhile
  let condition ← expr
  return .whileLoop condition (← block fuel [.newline] stmt)

def returnValue (expr : Reading Expr) : Reading Stmt := do
  expect .kwReturn
  if ← sees [.newline, .eof] then return .returnValue none
  return .returnValue (some (← expr))

def withBlock (fuel : Nat) (expr : Reading Expr) (stmt : Reading Stmt) : Reading Stmt := do
  expect .kwWith
  let context ← expr
  let target ← if ← accepts [.kwAs] then pure (some (← name)) else pure none
  return .withBlock context target (← block fuel [.newline, .comment] stmt)

def globalNames (fuel : Nat) : Reading Stmt := do
  expect .kwGlobal
  return .globals (← commaSeparated fuel name)

def nonlocalNames (fuel : Nat) : Reading Stmt := do
  expect .kwNonlocal
  return .nonlocals (← commaSeparated fuel name)

def assertion (expr : Reading Expr) : Reading Stmt := do
  expect .kwAssert
  let test ← expr
  let message ← if ← accepts [.comma] then pure (some (← expr)) else pure none
  return .assertion test message

def deletion (fuel : Nat) (expr : Reading Expr) : Reading Stmt := do
  expect .kwDel
  return .deletion (← commaSeparated fuel expr)

/-- A catch clause: nothing, a name, or a type and a name before its block. -/
def catchClause (fuel : Nat) (stmt : Reading Stmt) : Reading CatchClause := do
  expect .kwCatch
  let (type, target) ← match ← accept? [.name] with
    | some token =>
      if ← accepts [.kwAs] then pure (some token.text, some (← name))
      else pure (none, some token.text)
    | none => pure (none, none)
  return (type, target, ← braceBlock fuel stmt)

/-- A guarded block; it needs a catch clause or a final block that is not empty. -/
def tryBlock (fuel : Nat) (stmt : Reading Stmt) : Reading Stmt := do
  expect .kwTry
  let body ← braceBlock fuel stmt
  let catches ← many fuel do
    if ← sees [.kwCatch] then return some (← catchClause fuel stmt) else return none
  let finallyBody ← if ← accepts [.kwFinally] then pure (some (← braceBlock fuel stmt))
    else pure none
  if catches.isEmpty && (finallyBody.getD []).isEmpty then throw .loneTry
  return .tryBlock body catches finallyBody

def throwValue (expr : Reading Expr) : Reading Stmt := do
  expect .kwThrow
  return .throwValue (← expr)

def expressionOrAssignment (fuel : Nat) (expr : Reading Expr) : Reading Stmt := do
  let target ← postfixed fuel expr
  if ← accepts [.assign] then
    let value ← expr
    match target with
    | .name word => return .assign word value
    | .member object word => return .assignMember object word value
    | .index object index => return .assignIndex object index value
    | _ => throw .invalidTarget
  return .expression target

def statementWith (fuel : Nat) (expr : Reading Expr) (stmt : Reading Stmt) : Reading Stmt := do
  match ← kind? with
  | some .at => decorated fuel expr stmt
  | some .kwAsync => asyncFunction fuel stmt
  | some .kwFunc => functionDef fuel stmt
  | some .kwVar => declaration expr
  | some .kwClass => classDef fuel stmt
  | some .kwIf => branch fuel expr stmt
  | some .kwFor => forLoop fuel expr stmt
  | some .kwWhile => whileLoop fuel expr stmt
  | some .kwRepeat => repeatLoop fuel expr stmt
  | some .kwSwitch => switch fuel expr stmt
  | some .kwWith => withBlock fuel expr stmt
  | some .kwImport | some .kwFrom => importModule fuel
  | some .kwReturn => returnValue expr
  | some .kwBreak => advance; return .breakLoop
  | some .kwContinue => advance; return .continueLoop
  | some .kwGlobal => globalNames fuel
  | some .kwNonlocal => nonlocalNames fuel
  | some .kwAssert => assertion expr
  | some .kwDel => deletion fuel expr
  | some .kwPass => advance; return .pass
  | some .kwTry => tryBlock fuel stmt
  | some .kwThrow => throwValue expr
  | _ => expressionOrAssignment fuel expr

def statementN : Nat → Reading Stmt
  | 0 => throw .exhausted
  | fuel + 1 => fun s =>
    statementWith (fuel + 1) (expressionN (fuel + 1)) (statementN fuel) s

def ofKind {α : Type} (kind : Nat → Reading Expr → Reading Stmt → Reading α) : Reading α := do
  let n ← fuel
  kind n (expressionN n) (statementN n)

def statement : Reading Stmt := ofKind statementWith

/-- Statements up to the end of the tape, with a given reading of a statement. -/
def programWith (fuel : Nat) (stmt : Reading Stmt) : Reading Program := do
  skipLines fuel
  let found ← iterate fuel
    (fun found => do
      match ← kind? with
      | none | some .eof => return none
      | some .newline | some .comment => advance; return some found
      | _ =>
        let s ← stmt
        skipLines fuel
        return some (s :: found))
    []
  return found.reverse

def program : Reading Program := ofKind fun n _ stmt => programWith n stmt

end StackScript.Reading

namespace StackScript

def Program.ofTokens (tokens : List Token) : Except ParseError Program :=
  match Reading.program.run (Tape.ofList tokens) with
  | .ok program _ => .ok program
  | .error e _ => .error e

end StackScript
