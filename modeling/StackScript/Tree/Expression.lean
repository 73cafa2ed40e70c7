import StackScript.Tree.Reader

/-!
# Reading expressions

One reading for each level of the grammar, from the loosest operator to the operands. Every level
is given the reading of a whole expression, which it needs inside brackets; `expressionN` ties the
knot. A bracket takes a token, so the number of tokens bounds the nesting.
-/

namespace StackScript.Reading

/-- Operands joined by operators of one level, grouped to the left. -/
def leftJoined (fuel : Nat) (operators : List TokenKind) (operand : Reading Expr) :
    Reading Expr := do
  iterate fuel
    (fun left => do
      match ← accept? operators with
      | some token => return some (.binary left token.text (← operand))
      | none => return none)
    (← operand)

def numberOf (text : String) : Except ParseError Datum :=
  if text.toList.contains '.' then
    match Number.readFloat text with
    | some x => .ok (.float x)
    | none => .error (.badDecimal text)
  else
    match Number.readInt text with
    | .ok i => .ok (.int i)
    | .error .malformed => .error (.badInteger text)
    | .error (.tooLong digits) => .error (.longInteger digits)

def piecesOf (text : String) : Except ParseError Datum :=
  (Datum.read text).mapError .badPieces

def lambda (fuel : Nat) (expr : Reading Expr) : Reading Expr := do
  expect .kwLambda
  let parameters ← if ← sees [.colon] then pure [] else commaSeparated fuel name
  expect .colon
  return .lambda parameters (← expr)

def yieldValue : Reading Expr := do
  expect .kwYield
  throw .noSeparator

def await (expr : Reading Expr) : Reading Expr := do
  expect .kwAwait
  return .await (← expr)

/-- What follows an opening parenthesis: a tuple, or one expression. -/
def parenthesized (fuel : Nat) (expr : Reading Expr) : Reading Expr := do
  if ← accepts [.rparen] then return .tuple []
  let first ← expr
  if ← sees [.comma] then
    let more ← afterCommas fuel .rparen expr
    expect .rparen
    return .tuple (first :: more)
  expect .rparen
  return first

/-- What follows an opening bracket: a list, or a comprehension. -/
def bracketed (fuel : Nat) (expr : Reading Expr) : Reading Expr := do
  if ← accepts [.rbracket] then return .list []
  let first ← expr
  if ← accepts [.kwFor] then
    let target ← name
    expect .kwIn
    let iterable ← expr
    let condition ← if ← accepts [.kwIf] then pure (some (← expr)) else pure none
    expect .rbracket
    return .comprehension first target iterable condition
  let more ← afterCommas fuel .rbracket expr
  expect .rbracket
  return .list (first :: more)

def pair (expr : Reading Expr) : Reading (Expr × Expr) := do
  let key ← expr
  expect .colon
  return (key, ← expr)

def braced (fuel : Nat) (expr : Reading Expr) : Reading Expr := do
  if ← accepts [.rbrace] then return .dict []
  let first ← pair expr
  let more ← afterCommas fuel .rbrace (pair expr)
  expect .rbrace
  return .dict (first :: more)

/-- An operand. A number or a formatted literal that cannot be read stays on the tape. -/
def primary (fuel : Nat) (expr : Reading Expr) : Reading Expr := do
  match ← current? with
  | none => throw (.unexpected none)
  | some token =>
    match token.kind with
    | .kwLambda => lambda fuel expr
    | .kwYield => yieldValue
    | .kwAwait => await expr
    | .number =>
      match numberOf token.text with
      | .ok value => advance; return .literal value
      | .error e => throw e
    | .string => advance; return .literal (.str token.text)
    | .formatted =>
      match piecesOf token.text with
      | .ok pieces => advance; return .formatted pieces
      | .error e => throw e
    | .kwTrue => advance; return .literal (.bool true)
    | .kwFalse => advance; return .literal (.bool false)
    | .kwNone => advance; return .literal .null
    | .name | .kwSelf | .kwStr | .kwInt | .kwFloat | .kwBool => advance; return .name token.text
    | .lparen => advance; parenthesized fuel expr
    | .lbracket => advance; bracketed fuel expr
    | .lbrace => advance; braced fuel expr
    | other => throw (.unexpected (some other))

def arguments (fuel : Nat) (expr : Reading Expr) : Reading (List Expr) := do
  let found ← if ← sees [.rparen] then pure [] else commaSeparated fuel expr
  expect .rparen
  return found

def suffix? (fuel : Nat) (expr : Reading Expr) (operand : Expr) : Reading (Option Expr) := do
  match ← kind? with
  | some .lparen => advance; return some (.call operand (← arguments fuel expr))
  | some .dot => advance; return some (.member operand (← name))
  | some .lbracket =>
    advance
    let index ← expr
    expect .rbracket
    return some (.index operand index)
  | _ => return none

/-- An operand with calls, attributes and indices behind it. -/
def postfixed (fuel : Nat) (expr : Reading Expr) : Reading Expr := do
  iterate fuel (suffix? fuel expr) (← primary fuel expr)

def signed (fuel : Nat) (expr : Reading Expr) : Reading Expr := do
  let operators ← many fuel (accept? [.kwNot, .minus, .plus])
  let operand ← postfixed fuel expr
  return operators.foldr (fun token e => .unary token.text e) operand

def powers (fuel : Nat) (expr : Reading Expr) : Reading Expr := do
  let first ← signed fuel expr
  let more ← many fuel do
    match ← accept? [.power] with
    | some token => return some (token.text, ← signed fuel expr)
    | none => return none
  return grouped first more
where
  /-- Groups operands to the right. -/
  grouped (left : Expr) : List (String × Expr) → Expr
    | [] => left
    | (operator, right) :: rest => .binary left operator (grouped right rest)

def products (fuel : Nat) (expr : Reading Expr) : Reading Expr :=
  leftJoined fuel [.times, .divide, .modulo] (powers fuel expr)

def sums (fuel : Nat) (expr : Reading Expr) : Reading Expr :=
  leftJoined fuel [.plus, .minus] (products fuel expr)

def comparisons (fuel : Nat) (expr : Reading Expr) : Reading Expr :=
  leftJoined fuel [.less, .greater, .lessEqual, .greaterEqual, .kwIn] (sums fuel expr)

def equalities (fuel : Nat) (expr : Reading Expr) : Reading Expr :=
  leftJoined fuel [.equal, .notEqual] (comparisons fuel expr)

def conjunctions (fuel : Nat) (expr : Reading Expr) : Reading Expr :=
  leftJoined fuel [.kwAnd] (equalities fuel expr)

def disjunctions (fuel : Nat) (expr : Reading Expr) : Reading Expr :=
  leftJoined fuel [.kwOr] (conjunctions fuel expr)

def expressionN : Nat → Reading Expr
  | 0 => throw .exhausted
  | fuel + 1 => fun s => disjunctions (fuel + 1) (expressionN fuel) s

def fuel : Reading Nat := return (← get).rest.length + 1

def atLevel {α : Type} (level : Nat → Reading Expr → Reading α) : Reading α := do
  let n ← fuel
  level n (expressionN n)

def expression : Reading Expr := atLevel disjunctions

end StackScript.Reading
