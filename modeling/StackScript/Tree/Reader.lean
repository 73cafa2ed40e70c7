import StackScript.Datum.Reader
import StackScript.Tape
import StackScript.Text.Quoted
import StackScript.Token.Basic
import StackScript.Tree.Basic

/-!
# Reading trees from tokens

A reading moves along a tape of tokens and either yields a result or stops with an error; the tape
stays where it was left in both cases. Loops take a fuel that bounds the tokens still to be read:
every round of a loop takes at least one token.
-/

namespace StackScript

/-- Why a reading stops. An `endless` one does not: it stays at a token for ever. One that is
`exhausted` was given too little fuel. -/
inductive ParseError where
  | expected (wanted : TokenKind) (found : Option TokenKind) (note : String)
  | unexpected (found : Option TokenKind)
  | invalidTarget
  | loneTry
  | badInteger (text : String)
  | longInteger (digits : Nat)
  | badDecimal (text : String)
  | badPieces (e : Datum.ReadError)
  | noToken
  | noSeparator
  | indexOutOfRange
  | endless
  | exhausted
  deriving Repr

namespace ParseError

def found (kind : Option TokenKind) : String :=
  (kind.map TokenKind.label).getD "EOF"

def quotedStart (count : Nat) (text : String) : String :=
  String.ofList ((Text.quoted text).toList.take count)

def message : ParseError → String
  | expected wanted kind note => s!"Expected {wanted.label}, got {found kind}. {note}"
  | unexpected kind => s!"Unexpected token: {found kind}"
  | invalidTarget => "Invalid assignment target"
  | loneTry => "try statement must have at least one catch or finally clause"
  | badInteger text => s!"invalid literal for int() with base 10: {quotedStart 200 text}"
  | longInteger digits => (Datum.ReadError.tooLong digits).message
  | badDecimal text => s!"could not convert string to float: {Text.quoted text}"
  | badPieces e => e.message
  | noToken => "'NoneType' object has no attribute 'type'"
  | noSeparator => "SEMICOLON"
  | indexOutOfRange => "list index out of range"
  | endless | exhausted => ""

end ParseError

abbrev Reading (α : Type) := EStateM ParseError (Tape Token) α

namespace Reading

variable {α β : Type}

def current? : Reading (Option Token) := return (← get).current?

def kind? : Reading (Option TokenKind) := return (← current?).map (·.kind)

/-- The token some steps away: none past the end, and from the end when the steps lead before the
start. -/
def peek (offset : Int) : Reading (Option Token) := do
  let tape ← get
  if (tape.toList.length : Int) ≤ tape.position + offset then return none
  match tape.peek? offset with
  | some token => return some token
  | none => throw .indexOutOfRange

def advance : Reading Unit := modify Tape.advance

def sees (kinds : List TokenKind) : Reading Bool := do
  match ← kind? with
  | some kind => return kinds.contains kind
  | none => return false

/-- Takes the token at the position if it is of the wanted kind. -/
def take (wanted : TokenKind) (note : String) : Reading Token := do
  match ← current? with
  | some token =>
    if token.kind = wanted then advance; return token
    else throw (.expected wanted (some token.kind) note)
  | none => throw (.expected wanted none note)

def expect (wanted : TokenKind) : Reading Unit := do
  discard (take wanted "")

def textOf (wanted : TokenKind) : Reading String :=
  return (← take wanted "").text

def name : Reading String := textOf .name

/-- Takes the token at the position if it is of one of these kinds. -/
def accept? (kinds : List TokenKind) : Reading (Option Token) := do
  match ← current? with
  | some token =>
    if kinds.contains token.kind then advance; return some token
    else return none
  | none => return none

/-- Passes the token at the position if it is of one of these kinds, and tells whether it was. -/
def accepts (kinds : List TokenKind) : Reading Bool :=
  return (← accept? kinds).isSome

def iterate (fuel : Nat) (step : α → Reading (Option α)) (a : α) : Reading α :=
  match fuel with
  | 0 => throw .exhausted
  | fuel + 1 => fun s =>
    match step a s with
    | .ok (some a) s => iterate fuel step a s
    | .ok none s => .ok a s
    | .error e s => .error e s

def many (fuel : Nat) (item? : Reading (Option α)) : Reading (List α) := do
  let items ← iterate fuel (fun items => do return (← item?).map (· :: items)) []
  return items.reverse

def commaSeparated (fuel : Nat) (item : Reading α) : Reading (List α) := do
  let first ← item
  let more ← many fuel do
    if ← accepts [.comma] then return some (← item) else return none
  return first :: more

/-- Reads items after commas; a comma right before the closing mark ends them. -/
def afterCommas (fuel : Nat) (close : TokenKind) (item : Reading α) : Reading (List α) :=
  many fuel do
    if ← accepts [.comma] then
      if ← sees [close] then return none else return some (← item)
    else return none

def skipLines (fuel : Nat) : Reading Unit := do
  discard (many fuel (accept? [.newline, .comment]))

end Reading

end StackScript
