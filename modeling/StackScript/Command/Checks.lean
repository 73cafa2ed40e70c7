import StackScript.Command.Job

/-!
# Checks of the scanner

A command that scans short texts and compares the kinds of the tokens with what is expected. It
stops at the first check that fails; asking for a kind that is not there is such a failure.
-/

namespace StackScript.Checks

open Job

/-- What is expected of a text: the labels of its tokens. -/
structure Check where
  title : String
  praise : String
  source : String
  labels : List String

def checks : List Check := [
  { title := "basic tokens", praise := "Basic tokens"
    source := "123 + 456 * 789"
    labels := ["NUMBER", "PLUS", "NUMBER", "MULTIPLY", "NUMBER", "EOF"] },
  { title := "keywords", praise := "Keywords"
    source := "def if else for while return True False None"
    labels := ["DEF", "IF", "ELSE", "FOR", "WHILE", "RETURN", "TRUE", "FALSE", "NONE", "EOF"] }]

def rule : String := String.ofList (List.replicate 40 '=')

def perform (check : Check) : Job Unit := do
  print s!"Testing {check.title}..."
  let found := (← scan check.source).map (·.kind.label)
  match check.labels.find? fun label => (TokenKind.ofLabel? label).isNone with
  | some label =>
    print s!"Unexpected error: {label}"
    leave 1
  | none =>
    match (check.labels.zip found).find? fun pair => pair.1 ≠ pair.2 with
    | some (label, other) =>
      print s!"Test failed: Expected TokenType.{label}, got TokenType.{other}"
      leave 1
    | none => print s!"√ {check.praise} test passed"

def command : Job Unit := do
  print "Running AquaScript Lexer Tests"
  print rule
  checks.forM perform
  print rule
  print "All tests passed! √"

end StackScript.Checks
