import StackScript.Command.Arguments
import StackScript.Text.Padded

/-!
# Usage and help

The usage of a form names its switches and its argument on one line, or on several lines of a
limited width. The help adds a line for each of them; all explanations start in one column.
-/

namespace StackScript.Arguments

def lineWidth : Nat := 78

def helpColumn : Nat := 24

def Switch.placeholder (s : Switch) : String :=
  String.ofList (s.name.toList.map Char.toUpper)

def Switch.usage (s : Switch) : String :=
  let flag := s.flags.headD ""
  match s.kind with
  | .value => "[" ++ flag ++ " " ++ s.placeholder ++ "]"
  | _ => "[" ++ flag ++ "]"

def Switch.heading (s : Switch) : String :=
  ", ".intercalate (s.flags.map fun flag =>
    match s.kind with
    | .value => flag ++ " " ++ s.placeholder
    | _ => flag)

def Form.heading (form : Form) : String :=
  if form.choices.isEmpty then form.argument
  else "\x7b" ++ ",".intercalate (form.choices.map (·.1)) ++ "\x7d"

def Form.argumentUsage (form : Form) : List String :=
  match form.arity with
  | .one => [form.heading]
  | .atMostOne => ["[" ++ form.heading ++ "]"]
  | .rest => [form.heading, "..."]

/-- Lines of words behind an indentation; `used` is the width that is used on the first line. -/
def fill (indent used : Nat) (line : List String) : List String → List (List String)
  | [] => if line.isEmpty then [] else [line]
  | word :: rest =>
    if lineWidth < used + 1 + word.length && !line.isEmpty then
      line :: fill indent (indent - 1 + word.length + 1) [word] rest
    else fill indent (used + word.length + 1) (line ++ [word]) rest

def Form.usage (form : Form) : String :=
  let lead := "usage: "
  let switches := form.allSwitches.map Switch.usage
  let whole := " ".intercalate (form.program :: switches ++ form.argumentUsage)
  if lead.length + whole.length ≤ lineWidth then lead ++ whole ++ "\n"
  else
    let indent := lead.length + form.program.length + 1
    let first := fill indent (lead.length - 1) [] (form.program :: switches)
    let second := fill indent (indent - 1) [] form.argumentUsage
    let lines := (first ++ second).map (" ".intercalate ·)
    lead ++ ("\n" ++ Text.blanks indent).intercalate lines ++ "\n"

/-- One line of help: a heading at an indentation, and its explanation. -/
def helpLine (column indent : Nat) (heading help : String) : String :=
  let width := column - indent - 2
  if heading.length ≤ width then
    Text.blanks indent ++ Text.padEnd width heading ++ "  " ++ help ++ "\n"
  else Text.blanks indent ++ heading ++ "\n" ++ Text.blanks column ++ help ++ "\n"

def Form.column (form : Form) : Nat :=
  let headings := form.heading :: form.choices.map (·.1) ++ form.allSwitches.map Switch.heading
  min ((headings.map String.length).foldl max 0 + 4) helpColumn

def Form.help (form : Form) : String :=
  let column := form.column
  let description := if form.description.isEmpty then "" else form.description ++ "\n\n"
  form.usage ++ "\n" ++ description ++ "positional arguments:\n" ++
    helpLine column 2 form.heading form.argumentHelp ++
    String.join (form.choices.map fun (word, help) => helpLine column 4 word help) ++
    "\noptions:\n" ++
    String.join (form.allSwitches.map fun s => helpLine column 2 s.heading s.help)

def Form.complaint (form : Form) (cause : Refusal) : String :=
  form.usage ++ form.program ++ ": error: " ++ cause.message ++ "\n"

end StackScript.Arguments
