import StackScript.Command.Tool

/-!
# Command lines

A command line is a list of commands. Each of them is run always, or only after a success, or only
after a failure of the one before it. A command is a list of words; a word may stand between
quotes, and a backslash takes away the meaning of the next character.
-/

namespace StackScript.Shell

open Job

/-! ## Words -/

/-- A mark of a command line. -/
inductive Mark where
  | word (text : String)
  | always
  | afterSuccess
  | afterFailure

/-- What stands around a character. -/
inductive Quote where
  | none
  | single
  | double

def close (word : Option (List Char)) : List Mark :=
  match word with
  | some cs => [.word (String.ofList cs.reverse)]
  | none => []

def grow (word : Option (List Char)) (c : Char) : Option (List Char) := some (c :: word.getD [])

/-- Reads marks; `word` is the word that has begun, last character first. There are none if a
quote is not closed. -/
def marks : Quote → Option (List Char) → List Char → Option (List Mark)
  | .none, word, [] => some (close word)
  | _, _, [] => none
  | .single, word, '\'' :: rest => marks .none (some (word.getD [])) rest
  | .single, word, c :: rest => marks .single (grow word c) rest
  | .double, word, '"' :: rest => marks .none (some (word.getD [])) rest
  | .double, word, '\\' :: c :: rest =>
    if ['"', '\\', '$'].contains c then marks .double (grow word c) rest
    else marks .double (grow (grow word '\\') c) rest
  | .double, word, c :: rest => marks .double (grow word c) rest
  | .none, word, '\'' :: rest => marks .single (some (word.getD [])) rest
  | .none, word, '"' :: rest => marks .double (some (word.getD [])) rest
  | .none, word, '\\' :: c :: rest => marks .none (grow word c) rest
  | .none, word, '&' :: '&' :: rest => (close word ++ .afterSuccess :: ·) <$> marks .none none rest
  | .none, word, '|' :: '|' :: rest => (close word ++ .afterFailure :: ·) <$> marks .none none rest
  | .none, word, c :: rest =>
    if c = ' ' || c = '\t' then (close word ++ ·) <$> marks .none none rest
    else if c = ';' || c = '\n' then (close word ++ .always :: ·) <$> marks .none none rest
    else marks .none (grow word c) rest

/-- When a command is run. -/
inductive Condition where
  | always
  | afterSuccess
  | afterFailure

/-- The commands of a command line, each with its condition. -/
def commands (condition : Condition) (words : List String) :
    List Mark → List (Condition × List String)
  | [] => [(condition, words)]
  | .word text :: rest => commands condition (words ++ [text]) rest
  | .always :: rest => (condition, words) :: commands .always [] rest
  | .afterSuccess :: rest => (condition, words) :: commands .afterSuccess [] rest
  | .afterFailure :: rest => (condition, words) :: commands .afterFailure [] rest

/-! ## Commands -/

def unescaped : List Char → List Char
  | '\\' :: 'n' :: rest => '\n' :: unescaped rest
  | '\\' :: 't' :: rest => '\t' :: unescaped rest
  | '\\' :: '\\' :: rest => '\\' :: unescaped rest
  | c :: rest => c :: unescaped rest
  | [] => []

def echo (words : List String) : Job Unit :=
  let text (words : List String) : String :=
    String.ofList (unescaped (" ".intercalate words).toList)
  match words with
  | "-n" :: rest => out (text rest)
  | _ => print (text words)

def showFiles (paths : List String) : Job Bool := do
  let all ← paths.mapM fun path => do
    match (← get).disk.read path with
    | .ok content =>
      out (match Text.decodeUtf8 content.bytes with
        | .ok text => text
        | .error _ => "")
      return true
    | .error e =>
      let cause := match e.cause with
        | .isFolder => "Is a directory"
        | .notFolder => "Not a directory"
        | _ => "No such file or directory"
      complain s!"cat: {path}: {cause}\n"
      return false
  return all.all id

def runScript (path : String) (arguments : List String) : Job Bool := do
  match (← get).disk.read path with
  | .error _ =>
    let whole := Path.join ("/".intercalate (← get).disk.working) path
    complain s!"python: can't open file '{whole}': [Errno 2] No such file or directory\n"
    return false
  | .ok (.program name) =>
    match Tool.ofFile? name with
    | none => return false
    | some tool =>
      let ran ← inside (tool.command arguments)
      out ran.output
      complain ran.complaints
      return ran.succeeded
  | .ok content =>
    return match Text.decodeUtf8 content.bytes with
      | .ok text => (Text.trimText text).isEmpty
      | .error _ => false

def runWords (words : List String) : Job Bool := do
  match words with
  | [] | "true" :: _ | ":" :: _ => return true
  | "false" :: _ => return false
  | "echo" :: rest => do
    echo rest
    return true
  | "cat" :: rest => showFiles rest
  | "exit" :: rest => leave ((rest.head?.bind String.toNat?).getD 0)
  | "python" :: path :: rest | "python3" :: path :: rest => runScript path rest
  | name :: _ => do
    complain s!"/bin/sh: 1: {name}: not found\n"
    return false

/-- The words that send the output of a command to the complaints. -/
def redirections : List String := [">&2", "1>&2"]

/-- Runs a command whose output may be sent to the complaints. -/
def runCommand (words : List String) : Job Bool := do
  if words.any redirections.contains then
    let before := (← get).output
    modify fun w => { w with output := "" }
    let succeeded ← runWords (words.filter fun word => !redirections.contains word)
    modify fun w => { w with output := before, complaints := w.complaints ++ w.output }
    return succeeded
  else runWords words

/-- Runs commands; `succeeded` tells of the one before them. -/
def runAll (succeeded : Bool) : List (Condition × List String) → Job Bool
  | [] => return succeeded
  | (condition, words) :: rest => do
    let wanted := match condition with
      | .always => true
      | .afterSuccess => succeeded
      | .afterFailure => !succeeded
    let succeeded ←
      if wanted && !words.isEmpty then runCommand words
      else pure succeeded
    runAll succeeded rest

def line (text : String) : Job Unit := do
  match marks .none none text.toList with
  | none =>
    complain "/bin/sh: 1: Syntax error: Unterminated quoted string\n"
    leave 2
  | some found => if !(← runAll true (commands .always [] found)) then leave 1

def readBack (text : String) : String := String.ofList (Text.plainLineEnds text.toList)

/-- Runs a command line inside another command, in a folder if one is given. -/
def run (text : String) (folder : Option String) : Job Ran := do
  let disk := (← get).disk
  let place : Except FileError Place := match folder with
    | none => .ok disk.working
    | some path => match disk.locate path with
      | .error cause => .error ⟨cause, path⟩
      | .ok (place, some .folder) => .ok place
      | .ok (_, some (.file _)) => .error ⟨.notFolder, path⟩
      | .ok (_, none) => .error ⟨.missing, path⟩
  match place with
  | .error e => return ⟨false, "", e.message⟩
  | .ok place =>
    modify fun w => { w with disk := { w.disk with working := place } }
    let ran ← inside (line text)
    modify fun w => { w with disk := { w.disk with working := disk.working } }
    return ⟨ran.succeeded, readBack ran.output, readBack ran.complaints⟩

end StackScript.Shell
