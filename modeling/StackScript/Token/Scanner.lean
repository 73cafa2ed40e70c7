import StackScript.Datum.Writer
import StackScript.Tape
import StackScript.Token.Basic

/-!
# Scanning a source text

A scanner is a tape of characters with the place of its position and the indentation widths that
are open. Each reading takes one token from the tape and leaves the scanner after it.
`Scanner.tokens` takes all of them: a line that holds more than blanks and a comment first opens
or closes blocks by its width, and the end closes those still open.
-/

namespace StackScript

/-- What a scanner stops at. -/
inductive ScanError where
  | unexpected (c : Char) (line column : Nat)
  | indexOutOfRange
  deriving DecidableEq, Repr

def ScanError.message : ScanError → String
  | unexpected c line column => s!"Unexpected character '{c}' at line {line}, column {column}"
  | indexOutOfRange => "string index out of range"

/-- A source text under scanning. The base level is not among `indents`, whose first entry is the
innermost open width. -/
structure Scanner where
  tape : Tape Char
  line : Nat := 1
  column : Nat := 1
  indents : List Nat := []
  deriving Repr, Inhabited

namespace Scanner

def ofText (source : String) : Scanner := { tape := Tape.ofList source.toList }

def current? (s : Scanner) : Option Char := s.tape.current?

/-- The character some steps away: the null character past the end, and from the end of the text
when the steps lead before its start. -/
def peek (s : Scanner) (offset : Int) : Except ScanError Char :=
  if (s.tape.toList.length : Int) ≤ s.tape.position + offset then .ok (Char.ofNat 0)
  else match s.tape.peek? offset with
    | some c => .ok c
    | none => .error .indexOutOfRange

def advance (s : Scanner) : Scanner :=
  let (line, column) := if s.current? = some '\n' then (s.line + 1, 1) else (s.line, s.column + 1)
  { s with tape := s.tape.advance, line, column }

def advanceBy : Nat → Scanner → Scanner
  | 0, s => s
  | n + 1, s => advanceBy n s.advance

def isSpace (c : Char) : Bool := c == ' ' || c == '\t'

def skipSpace (s : Scanner) : Scanner :=
  s.advanceBy (s.tape.rest.takeWhile isSpace).length

def takeRun (p : Char → Bool) (s : Scanner) : List Char × Scanner :=
  let run := s.tape.rest.takeWhile p
  (run, s.advanceBy run.length)

/-- A token that starts at the column of one scanner and ends at the line of another. -/
def tokenFrom (start stop : Scanner) (kind : TokenKind) (text : String) : Token :=
  ⟨kind, text, stop.line, start.column⟩

def tokenAt (s : Scanner) (kind : TokenKind) (text : String) : Token :=
  ⟨kind, text, s.line, s.column⟩

def readNumber (s : Scanner) : Token × Scanner :=
  let (run, after) := s.takeRun fun c => Text.isDigit c || c == '.'
  (tokenFrom s after .number (String.ofList run), after)

def readWord (s : Scanner) : Token × Scanner :=
  let (run, after) := s.takeRun fun c => Text.isNameChar c || c == '_'
  let word := String.ofList run
  (tokenFrom s after (TokenKind.ofWord word) word, after)

/-- Reads a comment up to the end of the line, and trims it. -/
def readComment (s : Scanner) : Token × Scanner :=
  let (run, after) := s.advance.takeRun (· != '\n')
  (tokenFrom s after .comment (String.ofList (Text.trim run)), after)

def unescape (c : Char) : Char :=
  if c = 'n' then '\n' else if c = 't' then '\t' else if c = 'r' then '\r' else c

/-- The characters of a literal up to its closing quote, and how many characters they take. -/
def literalBody (quote : Option Char) : List Char → List Char × Nat
  | [] => ([], 0)
  | c :: rest =>
    if some c = quote then ([], 0)
    else if c = '\\' then
      match rest with
      | [] => ([], 1)
      | e :: rest =>
        let (body, count) := literalBody quote rest
        (unescape e :: body, count + 2)
    else
      let (body, count) := literalBody quote rest
      (c :: body, count + 1)

def closeQuote (quote : Option Char) (s : Scanner) : Scanner :=
  if s.current? = quote then s.advance else s

/-- Reads a text literal; the character at the position is its quote. -/
def readString (s : Scanner) : Token × Scanner :=
  let quote := s.current?
  let opened := s.advance
  let (body, count) := literalBody quote opened.tape.rest
  let after := closeQuote quote (opened.advanceBy count)
  (tokenFrom s after .string (String.ofList body), after)

/-- A piece of a formatted literal: text as it is, or an expression between braces. -/
inductive Piece where
  | text (s : String)
  | hole (s : String)
  deriving DecidableEq, Repr

/-- A text piece in front, unless it is empty; its characters come latest first. -/
def withText (text : List Char) (pieces : List Piece) : List Piece :=
  if text.isEmpty then pieces else .text (String.ofList text.reverse) :: pieces

mutual

/-- The pieces of a formatted literal up to its closing quote, and how many characters they take;
`text` holds the characters of the current text, latest first. -/
def formattedBody (quote : Option Char) (text : List Char) : List Char → List Piece × Nat
  | [] => (withText text [], 0)
  | c :: rest =>
    if some c = quote then (withText text [], 0)
    else if c = '\\' then
      match rest with
      | [] => (withText text [], 1)
      | e :: rest =>
        let (pieces, count) := formattedBody quote (unescape e :: text) rest
        (pieces, count + 2)
    else if c = '{' then
      let (pieces, count) := holeBody quote 0 [] rest
      (withText text pieces, count + 1)
    else
      let (pieces, count) := formattedBody quote (c :: text) rest
      (pieces, count + 1)

/-- The same from inside braces: `depth` counts the inner braces still open. -/
def holeBody (quote : Option Char) (depth : Nat) (source : List Char) :
    List Char → List Piece × Nat
  | [] => ([.hole (String.ofList (Text.trim source.reverse))], 0)
  | c :: rest =>
    if c = '}' && depth = 0 then
      let (pieces, count) := formattedBody quote [] rest
      (.hole (String.ofList (Text.trim source.reverse)) :: pieces, count + 1)
    else
      let depth := if c = '{' then depth + 1 else if c = '}' then depth - 1 else depth
      let (pieces, count) := holeBody quote depth (c :: source) rest
      (pieces, count + 1)

end

def Piece.datum : Piece → Datum
  | text s => .dict [(.str "type", .str "text"), (.str "value", .str s)]
  | hole s => .dict [(.str "type", .str "expression"), (.str "value", .str s)]

/-- Reads a formatted literal: a letter, a quote, and the pieces. Its text is the written list of
the pieces. -/
def readFormatted (s : Scanner) : Token × Scanner :=
  let quote := s.advance.current?
  let opened := s.advance.advance
  let (pieces, count) := formattedBody quote [] opened.tape.rest
  let after := closeQuote quote (opened.advanceBy count)
  (tokenFrom s after .formatted (Datum.list (pieces.map Piece.datum)).write, after)

def widthOf (blanks : List Char) : Nat :=
  blanks.length + 3 * blanks.count '\t'

def indentTo (width : Nat) (s : Scanner) : List Token × Scanner :=
  let current := s.indents.headD 0
  if current < width then
    ([⟨.indent, "", s.line, 1⟩], { s with indents := width :: s.indents })
  else
    let closed := s.indents.takeWhile (width < ·)
    (closed.map fun _ => ⟨.dedent, "", s.line, 1⟩, { s with indents := s.indents.drop closed.length })

/-- The blanks that start at an index of the text; an index below zero counts from the end, and
then the blanks go on from the end to the start. -/
def blanksFrom (s : Scanner) (start : Int) : Except ScanError (List Char) :=
  let text := s.tape.toList
  if 0 ≤ start then .ok ((text.drop start.toNat).takeWhile isSpace)
  else if start + text.length < 0 then .error .indexOutOfRange
  else
    let tail := text.drop (start + text.length).toNat
    let run := tail.takeWhile isSpace
    if run.length = tail.length then .ok (run ++ text.takeWhile isSpace) else .ok run

/-- Opens or closes blocks for the line whose blanks start at an index of the text. -/
def indentFrom (start : Int) (s : Scanner) : Except ScanError (List Token × Scanner) :=
  return s.indentTo (widthOf (← s.blanksFrom start))

/-- Opens or closes blocks at the start of a line that holds code, and skips its blanks. -/
def startLine (s : Scanner) : List Token × Scanner :=
  let blanks := s.tape.rest.takeWhile isSpace
  match s.tape.rest.drop blanks.length with
  | c :: _ =>
    if c = '\n' || c = '#' then ([], s.skipSpace)
    else
      let (tokens, after) := s.indentTo (widthOf blanks)
      (tokens, after.skipSpace)
  | [] => ([], s.skipSpace)

def readMark? (s : Scanner) : Option (Token × Scanner) :=
  (TokenKind.marks.find? fun mark => mark.1.toList.isPrefixOf s.tape.rest).map fun mark =>
    (s.tokenAt mark.2 mark.1, s.advanceBy mark.1.length)

/-- Reads the token at a character that is neither a blank nor a line end. -/
def readToken (c : Char) (s : Scanner) : Except ScanError (Token × Scanner) :=
  if c = '#' then .ok s.readComment
  else if Text.isDigit c then .ok s.readNumber
  else if c = '"' || c = '\'' then .ok s.readString
  else if c = 'f' && (s.advance.current? = some '"' || s.advance.current? = some '\'') then
    .ok s.readFormatted
  else if Text.isLetter c || c = '_' then .ok s.readWord
  else match s.readMark? with
    | some result => .ok result
    | none => .error (.unexpected c s.line s.column)

/-- What one round of scanning leaves: the tokens it found, whether a line starts, the scanner. -/
structure Round where
  tokens : List Token
  lineStart : Bool
  scanner : Scanner

def round (lineStart : Bool) (c : Char) (s : Scanner) : Except ScanError Round :=
  if c = '\n' then .ok ⟨[s.tokenAt .newline "\n"], true, s.advance⟩
  else if lineStart then
    let (tokens, after) := s.startLine
    .ok ⟨tokens, false, after⟩
  else if isSpace c then .ok ⟨[], false, s.skipSpace⟩
  else do
    let (token, after) ← s.readToken c
    return ⟨[token], false, after⟩

def finish (s : Scanner) : List Token × Scanner :=
  (s.indents.map (fun _ => s.tokenAt .dedent "") ++ [s.tokenAt .eof ""], { s with indents := [] })

/-- Scans to the end; `found` are the tokens so far, latest first. The scanner is left where
scanning stopped. -/
def scanFrom (fuel : Nat) (lineStart : Bool) (found : List Token) (s : Scanner) :
    Except ScanError (List Token) × Scanner :=
  match fuel, s.current? with
  | fuel + 1, some c =>
    match s.round lineStart c with
    | .error e => (.error e, s)
    | .ok next => scanFrom fuel next.lineStart (next.tokens.reverse ++ found) next.scanner
  | _, _ =>
    let (tokens, after) := s.finish
    (.ok (found.reverse ++ tokens), after)

/-- Scans the rest of the text. Each round takes a character or ends the start of a line, so twice
the number of characters bounds the rounds. -/
def tokens (s : Scanner) : Except ScanError (List Token) × Scanner :=
  scanFrom (2 * s.tape.rest.length + 1) true [] s

end Scanner

def Token.scan (source : String) : Except ScanError (List Token) :=
  (Scanner.ofText source).tokens.1

end StackScript
