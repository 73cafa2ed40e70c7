import StackScript.Code.Compile
import StackScript.Files.Disk
import StackScript.Machine.Load

/-!
# Errors that end a command

An error that no command handles ends it. It is then reported by a label for its kind and its
wording.
-/

namespace StackScript

def FaultKind.label : FaultKind → String
  | .type => "TypeError"
  | .value => "ValueError"
  | .key => "KeyError"
  | .index => "IndexError"
  | .attribute => "AttributeError"
  | .zeroDivision => "ZeroDivisionError"
  | .overflow => "OverflowError"
  | .memory => "MemoryError"
  | .runtime => "RuntimeError"
  | .missingLibrary => "ModuleNotFoundError"
  | .json => "JSONDecodeError"

def ScanError.label : ScanError → String
  | unexpected .. => "SyntaxError"
  | indexOutOfRange => "IndexError"

def Datum.ReadError.label : Datum.ReadError → String
  | .malformed .. => "JSONDecodeError"
  | .tooLong _ => "ValueError"

def ParseError.label : ParseError → String
  | .expected .. | .unexpected .. | .invalidTarget | .loneTry => "SyntaxError"
  | .badInteger .. | .longInteger .. | .badDecimal .. => "ValueError"
  | .badPieces e => e.label
  | .noToken | .noSeparator => "AttributeError"
  | .indexOutOfRange => "IndexError"
  | .endless | .exhausted => "Hang"

def CompileError.label : CompileError → String
  | .scan e => e.label
  | .parse e => e.label
  | .unknownBinary .. | .unknownUnary .. | .localOutside | .longInteger => "ValueError"
  | .noKey .. => "KeyError"
  | .longSection => "error"
  | _ => "TypeError"

def CodeFile.ReadError.label : CodeFile.ReadError → String
  | wrongMagic | wrongVersion _ => "ValueError"
  | cutShort _ => "error"
  | encoding _ => "UnicodeDecodeError"
  | data e => e.label

def LoadError.label : LoadError → String
  | file e => e.label
  | fault e => e.kind.label

def FileError.label (e : FileError) : String :=
  match e.cause with
  | .missing => "FileNotFoundError"
  | .exists => "FileExistsError"
  | .notFolder => "NotADirectoryError"
  | .isFolder => "IsADirectoryError"
  | .longName | .notEmpty | .busy => "OSError"
  | .nullCharacter => "ValueError"

def ArchiveError.label : ArchiveError → String
  | noMember _ => "KeyError"
  | compressed => "NotImplementedError"
  | _ => "BadZipFile"

/-- An error that a command meets. -/
inductive Trouble where
  | file (e : FileError)
  | encoding (e : Text.Utf8Error)
  | data (e : Datum.ReadError)
  | compile (e : CompileError)
  | load (e : LoadError)
  | fault (e : Fault)
  | archive (e : ArchiveError)
  /-- A code file of another kind. -/
  | notCode
  /-- A label that no kind of token has. -/
  | noTokenKind (label : String)

namespace Trouble

def label : Trouble → String
  | file e => e.label
  | encoding _ => "UnicodeDecodeError"
  | data e => e.label
  | compile e => e.label
  | load e => e.label
  | fault e => e.kind.label
  | archive e => e.label
  | notCode => "ValueError"
  | noTokenKind _ => "AttributeError"

def message : Trouble → String
  | file e => e.message
  | encoding e => e.message
  | data e => e.message
  | compile e => e.message
  | load e => e.message
  | fault e => e.message
  | archive e => e.message
  | notCode => "Invalid bytecode file"
  | noTokenKind label => label

def origin (e : Trouble) : String :=
  match e.label with
  | "error" => "struct."
  | "JSONDecodeError" => "json.decoder."
  | "BadZipFile" => "zipfile."
  | _ => ""

def report (e : Trouble) : String :=
  let colon := if e.message.isEmpty then "" else ": "
  e.origin ++ e.label ++ colon ++ e.message ++ "\n"

def isWrongProgram (e : Trouble) : Bool := e.label == "SyntaxError"

end Trouble

end StackScript
