import StackScript.Command.Trouble
import StackScript.Command.Usage
import StackScript.Machine.Fast.Load
import StackScript.Machine.Fast.Run
import StackScript.Machine.Wide.Load
import StackScript.Machine.Wide.Run

/-!
# Jobs

A job is what a command does: it reads and writes files, shows lines, and ends with a code or by
an error. The state at its end is kept in every case, so that what was shown before an error stays
shown.
-/

namespace StackScript

/-- How the time of a run is told. -/
structure Timing where
  seconds : String
  /-- The rate of a number of instructions. -/
  rate : Nat → String

/-- A run that took no time: its rate is that of one millionth of a second. -/
def Timing.still : Timing where
  seconds := "0.000000"
  rate n := String.ofList (Number.grouped (Nat.toDigits 10 (n * 1000000)))

/-- What commands work on. -/
structure World where
  disk : Disk := {}
  /-- What has been shown. -/
  output : String := ""
  /-- What has been shown of errors. -/
  complaints : String := ""
  /-- The lines that can be entered. -/
  lines : List String := []
  /-- The steps that a machine may make. -/
  limit : Nat := 5000
  timing : Timing := .still

/-- How a command ends before its last line. -/
inductive Exit where
  | code (n : Nat)
  | limit
  | endless
  | failed (cause : Trouble)

abbrev Job (α : Type) := EStateM Exit World α

def Job.finish (job : Job Unit) (w : World) : Exit × World :=
  match job w with
  | .ok _ w => (.code 0, w)
  | .error exit w => (exit, w)

namespace Job

def leave {α : Type} (code : Nat) : Job α := throw (.code code)

def fail {α : Type} (cause : Trouble) : Job α := throw (.failed cause)

def out (text : String) : Job Unit := modify fun w => { w with output := w.output ++ text }

def print (line : String) : Job Unit := out (line ++ "\n")

def complain (text : String) : Job Unit :=
  modify fun w => { w with complaints := w.complaints ++ text }

def handling {α : Type} (job : Job α) (handler : Trouble → Job α) : Job α :=
  tryCatch job fun
    | .failed cause => handler cause
    | exit => throw exit

def ofExcept {ε α : Type} (trouble : ε → Trouble) : Except ε α → Job α
  | .ok a => return a
  | .error e => fail (trouble e)

/-! ## Files -/

def holds (path : String) : Job Bool := return (← get).disk.holds path

def readContent (path : String) : Job Content := do
  ofExcept .file ((← get).disk.read path)

def readBytes (path : String) : Job (List UInt8) := return (← readContent path).bytes

def readText (path : String) : Job String := do
  let text ← ofExcept .encoding (Text.decodeUtf8 (← readBytes path))
  return String.ofList (Text.plainLineEnds text.toList)

def change (f : Disk → Except FileError Disk) : Job Unit := do
  let disk ← ofExcept .file (f (← get).disk)
  modify fun w => { w with disk }

def writeContent (path : String) (content : Content) : Job Unit :=
  change (Disk.write · path content)

def writeBytes (path : String) (bytes : List UInt8) : Job Unit := writeContent path (.data bytes)

/-! ## Arguments -/

/-- Takes over arguments. Asking for help is a success; a refusal ends with the code 2. -/
def arguments {α : Type} : Except Arguments.Stop α → Job α
  | .ok a => return a
  | .error (.help form) => do
    out form.help
    leave 0
  | .error (.refused form cause) => do
    complain (form.complaint cause)
    leave 2

/-! ## Commands inside commands -/

/-- The steps that a machine may make inside another command. -/
def innerLimit : Nat := 10000000

/-- What a command inside another one has done. -/
structure Ran where
  succeeded : Bool
  output : String
  complaints : String

/-- Runs a command inside another one; an error that ends it is reported among its complaints. -/
def inside (job : Job Unit) : Job Ran := fun w =>
  let (exit, inner) := Job.finish job
    { w with output := "", complaints := "", lines := [], limit := innerLimit }
  let after := { w with disk := inner.disk }
  match exit with
  | .code n => .ok ⟨n = 0, inner.output, inner.complaints⟩ after
  | .failed e => .ok ⟨false, inner.output, inner.complaints ++ e.report⟩ after
  | .limit => .error .limit after
  | .endless => .error .endless after

def elsewhere {α : Type} (job : Job α) : Job α := fun w =>
  match job { w with disk := {} } with
  | .ok a inner => .ok a { inner with disk := w.disk }
  | .error exit inner => .error exit { inner with disk := w.disk }

/-! ## Programs -/

/-- Ends by a compiling error; a program that can never be read to its end never ends. -/
def failCompile {α : Type} (e : CompileError) : Job α :=
  if e.isEndless then throw .endless else fail (.compile e)

def scan (source : String) : Job (List Token) :=
  match Token.scan source with
  | .ok tokens => return tokens
  | .error e => failCompile (.scan e)

def parse (tokens : List Token) : Job Program :=
  match Program.ofTokens tokens with
  | .ok program => return program
  | .error e => failCompile (.parse e)

def compile (program : Program) : Job Compiled :=
  match program.compile with
  | .ok compiled => return compiled
  | .error e => failCompile e

def finishRun : Finish → Job Unit
  | .done => return ()
  | .limit => throw .limit
  | .broken e => fail (.fault e)

def runWide (functions : Wide.Functions) (bytes : List UInt8) : Job Unit := do
  let machine : Wide.State := { functions }
  let machine ← ofExcept .load (machine.load bytes)
  let outcome := Wide.run (← get).limit machine
  out outcome.state.output
  finishRun outcome.finish

end Job

end StackScript
