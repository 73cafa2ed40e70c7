import StackScript.Command.Job

/-!
# The machines as commands

The wide machine takes a code file and nothing else. The fast one can list its steps, and tells
what it has counted unless it is told not to.
-/

namespace StackScript

def Fast.Stats.text (stats : Fast.Stats) (timing : Timing) : String :=
  let grouped (n : Nat) : String := String.ofList (Number.grouped (Nat.toDigits 10 n))
  "VM Statistics:\nInstructions executed: " ++ grouped stats.instructions ++
    "\nFunction calls: " ++ grouped stats.calls ++
    s!"\nPeak stack size: {stats.peakStack}\nPeak call depth: {stats.peakDepth}" ++
    "\nExecution time: " ++ timing.seconds ++
    "s\nInstructions/second: " ++ timing.rate stats.instructions

namespace Runner

open Job

def demand (path : String) : Job Unit := do
  if !(← holds path) then
    print s!"Error: File '{path}' not found"
    leave 1

def wide (arguments : List String) : Job Unit := do
  match arguments with
  | [path] =>
    demand path
    runWide .plain (← readBytes path)
  | _ =>
    print "Usage: python aquavm.py <bytecode_file>"
    leave 1

/-- Tells an error of the fast machine, and ends the command. -/
def failFast (message : String) : Job Unit := do
  print ("Error: " ++ message)
  leave 1

def runFast (debug counting : Bool) (bytes : List UInt8) : Job Unit := do
  let machine : Fast.State := { debug, counting }
  match machine.load bytes with
  | .error e => do
    match e with
    | .starting _ shown => out shown
    | .reading _ => pure ()
    failFast e.message
  | .ok machine => do
    let outcome := Fast.run (← get).limit machine
    out outcome.state.output
    match outcome.finish with
    | .limit => throw .limit
    | .broken e => failFast e.message
    | .done =>
      if counting then print ("\n" ++ outcome.state.stats.text (← get).timing)

def fast (arguments : List String) : Job Unit := do
  match arguments with
  | [] =>
    print "Usage: python optimized_aquavm.py <bytecode_file> [--debug] [--no-stats]"
    print "Options:"
    print "  --debug     Enable debug mode"
    print "  --no-stats  Disable performance statistics"
    leave 1
  | path :: _ => do
    demand path
    let bytes ← handling (some <$> readBytes path) fun e => do
      failFast e.message
      return none
    runFast (arguments.contains "--debug") (!arguments.contains "--no-stats") (bytes.getD [])

end Runner

end StackScript
