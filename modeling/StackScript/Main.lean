import StackScript.Command.Build

/-!
# The command line

The first argument names a command, and the others are its arguments. The command works on the
files below the current folder; what it has changed is written back at its end. The prompt answers
each line as it is entered.
-/

namespace StackScript.CommandLine

def commands : List (String × (List String → Job Unit)) := [
  ("compile", Tool.command .compiler),
  ("run", Tool.command .wide),
  ("fast", Tool.command .fast),
  ("package", Tool.command .packager),
  ("extended", Tool.command .extended),
  ("check", Tool.command .checks),
  ("dump-code", Tool.command .dumpCode),
  ("dump-tokens", Tool.command .dumpTokens),
  ("dump-reading", Tool.command .dumpReading),
  ("build", Build.command)]

def usage : String :=
  "commands: " ++ ", ".intercalate (commands.map (·.1) ++ ["prompt"]) ++ "\n"

/-- Reads the files of a folder. -/
partial def load (entries : Array IO.FS.DirEntry) (above : Place) (disk : Disk) : IO Disk := do
  let mut disk := disk
  for entry in entries do
    let place := above ++ [entry.fileName]
    if ← entry.path.isDir then
      disk ← load (← entry.path.readDir) place (disk.put place .folder)
    else
      let bytes := (← IO.FS.readBinFile entry.path).toList
      let content := match Archive.decode bytes with
        | .ok members => Content.archive members
        | .error _ => Content.data bytes
      disk := disk.plant place content
  return disk

def store (before after : Disk) : IO Unit := do
  for (path, content) in after.listing [] do
    if before.get? (Path.parts path) ≠ some (.file content) then
      let folder := Path.directory path
      if !folder.isEmpty then IO.FS.createDirAll folder
      IO.FS.writeBinFile path (ByteArray.mk content.bytes.toArray)
  for (path, _) in before.listing [] do
    if (after.get? (Path.parts path)).isNone then IO.FS.removeFile path

/-- Answers lines until the prompt is left. -/
partial def converse (input : IO.FS.Stream) (session : Prompt.Session) : IO UInt32 := do
  IO.print ">>> "
  (← IO.getStdout).flush
  let line ← input.getLine
  if line.isEmpty then return 0
  match session.enter (.line line) with
  | .again output session => do
    IO.print output
    converse input session
  | .leave => return 0
  | .limit output => do
    IO.print output
    return 1
  | .endless => return 1

def exitCode : Exit → UInt32
  | .code n => UInt32.ofNat n
  | _ => 1

def perform (command : Job Unit) : IO UInt32 := do
  let before ← load (← (← IO.currentDir).readDir) [] {}
  let (exit, world) := Job.finish command { disk := before, limit := Job.innerLimit }
  IO.print world.output
  IO.eprint world.complaints
  match exit with
  | .failed e => IO.eprint e.report
  | .limit | .endless => IO.eprintln "the program does not end"
  | .code _ => pure ()
  store before world.disk
  return exitCode exit

end StackScript.CommandLine

open StackScript in
def main (arguments : List String) : IO UInt32 := do
  match arguments with
  | "prompt" :: _ => do
    IO.print Prompt.banner
    CommandLine.converse (← IO.getStdin) { left := Job.innerLimit }
  | word :: rest =>
    match CommandLine.commands.lookup word with
    | some command => CommandLine.perform (command rest)
    | none => do
      IO.eprint CommandLine.usage
      return 2
  | [] => do
    IO.eprint CommandLine.usage
    return 2
