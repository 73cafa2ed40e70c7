import StackScript.Machine.Wide.State

/-!
# Exceptions on the wide machine

A try block sets up a handler that knows the next catch block below it. A thrown exception goes to
the latest handler that has a catch block; those without one are dropped. When no handler is left,
the machine fails.
-/

namespace StackScript.Wide.Act

/-- The index of the first catch block from an index on, `-1` if there is none; indices below zero
count from the end. -/
def findCatch (code : Array Instruction) : Nat → Int → Int
  | 0, _ => -1
  | fuel + 1, i =>
    match (Value.place? code.size i).bind (code[·]?) with
    | none => -1
    | some instruction =>
      if instruction.op = .catchBegin then i else findCatch code fuel (i + 1)

def tryBegin : Act Unit := do
  let code ← code
  let start := (← counter).indexD + 1
  let catchAt := findCatch code (code.size - start).toNat start
  modify fun s =>
    { s with handlers := { catchAt, inCall := !s.frames.isEmpty } :: s.handlers }

/-- Passes instructions up to the end of the catch block that was opened first. -/
def skipCatches (code : Array Instruction) : Nat → Int → Counter → Counter
  | 0, _, c => c
  | fuel + 1, depth, c =>
    match c.pick code with
    | .error _ => c
    | .ok instruction =>
      let c := c.next
      match instruction.op with
      | .catchBegin => skipCatches code fuel (depth + 1) c
      | .catchEnd => if depth = 1 then c else skipCatches code fuel (depth - 1) c
      | _ => skipCatches code fuel depth c

/-- Passes instructions up to the next end of a catch block. -/
def skipCatch (code : Array Instruction) : Nat → Counter → Counter
  | 0, c => c
  | fuel + 1, c =>
    match c.pick code with
    | .error _ => c
    | .ok instruction =>
      if instruction.op = .catchEnd then c.next else skipCatch code fuel c.next

/-- How many instructions there are from a counter to the end. -/
def remaining (code : Array Instruction) (c : Counter) : Nat := (code.size - c.indexD).toNat

/-- Leaves a try block: unless there is an exception, its catch blocks are passed. -/
def tryEnd : Act Unit := do
  if (← get).current.isNone then
    let code ← code
    let c ← counter
    jump (skipCatches code (remaining code c) 0 c)

def leaveCatch : Act Unit := do
  let code ← code
  let c ← counter
  jump (skipCatch code (remaining code c) c)

/-- Enters a catch block if it is for the exception, which is then put on the stack. -/
def catchBegin (operand : Datum) : Act Unit := do
  match (← get).current with
  | none => leaveCatch
  | some ref =>
    let suits ← match operand with
      | .null => pure true
      | operand => do
        let type ← constant operand
        let s ← get
        pure (Value.same s.store (s.store.exceptions.getD ref default).type type)
    if suits then push (.exception ref) else leaveCatch

def catchEnd : Act Unit :=
  modify fun s => { s with handlers := s.handlers.tail, current := none }

def finallyBegin : Act Unit := do
  let c ← counter
  modify fun s => match s.handlers with
    | handler :: rest =>
      { s with handlers := { handler with finallyAt := some c } :: rest }
    | [] => s

def usable (handlers : List Handler) : List Handler :=
  handlers.dropWhile fun handler => handler.catchAt == -1

def unhandled (s : Store) (ref : Nat) : Failure :=
  match Value.text s (.exception ref) with
  | .ok message => .thrown message
  | .error cause => .unreadable cause

/-- Throws an exception. A handler that was set up during a call leads the innermost call to its
catch block, another one the main program. -/
def raise (ref : Nat) : Act Unit := do
  modify fun s => { s with current := some ref, handlers := usable s.handlers }
  let s ← get
  match s.handlers with
  | handler :: _ =>
    match handler.inCall, s.frames with
    | true, frame :: rest =>
      set { s with frames := { frame with pc := .at handler.catchAt } :: rest }
    | _, _ => set { s with pc := .at handler.catchAt }
  | [] => fail (unhandled s.store ref)

/-- Throws the top of the stack as an exception with its text. -/
def throwTop : Act Unit := do
  let v ← pop
  let message ← ask (Value.text · v)
  let s ← get
  let ref := s.store.exceptions.size
  let cell : ExceptionCell :=
    { arguments := [.str message], message := .str message, type := .str "Exception" }
  set { s with store := { s.store with exceptions := s.store.exceptions.push cell } }
  raise ref

def reraise : Act Unit := do
  match (← get).current with
  | some ref => raise ref
  | none => fail .noException

/-- Ends a last block: an exception that is still there is thrown again. -/
def finallyEnd : Act Unit := do
  match (← get).current with
  | some ref => raise ref
  | none => return ()

end StackScript.Wide.Act
