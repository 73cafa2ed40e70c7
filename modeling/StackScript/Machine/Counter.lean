import StackScript.Value.Items

/-!
# Program counters

The counter of a program or a call is the index of its next instruction. Jumps take whatever
operand their instruction has, so that a counter can also hold data that is no index; this shows
only when the counter is used.
-/

namespace StackScript

/-- The place of the next instruction. -/
inductive Counter where
  | at (index : Int)
  | stray (d : Datum)
  deriving Inhabited

namespace Counter

def ofOperand : Datum → Counter
  | .int i => .at i
  | d => .stray d

def datum : Counter → Datum
  | .at i => .int i
  | .stray d => d

def index? : Counter → Option Int
  | .at i => some i
  | .stray d => d.integral?

def next (c : Counter) : Counter :=
  match c with
  | .at i => .at (i + 1)
  | .stray (.bool b) => .at (if b then 2 else 1)
  | .stray (.float x) => .stray (.float (x + 1))
  | .stray d => .stray d

def compare (c : Counter) (op : OrderOp) (size : Nat) : Except Fault Bool :=
  match c with
  | .at i => .ok (op.holds (Ord.compare i size))
  | .stray (.bool b) => .ok (op.holds (Ord.compare (if b then 1 else 0) size))
  | .stray (.float x) =>
    match Number.compareIntFloat size x with
    | some o => .ok (op.holds o.swap)
    | none => .ok false
  | .stray d => .error (.unordered op.sign d.kindName "int")

def pick {α : Type} (c : Counter) (items : Array α) : Except Fault α :=
  match c.index? with
  | none => .error (.indexKind "list" c.datum.kindName)
  | some i =>
    if Value.beyondIndex i then .error .indexSize
    else match (Value.place? items.size i).bind (items[·]?) with
      | some item => .ok item
      | none => .error (.outOfRange "list")

def indexD (c : Counter) : Int := c.index?.getD 0

@[simp]
theorem next_at (i : Int) : (Counter.at i).next = .at (i + 1) := rfl

@[simp]
theorem ofOperand_int (i : Int) : ofOperand (.int i) = .at i := rfl

end Counter

/-- A call in progress: its routine, the counter of the main program at the call, its own counter
and its local slots. -/
structure Frame (ρ : Type) where
  routine : ρ
  returnTo : Counter
  pc : Counter := .at 0
  locals : Array Value

end StackScript
