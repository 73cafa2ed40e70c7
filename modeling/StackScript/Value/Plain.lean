import StackScript.Datum.Writer
import StackScript.Value.Arithmetic

/-!
# Values and plain data

Plain data becomes values, and those values that are plain data can be written as such.
-/

namespace StackScript.Value

mutual

def ofDatum : Datum → Op Value
  | .null => return none
  | .bool b => return bool b
  | .int i => return int i
  | .float x => return if x.isNaN then nan fileMark else float x
  | .str s => return str s
  | .list items => do Op.newList (← ofItems items).toArray
  | .tuple items => do return tuple (← ofItems items)
  | .dict entries => do
    Op.newDict ((← ofEntries entries).foldl (fun t entry => t.put entry.1 entry.2) #[])

def ofItems : List Datum → Op (List Value)
  | [] => return []
  | d :: rest => do
    let v ← ofDatum d
    return v :: (← ofItems rest)

def ofEntries : List (Datum × Datum) → Op (List (Value × Value))
  | [] => return []
  | (k, d) :: rest => do
    let key ← ofDatum k
    let v ← ofDatum d
    return (key, v) :: (← ofEntries rest)

end

def plainKey : Value → Except Fault Datum
  | none => .ok .null
  | bool b => .ok (.bool b)
  | int i => if Number.exceedsDigitLimit i then .error .longInteger else .ok (.int i)
  | float x => .ok (.float x)
  | nan _ => .ok (.float (Float.ofBits 0x7FF8000000000000))
  | str s => .ok (.str s)
  | other => .error (.jsonKey other.kind)

mutual

def plainWith (cell : Value → Except Fault Datum) : Value → Except Fault Datum
  | none => .ok .null
  | bool b => .ok (.bool b)
  | int i => if Number.exceedsDigitLimit i then .error .longInteger else .ok (.int i)
  | float x => .ok (.float x)
  | nan _ => .ok (.float (Float.ofBits 0x7FF8000000000000))
  | str s => .ok (.str s)
  | tuple items => do return .list (← plainItems cell items)
  | list ref => cell (list ref)
  | dict ref => cell (dict ref)
  | other => .error (.notJson other.kind)

def plainItems (cell : Value → Except Fault Datum) : List Value → Except Fault (List Datum)
  | [] => .ok []
  | v :: rest => do
    let d ← plainWith cell v
    return d :: (← plainItems cell rest)

end

/-- A list or table as plain data, with those around it in `path`. -/
def plainCell (s : Store) (fuel : Nat) (path : List Value) (v : Value) : Except Fault Datum :=
  match fuel with
  | 0 => .error .circular
  | fuel + 1 => do
    if path.any (identical v) then throw .circular
    let inner := plainWith (plainCell s fuel (v :: path))
    match v with
    | list ref => return .list (← (s.list ref).toList.mapM inner)
    | dict ref =>
      let entries ← (s.dict ref).toList.mapM fun (k, v) => do
        let key ← plainKey k
        return (key, ← inner v)
      return .dict entries
    | other => throw (.notJson other.kind)

def plain (s : Store) (v : Value) : Except Fault Datum :=
  plainWith (plainCell s (s.cells + 1) []) v

def json (s : Store) (v : Value) : Except Fault String := do
  return (← plain s v).write

end StackScript.Value
