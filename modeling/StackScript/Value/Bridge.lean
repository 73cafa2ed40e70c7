import StackScript.Value.Attribute

/-!
# Values that cross to the library and back

A value that is handed to the library is copied as far as it consists of lists and tables. A value
that comes back is copied too, tuples become lists, and what a program has no kind for is wrapped.
-/

namespace StackScript.Value

def isCallable : Value → Bool
  | native _ | method _ _ _ | typeRef _ | wrappedNative _ => true
  | foreign kind _ => kind == "method"
  | _ => false

/-- A value as the library gets it, nested no deeper than the fuel. -/
def outwardN : Nat → Value → Op Value
  | 0, v => return v
  | fuel + 1, v => do
    match v with
    | list ref =>
      let items ← ((← get).list ref).toList.mapM (outwardN fuel)
      Op.newList items.toArray
    | dict ref =>
      let entries ← ((← get).dict ref).toList.mapM fun (k, v) => do
        return (k, ← outwardN fuel v)
      Op.newDict entries.toArray
    | v => return v

def outward (v : Value) : Op Value := do outwardN ((← get).cells + 1) v

mutual

/-- A value that comes from the library; `cell` copies lists and tables. -/
def inwardWith (cell : Value → Op Value) : Value → Op Value
  | none => return none
  | bool b => return bool b
  | int i => return int i
  | float x => return float x
  | nan mark => return nan mark
  | str t => return str t
  | tuple items => do Op.newList (← inwardItems cell items).toArray
  | list ref => cell (list ref)
  | dict ref => cell (dict ref)
  | v => return if v.isCallable then wrappedNative v else wrapped v

def inwardItems (cell : Value → Op Value) : List Value → Op (List Value)
  | [] => return []
  | v :: rest => do
    let copy ← inwardWith cell v
    return copy :: (← inwardItems cell rest)

end

/-- A copy of a list or table from the library, nested no deeper than the fuel. -/
def inwardCell : Nat → Value → Op Value
  | 0, v => return v
  | fuel + 1, v => do
    let inner := inwardWith (inwardCell fuel)
    match v with
    | list ref => do Op.newList (← ((← get).list ref).toList.mapM inner).toArray
    | dict ref =>
      let entries ← ((← get).dict ref).toList.mapM fun (k, v) => do return (k, ← inner v)
      Op.newDict entries.toArray
    | v => return v

def inward (v : Value) : Op Value := do inwardWith (inwardCell ((← get).cells + 1)) v

def getThrough (v name : Value) : Op Value := do
  let text ← Op.ofExcept (attributeName name)
  match ← attribute? v text with
  | some found => inward found
  | Option.none => throw (.wrappedAttribute text)

def setThrough (v name value : Value) : Op Unit := do
  setAttribute v name (← outward value)

def callThrough (f : Value) (arguments : List Value) : Op Value := do
  let arguments ← arguments.mapM outward
  match f with
  | native name => inward (← Library.call name arguments)
  | other => throw (.notCallable other.kind)

end StackScript.Value
