import StackScript.Value.Convert

/-!
# Names of types

The types that a program can name: whether a value is of such a type, and its conversion to it.
-/

namespace StackScript

/-- The types that have a name. -/
inductive TypeName where
  | int
  | float
  | str
  | bool
  | list
  | dict
  deriving DecidableEq, Repr

namespace TypeName

def ofName? : String → Option TypeName
  | "int" => some int
  | "float" => some float
  | "str" => some str
  | "bool" => some bool
  | "list" => some list
  | "dict" => some dict
  | _ => none

/-- The type that a value names; a value that cannot be a key is no name. -/
def ofValue? (v : Value) : Except Fault (Option TypeName) := do
  match ← v.asKey with
  | .str name => return ofName? name
  | _ => return none

/-- Is a value of the type? A truth value is also a whole number. -/
def holds : TypeName → Value → Bool
  | int, .int _ | int, .bool _ => true
  | float, .float _ | float, .nan _ => true
  | str, .str _ => true
  | bool, .bool _ => true
  | list, .list _ => true
  | dict, .dict _ => true
  | _, _ => false

def pairOf (index : Nat) (item : Value) : Op (Value × Value) := do
  let parts ← match item with
    | .str _ | .tuple _ | .list _ | .dict _ | .iterator _ _ => item.items
    | _ => throw (.dictItem index)
  match parts with
  | [k, v] => return (← Op.ofExcept k.asKey, v)
  | parts => throw (.dictItemLength index parts.length)

/-- The table of a sequence of pairs, from the given index on. -/
def tableOf (index : Nat) (t : Table) : List Value → Op Table
  | [] => return t
  | item :: rest => do
    let (k, v) ← pairOf index item
    tableOf (index + 1) (t.put k v) rest

def convert (type : TypeName) (v : Value) : Op Value := do
  match type with
  | int => return .int (← Op.ofExcept v.toInt)
  | float => v.toFloat
  | str => return .str (← Op.ask (Value.text · v))
  | bool => return .bool (v.truth (← get))
  | list => do Op.newList (← v.items).toArray
  | dict =>
    match v with
    | .dict ref => Op.newDict ((← get).dict ref)
    | v => do Op.newDict (← tableOf 0 #[] (← v.items))

end TypeName

end StackScript
