import StackScript.Number.Reading
import StackScript.Datum.Basic

/-!
# Tagged data

Tools that read JSON may lose large whole numbers, the kind of a number, the order of a table or
the difference between a list and a tuple. In tagged form nothing of this is lost: what plain JSON
cannot hold is an object whose only field names its kind.
-/

namespace StackScript.Datum

def object (fields : List (String × Datum)) : Datum :=
  dict (fields.map fun field => (str field.1, field.2))

/-- The whole numbers that every reader of JSON keeps are below this in size. -/
def safeInteger : Nat := 0x20000000000000

def tagInt (i : Int) : Datum :=
  if i.natAbs < safeInteger then int i else object [("int", str (Number.intDigits i))]

def tagFloat (x : Float) : Datum := object [("float", str (Number.floatText x))]

mutual

def tagged : Datum → Datum
  | null => null
  | bool b => bool b
  | int i => tagInt i
  | float x => tagFloat x
  | str s => str s
  | list items => list (taggedItems items)
  | tuple items => object [("tuple", list (taggedItems items))]
  | dict entries => object [("dict", list (taggedEntries entries))]

def taggedItems : List Datum → List Datum
  | [] => []
  | d :: rest => tagged d :: taggedItems rest

def taggedEntries : List (Datum × Datum) → List Datum
  | [] => []
  | (k, v) :: rest => list [tagged k, tagged v] :: taggedEntries rest

end

def untagNumber : String → String → Datum
  | "int", text =>
    match Number.readInt text with
    | .ok i => int i
    | .error _ => null
  | _, text => float ((Number.readFloat text).getD 0)

mutual

def untagged : Datum → Datum
  | list items => list (untaggedItems items)
  | dict [(str "tuple", list items)] => tuple (untaggedItems items)
  | dict [(str "dict", list items)] => dict (untaggedEntries items [])
  | dict [(str "int", str text)] => untagNumber "int" text
  | dict [(str "float", str text)] => untagNumber "float" text
  | d => d

def untaggedItems : List Datum → List Datum
  | [] => []
  | d :: rest => untagged d :: untaggedItems rest

def untaggedEntries : List Datum → List (Datum × Datum) → List (Datum × Datum)
  | [], entries => entries
  | list [k, v] :: rest, entries =>
    untaggedEntries rest (enter (untagged k) (untagged v) entries)
  | _ :: rest, entries => untaggedEntries rest entries

end

mutual

def depth : Datum → Nat
  | list items => depthOfItems items + 1
  | tuple items => depthOfItems items + 1
  | dict entries => depthOfEntries entries + 1
  | _ => 1

def depthOfItems : List Datum → Nat
  | [] => 0
  | d :: rest => max (depth d) (depthOfItems rest)

def depthOfEntries : List (Datum × Datum) → Nat
  | [] => 0
  | (k, v) :: rest => max (max (depth k) (depth v)) (depthOfEntries rest)

end

def fieldD (d : Datum) (name : String) : Datum := (d.field? name).getD null

def textD : Datum → String
  | str s => s
  | _ => ""

def itemsD : Datum → List Datum
  | list items => items
  | tuple items => items
  | _ => []

def strings (texts : List String) : Datum := list (texts.map str)

def stringsD (d : Datum) : List String := d.itemsD.map textD

def optional {α : Type} (f : α → Datum) : Option α → Datum
  | some a => f a
  | none => null

def option {α : Type} (f : Datum → α) : Datum → Option α
  | null => none
  | d => some (f d)

end StackScript.Datum
