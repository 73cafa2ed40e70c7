import StackScript.Number.Binary

/-!
# Plain data

The data that can be written into a file: nothing, truth values, numbers, texts, sequences and
tables. A table keeps the order in which its keys were first entered. `Datum.same` is the equality
of data: numbers are compared by value whatever their kind, truth values count as zero and one,
and tables are compared without regard to order.
-/

namespace StackScript

/-- A piece of plain data. -/
inductive Datum where
  | null
  | bool (b : Bool)
  | int (i : Int)
  | float (x : Float)
  | str (s : String)
  | list (items : List Datum)
  | tuple (items : List Datum)
  | dict (entries : List (Datum × Datum))
  deriving Inhabited

namespace Datum

def kindName : Datum → String
  | null => "NoneType"
  | bool _ => "bool"
  | int _ => "int"
  | float _ => "float"
  | str _ => "str"
  | list _ => "list"
  | tuple _ => "tuple"
  | dict _ => "dict"

def integral? : Datum → Option Int
  | bool b => some (if b then 1 else 0)
  | int i => some i
  | _ => none

/-- Equality of two data of which neither is a sequence or a table. -/
def sameLeaf (a b : Datum) : Bool :=
  match a, b with
  | null, null => true
  | str s, str t => s == t
  | float x, float y => x == y
  | float x, other => match other.integral? with
    | some i => Number.compareIntFloat i x == some .eq
    | none => false
  | other, float y => match other.integral? with
    | some i => Number.compareIntFloat i y == some .eq
    | none => false
  | _, _ => match a.integral?, b.integral? with
    | some i, some j => i == j
    | _, _ => false

mutual

def same : Datum → Datum → Bool
  | list xs, list ys => sameItems xs ys
  | tuple xs, tuple ys => sameItems xs ys
  | dict xs, dict ys => xs.length == ys.length && coveredBy xs ys
  | a, b => sameLeaf a b

def sameItems : List Datum → List Datum → Bool
  | [], [] => true
  | x :: xs, y :: ys => same x y && sameItems xs ys
  | _, _ => false

def coveredBy : List (Datum × Datum) → List (Datum × Datum) → Bool
  | [], _ => true
  | (k, v) :: rest, others =>
    others.any (fun entry => same k entry.1 && same v entry.2) && coveredBy rest others

end

/-- Enters a value under a key; an equal key keeps its place and spelling. -/
def enter (key value : Datum) : List (Datum × Datum) → List (Datum × Datum)
  | [] => [(key, value)]
  | (k, v) :: rest => if same k key then (k, value) :: rest else (k, v) :: enter key value rest

def field? (name : String) : Datum → Option Datum
  | dict entries => (entries.find? fun entry => entry.1.same (str name)).map (·.2)
  | _ => none

end Datum

end StackScript
