import StackScript.Code.Listing

/-!
# Values and their store

A value is either complete in itself (numbers, texts, tuples) or a reference into a store that
holds what may change: lists, tables, iterators, exceptions, classes and objects. Tables keep the
order in which their keys were first entered. A float that is not a number carries a mark, because
such a float equals nothing, yet is found again in a container that holds that very one.
-/

namespace StackScript

/-- What an iterator walks over. -/
inductive IterKind where
  | list
  | tuple
  | asciiText
  | text
  | keys
  deriving DecidableEq, Repr, Inhabited

/-- A value of a running program. A `library` is a module of functions, a `native` one of its
functions; a `method` belongs to a value of the kind `owner`, and `foreign` has nothing but a kind
and a text. -/
inductive Value where
  | none
  | bool (b : Bool)
  | int (i : Int)
  | float (x : Float)
  | nan (mark : Nat)
  | complex (re im : Float)
  | str (s : String)
  | tuple (items : List Value)
  | list (ref : Nat)
  | dict (ref : Nat)
  | iterator (kind : IterKind) (ref : Nat)
  | exception (ref : Nat)
  | classRef (ref : Nat)
  | object (ref : Nat)
  | routine (ref : Nat)
  | library (name : String)
  | native (name : String)
  | method (name owner : String) (slot : Bool)
  | typeRef (name : String)
  | foreign (kind text : String)
  | wrapped (inner : Value)
  | wrappedNative (inner : Value)
  deriving Inhabited

abbrev Table := Array (Value × Value)

/-- Where an iterator stands. -/
inductive Walk where
  /-- In a list that may still change. -/
  | live (ref next : Nat)
  /-- Before values that are fixed. -/
  | fixed (rest : List Value)
  /-- In the keys of a table, which must keep its size. -/
  | keys (ref next size : Nat)
  /-- Past the end. -/
  | finished
  deriving Inhabited

/-- An exception of the program: its message and type, and what else was set on it. -/
structure ExceptionCell where
  arguments : List Value
  message : Value
  type : Value
  extra : List (String × Value) := []
  deriving Inhabited

/-- A class: a name, a table of methods, a table of default attributes, and a parent. -/
structure ClassCell where
  name : Value
  methods : Value
  attributes : Value
  parent : Value := .none
  deriving Inhabited

/-- An object of a class with its own attributes. -/
structure ObjectCell where
  classOf : Nat
  attributes : Table := #[]
  deriving Inhabited

/-- A loaded routine as it stands in its code file. -/
structure RoutineCell where
  name : String
  parameters : Datum
  code : Listing
  slots : Datum
  returnType : Datum := .null
  deriving Inhabited

/-- What values refer to. `members` are the names that a program has set on a library, and `marks`
is the next mark of a float that is not a number. -/
structure Store where
  lists : Array (Array Value) := #[]
  dicts : Array Table := #[]
  iterators : Array Walk := #[]
  exceptions : Array ExceptionCell := #[]
  classes : Array ClassCell := #[]
  objects : Array ObjectCell := #[]
  routines : Array RoutineCell := #[]
  members : List (String × Value) := []
  marks : Nat := 2
  deriving Inhabited

def IterKind.name : IterKind → String
  | list => "list_iterator"
  | tuple => "tuple_iterator"
  | asciiText => "str_ascii_iterator"
  | text => "str_iterator"
  | keys => "dict_keyiterator"

namespace Value

def kind : Value → String
  | none => "NoneType"
  | bool _ => "bool"
  | int _ => "int"
  | float _ => "float"
  | nan _ => "float"
  | complex _ _ => "complex"
  | str _ => "str"
  | tuple _ => "tuple"
  | list _ => "list"
  | dict _ => "dict"
  | iterator k _ => k.name
  | exception _ => "AquaException"
  | classRef _ => "AquaClass"
  | object _ => "AquaObject"
  | routine _ => "OptimizedAquaFunction"
  | library _ => "module"
  | native _ => "builtin_function_or_method"
  | method _ _ slot => if slot then "method-wrapper" else "builtin_function_or_method"
  | typeRef _ => "type"
  | foreign k _ => k
  | wrapped _ => "PythonObjectWrapper"
  | wrappedNative _ => "PythonFunctionWrapper"

/-- The mark of the float that is not a number in a code file. -/
def fileMark : Nat := 0

/-- The mark of the float that is not a number in the library of functions. -/
def libraryMark : Nat := 1

def float? : Value → Option Float
  | float x => some x
  | nan _ => some (Float.ofBits 0x7FF8000000000000)
  | _ => Option.none

def int? : Value → Option Int
  | bool b => some (if b then 1 else 0)
  | int i => some i
  | _ => Option.none

end Value

/-- A number as arithmetic sees it. -/
inductive Num where
  | int (i : Int)
  | float (x : Float)
  | complex (re im : Float)
  deriving Inhabited

def Value.num? : Value → Option Num
  | .bool b => some (.int (if b then 1 else 0))
  | .int i => some (.int i)
  | .float x => some (.float x)
  | .nan _ => some (.float (Float.ofBits 0x7FF8000000000000))
  | .complex re im => some (.complex re im)
  | _ => Option.none

def Num.same : Num → Num → Bool
  | .int i, .int j => i == j
  | .int i, .float y => Number.compareIntFloat i y == some .eq
  | .float x, .int j => Number.compareIntFloat j x == some .eq
  | .float x, .float y => x == y
  | .int i, .complex re im => im == 0 && Number.compareIntFloat i re == some .eq
  | .complex re im, .int j => im == 0 && Number.compareIntFloat j re == some .eq
  | .float x, .complex re im => im == 0 && x == re
  | .complex re im, .float y => im == 0 && re == y
  | .complex re im, .complex re' im' => re == re' && im == im'

namespace Value

/-- The very same value. Of floats that are not numbers only equal marks are the same; for all
other values without a place in the store this is at most equality. -/
def identical : Value → Value → Bool
  | none, none => true
  | nan m, nan m' => m == m'
  | list r, list r' => r == r'
  | dict r, dict r' => r == r'
  | iterator k r, iterator k' r' => k == k' && r == r'
  | exception r, exception r' => r == r'
  | classRef r, classRef r' => r == r'
  | object r, object r' => r == r'
  | routine r, routine r' => r == r'
  | library n, library n' => n == n'
  | native n, native n' => n == n'
  | typeRef n, typeRef n' => n == n'
  | foreign k t, foreign k' t' => k == k' && t == t'
  | wrapped v, wrapped v' => identical v v'
  | wrappedNative v, wrappedNative v' => identical v v'
  | _, _ => false

/-- Equality of two values that are neither tuples nor lists nor tables. -/
def sameLeaf (a b : Value) : Bool :=
  match a, b with
  | str s, str t => s == t
  | a, b => match a.num?, b.num? with
    | some m, some n => m.same n
    | _, _ => identical a b

mutual

def sameKey : Value → Value → Bool
  | tuple xs, tuple ys => sameKeys xs ys
  | a, b => identical a b || sameLeaf a b

def sameKeys : List Value → List Value → Bool
  | [], [] => true
  | x :: xs, y :: ys => sameKey x y && sameKeys xs ys
  | _, _ => false

end

mutual

/-- The kind of the part of a value that keeps it from being a key. -/
def unhashable? : Value → Option String
  | list r => some (list r).kind
  | dict r => some (dict r).kind
  | tuple items => unhashableItem? items
  | _ => Option.none

/-- The kind of the first item that keeps a tuple from being a key. -/
def unhashableItem? : List Value → Option String
  | [] => Option.none
  | v :: rest => unhashable? v <|> unhashableItem? rest

end

end Value

namespace Table

def get? (t : Table) (key : Value) : Option Value :=
  (t.find? fun entry => entry.1.sameKey key).map (·.2)

/-- Enters a value under a key; an equal key keeps its place and spelling. -/
def put (t : Table) (key value : Value) : Table :=
  match t.findIdx? fun entry => entry.1.sameKey key with
  | some i => t.modify i fun entry => (entry.1, value)
  | none => t.push (key, value)

def keys (t : Table) : Array Value := t.map (·.1)

end Table

namespace Store

def list (s : Store) (ref : Nat) : Array Value := s.lists.getD ref #[]

def dict (s : Store) (ref : Nat) : Table := s.dicts.getD ref #[]

/-- How many lists and tables there are: no path through different ones is longer. -/
def cells (s : Store) : Nat := s.lists.size + s.dicts.size

end Store

end StackScript
