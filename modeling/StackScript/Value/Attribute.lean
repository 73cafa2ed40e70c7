import StackScript.Value.Library
import StackScript.Value.Plain

/-!
# Attributes of values

Every value has attributes by name. Those of numbers, texts and containers can only be read; the
methods among them are known by their names but cannot be called by a program. Libraries, classes
and exceptions can be given attributes.
-/

namespace StackScript.Value

/-- The names of the methods that the values of a kind have; a slot is a method that stands for
an operator. -/
structure Members where
  methods : List String := []
  slots : List String := []

def commonMembers : Members where
  methods := ["__dir__", "__format__", "__getstate__", "__reduce__", "__reduce_ex__", "__sizeof__"]
  slots := ["__delattr__", "__eq__", "__ge__", "__getattribute__", "__gt__", "__hash__", "__init__",
    "__le__", "__lt__", "__ne__", "__repr__", "__setattr__", "__str__"]

def typeMethods : List String := ["__init_subclass__", "__new__", "__subclasshook__"]

/-- The operators of numbers that whole numbers and floats share. -/
def numberSlots : List String := [
  "__abs__", "__add__", "__bool__", "__divmod__", "__float__", "__floordiv__", "__int__", "__mod__",
  "__mul__", "__neg__", "__pos__", "__pow__", "__radd__", "__rdivmod__", "__rfloordiv__",
  "__rmod__", "__rmul__", "__rpow__", "__rsub__", "__rtruediv__", "__sub__", "__truediv__"]

def membersOf (kind : String) : Members :=
  match kind with
  | "NoneType" => { slots := ["__bool__"] }
  | "int" | "bool" => {
    methods := ["__ceil__", "__floor__", "__getnewargs__", "__round__", "__trunc__",
      "as_integer_ratio", "bit_count", "bit_length", "conjugate", "from_bytes", "to_bytes"]
    slots := numberSlots ++ ["__and__", "__index__", "__invert__", "__lshift__", "__or__",
      "__rand__", "__rlshift__", "__ror__", "__rrshift__", "__rshift__", "__rxor__", "__xor__"] }
  | "float" => {
    methods := ["__ceil__", "__floor__", "__getformat__", "__getnewargs__", "__round__",
      "__trunc__", "as_integer_ratio", "conjugate", "fromhex", "hex", "is_integer"]
    slots := numberSlots }
  | "complex" => {
    methods := ["__complex__", "__getnewargs__", "conjugate"]
    slots := ["__abs__", "__add__", "__bool__", "__mul__", "__neg__", "__pos__", "__pow__",
      "__radd__", "__rmul__", "__rpow__", "__rsub__", "__rtruediv__", "__sub__", "__truediv__"] }
  | "str" => {
    methods := ["__getnewargs__", "capitalize", "casefold", "center", "count", "encode",
      "endswith", "expandtabs", "find", "format", "format_map", "index", "isalnum", "isalpha",
      "isascii", "isdecimal", "isdigit", "isidentifier", "islower", "isnumeric", "isprintable",
      "isspace", "istitle", "isupper", "join", "ljust", "lower", "lstrip", "maketrans",
      "partition", "removeprefix", "removesuffix", "replace", "rfind", "rindex", "rjust",
      "rpartition", "rsplit", "rstrip", "split", "splitlines", "startswith", "strip", "swapcase",
      "title", "translate", "upper", "zfill"]
    slots := ["__add__", "__contains__", "__getitem__", "__iter__", "__len__", "__mod__",
      "__mul__", "__rmod__", "__rmul__"] }
  | "list" => {
    methods := ["__class_getitem__", "__getitem__", "__reversed__", "append", "clear", "copy",
      "count", "extend", "index", "insert", "pop", "remove", "reverse", "sort"]
    slots := ["__add__", "__contains__", "__delitem__", "__iadd__", "__imul__", "__iter__",
      "__len__", "__mul__", "__rmul__", "__setitem__"] }
  | "tuple" => {
    methods := ["__class_getitem__", "__getnewargs__", "count", "index"]
    slots := ["__add__", "__contains__", "__getitem__", "__iter__", "__len__", "__mul__",
      "__rmul__"] }
  | "dict" => {
    methods := ["__class_getitem__", "__contains__", "__getitem__", "__reversed__", "clear",
      "copy", "fromkeys", "get", "items", "keys", "pop", "popitem", "setdefault", "update",
      "values"]
    slots := ["__delitem__", "__ior__", "__iter__", "__len__", "__or__", "__ror__",
      "__setitem__"] }
  | "builtin_function_or_method" | "method-wrapper" => { slots := ["__call__"] }
  | "list_iterator" | "tuple_iterator" | "str_iterator" | "str_ascii_iterator" => {
    methods := ["__length_hint__", "__setstate__"], slots := ["__iter__", "__next__"] }
  | "dict_keyiterator" => {
    methods := ["__length_hint__"], slots := ["__iter__", "__next__"] }
  | "AquaException" => { methods := ["__setstate__", "add_note", "with_traceback"] }
  | _ => {}

def method? (kind name : String) : Option Value :=
  let members := membersOf kind
  if typeMethods.contains name then some (method name "type" false)
  else if name == "__hash__" && (kind == "list" || kind == "dict") then some none
  else if members.methods.contains name || commonMembers.methods.contains name then
    some (method name kind false)
  else if members.slots.contains name || commonMembers.slots.contains name then
    some (method name kind true)
  else if name == "__class__" then some (typeRef kind)
  else if name == "__doc__" then some none
  else Option.none

def numberPart? (v : Value) (name : String) : Option Value :=
  match v.num?, name with
  | some (.int i), "real" => some (int i)
  | some (.int _), "imag" => some (int 0)
  | some (.int i), "numerator" => some (int i)
  | some (.int _), "denominator" => some (int 1)
  | some (.float _), "real" => some v
  | some (.float _), "imag" => some (float 0)
  | some (.complex re _), "real" => some (float re)
  | some (.complex _ im), "imag" => some (float im)
  | _, _ => Option.none

/-- A member of a library: one that a program has set, a constant or a function. -/
def libraryMember? (s : Store) (library name : String) : Option Value :=
  match s.members.lookup name with
  | some v => some v
  | Option.none =>
    if name == "__name__" then some (str library)
    else if name == "__package__" then some (str "")
    else if Library.functions.contains name then some (native name)
    else Library.constants.lookup name

def exceptionPart? (cell : ExceptionCell) (name : String) : Option Value :=
  match name with
  | "message" => some cell.message
  | "exception_type" => some cell.type
  | "args" => some (tuple cell.arguments)
  | "__cause__" | "__context__" | "__traceback__" => some none
  | "__suppress_context__" => some (bool false)
  | name => cell.extra.lookup name

def classPart? (cell : ClassCell) (name : String) : Option Value :=
  match name with
  | "name" => some cell.name
  | "methods" => some cell.methods
  | "attributes" => some cell.attributes
  | "parent" => some cell.parent
  | "get_method" | "has_method" =>
    let owner := addressed "optimized_aquavm.AquaClass"
    some (foreign "method" s!"<bound method AquaClass.{name} of {owner}>")
  | _ => Option.none

def routinePart? (cell : RoutineCell) (name : String) : Option Datum :=
  match name with
  | "name" => some (.str cell.name)
  | "parameters" => some cell.parameters
  | "instructions" => some cell.code.datum
  | "local_vars" => some cell.slots
  | "instruction_count" => some (.int cell.code.size)
  | "return_type" => some cell.returnType
  | _ => Option.none

def attribute? (v : Value) (name : String) : Op (Option Value) := do
  let s ← get
  let own ← match v with
    | library lib => pure (libraryMember? s lib name)
    | exception ref => pure (exceptionPart? (s.exceptions.getD ref default) name)
    | classRef ref => pure (classPart? (s.classes.getD ref default) name)
    | routine ref =>
      match routinePart? (s.routines.getD ref default) name with
      | some d => do pure (some (← ofDatum d))
      | Option.none => pure Option.none
    | native function =>
      if name == "__name__" || name == "__qualname__" then pure (some (str function))
      else if name == "__module__" then pure (some (str Library.mathName))
      else if name == "__self__" then pure (some (library Library.mathName))
      else pure Option.none
    | v => pure (numberPart? v name)
  return own <|> method? v.kind name

def missingAttribute (v : Value) (name : String) : Fault :=
  match v with
  | library lib => .noMember lib name
  | typeRef type => .noTypeMember type name
  | other => .noAttribute other.kind name

def attributeName (name : Value) : Except Fault String :=
  match name with
  | str t => .ok t
  | other => .error (.attributeName other.kind)

def getAttribute (v name : Value) : Op Value := do
  let name ← Op.ofExcept (attributeName name)
  match ← attribute? v name with
  | some found => return found
  | Option.none => throw (missingAttribute v name)

def hasAttribute (v name : Value) : Op Bool := do
  return (← attribute? v (← Op.ofExcept (attributeName name))).isSome

def withName (entries : List (String × Value)) (name : String) (value : Value) :
    List (String × Value) :=
  match entries with
  | [] => [(name, value)]
  | entry :: rest =>
    if entry.1 == name then (name, value) :: rest else entry :: withName rest name value

/-- The fault of setting an attribute of a value that can only be read. -/
def readOnlyFault (v : Value) (name : String) : Fault :=
  match v, numberPart? v name with
  | complex _ _, some _ => .readOnlyMember
  | v, some _ => .notWritable v.kind name
  | v, Option.none =>
    if (method? v.kind name).isSome then .readOnly v.kind name else .noAttribute v.kind name

def setAttribute (v name value : Value) : Op Unit := do
  let name ← Op.ofExcept (attributeName name)
  match v with
  | library _ => modify fun s => { s with members := withName s.members name value }
  | exception ref =>
    let arguments ← if name == "args" then items value else pure []
    modify fun s => { s with exceptions := s.exceptions.modify ref fun cell =>
      match name with
      | "message" => { cell with message := value }
      | "exception_type" => { cell with type := value }
      | "args" => { cell with arguments }
      | name => { cell with extra := withName cell.extra name value } }
  | classRef ref =>
    let change (f : ClassCell → ClassCell) : Op Unit :=
      modify fun s => { s with classes := s.classes.modify ref f }
    match name with
    | "name" => change fun cell => { cell with name := value }
    | "methods" => change fun cell => { cell with methods := value }
    | "attributes" => change fun cell => { cell with attributes := value }
    | "parent" => change fun cell => { cell with parent := value }
    | "get_method" | "has_method" => throw (.readOnly v.kind name)
    | name => throw (readOnlyFault v name)
  | v => throw (readOnlyFault v name)

end StackScript.Value

namespace StackScript

/-- The libraries that can be loaded: how one is found by its name, and what its members are. -/
structure Libraries where
  find : Value → Except Fault Value
  has : Value → Value → Op Bool
  member : Value → Value → Op Value

def Libraries.standard : Libraries where
  find := Library.find
  has := Value.hasAttribute
  member := Value.getAttribute

end StackScript
