import StackScript.Machine.Fast.State
import StackScript.Value.TypeName

/-!
# The functions of the fast machine

The functions that programs can call by name without defining them. Their faults are reported with
their names.
-/

namespace StackScript.Fast

abbrev Function := List Value → Act Value

def fullName (name : String) : String := s!"OptimizedAquaVM._builtin_{name}"

def unary (name : String) (f : Value → Act Value) : Function
  | [v] => f v
  | [] => Act.fault (.missingArguments (fullName name) ["obj"])
  | vs => Act.fault (.extraArguments (fullName name) 2 2 (vs.length + 1))

/-- A function of one argument, which has a name, and perhaps a second one. -/
def unaryOr (name first : String) (f : Value → Option Value → Act Value) : Function
  | [v] => f v none
  | [v, w] => f v (some w)
  | [] => Act.fault (.missingArguments (fullName name) [first])
  | vs => Act.fault (.extraArguments (fullName name) 2 3 (vs.length + 1))

/-- A fault of the kinds that a function reports in words of its own. -/
def reported (kinds : List FaultKind) (report : String) (e : Fault) : Failure :=
  if kinds.contains e.kind then .mismatch report e else .value e

def printAll : Function := fun vs => do
  let texts ← vs.mapM Act.textOf
  Act.print (" ".intercalate texts)
  return .none

def range : Function := fun vs =>
  if vs.isEmpty || 3 < vs.length then Act.fail .rangeArguments
  else Act.opOr (reported [.value, .type] "Invalid arguments for range()")
    (Value.range Value.toInt vs)

def extreme (name : String) (o : OrderOp) : Function
  | [] => Act.fail (.noArguments name)
  | v :: rest => Act.opOr (reported [.type] s!"Cannot compute {name}()")
    (Op.ask (Value.extreme · o v rest))

def round (v : Value) (places : Option Value) : Act Value :=
  let places := match places with
    | some .none => none
    | places => places
  Act.opOr (reported [.type] s!"Cannot round {v.kind}") (v.rounded places)

def function? (name : String) : Option Function :=
  match name with
  | "print" => some printAll
  | "str" => some (unary name fun v => do return .str (← Act.textOf v))
  | "int" => some (unary name fun v => do
    return .int (← Act.opOr (reported [.value, .type] s!"Cannot convert {v.kind} to int")
      (Op.ofExcept v.toInt)))
  | "float" => some (unary name fun v =>
    Act.opOr (reported [.value, .type] s!"Cannot convert {v.kind} to float") v.toFloat)
  | "bool" => some (unary name fun v => do return .bool (v.truth (← get).store))
  | "len" => some (unary name fun v => do
    return .int (← Act.opOr (reported [.type] s!"Object of type {v.kind} has no len()")
      (Op.ask (Value.length · v))))
  | "range" => some range
  | "type" => some (unary name fun v => return .str v.kind)
  | "abs" => some (unary name fun v =>
    Act.opOr (reported [.type] s!"Cannot compute abs() of {v.kind}") v.absolute)
  | "min" => some (extreme name .lt)
  | "max" => some (extreme name .gt)
  | "sum" => some (unaryOr name "iterable" fun v start =>
    Act.opOr (reported [.type] "Cannot compute sum()") (v.total (start.getD (.int 0))))
  | "round" => some (unaryOr name "number" round)
  | _ => none

/-- Calls a function; whatever fails in it is reported with its name. -/
def callFunction (name : String) (f : Function) (arguments : List Value) : Act Value :=
  tryCatch (f arguments) fun
    | .failed cause => Act.fail (.inFunction name cause)
    | .halted => throw .halted

end StackScript.Fast
