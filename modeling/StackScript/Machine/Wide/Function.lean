import StackScript.Machine.Wide.State
import StackScript.Value.Bridge
import StackScript.Value.TypeName

/-!
# The functions of the wide machine

The functions that programs can call by name without defining them. The extended machine knows
more of them.
-/

namespace StackScript.Wide

abbrev Function := List Value → Act Value

def unary (owner name : String) (f : Value → Act Value) : Function
  | [v] => f v
  | [] => Act.fault (.missingArguments s!"{owner}._builtin_{name}" ["obj"])
  | vs => Act.fault (.extraArguments s!"{owner}._builtin_{name}" 2 2 (vs.length + 1))

def lacking (names : List String) (given : Nat) : List String := names.drop given

def named (owner name : String) (names : List String) (f : Function) : Function := fun vs =>
  if vs.length = names.length then f vs
  else if vs.length < names.length then
    Act.fault (.missingArguments s!"{owner}._builtin_{name}" (lacking names vs.length))
  else
    let most := names.length + 1
    Act.fault (.extraArguments s!"{owner}._builtin_{name}" most most (vs.length + 1))

def printAll : Function := fun vs => do
  let texts ← vs.mapM fun v => Act.ask (Value.text · v)
  Act.print (" ".intercalate texts)
  return .none

def plainOwner : String := "AquaVM"

def extendedOwner : String := "EnhancedAquaVM"

def plainFunction? (name : String) : Option Function :=
  match name with
  | "print" => some printAll
  | "str" => some (unary plainOwner name fun v => do return .str (← Act.ask (Value.text · v)))
  | "int" => some (unary plainOwner name fun v => do return .int (← Act.ofExcept v.toInt))
  | "float" => some (unary plainOwner name fun v => Act.op v.toFloat)
  | "len" => some (unary plainOwner name fun v => do return .int (← Act.ask (Value.length · v)))
  | "range" => some fun vs => Act.op (Value.range Value.whole vs)
  | _ => none

def isOfType (v typeName : Value) : Act Value := do
  return .bool (((← Act.ofExcept (TypeName.ofValue? typeName)).map (·.holds v)).getD false)

def readJson (v : Value) : Act Value :=
  match v with
  | .str text =>
    match Datum.read text with
    | .ok d => Act.op (Value.ofDatum d)
    | .error e => Act.fault (.jsonText e)
  | other => Act.fault (.jsonSource other.kind)

def exit : Function := fun vs =>
  if vs.length ≤ 1 then throw .halted
  else Act.fault (.expectedArguments "exit" "at most 1 argument" vs.length)

def noFunction (kind : String) : Function := fun _ => Act.fault (.notCallable kind)

/-- A member of the library of mathematics under its short name. -/
def mathFunction? (name : String) : Option Function :=
  match name with
  | "math_sin" => some fun vs => Act.op (Library.call "sin" vs)
  | "math_cos" => some fun vs => Act.op (Library.call "cos" vs)
  | "math_tan" => some fun vs => Act.op (Library.call "tan" vs)
  | "math_sqrt" => some fun vs => Act.op (Library.call "sqrt" vs)
  | "math_pi" | "math_e" => some (noFunction "float")
  | _ => none

/-- The functions that the extended machine knows besides the plain ones. -/
def extendedFunction? (name : String) : Option Function :=
  match name with
  | "type" => some (unary extendedOwner name fun v => return .str v.kind)
  | "isinstance" => some (named extendedOwner name ["obj", "type_name"] fun
    | [v, typeName] => isOfType v typeName
    | _ => return .none)
  | "hasattr" => some (named extendedOwner name ["obj", "name"] fun
    | [.wrapped v, name] | [v, name] => do return .bool (← Act.op (v.hasAttribute name))
    | _ => return .none)
  | "getattr" => some (named extendedOwner name ["obj", "name"] fun
    | [.wrapped v, name] => Act.op (v.getThrough name)
    | [v, name] => Act.op (v.getAttribute name)
    | _ => return .none)
  | "setattr" => some (named extendedOwner name ["obj", "name", "value"] fun
    | [.wrapped v, name, value] => do Act.op (v.setThrough name value); return .none
    | [v, name, value] => do Act.op (v.setAttribute name value); return .none
    | _ => return .none)
  | "json_loads" => some fun
    | [v] => readJson v
    | [] => Act.fault (.missingArguments "loads" ["s"])
    | vs => Act.fault (.extraArguments "loads" 1 1 vs.length)
  | "json_dumps" => some fun
    | [v] => do return .str (← Act.ask (Value.json · v))
    | [] => Act.fault (.missingArguments "dumps" ["obj"])
    | vs => Act.fault (.extraArguments "dumps" 1 1 vs.length)
  | "sys_exit" => some exit
  | "sys_argv" => some (noFunction "list")
  | "sys_version" => some (noFunction "str")
  | "os_path" => some (noFunction "module")
  | name => mathFunction? name

def function? (functions : Functions) (name : String) : Option Function :=
  match functions with
  | .plain => plainFunction? name
  | .extended => extendedFunction? name <|> plainFunction? name

end StackScript.Wide
