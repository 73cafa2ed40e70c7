import StackScript.Value.Basic
import StackScript.Value.Fault

/-!
# The text of values

`Value.quoted` shows a value inside a container, `Value.text` by itself: they differ for texts and
exceptions only. A list or table that contains itself is shown by dots where it comes again.
-/

namespace StackScript

/-- The layout of the parts of a complex number: whole parts have no point. -/
def complexLayout : Number.Layout := { Number.Layout.plain with keepPoint := false }

/-- The text of a part of a complex number without its sign. -/
def complexPart (x : Float) : String :=
  if x.isNaN then "nan"
  else if x.isInf then "inf"
  else
    let d := Number.shortest x.abs
    String.ofList (complexLayout.write d.text d.point)

def complexText (re im : Float) : String :=
  let sign (x : Float) : String := if !x.isNaN && Number.signBit x then "-" else ""
  let imaginary := complexPart im ++ "j"
  if re == 0 && !Number.signBit re then sign im ++ imaginary
  else
    let joint := if !im.isNaN && Number.signBit im then "-" else "+"
    "(" ++ sign re ++ complexPart re ++ joint ++ imaginary ++ ")"

/-- The text of a whole number, unless it has too many digits. -/
def intShown (i : Int) : Except Fault String :=
  if Number.exceedsDigitLimit i then .error .longInteger else .ok (Number.intDigits i)

def addressed (name : String) : String := s!"<{name} object at 0x>"

namespace Value

mutual

/-- A value as it is shown in a container; `cell` shows what refers to the store. -/
def quotedWith (cell : Value → Except Fault String) : Value → Except Fault String
  | none => .ok "None"
  | bool b => .ok (if b then "True" else "False")
  | int i => intShown i
  | float x => .ok (Number.floatText x)
  | nan _ => .ok "nan"
  | complex re im => .ok (complexText re im)
  | str s => .ok (Text.quoted s)
  | tuple [v] => do return "(" ++ (← quotedWith cell v) ++ ",)"
  | tuple items => do return "(" ++ ", ".intercalate (← quotedItems cell items) ++ ")"
  | v => cell v

def quotedItems (cell : Value → Except Fault String) : List Value → Except Fault (List String)
  | [] => .ok []
  | v :: rest => do
    let shown ← quotedWith cell v
    return shown :: (← quotedItems cell rest)

end

/-- What refers to the store, with the lists and tables around it in `path`. -/
def quotedCell (s : Store) (fuel : Nat) (path : List Value) (v : Value) : Except Fault String :=
  match fuel with
  | 0 => .ok "..."
  | fuel + 1 => do
    let inner := quotedWith (quotedCell s fuel (v :: path))
    let again := path.any (identical v)
    match v with
    | list ref =>
      if again then return "[...]"
      let items ← (s.list ref).toList.mapM inner
      return "[" ++ ", ".intercalate items ++ "]"
    | dict ref =>
      if again then return "\x7b...\x7d"
      let entries ← (s.dict ref).toList.mapM fun (k, v) => do
        let key ← inner k
        return key ++ ": " ++ (← inner v)
      return "\x7b" ++ ", ".intercalate entries ++ "\x7d"
    | exception ref =>
      let arguments := (s.exceptions.getD ref default).arguments
      match arguments with
      | [a] => return "AquaException(" ++ (← inner a) ++ ")"
      | _ => return "AquaException" ++ (← inner (tuple arguments))
    | classRef _ => return addressed "optimized_aquavm.AquaClass"
    | object _ => return addressed "optimized_aquavm.AquaObject"
    | routine _ => return addressed "optimized_aquavm.OptimizedAquaFunction"
    | library name => return s!"<module '{name}'>"
    | native name => return s!"<built-in function {name}>"
    | method name owner slot =>
      return if slot then s!"<method-wrapper '{name}' of {owner} object at 0x>"
        else s!"<built-in method {name} of {owner} object at 0x>"
    | typeRef name => return s!"<class '{name}'>"
    | foreign _ text => return text
    | wrapped _ => return addressed "vm.enhanced_aquavm.PythonObjectWrapper"
    | wrappedNative _ => return addressed "vm.enhanced_aquavm.PythonFunctionWrapper"
    | other => return addressed other.kind

def quoted (s : Store) (v : Value) : Except Fault String :=
  quotedWith (quotedCell s (s.cells + s.exceptions.size + 1) []) v

def text (s : Store) (v : Value) : Except Fault String :=
  match v with
  | str t => .ok t
  | exception ref =>
    match (s.exceptions.getD ref default).message with
    | str t => .ok t
    | other => .error (.textOfText other.kind)
  | other => quoted s other

def quotedList (s : Store) (values : List Value) : Except Fault String := do
  return "[" ++ ", ".intercalate (← values.mapM (quoted s)) ++ "]"

end Value

end StackScript
