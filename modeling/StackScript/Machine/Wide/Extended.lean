import StackScript.Machine.Wide.Step

/-!
# The services of the extended machine

Besides its functions the extended machine offers services to those who use it from outside:
imports into variables, declarations with a type, conversions between types, and calls of library
functions.
-/

namespace StackScript.Wide

/-- Why a service fails. -/
inductive ServiceError where
  | stop (cause : Stop)
  | noLibrary (name : String) (cause : Fault)
  | importing (cause : String)
  | declaredType (value type : String)
  | conversion (value type : String) (cause : Fault)
  | unknownType (name : String)
  | calling (cause : Fault)

def ServiceError.message : ServiceError → String
  | stop .halted => ""
  | stop (.failed cause) => cause.message
  | noLibrary name cause => s!"Cannot import module '{name}': {cause.message}"
  | importing cause => s!"Import error: {cause}"
  | declaredType value type => s!"Value {value} is not of type {type}"
  | conversion value type cause => s!"Cannot convert {value} to {type}: {cause.message}"
  | unknownType name => s!"Unknown type: {name}"
  | calling cause => s!"Error calling Python function: {cause.message}"

abbrev Service (α : Type) := EStateM ServiceError State α

namespace Service

def act {α : Type} (x : Act α) : Service α := fun s =>
  match x s with
  | .ok a s => .ok a s
  | .error e s => .error (.stop e) s

def op {α : Type} (x : Op α) : Service α := act (Act.op x)

def textOf (v : Value) : Service String := act (Act.ask (Value.text · v))

def members (library : Value) (libraryName : Value) : Table → List Value → Service Table
  | t, [] => return t
  | t, item :: rest => do
    if ← op (library.hasAttribute item) then
      members library libraryName (t.put item (← op (library.getAttribute item))) rest
    else
      let name ← textOf libraryName
      op (throw (.noLibraryItem name (← textOf item)))

def importLibrary (name : Value) (items : Option Value) : Service Value := do
  let key ← op (Op.ofExcept name.asKey)
  match Library.find key with
  | .error e =>
    if e.kind = .missingLibrary then throw (.noLibrary (← textOf name) e)
    else op (throw e)
  | .ok library =>
    match items with
    | none => return library
    | some items =>
      let entries ← members library name #[] (← op items.items)
      op (Op.newDict entries)

def slotOf (slots : Datum) (name : Value) : Service (Option Datum) := do
  match ← op (Op.ofExcept name.asKey) with
  | .str text => return slots.field? text
  | _ => return none

/-- Gives a variable a value where it has a slot: in the innermost call, or among the globals. -/
def assign (name value : Value) : Service Unit := do
  let s ← get
  match s.frames with
  | frame :: _ =>
    match ← slotOf frame.routine.slots name with
    | some slot => act (Act.storeLocal frame slot value)
    | none => return ()
  | [] =>
    match ← slotOf s.globalSlots name with
    | some slot => act (Act.storeGlobal slot value)
    | none => return ()

def importInto (name : Value) (items : Option Value) : Service Unit :=
  tryCatch (do
    let imported ← importLibrary name items
    match items, imported with
    | some _, .dict ref =>
      for (member, value) in (← get).store.dict ref do
        assign member value
    | _, imported => assign name imported)
    fun e => throw (.importing e.message)

def hasType (v typeName : Value) : Service Bool := do
  return ((← op (Op.ofExcept (TypeName.ofValue? typeName))).map (·.holds v)).getD false

/-- Declares a variable; a type that counts as true is checked. -/
def declare (name value hint : Value) : Service Unit := do
  if hint.truth (← get).store then
    if !(← hasType value hint) then
      let shown ← textOf value
      throw (.declaredType shown (← textOf hint))
  assign name value

def convert (v typeName : Value) : Service Value := do
  match ← op (Op.ofExcept (TypeName.ofValue? typeName)) with
  | none => throw (.unknownType (← textOf typeName))
  | some type => tryCatch (op (type.convert v)) fun e => do
    match e with
    | .stop (.failed (.value cause)) =>
      if cause.kind = .value || cause.kind = .type then
        let shown ← textOf v
        throw (.conversion shown (← textOf typeName) cause)
      else throw e
    | e => throw e

def callLibrary (f : Value) (arguments : List Value) : Service Value :=
  tryCatch (op (f.callThrough arguments)) fun
    | .stop (.failed (.value cause)) => throw (.calling cause)
    | e => throw e

/-- Calls a function of the library after it has been taken over into the program. -/
def callTaken (f : Value) (arguments : List Value) : Service Value := do
  match ← op f.inward with
  | .wrappedNative f => callLibrary f arguments
  | other => op (throw (.notCallable other.kind))

def callNamed (name : String) (arguments : List Value) : Service Value := do
  match function? (← get).functions name with
  | some f => act (f arguments)
  | none => op (throw (.missingKey (Text.quoted name)))

/-- Calls a routine by its name, up to its first instruction. -/
def enterNamed (name : String) (arguments : List Value) : Service Unit := do
  match (← get).routines.lookup name with
  | some routine => act (Act.enter routine arguments)
  | none => op (throw (.missingKey (Text.quoted name)))

end Service

end StackScript.Wide
