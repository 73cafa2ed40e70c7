import StackScript.Value.Attribute

/-!
# Classes and objects

A class has methods, default attributes and perhaps a parent, in which its methods are sought when
it lacks them. An object starts with the default attributes of its class.
-/

namespace StackScript.Value

/-- A table, or a new empty one in the place of a value that counts as false. -/
def orEmpty (v : Value) : Op Value := do
  if v.truth (← get) then return v else Op.newDict #[]

def newClass (name methods attributes parent : Value) : Op Value := do
  let methods ← orEmpty methods
  let attributes ← orEmpty attributes
  let s ← get
  set { s with classes := s.classes.push { name, methods, attributes, parent } }
  return .classRef s.classes.size

def tableEntries (v : Value) : Op Table := do
  match v with
  | dict ref => return (← get).dict ref
  | other => throw (missingAttribute other "items")

def newObject (classOf : Nat) : Op Value := do
  let cell := (← get).classes.getD classOf default
  let attributes ← tableEntries cell.attributes
  let s ← get
  set { s with objects := s.objects.push { classOf, attributes } }
  return .object s.objects.size

/-- The method of a class or object under a name, `none` if it has none; classes are followed to
their parents no further than the fuel. -/
def findMethodN (name : Value) : Nat → Value → Op Value
  | 0, _ => return none
  | fuel + 1, v => do
    match v with
    | classRef ref =>
      let cell := (← get).classes.getD ref default
      if ← contains cell.methods name then item cell.methods name
      else if cell.parent.truth (← get) then findMethodN name fuel cell.parent
      else return none
    | object ref => findMethodN name fuel (.classRef ((← get).objects.getD ref default).classOf)
    | other => throw (missingAttribute other "get_method")

/-- The method of a class or object under a name, `none` if it has none. -/
def findMethod (v name : Value) : Op Value := do
  let s ← get
  findMethodN name (s.classes.size + s.objects.size + 1) v

/-- The attribute of an object: its own, or the default of its class. -/
def getMember (ref : Nat) (name : Value) : Op Value := do
  let s ← get
  let cell := s.objects.getD ref default
  match cell.attributes.get? (← Op.ofExcept name.asKey) with
  | some v => return v
  | Option.none =>
    let classCell := s.classes.getD cell.classOf default
    if ← contains classCell.attributes name then item classCell.attributes name
    else
      let owner ← Op.ask (text · classCell.name)
      throw (.noAttribute owner (← Op.ask (text · name)))

def setMember (ref : Nat) (name value : Value) : Op Unit := do
  let key ← Op.ofExcept name.asKey
  modify fun s => { s with objects := s.objects.modify ref fun cell =>
    { cell with attributes := cell.attributes.put key value } }

end StackScript.Value
