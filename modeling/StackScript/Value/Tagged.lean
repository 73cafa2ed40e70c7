import StackScript.Datum.Tagged
import StackScript.Value.Plain

/-!
# Values in tagged form

The tagged form of a value extends that of data to everything that a program can hold. What
contains itself is marked where it comes again; what has no form of its own is known by its kind.
-/

namespace StackScript.Value

def cycleMark : Datum := .object [("cycle", .bool true)]

def callableName : Value → String
  | native name => name
  | method name _ _ => name
  | typeRef name => name
  | other => other.kind

mutual

/-- A value in tagged form; `cell` gives what refers to the store. -/
def taggedWith (cell : Value → Datum) : Value → Datum
  | none => .null
  | bool b => .bool b
  | int i => .tagInt i
  | float x => .tagFloat x
  | nan _ => .object [("float", .str "nan")]
  | complex re im => .object [("complex", .str (complexText re im))]
  | str s => .str s
  | tuple items => .object [("tuple", .list (taggedItems cell items))]
  | wrapped inner => .object [("wrapped_object", taggedWith cell inner)]
  | wrappedNative inner => .object [("wrapped_function", .str inner.callableName)]
  | library name => .object [("module", .str name)]
  | v => cell v

def taggedItems (cell : Value → Datum) : List Value → List Datum
  | [] => []
  | v :: rest => taggedWith cell v :: taggedItems cell rest

end

/-- What refers to the store in tagged form, with what is around it in `path`. -/
def taggedCell (s : Store) (fuel : Nat) (path : List Value) (v : Value) : Datum :=
  match fuel with
  | 0 => cycleMark
  | fuel + 1 =>
    let inner := taggedWith (taggedCell s fuel (v :: path))
    let entries (t : Table) : Datum := .list (t.toList.map fun (k, v) => .list [inner k, inner v])
    if path.any (identical v) then cycleMark
    else match v with
      | list ref => .list ((s.list ref).toList.map inner)
      | dict ref => .object [("dict", entries (s.dict ref))]
      | exception ref =>
        let cell := s.exceptions.getD ref default
        .object [("exception", inner cell.type), ("message", inner cell.message)]
      | object ref =>
        let cell := s.objects.getD ref default
        .object [("object", inner (s.classes.getD cell.classOf default).name),
          ("attrs", entries cell.attributes)]
      | classRef ref =>
        let cell := s.classes.getD ref default
        let methods := match cell.methods with
          | dict ref => s.dict ref
          | _ => #[]
        .object [("class", inner cell.name),
          ("methods", .list (methods.toList.map fun (k, m) => .list [inner k, match m with
            | routine ref => .str (s.routines.getD ref default).name
            | m => inner m]))]
      | other => .object [("py", .str other.kind)]

def tagged (s : Store) (v : Value) : Datum :=
  let cells := s.cells + s.exceptions.size + s.objects.size + s.classes.size
  taggedWith (taggedCell s (cells + 1) []) v

def newException (message type : Value) : Op Value := do
  let s ← get
  set { s with exceptions := s.exceptions.push { arguments := [message], message, type } }
  return .exception s.exceptions.size

/-- The value of a tagged form that is nested no deeper than the fuel. -/
def ofTaggedN : Nat → Datum → Op Value
  | 0, _ => return none
  | fuel + 1, d => do
    match d with
    | .list items => do Op.newList (← items.mapM (ofTaggedN fuel)).toArray
    | .dict [(.str "tuple", items)] => return tuple (← items.itemsD.mapM (ofTaggedN fuel))
    | .dict [(.str "dict", entries)] =>
      let table ← entries.itemsD.foldlM (fun (t : Table) entry => do
        match entry.itemsD with
        | [k, v] => return t.put (← ofTaggedN fuel k) (← ofTaggedN fuel v)
        | _ => return t) #[]
      Op.newDict table
    | d =>
      match d.field? "exception" with
      | some type =>
        let message ← ofTaggedN fuel (d.fieldD "message")
        newException message (← ofTaggedN fuel type)
      | Option.none => ofDatum d.untagged

def ofTagged (d : Datum) : Op Value := ofTaggedN d.depth d

end StackScript.Value
