import StackScript.Value.Arithmetic

/-!
# Items of values

Reading and writing items by index or key, length, membership, and iteration. An index below zero
counts from the end.
-/

namespace StackScript.Value

def beyondIndex (i : Int) : Bool := (sizeLimit : Int) < i || i < -(sizeLimit : Int) - 1

def place? (size : Nat) (i : Int) : Option Nat :=
  let j := if i < 0 then i + size else i
  if 0 ≤ j && j < size then some j.toNat else Option.none

/-- The place of an index in a sequence; `outside` is the fault of an index without a place. -/
def placeIn (sequence : String) (size : Nat) (index : Value) (outside : Fault) :
    Except Fault Nat :=
  match index.int? with
  | Option.none => .error (.indexKind sequence index.kind)
  | some i =>
    if beyondIndex i then .error .indexSize
    else match place? size i with
      | some j => .ok j
      | Option.none => .error outside

def arrayItem (items : Array Value) (index : Value) : Except Fault Value := do
  return items.getD (← placeIn "list" items.size index (.outOfRange "list")) .none

def arrayPut (items : Array Value) (index value : Value) : Except Fault (Array Value) := do
  let i ← placeIn "list" items.size index .assignmentOutOfRange
  return items.setIfInBounds i value

def asKey (v : Value) : Except Fault Value :=
  match v.unhashable? with
  | some kind => .error (.unhashable kind)
  | Option.none => .ok v

def tableItem (s : Store) (t : Table) (key : Value) : Except Fault Value := do
  let key ← asKey key
  match t.get? key with
  | some v => .ok v
  | Option.none => .error (.missingKey (← quoted s key))

def item (v index : Value) : Op Value := do
  let s ← get
  match v with
  | list ref => Op.ofExcept (arrayItem (s.list ref) index)
  | tuple items =>
    let i ← Op.ofExcept (placeIn "tuple" items.length index (.outOfRange "tuple"))
    return items.getD i .none
  | str t =>
    match index.int? with
    | Option.none => throw (.textIndexKind index.kind)
    | some i =>
      if beyondIndex i then throw .indexSize
      else
        let cs := t.toList
        match place? cs.length i with
        | some j => return str (cs.getD j ' ').toString
        | Option.none => throw (.outOfRange "string")
  | dict ref => Op.ofExcept (tableItem s (s.dict ref) index)
  | typeRef name => throw (.typeNotSubscriptable name)
  | other => throw (.notSubscriptable other.kind)

def setItem (v index value : Value) : Op Unit := do
  let s ← get
  match v with
  | list ref =>
    let i ← Op.ofExcept (placeIn "list" (s.list ref).size index .assignmentOutOfRange)
    set { s with lists := s.lists.modify ref (·.setIfInBounds i value) }
  | dict ref =>
    let key ← Op.ofExcept (asKey index)
    set { s with dicts := s.dicts.modify ref (·.put key value) }
  | other => throw (.noItemAssignment other.kind)

def length (s : Store) : Value → Except Fault Nat
  | str t => .ok t.length
  | tuple items => .ok items.length
  | list ref => .ok (s.list ref).size
  | dict ref => .ok (s.dict ref).size
  | other => .error (.noLength other.kind)

def append (ref : Nat) (value : Value) : Op Unit :=
  modify fun s => { s with lists := s.lists.modify ref (·.push value) }

def characters (t : String) : List Value := t.toList.map fun c => str c.toString

def newIterator (kind : IterKind) (walk : Walk) : Op Value := do
  let s ← get
  let ref := s.iterators.size
  set { s with iterators := s.iterators.push walk }
  return .iterator kind ref

def iterate (v : Value) : Op Value := do
  match v with
  | list ref => newIterator .list (.live ref 0)
  | tuple items => newIterator .tuple (.fixed items)
  | str t =>
    let kind := if t.toList.all (·.toNat < 128) then IterKind.asciiText else .text
    newIterator kind (.fixed (characters t))
  | dict ref => newIterator .keys (.keys ref 0 ((← get).dict ref).size)
  | iterator kind ref => return iterator kind ref
  | other => throw (.notIterable other.kind)

/-- The next item of an iterator, none at the end. Once at the end it stays there. -/
def next (v : Value) : Op (Option Value) := do
  match v with
  | iterator _ ref =>
    let s ← get
    let walk := s.iterators.getD ref .finished
    let move (walk : Walk) : Op Unit :=
      modify fun s => { s with iterators := s.iterators.setIfInBounds ref walk }
    match walk with
    | .finished => return Option.none
    | .live target i =>
      match (s.list target)[i]? with
      | some item => move (.live target (i + 1)); return some item
      | Option.none => move .finished; return Option.none
    | .fixed (item :: rest) => move (.fixed rest); return some item
    | .fixed [] => move .finished; return Option.none
    | .keys target i size =>
      let table := s.dict target
      if table.size ≠ size then throw .tableSize
      match table[i]? with
      | some entry => move (.keys target (i + 1) size); return some entry.1
      | Option.none => move .finished; return Option.none
  | other => throw (.notIterator other.kind)

def walkBound (s : Store) (v : Value) : Nat :=
  match v with
  | iterator _ ref =>
    match s.iterators.getD ref .finished with
    | .finished => 0
    | .live target i => (s.list target).size - i
    | .fixed rest => rest.length
    | .keys target i _ => (s.dict target).size - i
  | _ => 0

/-- Takes all items of an iterator, no more than the fuel; `taken` are those before, latest
first. -/
def takeAll (it : Value) : Nat → List Value → Op (List Value)
  | 0, taken => return taken.reverse
  | fuel + 1, taken => do
    match ← next it with
    | some item => takeAll it fuel (item :: taken)
    | Option.none => return taken.reverse

/-- The items that a value yields when it is walked through. -/
def items (v : Value) : Op (List Value) := do
  match v with
  | list ref => return ((← get).list ref).toList
  | tuple found => return found
  | str t => return characters t
  | dict ref => return ((← get).dict ref).keys.toList
  | iterator kind ref => do
    let it := iterator kind ref
    takeAll it (walkBound (← get) it + 1) []
  | other => throw (.notIterable other.kind)

def soughtIn (it sought : Value) : Nat → Op Bool
  | 0 => return false
  | fuel + 1 => do
    match ← next it with
    | some item => if sameItem (← get) item sought then return true else soughtIn it sought fuel
    | Option.none => return false

def occursIn (needle hay : List Char) : Bool :=
  match hay with
  | [] => needle.isEmpty
  | c :: rest => needle.isPrefixOf (c :: rest) || occursIn needle rest

def contains (container sought : Value) : Op Bool := do
  let s ← get
  match container with
  | str hay =>
    match sought with
    | str needle => return occursIn needle.toList hay.toList
    | other => throw (.needsText other.kind)
  | tuple found => return found.any fun v => sameItem s v sought
  | list ref => return (s.list ref).any fun v => sameItem s v sought
  | dict ref => return ((s.dict ref).get? (← Op.ofExcept (asKey sought))).isSome
  | iterator kind ref =>
    let it := iterator kind ref
    soughtIn it sought (walkBound s it + 1)
  | other => throw (.noContainer other.kind)

end StackScript.Value
