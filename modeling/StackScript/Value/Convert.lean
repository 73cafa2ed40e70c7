import StackScript.Value.Items

/-!
# Conversions and functions of values

Whole numbers and floats from texts and from each other, ranges, absolute values, rounding, the
least and greatest of several values, and sums.
-/

namespace StackScript

namespace Num

/-- The nearest whole number, a half going to the even neighbour. -/
def nearestWhole (x : Float) : Except Fault Int :=
  match Number.Binary.ofFloat? x with
  | some b => .ok b.nearest
  | none => .error (if x.isNaN then .nanToInt else .infinityToInt)

/-- A whole number rounded to tens, hundreds and so on, a half going to the even neighbour. -/
def roundedInt (i : Int) (places : Int) : Int :=
  if 0 ≤ places then i
  else
    let power := (-places).toNat
    if (Nat.toDigits 10 i.natAbs).length < power then 0
    else
      let unit := Nat.pow 10 power
      let size : Int := (Number.roundDiv i.natAbs unit * unit : Nat)
      if i < 0 then -size else size

/-- The most places after the point that make a difference to a float. -/
def mostPlaces : Int := 323

/-- The fewest places to which a float is rounded; the number is zero before. -/
def fewestPlaces : Int := -308

/-- A float rounded to decimal places by its exact value, a half going to the even neighbour. -/
def roundedFloat (x : Float) (places : Int) : Except Fault Float :=
  match Number.Binary.ofFloat? x with
  | none => .ok x
  | some b =>
    if mostPlaces < places then .ok x
    else if places < fewestPlaces then .ok (Number.withSign 0 x)
    else
      let (num, den) := b.ratio
      let (num, den) := Number.scaleDecimal num den (-places)
      let (num, den) := Number.scaleDecimal (Number.roundDiv num den) 1 places
      let result := Number.ofRatio b.negative num den
      if result.isInf then .error .roundedTooLarge else .ok result

end Num

namespace Value

def whole (v : Value) : Except Fault Int :=
  match v.int? with
  | some i => .ok i
  | Option.none => .error (.notWhole v.kind)

def toInt (v : Value) : Except Fault Int :=
  match v with
  | str t =>
    match Number.readInt t with
    | .ok i => .ok i
    | .error .malformed => .error (.intText t)
    | .error (.tooLong digits) => .error (.longText digits)
  | v =>
    match v.num? with
    | some (.int i) => .ok i
    | some (.float x) => Num.truncated x
    | _ => .error (.intKind v.kind)

def toFloat (v : Value) : Op Value :=
  match v with
  | float x => return float x
  | nan mark => return nan mark
  | str t =>
    match Number.readFloat t with
    | some x => Op.ofFloat x
    | Option.none => throw (.floatText t)
  | v =>
    match v.int? with
    | some i => do return float (← Op.ofExcept (Num.floatOf i))
    | Option.none => throw (.floatKind v.kind)

def rangeCount (start stop step : Int) : Nat :=
  if 0 < step then ((stop - start + step - 1) / step).toNat
  else ((start - stop - step - 1) / (-step)).toNat

def rangeList (start stop step : Int) : Op Value := do
  if step = 0 then throw .rangeStep
  let count := rangeCount start stop step
  if sizeLimit < count then throw .sizeRange
  if memoryLimit < count then throw .noMemory
  Op.newList (Array.ofFn fun i : Fin count => int (start + step * i))

def range (bound : Value → Except Fault Int) (arguments : List Value) : Op Value := do
  match arguments with
  | [stop] => rangeList 0 (← Op.ofExcept (bound stop)) 1
  | [start, stop] =>
    let start ← Op.ofExcept (bound start)
    rangeList start (← Op.ofExcept (bound stop)) 1
  | [start, stop, step] =>
    let start ← Op.ofExcept (bound start)
    let stop ← Op.ofExcept (bound stop)
    rangeList start stop (← Op.ofExcept (bound step))
  | _ => throw .rangeArguments

def absolute (v : Value) : Op Value :=
  match v.num? with
  | some (.int i) => return int i.natAbs
  | some (.float x) => Op.ofFloat x.abs
  | some (.complex re im) =>
    let size := Num.hypotenuse re im
    if size.isInf && !re.isInf && !im.isInf then throw .complexAbs else Op.ofFloat size
  | Option.none => throw (.absKind v.kind)

/-- The nearest whole number, or the nearest number with some decimal places. -/
def rounded (v : Value) (places : Option Value) : Op Value := do
  match v.num?, places with
  | some (.int i), Option.none => return int i
  | some (.int i), some places =>
    return int (Num.roundedInt i (← Op.ofExcept places.whole))
  | some (.float x), Option.none => return int (← Op.ofExcept (Num.nearestWhole x))
  | some (.float x), some places =>
    let places ← Op.ofExcept places.whole
    if x.isNaN then return v
    else return float (← Op.ofExcept (Num.roundedFloat x places))
  | _, _ => throw (.roundKind v.kind)

/-- The value that no other surpasses, the first such; `op` is the relation by which one does. -/
def extreme (s : Store) (op : OrderOp) : Value → List Value → Except Fault Value
  | best, [] => .ok best
  | best, v :: rest => do
    if ← order s op v best then extreme s op v rest else extreme s op best rest

def addAll : Value → List Value → Op Value
  | total, [] => return total
  | total, v :: rest => do addAll (← add total v) rest

/-- The sum of the items of a value, which must not be texts. -/
def total (v start : Value) : Op Value := do
  let found ← items v
  match start with
  | str _ => throw .sumOfTexts
  | start => addAll start found

end Value

end StackScript
