import StackScript.Value.Compare
import StackScript.Value.Shown

/-!
# Arithmetic on values

Whole numbers are exact. A whole number that meets a float becomes one, unless it is too large.
Division is the exact quotient, rounded once. The remainder has the sign of the divisor. Texts,
lists and tuples can be joined and repeated.
-/

namespace StackScript

abbrev Op (α : Type) := EStateM Fault Store α

namespace Op

def ofExcept {α : Type} : Except Fault α → Op α
  | .ok a => return a
  | .error e => throw e

def ask {α : Type} (f : Store → Except Fault α) : Op α := do
  ofExcept (f (← get))

/-- A float as a value; one that is not a number gets a mark of its own. -/
def ofFloat (x : Float) : Op Value := do
  if x.isNaN then
    let s ← get
    set { s with marks := s.marks + 1 }
    return .nan s.marks
  else return .float x

def ofNum : Num → Op Value
  | .int i => return .int i
  | .float x => ofFloat x
  | .complex re im => return .complex re im

def newList (items : Array Value) : Op Value := do
  let s ← get
  let ref := s.lists.size
  set { s with lists := s.lists.push items }
  return .list ref

def newDict (entries : Table) : Op Value := do
  let s ← get
  let ref := s.dicts.size
  set { s with dicts := s.dicts.push entries }
  return .dict ref

end Op

/-- The arithmetic operators. -/
inductive ArithOp where
  | add
  | sub
  | mul
  | div
  | mod
  | pow
  deriving DecidableEq, Repr

def ArithOp.sign : ArithOp → String
  | add => "+"
  | sub => "-"
  | mul => "*"
  | div => "/"
  | mod => "%"
  | pow => "** or pow()"

namespace Num

def floatOf (i : Int) : Except Fault Float :=
  match Number.floatOfInt? i with
  | some x => .ok x
  | none => .error .intTooLarge

def truncated (x : Float) : Except Fault Int :=
  match Number.Binary.ofFloat? x with
  | some b => .ok b.truncate
  | none => .error (if x.isNaN then .nanToInt else .infinityToInt)

def complexProduct (a b : Float × Float) : Float × Float :=
  (a.1 * b.1 - a.2 * b.2, a.1 * b.2 + a.2 * b.1)

/-- Quotient of complex numbers; none if the divisor is zero. -/
def complexQuotient? (a b : Float × Float) : Option (Float × Float) :=
  let nan := Float.ofBits 0x7FF8000000000000
  if b.1.abs ≥ b.2.abs then
    if b.1.abs == 0 then none
    else
      let ratio := b.2 / b.1
      let denominator := b.1 + b.2 * ratio
      some ((a.1 + a.2 * ratio) / denominator, (a.2 - a.1 * ratio) / denominator)
  else if b.2.abs ≥ b.1.abs then
    let ratio := b.1 / b.2
    let denominator := b.1 * ratio + b.2
    some ((a.1 * ratio + a.2) / denominator, (a.2 * ratio - a.1) / denominator)
  else some (nan, nan)

def hypotenuse (x y : Float) : Float :=
  if x.isInf || y.isInf then Float.ofBits 0x7FF0000000000000
  else if x == 0 then y.abs
  else if y == 0 then x.abs
  else
    match Number.Binary.ofFloat? x, Number.Binary.ofFloat? y with
    | some a, some b =>
      let (n, d) := a.ratio
      let (m, e) := b.ratio
      rootOfRatio (n * e * (n * e) + m * d * (m * d)) (d * e * (d * e))
    | _, _ => Float.ofBits 0x7FF8000000000000
where
  /-- The square root of a ratio, from a root with many more digits than a float holds. -/
  rootOfRatio (num den : Nat) : Float :=
    let shift := 2 * (130 + den.log2)
    Number.ofRatio false (Nat.sqrt (num <<< shift / den)) (1 <<< (shift / 2))

def complexNatPower (x : Float × Float) (n : Nat) : Float × Float :=
  go 7 n (1, 0) x
where
  /-- Repeated squaring, one binary digit a round. -/
  go (rounds n : Nat) (result base : Float × Float) : Float × Float :=
    match rounds with
    | 0 => result
    | rounds + 1 =>
      if n = 0 then result
      else
        let result := if n % 2 = 1 then complexProduct result base else result
        go rounds (n / 2) result (complexProduct base base)

/-- A complex number to a complex power, by length and angle. -/
def complexRealPower (a b : Float × Float) : Except Fault (Float × Float) :=
  if b.1 == 0 && b.2 == 0 then .ok (1, 0)
  else if a.1 == 0 && a.2 == 0 then
    if b.2 != 0 || b.1 < 0 then .error .complexZeroPower else .ok (0, 0)
  else
    let length := hypotenuse a.1 a.2
    let angle := Float.atan2 a.2 a.1
    let size := Float.pow length b.1
    let phase := angle * b.1
    let (size, phase) :=
      if b.2 != 0 then (size / Float.exp (angle * b.2), phase + b.2 * Float.log length)
      else (size, phase)
    .ok (size * Float.cos phase, size * Float.sin phase)

/-- Power of complex numbers; small whole powers are products. -/
def complexPower (a b : Float × Float) : Except Fault Num := do
  let (re, im) ←
    if b.2 == 0 && b.1 == b.1.floor && b.1.abs ≤ 100 then
      let n := b.1.abs.toUInt64.toNat
      if b.1 < 0 then
        match complexQuotient? (1, 0) (complexNatPower a n) with
        | some result => pure result
        | none => throw .complexZeroPower
      else pure (complexNatPower a n)
    else complexRealPower a b
  if re.isInf || im.isInf then throw .complexPower
  return .complex re im

def isOdd (x : Float) : Bool :=
  match Number.Binary.ofFloat? x with
  | some b => b.isIntegral && b.truncate.natAbs % 2 == 1
  | none => false

/-- Power of floats. A negative base with a broken exponent gives a complex number. -/
def floatPower (x y : Float) : Except Fault Num :=
  let infinity := Float.ofBits 0x7FF0000000000000
  if y == 0 then .ok (.float 1)
  else if x.isNaN then .ok (.float x)
  else if y.isNaN then .ok (.float (if x == 1 then 1 else y))
  else if y.isInf then
    let size := x.abs
    if size == 1 then .ok (.float 1)
    else if (y > 0) = (size > 1) then .ok (.float infinity)
    else .ok (.float 0)
  else if x.isInf then
    if y > 0 then .ok (.float (if isOdd y then x else infinity))
    else .ok (.float (if isOdd y then Number.withSign 0 x else 0))
  else if x == 0 then
    if y < 0 then .error .zeroPower
    else .ok (.float (if isOdd y then x else 0))
  else if x < 0 && y != y.floor then complexPower (x, 0) (y, 0)
  else
    let negative := x < 0 && isOdd y
    let size := x.abs
    let result := if size == 1 then 1 else Float.pow size y
    if result.isInf then .error .resultRange
    else .ok (.float (if negative then -result else result))

/-- Power of whole numbers; a negative exponent leaves them. -/
def intPower (i j : Int) : Except Fault Num := do
  match j with
  | .ofNat n => return .int (i.pow n)
  | .negSucc _ => floatPower (← floatOf i) (← floatOf j)

def intQuotient (i j : Int) : Except Fault Num :=
  let x := Number.ofRatio ((decide (i < 0)) != (decide (j < 0))) i.natAbs j.natAbs
  if x.isInf then .error .quotientTooLarge else .ok (.float x)

def intArith (op : ArithOp) (i j : Int) : Except Fault Num :=
  match op with
  | .add => .ok (.int (i + j))
  | .sub => .ok (.int (i - j))
  | .mul => .ok (.int (i * j))
  | .div => if j = 0 then .error .divisionByZero else intQuotient i j
  | .mod => if j = 0 then .error .intModulo else .ok (.int (Int.fmod i j))
  | .pow => intPower i j

def floatModulo (x y : Float) : Float :=
  let r := Number.floatRemainder x y
  if r == 0 then Number.withSign 0 y
  else if (decide (y < 0)) != (decide (r < 0)) then r + y
  else r

def floatArith (op : ArithOp) (x y : Float) : Except Fault Num :=
  match op with
  | .add => .ok (.float (x + y))
  | .sub => .ok (.float (x - y))
  | .mul => .ok (.float (x * y))
  | .div => if y == 0 then .error .divisionByZero else .ok (.float (x / y))
  | .mod => if y == 0 then .error .floatModulo else .ok (.float (floatModulo x y))
  | .pow => floatPower x y

def complexArith (op : ArithOp) (a b : Float × Float) : Except Fault Num :=
  match op with
  | .add => .ok (.complex (a.1 + b.1) (a.2 + b.2))
  | .sub => .ok (.complex (a.1 - b.1) (a.2 - b.2))
  | .mul => let c := complexProduct a b; .ok (.complex c.1 c.2)
  | .div => match complexQuotient? a b with
    | some c => .ok (.complex c.1 c.2)
    | none => .error .complexDivision
  | .mod => .error (.unsupported op.sign "complex" "complex")
  | .pow => complexPower a b

def complexOf : Num → Except Fault (Float × Float)
  | .int i => do return (← floatOf i, 0)
  | .float x => .ok (x, 0)
  | .complex re im => .ok (re, im)

/-- Arithmetic on numbers: the wider kind of the two decides. -/
def arith (op : ArithOp) (m n : Num) : Except Fault Num := do
  match m, n with
  | .int i, .int j => intArith op i j
  | .int i, .float y => floatArith op (← floatOf i) y
  | .float x, .int j => floatArith op x (← floatOf j)
  | .float x, .float y => floatArith op x y
  | m, n => complexArith op (← complexOf m) (← complexOf n)

end Num

namespace Value

def sizeLimit : Nat := 0x7FFFFFFFFFFFFFFF

def memoryLimit : Nat := 0x200000000

def repeatCount (length : Nat) (times : Value) (tooLong : Fault) : Except Fault Nat :=
  match times.int? with
  | Option.none => .error (.repetition times.kind)
  | some n =>
    if (sizeLimit : Int) < n || n < -(sizeLimit : Int) - 1 then .error .repeatSize
    else if sizeLimit < n.toNat * length then .error tooLong
    else if memoryLimit < n.toNat * length then .error .noMemory
    else .ok (if length = 0 then 0 else n.toNat)

def repeated (sequence times : Value) : Op Value := do
  match sequence with
  | str t =>
    let n ← Op.ofExcept (repeatCount t.length times .longRepeat)
    return str (String.join (List.replicate n t))
  | tuple items =>
    let n ← Op.ofExcept (repeatCount items.length times .noMemory)
    return tuple (List.replicate n items).flatten
  | list ref =>
    let items := (← get).list ref
    let n ← Op.ofExcept (repeatCount items.size times .noMemory)
    Op.newList (List.replicate n items.toList).flatten.toArray
  | other => throw (.repetition other.kind)

def isSequence : Value → Bool
  | str _ | tuple _ | list _ => true
  | _ => false

def joined (a b : Value) : Op Value := do
  match a, b with
  | str s, str t => return str (s ++ t)
  | tuple xs, tuple ys => return tuple (xs ++ ys)
  | list r, list r' => Op.newList ((← get).list r ++ (← get).list r')
  | str _, _ | tuple _, _ | list _, _ => throw (.concatenation a.kind b.kind)
  | _, _ => throw (.unsupported ArithOp.add.sign a.kind b.kind)

/-- Arithmetic on numbers; the operands are no numbers otherwise. -/
def numeric (op : ArithOp) (a b : Value) : Op Value := do
  match a.num?, b.num? with
  | some m, some n =>
    match op, m, n with
    | .mod, .complex _ _, _ | .mod, _, .complex _ _ =>
      throw (.unsupported op.sign a.kind b.kind)
    | _, _, _ => Op.ofNum (← Op.ofExcept (m.arith op n))
  | _, _ => throw (.unsupported op.sign a.kind b.kind)

def add (a b : Value) : Op Value :=
  match a.num?, b.num? with
  | some _, some _ => numeric .add a b
  | _, _ => joined a b

def mul (a b : Value) : Op Value :=
  if a.isSequence then repeated a b
  else if b.isSequence then repeated b a
  else numeric .mul a b

end Value

end StackScript
