import StackScript.Value.Convert

/-!
# The library of mathematics

The one library that programs can import: its constants, its functions, and what a call of a
function gives.
-/

namespace StackScript.Library

def mathName : String := "math"

def constants : List (String × Value) := [
  ("e", .float 2.718281828459045), ("pi", .float 3.141592653589793),
  ("tau", .float 6.283185307179586), ("inf", .float (Float.ofBits 0x7FF0000000000000)),
  ("nan", .nan Value.libraryMark)]

def functions : List String := [
  "acos", "acosh", "asin", "asinh", "atan", "atan2", "atanh", "cbrt", "ceil", "comb", "copysign",
  "cos", "cosh", "degrees", "dist", "erf", "erfc", "exp", "exp2", "expm1", "fabs", "factorial",
  "floor", "fmod", "frexp", "fsum", "gamma", "gcd", "hypot", "isclose", "isfinite", "isinf",
  "isnan", "isqrt", "lcm", "ldexp", "lgamma", "log", "log10", "log1p", "log2", "modf",
  "nextafter", "perm", "pow", "prod", "radians", "remainder", "sin", "sinh", "sqrt", "tan", "tanh",
  "trunc", "ulp"]

/-- The library of a name. Names are looked up from the left, part by part. -/
def find (name : Value) : Except Fault Value :=
  match name with
  | .str text =>
    if text.isEmpty then .error .emptyModule
    else match text.splitOn "." with
      | [] => .error .emptyModule
      | "" :: _ => .error (.relativeImport text)
      | [first] =>
        if first == mathName then .ok (.library mathName) else .error (.noLibrary first)
      | first :: second :: _ =>
        if first == mathName then .error (.noPackage (first ++ "." ++ second) first)
        else .error (.noLibrary first)
  | other => .error (.noAttribute other.kind "startswith")

def real (v : Value) : Except Fault Float :=
  match v.float?, v.int? with
  | some x, _ => .ok x
  | none, some i => Num.floatOf i
  | none, none => .error (.realKind v.kind)

/-- A result of a function at a place: one that is no number, or is infinite, without cause in its
argument is a fault. -/
def checked (canOverflow : Bool) (finite number : Bool) (result : Float) : Op Value :=
  if result.isNaN && number then throw .mathDomain
  else if result.isInf && finite then throw (if canOverflow then .mathRange else .mathDomain)
  else Op.ofFloat result

/-- Functions of one float that overflow to a fault of range or of domain. -/
def smooth? (name : String) : Option (Bool × (Float → Float)) :=
  match name with
  | "acos" => some (false, Float.acos)
  | "acosh" => some (false, Float.acosh)
  | "asin" => some (false, Float.asin)
  | "asinh" => some (false, Float.asinh)
  | "atan" => some (false, Float.atan)
  | "atanh" => some (false, Float.atanh)
  | "cbrt" => some (false, Float.cbrt)
  | "cos" => some (false, Float.cos)
  | "cosh" => some (true, Float.cosh)
  | "exp" => some (true, Float.exp)
  | "exp2" => some (true, Float.exp2)
  | "fabs" => some (false, Float.abs)
  | "sin" => some (false, Float.sin)
  | "sinh" => some (true, Float.sinh)
  | "sqrt" => some (false, Float.sqrt)
  | "tan" => some (false, Float.tan)
  | "tanh" => some (false, Float.tanh)
  | "degrees" => some (true, fun x => x * (180.0 / 3.141592653589793))
  | "radians" => some (true, fun x => x * (3.141592653589793 / 180.0))
  | _ => none

/-- A logarithm; of a whole number also beyond the range of floats. -/
def logarithm (f : Float → Float) (v : Value) : Except Fault Float := do
  match v.int? with
  | some i =>
    if i ≤ 0 then throw .mathDomain
    match Number.floatOfInt? i with
    | some x => return f x
    | none =>
      let shift := i.natAbs.log2 - 60
      let size ← Num.floatOf (i.natAbs >>> shift : Nat)
      return f size + f 2.0 * (← Num.floatOf shift)
  | none =>
    let x ← real v
    if x.isNaN then return x
    if x.isInf && 0 < x then return x
    if x ≤ 0 then throw .mathDomain
    return f x

/-- The power of two floats with faults of domain and range. -/
def power (x y : Float) : Op Value :=
  match Num.floatPower x y with
  | .ok (.float r) => Op.ofFloat r
  | .ok _ => throw .mathDomain
  | .error .zeroPower => throw .mathDomain
  | .error _ => throw .mathRange

/-- The product of a run of whole numbers that ends with `n`. -/
def fallingProduct (n : Nat) : Nat → Nat
  | 0 => 1
  | k + 1 => n * fallingProduct (n - 1) k

def count (message : String) (i : Int) : Except Fault Nat :=
  if i < 0 then .error (.mathText message) else .ok i.toNat

/-- A float as a significand between a half and one, and an exponent. -/
def parts (x : Float) : Float × Int :=
  match Number.Binary.ofFloat? x with
  | none => (x, 0)
  | some b =>
    if b.significand = 0 then (x, 0)
    else
      let bits := b.significand.log2 + 1
      (Number.ofRatio b.negative b.significand (1 <<< bits), b.exponent + bits)

def scaled (x : Float) (e : Int) : Op Value :=
  match Number.Binary.ofFloat? x with
  | none => Op.ofFloat x
  | some b =>
    if b.significand = 0 then Op.ofFloat x
    else if 3000 < e then throw .mathRange
    else
      let (num, den) := b.ratio
      let (num, den) := if e < -3000 then (0, 1)
        else if 0 ≤ e then (num <<< e.toNat, den) else (num, den <<< (-e).toNat)
      let r := Number.ofRatio b.negative num den
      if r.isInf then throw .mathRange else Op.ofFloat r

def vectorLength (xs : List Float) : Float :=
  if xs.any Float.isInf then Float.ofBits 0x7FF0000000000000
  else if xs.any Float.isNaN then Float.ofBits 0x7FF8000000000000
  else
    let square (x : Float) : Nat × Nat :=
      match Number.Binary.ofFloat? x with
      | some b => let (n, d) := b.ratio; (n * n, d * d)
      | none => (0, 1)
    let (num, den) := xs.foldl (fun t x =>
      let (n, d) := square x
      (t.1 * d + n * t.2, t.2 * d)) (0, 1)
    if num = 0 then 0 else Num.hypotenuse.rootOfRatio num den

def callOne (name : String) (v : Value) : Op Value := do
  match smooth? name with
  | some (canOverflow, f) =>
    let x ← Op.ofExcept (real v)
    checked canOverflow x.isFinite (!x.isNaN) (f x)
  | none =>
    match name with
    | "ceil" | "floor" =>
      match v.int? with
      | some i => return .int i
      | none =>
        let x ← Op.ofExcept (real v)
        let near := if name == "ceil" then x.ceil else x.floor
        return .int (← Op.ofExcept (Num.truncated near))
    | "trunc" =>
      match v.num? with
      | some (.int i) => return .int i
      | some (.float x) => return .int (← Op.ofExcept (Num.truncated x))
      | _ => throw (.truncKind v.kind)
    | "factorial" =>
      let n ← Op.ofExcept (do count "factorial() not defined for negative values" (← v.whole))
      return .int (fallingProduct n n)
    | "isqrt" =>
      let n ← Op.ofExcept (do count "isqrt() argument must be nonnegative" (← v.whole))
      return .int (Nat.sqrt n)
    | "isnan" => return .bool (← Op.ofExcept (real v)).isNaN
    | "isinf" => return .bool (← Op.ofExcept (real v)).isInf
    | "isfinite" => return .bool (← Op.ofExcept (real v)).isFinite
    | "log2" => Op.ofFloat (← Op.ofExcept (logarithm Float.log2 v))
    | "log10" => Op.ofFloat (← Op.ofExcept (logarithm Float.log10 v))
    | "modf" =>
      let x ← Op.ofExcept (real v)
      if x.isInf then return .tuple [.float (Number.withSign 0 x), .float x]
      let whole := if x < 0 then x.ceil else x.floor
      return .tuple [← Op.ofFloat (Number.withSign (x - whole) x), ← Op.ofFloat whole]
    | "frexp" =>
      let (size, e) := parts (← Op.ofExcept (real v))
      return .tuple [← Op.ofFloat size, .int e]
    | _ => return .none

def callTwo (name : String) (v w : Value) : Op Value := do
  match name with
  | "ldexp" =>
    let x ← Op.ofExcept (real v)
    match w.int? with
    | some e => scaled x e
    | none => throw .exponentKind
  | "comb" =>
    let n ← Op.ofExcept v.whole
    let k ← Op.ofExcept w.whole
    let n ← Op.ofExcept (count "n must be a non-negative integer" n)
    let k ← Op.ofExcept (count "k must be a non-negative integer" k)
    let k := if n < k then n + 1 else min k (n - k)
    return .int (fallingProduct n k / fallingProduct k k)
  | "perm" =>
    let n ← Op.ofExcept v.whole
    let k ← Op.ofExcept w.whole
    let n ← Op.ofExcept (count "n must be a non-negative integer" n)
    let k ← Op.ofExcept (count "k must be a non-negative integer" k)
    return .int (if n < k then 0 else fallingProduct n k)
  | _ =>
    let x ← Op.ofExcept (real v)
    let y ← Op.ofExcept (real w)
    match name with
    | "pow" => power x y
    | "atan2" => Op.ofFloat (Float.atan2 x y)
    | "copysign" => Op.ofFloat (Number.withSign x y)
    | "fmod" =>
      if x.isNaN || y.isNaN then Op.ofFloat (x + y)
      else if x.isInf || y == 0 then throw .mathDomain
      else if y.isInf then Op.ofFloat x
      else Op.ofFloat (Number.floatRemainder x y)
    | _ => return .none

def twoArguments : List String := ["pow", "atan2", "copysign", "fmod", "ldexp", "comb"]

def call (name : String) (arguments : List Value) : Op Value := do
  if twoArguments.contains name then
    match arguments with
    | [v, w] => callTwo name v w
    | _ => throw (.expectedArguments name "2 arguments" arguments.length)
  else match name, arguments with
    | "gcd", vs =>
      let ns ← Op.ofExcept (vs.mapM Value.whole)
      return .int (ns.foldl (fun d i => Nat.gcd d i.natAbs) 0 : Nat)
    | "lcm", vs =>
      let ns ← Op.ofExcept (vs.mapM Value.whole)
      return .int (ns.foldl (fun d i => Nat.lcm d i.natAbs) 1 : Nat)
    | "hypot", vs => Op.ofFloat (vectorLength (← Op.ofExcept (vs.mapM real)))
    | "log", [v] => Op.ofFloat (← Op.ofExcept (logarithm Float.log v))
    | "log", [v, base] =>
      let x ← Op.ofExcept (logarithm Float.log v)
      let y ← Op.ofExcept (logarithm Float.log base)
      if y == 0 then throw .floatDivision
      Op.ofFloat (x / y)
    | "log", _ => throw .logArguments
    | "perm", [v] => callOne "factorial" v
    | "perm", [v, .none] => callOne "factorial" v
    | "perm", [v, w] => callTwo "perm" v w
    | "perm", [] => throw (.expectedArguments name "at least 1 argument" 0)
    | "perm", vs => throw (.expectedArguments name "at most 2 arguments" vs.length)
    | name, [v] => callOne name v
    | name, vs => throw (.exactArguments s!"math.{name}" "exactly one argument" vs.length)

end StackScript.Library
