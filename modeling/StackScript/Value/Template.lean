import StackScript.Value.Items

/-!
# Text templates

A template is a text with places that start with a percent sign. A place takes the next argument,
or a named one from a table, and tells by a letter how it is written, with flags, a width and a
precision before the letter.
-/

namespace StackScript.Template

/-- How an argument is written. -/
structure Spec where
  left : Bool := false
  plus : Bool := false
  blank : Bool := false
  alternate : Bool := false
  zeros : Bool := false
  width : Nat := 0
  precision : Option Nat := none

/-- The arguments still to be taken, and the table of named ones. -/
structure Supply where
  rest : List Value
  named : Option Value

/-- The arguments of a template: a tuple holds many, anything else is one. -/
def Supply.ofValue : Value → Supply
  | .tuple items => ⟨items, none⟩
  | .dict ref => ⟨[.dict ref], some (.dict ref)⟩
  | .list ref => ⟨[.list ref], some (.list ref)⟩
  | other => ⟨[other], none⟩

/-- A reading of a place: what is left of the template, and the arguments. -/
structure State where
  rest : List Char
  supply : Supply

abbrev Step (α : Type) := StateT State (EStateM Fault Store) α

def argument : Step Value := do
  let s ← get
  match s.supply.rest with
  | v :: rest =>
    set { s with supply := { s.supply with rest } }
    return v
  | [] => throw Fault.formatEnough

def letter : Step Char := do
  let s ← get
  match s.rest with
  | c :: rest =>
    set { s with rest }
    return c
  | [] => throw Fault.formatIncomplete

/-- Splits a name off up to its closing parenthesis; `depth` counts those open inside. -/
def splitName (depth : Nat) (name : List Char) : List Char → Option (List Char × List Char)
  | [] => none
  | c :: rest =>
    if c = ')' then
      if depth = 0 then some (name.reverse, rest) else splitName (depth - 1) (c :: name) rest
    else splitName (if c = '(' then depth + 1 else depth) (c :: name) rest

/-- The name in parentheses that a place may start with: its argument is looked up. -/
def named : Step Unit := do
  let s ← get
  match s.rest with
  | '(' :: rest =>
    match s.supply.named with
    | none => throw Fault.formatMapping
    | some table =>
      match splitName 0 [] rest with
      | none => throw Fault.formatKey
      | some (name, rest) =>
        let value ← (Value.item table (.str (String.ofList name)) : EStateM Fault Store Value)
        set { s with rest, supply := { s.supply with rest := [value] } }
  | _ => return ()

def withFlag? (spec : Spec) (c : Char) : Option Spec :=
  if c = '-' then some { spec with left := true }
  else if c = '+' then some { spec with plus := true }
  else if c = ' ' then some { spec with blank := true }
  else if c = '#' then some { spec with alternate := true }
  else if c = '0' then some { spec with zeros := true }
  else none

def flags (spec : Spec) : List Char → Spec × List Char
  | [] => (spec, [])
  | c :: rest => match withFlag? spec c with
    | some spec => flags spec rest
    | none => (spec, c :: rest)

def number (limit : Nat) (tooBig : Fault) : Step (Option Nat) := do
  let s ← get
  let digits := s.rest.takeWhile Char.isDigit
  if digits.isEmpty then return none
  let n := Number.digitsValue digits
  if limit < n then throw tooBig
  set { s with rest := s.rest.drop digits.length }
  return some n

def starred : Step Int := do
  match (← argument).int? with
  | some i => return i
  | none => throw Fault.formatStar

/-- Reads the width: a number, or a star that takes it from the arguments, where a width below zero
aligns to the left. -/
def withWidth (spec : Spec) : Step Spec := do
  let s ← get
  match s.rest with
  | '*' :: rest =>
    set { s with rest }
    let width ← starred
    return { spec with width := width.natAbs, left := spec.left || decide (width < 0) }
  | _ => return { spec with width := (← number Value.sizeLimit .formatWidth).getD 0 }

def withPrecision (spec : Spec) : Step Spec := do
  let s ← get
  match s.rest with
  | '.' :: '*' :: rest =>
    set { s with rest }
    return { spec with precision := some (← starred).toNat }
  | '.' :: rest =>
    set { s with rest }
    return { spec with precision := some ((← number 0x7FFFFFFF .formatPrecision).getD 0) }
  | _ => return spec

/-- Passes a letter for the size of a number, which means nothing. -/
def skipSize : Step Unit := modify fun s =>
  match s.rest with
  | 'h' :: rest | 'l' :: rest | 'L' :: rest => { s with rest }
  | _ => s

def specification : Step Spec := do
  let s ← get
  let (spec, rest) := flags {} s.rest
  set { s with rest }
  let spec ← withPrecision (← withWidth spec)
  skipSize
  return spec

def padded (spec : Spec) (body : List Char) : List Char :=
  let fill := List.replicate (spec.width - body.length) ' '
  if spec.left then body ++ fill else fill ++ body

/-- Pads a number: its sign and prefix stand before zeros that fill the width. -/
def paddedNumber (spec : Spec) (negative : Bool) (start body : List Char) : List Char :=
  let sign := if negative then ['-'] else if spec.plus then ['+'] else if spec.blank then [' ']
    else []
  let front := sign ++ start
  if spec.zeros && !spec.left then
    front ++ List.replicate (spec.width - front.length - body.length) '0' ++ body
  else padded spec (front ++ body)

def cut (spec : Spec) (s : String) : List Char :=
  padded spec (match spec.precision with
    | some n => s.toList.take n
    | none => s.toList)

/-- A text in which characters beyond the basic set are escaped. -/
def basicOnly (s : String) : String :=
  String.ofList (s.toList.flatMap fun c =>
    if c.toNat < 128 then [c]
    else if c.toNat < 0x100 then '\\' :: 'x' :: Text.hexDigits 2 c.toNat
    else if c.toNat < 0x10000 then '\\' :: 'u' :: Text.hexDigits 4 c.toNat
    else '\\' :: 'U' :: Text.hexDigits 8 c.toNat)

def whole (spec : Spec) (c : Char) (v : Value) : Except Fault (List Char) := do
  let based := c = 'o' || c = 'x' || c = 'X'
  let i ← match v.int?, v.float? with
    | some i, _ => pure i
    | none, some x => if based then throw (.formatWhole c v.kind) else Num.truncated x
    | none, none => throw (if based then .formatWhole c v.kind else .formatReal c v.kind)
  let digits ←
    if c = 'o' then pure (Nat.toDigits 8 i.natAbs)
    else if c = 'x' then pure (Nat.toDigits 16 i.natAbs)
    else if c = 'X' then pure ((Nat.toDigits 16 i.natAbs).map Char.toUpper)
    else do pure (← intShown i.natAbs).toList
  let zeros := List.replicate ((spec.precision.getD 0) - digits.length) '0'
  let start := if based && spec.alternate then ['0', c] else []
  return paddedNumber spec (i < 0) start (zeros ++ digits)

/-- A number with a point, which stands at the end or before an exponent if it is missing. -/
def withPoint (body : List Char) : List Char :=
  if body.contains '.' || body.contains 'n' then body
  else
    let mantissa := body.takeWhile (· != 'e')
    mantissa ++ '.' :: body.drop mantissa.length

/-- A float with a fixed number of places, with an exponent, or in the shorter of both forms. -/
def real (spec : Spec) (c : Char) (v : Value) : Except Fault (List Char) := do
  let x ← match v.float?, v.int? with
    | some x, _ => pure x
    | none, some i => Num.floatOf i
    | none, none => throw (.realKind v.kind)
  let precision := spec.precision.getD 6
  let low := c.toLower
  let body :=
    if low = 'f' then Number.fixed precision x
    else if low = 'e' then Number.scientific precision x
    else Number.general (max precision 1) spec.alternate x
  let body := if spec.alternate then withPoint body else body
  let body := if c = low then body else body.map Char.toUpper
  return paddedNumber spec (!x.isNaN && Number.signBit x) [] body

def single (spec : Spec) (v : Value) : Except Fault (List Char) :=
  match v with
  | .str s => match s.toList with
    | [c] => .ok (padded spec [c])
    | _ => .error .formatChar
  | v => match v.int? with
    | some i =>
      if 0 ≤ i && i < 0x110000 then .ok (padded spec [Char.ofNat i.toNat])
      else .error .formatCharRange
    | none => .error .formatChar

/-- Writes an argument by its letter; `index` is the place of the letter in the template. -/
def written (s : Store) (spec : Spec) (c : Char) (index : Nat) (v : Value) :
    Except Fault (List Char) :=
  match c with
  | 's' => return cut spec (← v.text s)
  | 'r' => return cut spec (← v.quoted s)
  | 'a' => return cut spec (basicOnly (← v.quoted s))
  | 'c' => single spec v
  | 'd' | 'i' | 'u' | 'o' | 'x' | 'X' => whole spec c v
  | 'e' | 'E' | 'f' | 'F' | 'g' | 'G' => real spec c v
  | c => .error (.formatLetter c index)

def place (size : Nat) : Step (List Char) := do
  named
  let spec ← specification
  let c ← letter
  let index := size - (← get).rest.length - 1
  let v ← argument
  let s ← (MonadState.get : EStateM Fault Store Store)
  match written s spec c index v with
  | .ok text => return text
  | .error e => throw e

/-- Fills in a template; every round takes a character of it. -/
def fill (size : Nat) : Nat → List Char → State → EStateM Fault Store (List Char)
  | 0, text, _ => return text
  | fuel + 1, text, s => do
    match s.rest with
    | [] =>
      if s.supply.rest.isEmpty || s.supply.named.isSome then return text
      else throw .formatAll
    | '%' :: '%' :: rest => fill size fuel (text ++ ['%']) { s with rest }
    | '%' :: rest =>
      let (written, s) ← (place size).run { s with rest }
      fill size fuel (text ++ written) s
    | c :: rest => fill size fuel (text ++ [c]) { s with rest }

end StackScript.Template

namespace StackScript.Value

def filledTemplate (template : String) (arguments : Value) : Op Value := do
  let cs := template.toList
  let text ← Template.fill cs.length (cs.length + 1) [] ⟨cs, Template.Supply.ofValue arguments⟩
  return str (String.ofList text)

def mod (a b : Value) : Op Value :=
  match a with
  | str template => filledTemplate template b
  | _ => numeric .mod a b

def arith : ArithOp → Value → Value → Op Value
  | .add, a, b => add a b
  | .mul, a, b => mul a b
  | .mod, a, b => mod a b
  | op, a, b => numeric op a b

end StackScript.Value
