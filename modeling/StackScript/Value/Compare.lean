import StackScript.Value.Fault
import StackScript.Value.Basic

/-!
# Truth, equality and order of values

Numbers are equal by value whatever their kind. Lists, tuples and tables are equal by their items,
where the very same item counts as equal. Sequences are ordered by the first items that differ.
-/

namespace StackScript

/-- The order relations. -/
inductive OrderOp where
  | lt
  | gt
  | le
  | ge
  deriving DecidableEq, Repr

namespace OrderOp

def sign : OrderOp → String
  | lt => "<"
  | gt => ">"
  | le => "<="
  | ge => ">="

def holds : OrderOp → Ordering → Bool
  | lt, o => o == .lt
  | gt, o => o == .gt
  | le, o => o != .gt
  | ge, o => o != .lt

end OrderOp

/-- The ordering of two numbers; none if one of them is no number, and for complex numbers. -/
def Num.order : Num → Num → Option (Option Ordering)
  | .int i, .int j => some (some (compare i j))
  | .int i, .float y => some (Number.compareIntFloat i y)
  | .float x, .int j => some ((Number.compareIntFloat j x).map Ordering.swap)
  | .float x, .float y =>
    some (if x < y then some .lt else if x == y then some .eq else if y < x then some .gt else none)
  | _, _ => none

namespace Value

def truth (s : Store) : Value → Bool
  | none => false
  | bool b => b
  | int i => i != 0
  | float x => x != 0
  | complex re im => re != 0 || im != 0
  | str t => !t.isEmpty
  | tuple items => !items.isEmpty
  | list ref => !(s.list ref).isEmpty
  | dict ref => !(s.dict ref).isEmpty
  | _ => true

mutual

def sameWith (cell : Value → Value → Bool) : Value → Value → Bool
  | tuple xs, tuple ys => sameItemsWith cell xs ys
  | list r, v => cell (list r) v
  | dict r, v => cell (dict r) v
  | a, b => sameLeaf a b

def sameItemsWith (cell : Value → Value → Bool) : List Value → List Value → Bool
  | [], [] => true
  | x :: xs, y :: ys => (identical x y || sameWith cell x y) && sameItemsWith cell xs ys
  | _, _ => false

end

/-- Equality of lists and of tables, nested no deeper than the fuel. -/
def sameCell (s : Store) : Nat → Value → Value → Bool
  | 0, _, _ => false
  | fuel + 1, list r, list r' =>
    sameItemsWith (sameCell s fuel) (s.list r).toList (s.list r').toList
  | fuel + 1, dict r, dict r' =>
    (s.dict r).size == (s.dict r').size &&
      (s.dict r).all fun (k, v) =>
        match (s.dict r').get? k with
        | some v' => identical v v' || sameWith (sameCell s fuel) v v'
        | Option.none => false
  | _, _, _ => false

def same (s : Store) (a b : Value) : Bool := sameWith (sameCell s (s.cells + 1)) a b

def sameItem (s : Store) (a b : Value) : Bool := identical a b || same s a b

mutual

def orderWith (s : Store) (op : OrderOp) (cell : Value → Value → Except Fault Bool) :
    Value → Value → Except Fault Bool
  | tuple xs, tuple ys => orderItems s op cell xs ys
  | list r, list r' => cell (list r) (list r')
  | str a, str b => .ok (op.holds (compare a b))
  | a, b =>
    match a.num?, b.num? with
    | some m, some n =>
      match m.order n with
      | some (some o) => .ok (op.holds o)
      | some Option.none => .ok false
      | Option.none => .error (.unordered op.sign a.kind b.kind)
    | _, _ => .error (.unordered op.sign a.kind b.kind)

def orderItems (s : Store) (op : OrderOp) (cell : Value → Value → Except Fault Bool) :
    List Value → List Value → Except Fault Bool
  | [], [] => .ok (op.holds .eq)
  | [], _ :: _ => .ok (op.holds .lt)
  | _ :: _, [] => .ok (op.holds .gt)
  | x :: xs, y :: ys =>
    if sameItem s x y then orderItems s op cell xs ys else orderWith s op cell x y

end

def orderCell (s : Store) (op : OrderOp) : Nat → Value → Value → Except Fault Bool
  | fuel + 1, list r, list r' =>
    orderItems s op (orderCell s op fuel) (s.list r).toList (s.list r').toList
  | _, a, b => .error (.unordered op.sign a.kind b.kind)

def order (s : Store) (op : OrderOp) (a b : Value) : Except Fault Bool :=
  orderWith s op (orderCell s op (s.cells + 1)) a b

end Value

end StackScript
