/-!
# A tape

A sequence with a reading position. The items before the position are kept with the latest first,
those from the position on in order. The position may go past the end: `beyond` counts how far.
-/

namespace StackScript

/-- A sequence with a reading position. -/
structure Tape (α : Type) where
  past : List α := []
  rest : List α
  beyond : Nat := 0
  deriving Repr, Inhabited

namespace Tape

variable {α : Type}

def ofList (items : List α) : Tape α := ⟨[], items, 0⟩

def toList (t : Tape α) : List α := t.past.reverse ++ t.rest

def position (t : Tape α) : Nat := t.past.length + t.beyond

def current? (t : Tape α) : Option α := t.rest.head?

def advance (t : Tape α) : Tape α :=
  match t.rest with
  | a :: rest => ⟨a :: t.past, rest, t.beyond⟩
  | [] => { t with beyond := t.beyond + 1 }

/-- The item some steps away from the position. Indices below zero count from the end, and
indices further below have no item. -/
def peek? (t : Tape α) (offset : Int) : Option α :=
  let index := (t.position : Int) + offset
  if 0 ≤ offset && t.beyond = 0 then t.rest[offset.toNat]?
  else
    let items := t.toList
    let index := if index < 0 then index + items.length else index
    if index < 0 then none else items[index.toNat]?

end Tape

end StackScript
