import StackScript.Value.Template

/-!
# What does not hang on routines

Only one of the two machines keeps its routines in the store. Values are compared and shown without a
look at them: a store with other routines gives the same answers.
-/

namespace StackScript

/-! ## Values and stores without objects -/

mutual

/-- Is a value neither an object nor a tuple with an object in it? -/
def Value.objectFree : Value → Bool
  | .object _ => false
  | .tuple items => Value.allObjectFree items
  | _ => true

/-- Are all values free of objects? -/
def Value.allObjectFree : List Value → Bool
  | [] => true
  | v :: rest => v.objectFree && Value.allObjectFree rest

end

theorem Value.allObjectFree_iff {values : List Value} :
    Value.allObjectFree values = true ↔ ∀ v ∈ values, v.objectFree = true := by
  induction values with
  | nil => simp [Value.allObjectFree]
  | cons v rest ih => simp [Value.allObjectFree, ih]

theorem Value.objectFree_tuple {items : List Value} :
    (Value.tuple items).objectFree = true ↔ ∀ v ∈ items, v.objectFree = true :=
  Value.allObjectFree_iff

/-- No list and no table holds an object. -/
structure Store.ObjectFree (s : Store) : Prop where
  lists : ∀ items ∈ s.lists, ∀ v ∈ items, v.objectFree = true
  dicts : ∀ table ∈ s.dicts, ∀ entry ∈ table, entry.2.objectFree = true

namespace Store

/-- A store with other routines. -/
def withRoutines (s : Store) (cells : Array RoutineCell) : Store := { s with routines := cells }

end Store

/-! ## Comparing and showing values -/

namespace Value

variable (s : Store) (cells : Array RoutineCell)

theorem truth_withRoutines (v : Value) : v.truth (s.withRoutines cells) = v.truth s := by
  cases v <;> rfl

theorem length_withRoutines (v : Value) :
    Value.length (s.withRoutines cells) v = Value.length s v := by
  cases v <;> rfl

theorem sameCell_withRoutines (fuel : Nat) :
    sameCell (s.withRoutines cells) fuel = sameCell s fuel := by
  induction fuel with
  | zero => rfl
  | succ fuel ih =>
    funext a b
    unfold sameCell
    split
    · rfl
    · rename_i heq
      cases heq
      rw [ih]
      rfl
    · rename_i heq
      cases heq
      rw [ih]
      rfl
    · rfl

theorem same_withRoutines (a b : Value) : same (s.withRoutines cells) a b = same s a b := by
  unfold same
  rw [sameCell_withRoutines]
  rfl

theorem sameItem_withRoutines (a b : Value) :
    sameItem (s.withRoutines cells) a b = sameItem s a b := by
  unfold sameItem
  rw [same_withRoutines]

mutual

theorem orderWith_withRoutines (op : OrderOp) (cell : Value → Value → Except Fault Bool) :
    ∀ a b : Value, orderWith (s.withRoutines cells) op cell a b = orderWith s op cell a b
  | .tuple xs, .tuple ys => orderItems_withRoutines op cell xs ys
  | a, b => by
    unfold orderWith
    split
    · exact orderItems_withRoutines op cell _ _
    · rfl
    · rfl
    · rfl

theorem orderItems_withRoutines (op : OrderOp) (cell : Value → Value → Except Fault Bool) :
    ∀ xs ys : List Value,
      orderItems (s.withRoutines cells) op cell xs ys = orderItems s op cell xs ys
  | [], [] => rfl
  | [], _ :: _ => rfl
  | _ :: _, [] => rfl
  | x :: xs, y :: ys => by
    unfold orderItems
    rw [sameItem_withRoutines, orderItems_withRoutines op cell xs ys,
      orderWith_withRoutines op cell x y]

end

theorem orderCell_withRoutines (op : OrderOp) (fuel : Nat) :
    orderCell (s.withRoutines cells) op fuel = orderCell s op fuel := by
  induction fuel with
  | zero => rfl
  | succ fuel ih =>
    funext a b
    unfold orderCell
    split
    · rename_i heq
      cases heq
      rw [orderItems_withRoutines, ih]
      rfl
    · rfl

theorem order_withRoutines (op : OrderOp) (a b : Value) :
    order (s.withRoutines cells) op a b = order s op a b := by
  unfold order
  rw [orderWith_withRoutines, orderCell_withRoutines]
  rfl

theorem quotedCell_withRoutines (fuel : Nat) :
    quotedCell (s.withRoutines cells) fuel = quotedCell s fuel := by
  induction fuel with
  | zero => rfl
  | succ fuel ih =>
    funext path v
    unfold quotedCell
    rw [ih]
    rfl

theorem quoted_withRoutines (v : Value) : quoted (s.withRoutines cells) v = quoted s v := by
  unfold quoted
  rw [quotedCell_withRoutines]
  rfl

theorem text_withRoutines (v : Value) : text (s.withRoutines cells) v = text s v := by
  cases v <;> first | rfl | exact quoted_withRoutines s cells _

theorem tableItem_withRoutines (t : Table) (key : Value) :
    tableItem (s.withRoutines cells) t key = tableItem s t key := by
  unfold tableItem
  rw [show quoted (s.withRoutines cells) = quoted s from funext (quoted_withRoutines s cells)]

theorem walkBound_withRoutines (v : Value) :
    walkBound (s.withRoutines cells) v = walkBound s v := by
  cases v <;> rfl

end Value

theorem Template.written_withRoutines (s : Store) (cells : Array RoutineCell) (spec : Spec) (c : Char)
    (index : Nat) (v : Value) :
    written (s.withRoutines cells) spec c index v = written s spec c index v := by
  unfold written
  simp only [Value.text_withRoutines, Value.quoted_withRoutines]

end StackScript
