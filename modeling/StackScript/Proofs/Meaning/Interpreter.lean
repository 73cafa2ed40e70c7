import StackScript.Machine.Wide.Step
import StackScript.Tree.Basic

/-!
# The meaning of programs

A direct interpreter of program trees, with no code and no stack. Operands are evaluated from left
to right, both operands of `and` and `or` are evaluated, `-x` means `0 - x`, and a name that has not
been assigned reads as nothing. The variables of loops and comprehensions are assigned like any
other name of the place. In the main program all names are global. A function has its own names:
its parameters and what its body declares; it reads all others from the main program. Operations on
values are those of the machine, and so are their faults.

The interpreter is given a bound for the depth of its recursion. `Signal.exhausted` says that the
bound was too low, and nothing else about the program.
-/

namespace StackScript.Meaning

open Wide

/-- What a program acts on: the store of values, the output, and the values of names. -/
structure Memory where
  store : Store
  output : String := ""
  globals : String → Value := fun _ => .none
  locals : String → Value := fun _ => .none

/-- Why a part of a program is left before its end. -/
inductive Signal where
  | exhausted
  | stopped (cause : Stop)
  | returned (v : Value)

/-- A run of a part of a program. -/
abbrev Run (α : Type) := EStateM Signal Memory α

/-- A function of a program. -/
structure Procedure where
  name : String
  parameters : List String
  body : List Stmt

mutual

/-- The names that a statement declares. -/
def declared : Stmt → List String
  | .declare name _ _ => [name]
  | .branch _ thenBody elifs elseBody =>
    declaredAll thenBody ++ declaredElifs elifs ++
      (match elseBody with
      | some body => declaredAll body
      | none => [])
  | .forLoop target _ body => target :: declaredAll body
  | .whileLoop _ body | .repeatLoop _ body => declaredAll body
  | _ => []

/-- The names that statements declare. -/
def declaredAll : List Stmt → List String
  | [] => []
  | s :: rest => declared s ++ declaredAll rest

/-- The names that the bodies of alternatives declare. -/
def declaredElifs : List (Expr × List Stmt) → List String
  | [] => []
  | (_, body) :: rest => declaredAll body ++ declaredElifs rest

end

/-- The names of a function's own. -/
def Procedure.names (p : Procedure) : List String := p.parameters ++ declaredAll p.body

/-- The names that are known where a part of a program stands: none for the main program, or the
names of the function. -/
abbrev Place := Option (List String)

/-- An operation of the machine on values. -/
def act {α : Type} (x : Act α) : Run α := fun w =>
  match x { store := w.store, output := w.output } with
  | .ok a s => .ok a { w with store := s.store, output := s.output }
  | .error cause s => .error (.stopped cause) { w with store := s.store, output := s.output }

/-- A table of values with one entry changed. -/
def put (values : String → Value) (name : String) (v : Value) : String → Value :=
  fun other => if other = name then v else values other

/-- The value of a name. -/
def read (place : Place) (name : String) : Run Value := do
  let w ← get
  if name ∈ place.getD [] then return w.locals name else return w.globals name

/-- Gives a name of the place a value. -/
def assign (place : Place) (name : String) (v : Value) : Run Unit := modify fun w =>
  match place with
  | some _ => { w with locals := put w.locals name v }
  | none => { w with globals := put w.globals name v }

/-- The operation of a binary operator. -/
def binary? (operator : String) : Option (Value → Value → Act Value) :=
  match operator with
  | "+" => some (Act.arith .add)
  | "-" => some (Act.arith .sub)
  | "*" => some (Act.arith .mul)
  | "/" => some (Act.arith .div)
  | "%" => some (Act.arith .mod)
  | "**" => some (Act.arith .pow)
  | "==" => some fun a b => do return .bool (← Act.same a b)
  | "!=" => some fun a b => do return .bool !(← Act.same a b)
  | "<" => some (Act.order .lt)
  | ">" => some (Act.order .gt)
  | "<=" => some (Act.order .le)
  | ">=" => some (Act.order .ge)
  | "in" => some Act.member
  | "and" => some fun a b => do return if ← Act.truth a then b else a
  | "or" => some fun a b => do return if ← Act.truth a then a else b
  | _ => none

/-- The item of a value at an index. -/
def itemOf (v index : Value) : Act Value :=
  Act.opOr (fun e => if Act.itemFault e then .getItem v.kind e else .value e) (v.item index)

/-- An iterator over a value. -/
def iteratorOf (v : Value) : Act Value :=
  Act.opOr (fun e => if e.kind = .type then .notIterable v.kind else .value e) v.iterate

/-- Appends to a list. -/
def appendTo (list v : Value) : Act Unit :=
  match list with
  | .list ref => Act.op (Value.append ref v)
  | other => Act.fail (.appendTo other.kind)

/-- The values of parameters at a call. -/
def bound (parameters : List String) (arguments : List Value) : String → Value :=
  fun name => ((parameters.zip arguments).lookup name).getD .none

/-- Runs the body of a function with names of its own, up to the value that it returns. -/
def inCall (locals : String → Value) (body : Run Unit) : Run Value := fun w =>
  match body { w with locals } with
  | .ok _ w' => .ok .none { w' with locals := w.locals }
  | .error (.returned v) w' => .ok v { w' with locals := w.locals }
  | .error signal w' => .error signal { w' with locals := w.locals }

mutual

/-- The value of an expression. -/
def eval (procedures : List Procedure) (place : Place) : Nat → Expr → Run Value
  | 0, _ => throw .exhausted
  | _ + 1, .literal d => act (Act.operandValue d)
  | _ + 1, .name word => read place word
  | fuel + 1, .binary left operator right => do
    let a ← eval procedures place fuel left
    let b ← eval procedures place fuel right
    match binary? operator with
    | some f => act (f a b)
    | none => return .none
  | fuel + 1, .unary operator operand => do
    let v ← eval procedures place fuel operand
    if operator = "not" then return .bool !(← act (Act.truth v))
    else if operator = "-" then act (Act.arith .sub (.int 0) v)
    else return v
  | fuel + 1, .index object index => do
    let v ← eval procedures place fuel object
    let i ← eval procedures place fuel index
    act (itemOf v i)
  | fuel + 1, .list elements => do
    let items ← evalAll procedures place fuel elements
    act (Act.op (Op.newList items.toArray))
  | fuel + 1, .tuple elements => do
    return .tuple (← evalAll procedures place fuel elements)
  | fuel + 1, .comprehension element target iterable condition => do
    let list ← act (Act.op (Op.newList #[]))
    let it ← act (iteratorOf (← eval procedures place fuel iterable))
    gather procedures place fuel element target condition list it
    return list
  | fuel + 1, .call (.name word) arguments => do
    let values ← evalAll procedures place fuel arguments
    match plainFunction? word, procedures.find? (·.name == word) with
    | some f, _ => act (f values)
    | none, some p =>
      if values.length = p.parameters.length then
        inCall (bound p.parameters values) (execAll procedures (some p.names) fuel p.body)
      else act (Act.fail (.routineArguments word p.parameters.length values.length))
    | none, none => act (Act.fail (.unknownRoutine word))
  | _ + 1, _ => return .none

/-- The values of expressions. -/
def evalAll (procedures : List Procedure) (place : Place) : Nat → List Expr → Run (List Value)
  | 0, _ => throw .exhausted
  | _ + 1, [] => return []
  | fuel + 1, e :: rest => do
    let v ← eval procedures place fuel e
    return v :: (← evalAll procedures place fuel rest)

/-- Appends the values of an element to a list, one for each item of an iterator that passes the
condition. -/
def gather (procedures : List Procedure) (place : Place) :
    Nat → Expr → String → Option Expr → Value → Value → Run Unit
  | 0, _, _, _, _, _ => throw .exhausted
  | fuel + 1, element, target, condition, list, it => do
    match ← act (Act.op it.next) with
    | none => return ()
    | some item =>
      assign place target item
      if ← passes procedures place fuel condition then
        act (appendTo list (← eval procedures place fuel element))
      gather procedures place fuel element target condition list it

/-- Does a condition hold, if there is one? -/
def passes (procedures : List Procedure) (place : Place) : Nat → Option Expr → Run Bool
  | 0, _ => throw .exhausted
  | _ + 1, none => return true
  | fuel + 1, some e => do act (Act.truth (← eval procedures place fuel e))

/-- Runs a statement. -/
def exec (procedures : List Procedure) (place : Place) : Nat → Stmt → Run Unit
  | 0, _ => throw .exhausted
  | fuel + 1, .expression e => do let _ ← eval procedures place fuel e
  | fuel + 1, .declare name (some e) _ => do assign place name (← eval procedures place fuel e)
  | fuel + 1, .assign target e => do assign place target (← eval procedures place fuel e)
  | fuel + 1, .branch condition thenBody elifs elseBody =>
    alternatives procedures place fuel ((condition, thenBody) :: elifs) elseBody
  | fuel + 1, .whileLoop condition body => do
    if ← passes procedures place fuel (some condition) then
      execAll procedures place fuel body
      exec procedures place fuel (.whileLoop condition body)
  | fuel + 1, .repeatLoop condition body => do
    execAll procedures place fuel body
    if ← passes procedures place fuel (some condition) then
      exec procedures place fuel (.repeatLoop condition body)
  | fuel + 1, .forLoop target iterable body => do
    let it ← act (iteratorOf (← eval procedures place fuel iterable))
    walk procedures place fuel target body it
  | fuel + 1, .returnValue (some e) => do throw (.returned (← eval procedures place fuel e))
  | _ + 1, .returnValue none => throw (.returned .none)
  | _ + 1, .function name _ _ => assign place name (.str name)
  | _ + 1, _ => return ()

/-- Runs statements one after another. -/
def execAll (procedures : List Procedure) (place : Place) : Nat → List Stmt → Run Unit
  | 0, _ => throw .exhausted
  | _ + 1, [] => return ()
  | fuel + 1, s :: rest => do
    exec procedures place fuel s
    execAll procedures place fuel rest

/-- Runs the body of the first alternative whose condition holds, or the last body. -/
def alternatives (procedures : List Procedure) (place : Place) :
    Nat → List (Expr × List Stmt) → Option (List Stmt) → Run Unit
  | 0, _, _ => throw .exhausted
  | fuel + 1, [], last => execAll procedures place fuel (last.getD [])
  | fuel + 1, (condition, body) :: rest, last => do
    if ← passes procedures place fuel (some condition) then execAll procedures place fuel body
    else alternatives procedures place fuel rest last

/-- Runs a body for each item of an iterator. -/
def walk (procedures : List Procedure) (place : Place) :
    Nat → String → List Stmt → Value → Run Unit
  | 0, _, _, _ => throw .exhausted
  | fuel + 1, target, body, it => do
    match ← act (Act.op it.next) with
    | none => return ()
    | some item =>
      assign place target item
      execAll procedures place fuel body
      walk procedures place fuel target body it

end

/-- The functions that a program defines. -/
def proceduresOf (p : Program) : List Procedure :=
  p.filterMap fun
    | .function name parameters body => some ⟨name, parameters, body⟩
    | _ => none

/-- Runs a program from a store. -/
def run (fuel : Nat) (p : Program) (store : Store) : EStateM.Result Signal Memory Unit :=
  execAll (proceduresOf p) none fuel p { store }

end StackScript.Meaning
