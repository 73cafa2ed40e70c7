import StackScript.Code.Compile

/-!
# Planned code

A generator appends instructions and goes back to fill in the targets of jumps. This file describes
the same code without addresses: a `Shape` is code whose jumps follow from its form, and `Plan` is
code generation on the tables alone, which yields a shape and never looks at an instruction.

* `Shape.layout` gives the instructions of a shape that starts at an index;
* `Plan.statements` plans the code of statements;
* `Plan.program` plans a whole program, from empty tables.

`Proofs/Code/Layout.lean` proves that the generator lays out what is planned.
-/

namespace StackScript

/-! ## Code whose jumps follow from its form -/

/-- Code without addresses. -/
inductive Shape where
  | nothing
  | one (i : Instruction)
  | seq (first rest : Shape)
  /-- The body, left out if the top of the stack counts as false. -/
  | guarded (body : Shape)
  /-- The body, or the other code if the top of the stack counts as false. -/
  | choice (body other : Shape)
  | whileLoop (condition body : Shape)
  /-- The body, again as long as it leaves a true value. -/
  | repeatLoop (body : Shape)
  /-- The body for each item of the iterator on the stack. -/
  | forLoop (body : Shape)

/-- An instruction that names an index. -/
def Instruction.to (op : Opcode) (target : Nat) : Instruction := ⟨op, .int target⟩

namespace Shape

/-- How many instructions a shape has. -/
def size : Shape → Nat
  | nothing => 0
  | one _ => 1
  | seq first rest => first.size + rest.size
  | guarded body => body.size + 1
  | choice body other => body.size + other.size + 2
  | whileLoop condition body => condition.size + body.size + 2
  | repeatLoop body => body.size + 1
  | forLoop body => body.size + 2

/-- The instructions of a shape whose first one stands at an index. -/
def layout : Shape → Nat → List Instruction
  | nothing, _ => []
  | one i, _ => [i]
  | seq first rest, start => first.layout start ++ rest.layout (start + first.size)
  | guarded body, start =>
    .to .jumpIfFalse (start + 1 + body.size) :: body.layout (start + 1)
  | choice body other, start =>
    .to .jumpIfFalse (start + body.size + 2) :: body.layout (start + 1) ++
      .to .jump (start + body.size + 2 + other.size) :: other.layout (start + body.size + 2)
  | whileLoop condition body, start =>
    condition.layout start ++
      .to .jumpIfFalse (start + condition.size + body.size + 2) ::
        body.layout (start + condition.size + 1) ++ [.to .jump start]
  | repeatLoop body, start => body.layout start ++ [.to .jumpIfTrue start]
  | forLoop body, start =>
    .to .forIter (start + body.size + 2) :: body.layout (start + 1) ++ [.to .jump start]

@[simp] theorem length_layout (s : Shape) (start : Nat) : (s.layout start).length = s.size := by
  induction s generalizing start with
  | nothing => rfl
  | one i => rfl
  | seq a b iha ihb => simp [layout, size, iha, ihb]
  | guarded b ih => simp [layout, size, ih]
  | choice a b iha ihb => simp [layout, size, iha, ihb]; omega
  | whileLoop c b ihc ihb => simp [layout, size, ihc, ihb]; omega
  | repeatLoop b ih | forLoop b ih => simp [layout, size, ih]

/-- All instructions but those that jump have a property. -/
def All (P : Instruction → Prop) : Shape → Prop
  | nothing => True
  | one i => P i
  | seq a b | choice a b | whileLoop a b => a.All P ∧ b.All P
  | guarded a | repeatLoop a | forLoop a => a.All P

/-- The jumps of a shape. -/
def jumps : List Opcode := [.jump, .jumpIfFalse, .jumpIfTrue, .forIter]

/-- A jump to an index from `lo` to `hi`. -/
def Jumps (lo hi : Nat) (i : Instruction) : Prop :=
  ∃ op ∈ jumps, ∃ target, i = .to op target ∧ lo ≤ target ∧ target ≤ hi

variable {P : Instruction → Prop} {s : Shape}

/-- What is laid out has the property, or is a jump inside the layout. -/
theorem All.mem_layout (h : s.All P) (start : Nat) :
    ∀ i ∈ s.layout start, P i ∨ Jumps start (start + s.size) i := by
  have widen : ∀ {lo hi lo' hi' : Nat} {i : Instruction}, lo' ≤ lo → hi ≤ hi' →
      P i ∨ Jumps lo hi i → P i ∨ Jumps lo' hi' i := by
    intro lo hi lo' hi' i hlo hhi h
    refine h.imp_right ?_
    rintro ⟨op, hop, target, rfl, hle, hle'⟩
    exact ⟨op, hop, target, rfl, by omega, by omega⟩
  induction s generalizing start with
  | nothing => nofun
  | one i =>
    intro j hj
    exact .inl (List.mem_singleton.1 hj ▸ h)
  | seq a b iha ihb =>
    intro i hi
    rw [size]
    rcases List.mem_append.1 hi with hi | hi
    · exact widen (by omega) (by omega) (iha h.1 _ i hi)
    · exact widen (by omega) (by omega) (ihb h.2 _ i hi)
  | guarded a ih =>
    intro i hi
    rw [size]
    rcases List.mem_cons.1 hi with rfl | hi
    · exact .inr ⟨_, by decide, _, rfl, by omega, by omega⟩
    · exact widen (by omega) (by omega) (ih h _ i hi)
  | choice a b iha ihb =>
    intro i hi
    simp only [Shape.layout, List.cons_append, List.mem_cons, List.mem_append] at hi
    rw [size]
    rcases hi with rfl | hi | rfl | hi
    · exact .inr ⟨_, by decide, _, rfl, by omega, by omega⟩
    · exact widen (by omega) (by omega) (iha h.1 _ i hi)
    · exact .inr ⟨_, by decide, _, rfl, by omega, by omega⟩
    · exact widen (by omega) (by omega) (ihb h.2 _ i hi)
  | whileLoop a b iha ihb =>
    intro i hi
    simp only [Shape.layout, List.append_assoc, List.cons_append, List.mem_cons, List.mem_append,
      List.not_mem_nil, or_false] at hi
    rw [size]
    rcases hi with hi | rfl | hi | rfl
    · exact widen (by omega) (by omega) (iha h.1 _ i hi)
    · exact .inr ⟨_, by decide, _, rfl, by omega, by omega⟩
    · exact widen (by omega) (by omega) (ihb h.2 _ i hi)
    · exact .inr ⟨_, by decide, _, rfl, by omega, by omega⟩
  | repeatLoop a ih =>
    intro i hi
    simp only [Shape.layout, List.mem_append, List.mem_cons, List.not_mem_nil, or_false] at hi
    rw [size]
    rcases hi with hi | rfl
    · exact widen (by omega) (by omega) (ih h _ i hi)
    · exact .inr ⟨_, by decide, _, rfl, by omega, by omega⟩
  | forLoop a ih =>
    intro i hi
    simp only [Shape.layout, List.cons_append, List.mem_cons, List.mem_append, List.not_mem_nil,
      or_false] at hi
    rw [size]
    rcases hi with rfl | hi | rfl
    · exact .inr ⟨_, by decide, _, rfl, by omega, by omega⟩
    · exact widen (by omega) (by omega) (ih h _ i hi)
    · exact .inr ⟨_, by decide, _, rfl, by omega, by omega⟩

theorem All.layout (h : s.All P) (hjump : ∀ op ∈ jumps, ∀ target, P (.to op target)) (start : Nat) :
    ∀ i ∈ s.layout start, P i := by
  intro i hi
  rcases h.mem_layout start i hi with h | ⟨op, hop, target, rfl, -⟩
  · exact h
  · exact hjump op hop target

/-- Alternatives, each a condition with its body, and what runs if no condition holds. -/
def chain : List (Shape × Shape) → Shape → Shape
  | [], last => last
  | (condition, body) :: rest, last => condition.seq (.choice body (chain rest last))

end Shape

/-! ## Code at its place -/

/-- The block stands in the code, from an index on. -/
def Stretch (code : Array Instruction) (n : Nat) (block : List Instruction) : Prop :=
  ∀ k i, block[k]? = some i → code[n + k]? = some i

namespace Stretch

variable {code : Array Instruction} {n : Nat} {a b : List Instruction} {i : Instruction}

theorem left (h : Stretch code n (a ++ b)) : Stretch code n a := by
  intro k i hk
  obtain ⟨hlt, -⟩ := List.getElem?_eq_some_iff.1 hk
  exact h k i (by rwa [List.getElem?_append_left hlt])

theorem right (h : Stretch code n (a ++ b)) : Stretch code (n + a.length) b := by
  intro k i hk
  rw [Nat.add_assoc]
  apply h
  rw [List.getElem?_append_right (by omega), Nat.add_sub_cancel_left]
  exact hk

theorem head (h : Stretch code n (i :: b)) : code[n]? = some i := h 0 i rfl

theorem tail (h : Stretch code n (i :: b)) : Stretch code (n + 1) b :=
  right (a := [i]) h

theorem start (a b : List Instruction) : Stretch (a ++ b).toArray 0 a := by
  intro k i hk
  obtain ⟨hlt, -⟩ := List.getElem?_eq_some_iff.1 hk
  rw [Nat.zero_add, List.getElem?_toArray, List.getElem?_append_left hlt]
  exact hk

end Stretch

/-- The code of a shape stands at an index. -/
def Placed (code : Array Instruction) (n : Nat) (s : Shape) : Prop := Stretch code n (s.layout n)

namespace Placed

variable {code : Array Instruction} {n : Nat} {a b : Shape} {i : Instruction}

theorem one (h : Placed code n (.one i)) : code[n]? = some i := h.head

theorem first (h : Placed code n (a.seq b)) : Placed code n a := h.left

theorem rest (h : Placed code n (a.seq b)) : Placed code (n + a.size) b := by
  have := Stretch.right h
  rwa [Shape.length_layout] at this

theorem assoc {c : Shape} (h : Placed code n (a.seq (b.seq c))) :
    Placed code n ((a.seq b).seq c) := by
  simpa [Placed, Shape.layout, Shape.size, Nat.add_assoc] using h

theorem guard (h : Placed code n (.guarded b)) :
    code[n]? = some (.to .jumpIfFalse (n + 1 + b.size)) := h.head

theorem guardedBody (h : Placed code n (.guarded b)) : Placed code (n + 1) b := h.tail

theorem choice (h : Placed code n (.choice a b)) :
    code[n]? = some (.to .jumpIfFalse (n + a.size + 2)) ∧ Placed code (n + 1) a ∧
      code[n + 1 + a.size]? = some (.to .jump (n + a.size + 2 + b.size)) ∧
      Placed code (n + a.size + 2) b := by
  have hall : Stretch code (n + 1) (a.layout (n + 1) ++
      .to .jump (n + a.size + 2 + b.size) :: b.layout (n + a.size + 2)) :=
    Stretch.tail h
  have hrest := hall.right
  rw [Shape.length_layout] at hrest
  refine ⟨Stretch.head h, hall.left, hrest.head, ?_⟩
  have := hrest.tail
  rwa [show n + 1 + a.size + 1 = n + a.size + 2 by omega] at this

theorem whileLoop (h : Placed code n (.whileLoop a b)) :
    Placed code n a ∧ code[n + a.size]? = some (.to .jumpIfFalse (n + a.size + b.size + 2)) ∧
      Placed code (n + a.size + 1) b ∧ code[n + a.size + 1 + b.size]? = some (.to .jump n) := by
  have hall : Stretch code n (a.layout n ++ (.to .jumpIfFalse (n + a.size + b.size + 2) ::
    b.layout (n + a.size + 1) ++ [.to .jump n])) := by
    rw [List.cons_append, ← List.cons_append, ← List.append_assoc]
    exact h
  have hrest := hall.right
  rw [Shape.length_layout] at hrest
  have hbody : Stretch code (n + a.size + 1) (b.layout (n + a.size + 1) ++ [.to .jump n]) :=
    hrest.tail
  have hend := hbody.right
  rw [Shape.length_layout] at hend
  exact ⟨hall.left, hrest.head, hbody.left, hend.head⟩

theorem repeatLoop (h : Placed code n (.repeatLoop a)) :
    Placed code n a ∧ code[n + a.size]? = some (.to .jumpIfTrue n) := by
  have hend := Stretch.right h
  rw [Shape.length_layout] at hend
  exact ⟨Stretch.left h, hend.head⟩

theorem forLoop (h : Placed code n (.forLoop a)) :
    code[n]? = some (.to .forIter (n + a.size + 2)) ∧ Placed code (n + 1) a ∧
      code[n + 1 + a.size]? = some (.to .jump n) := by
  have hall : Stretch code (n + 1) (a.layout (n + 1) ++ [.to .jump n]) := Stretch.tail h
  have hend := hall.right
  rw [Shape.length_layout] at hend
  exact ⟨Stretch.head h, hall.left, hend.head⟩

end Placed

/-! ## Planning -/

/-- The tables of a generator: `locals` are the slots of the routine at the place, and none in the
main program. -/
structure Scope where
  constants : Array Datum := #[]
  globals : Slots := []
  locals : Option Slots := none
  routines : List Routine := []
  inWhile : Bool := false

/-- Code generation on the tables alone. -/
abbrev Plan (α : Type) := StateT Scope (Except CompileError) α

namespace Plan

/-- One plan after another. -/
def andThen (p q : Plan Shape) : Plan Shape := do
  let first ← p
  let rest ← q
  return first.seq rest

/-- The plan of code in a frame of its own. -/
def into (frame : Shape → Shape) (p : Plan Shape) : Plan Shape := do
  return frame (← p)

/-- An instruction without operand. -/
def op (op : Opcode) : Plan Shape := return .one ⟨op, .null⟩

/-- An instruction with a number. -/
def opAt (op : Opcode) (n : Nat) : Plan Shape := return .one (.to op n)

/-- Takes over the result of a step that does not change the tables. -/
def lift {α : Type} (x : Except CompileError α) : Plan α := fun sc =>
  x.map fun a => (a, sc)

/-- The index of a constant; a new one is appended to the pool. -/
def constant (d : Datum) : Plan Nat := fun sc =>
  match sc.constants.findIdx? (fun c => c.same d) with
  | some i => .ok (i, sc)
  | none => .ok (sc.constants.size, { sc with constants := sc.constants.push d })

/-- Loads a constant. -/
def loadConst (d : Datum) : Plan Shape := do
  opAt .loadConst (← constant d)

/-- The slot of a global name; a new name takes the next one. -/
def globalSlot (name : String) : Plan Nat := fun sc =>
  match sc.globals.slot? name with
  | some slot => .ok (slot, sc)
  | none => .ok (sc.globals.length, { sc with globals := sc.globals.put name sc.globals.length })

/-- The slot of a name among the locals; a new name takes the next one. -/
def localSlot (name : String) : Plan Nat := fun sc =>
  match sc.locals with
  | none => .error .localOutside
  | some slots =>
    match slots.slot? name with
    | some slot => .ok (slot, sc)
    | none => .ok (slots.length, { sc with locals := some (slots.put name slots.length) })

/-- Stores the top of the stack under a name of the place. -/
def storeName (name : String) : Plan Shape := do
  if (← get).locals.isSome then opAt .storeLocal (← localSlot name)
  else opAt .storeGlobal (← globalSlot name)

/-- Loads a name: a local one if it is known, else a global one. -/
def loadName (name : String) : Plan Shape := do
  match (← get).locals.bind (·.slot? name) with
  | some slot => opAt .loadLocal slot
  | none => opAt .loadGlobal (← globalSlot name)

/-- Loads what a call by name calls. -/
def loadCallee (name : String) : Plan Shape := do
  match (← get).locals.bind (·.slot? name) with
  | some slot => opAt .loadLocal slot
  | none =>
    match (← get).globals.slot? name with
    | some slot => opAt .loadGlobal slot
    | none => loadConst (.str name)

/-- Assigns the top of the stack to a name. -/
def assignName (name : String) : Plan Shape := do
  if (← get).locals.isSome then
    match (← get).globals.slot? name with
    | some slot => opAt .storeGlobal slot
    | none => opAt .storeLocal (← localSlot name)
  else opAt .storeGlobal (← globalSlot name)

/-- The plans for the members of a list, one after another. -/
def each {α : Type} (f : α → Plan Shape) : List α → Plan Shape
  | [] => return .nothing
  | a :: rest => (f a).andThen (each f rest)

/-- Plans one piece of a formatted literal. -/
def piece (embedded : String → Plan Shape) (d : Datum) : Plan Shape := do
  let type ← lift (pieceField "type" d)
  if type.same (.str "text") then loadConst (← lift (pieceField "value" d))
  else if type.same (.str "expression") then
    let value ← lift (pieceField "value" d)
    (embedded (← lift (holeSource value))).andThen (op .formatValue)
  else return .nothing

/-- Plans a formatted literal. -/
def formatted (embedded : String → Plan Shape) (d : Datum) : Plan Shape := do
  let pieces ← lift (piecesOf d)
  (each (piece embedded) pieces).andThen (each (fun _ => op .add) (List.range (pieces.length - 1)))

/-- The instruction of a binary operator. -/
def binaryOp (operator : String) : Plan Shape :=
  match binaryOpcode? operator with
  | some opcode => op opcode
  | none => throw (.unknownBinary operator)

mutual

/-- Plans an expression. -/
def expr (embedded : String → Plan Shape) : Expr → Plan Shape
  | .literal d => loadConst d
  | .formatted pieces => formatted embedded pieces
  | .name word => loadName word
  | .binary left operator right =>
    (expr embedded left).andThen ((expr embedded right).andThen (binaryOp operator))
  | .unary operator operand =>
    if operator == "not" then (expr embedded operand).andThen (op .negate)
    else if operator == "-" then
      (loadConst (.int 0)).andThen ((expr embedded operand).andThen (op .sub))
    else if operator == "+" then expr embedded operand
    else throw (.unknownUnary operator)
  | .call (.member object word) arguments =>
    (expr embedded object).andThen ((exprs embedded arguments).andThen do
      opAt .callMethod ((arguments.length <<< 16) ||| (← constant (.str word))))
  | .call (.name word) arguments =>
    (loadCallee word).andThen ((exprs embedded arguments).andThen (opAt .call arguments.length))
  | .call function arguments =>
    (expr embedded function).andThen
      ((exprs embedded arguments).andThen (opAt .call arguments.length))
  | .member object word =>
    (expr embedded object).andThen do opAt .getAttr (← constant (.str word))
  | .index object index =>
    (expr embedded object).andThen ((expr embedded index).andThen (op .getItem))
  | .list elements => (exprs embedded elements).andThen (opAt .buildList elements.length)
  | .tuple elements => (exprs embedded elements).andThen (opAt .buildTuple elements.length)
  | .dict pairs => (exprPairs embedded pairs).andThen (opAt .buildDict pairs.length)
  | .comprehension element target iterable condition =>
    (opAt .buildList 0).andThen ((expr embedded iterable).andThen ((op .getIter).andThen
      (into .forLoop ((storeName target).andThen
        (match condition with
        | some c => (expr embedded c).andThen
            (into .guarded ((expr embedded element).andThen (op .listAppend)))
        | none => (expr embedded element).andThen (op .listAppend))))))
  | .lambda _ _ | .await _ | .inert => return .nothing

/-- Plans expressions one after another. -/
def exprs (embedded : String → Plan Shape) : List Expr → Plan Shape
  | [] => return .nothing
  | e :: rest => (expr embedded e).andThen (exprs embedded rest)

/-- Plans keys and values one after another. -/
def exprPairs (embedded : String → Plan Shape) : List (Expr × Expr) → Plan Shape
  | [] => return .nothing
  | (key, value) :: rest =>
    (expr embedded key).andThen ((expr embedded value).andThen (exprPairs embedded rest))

end

/-- Plans the text of an expression, with formatted literals nested no deeper than the fuel. -/
def embeddedN : Nat → String → Plan Shape
  | 0, _ => throw (.parse .exhausted)
  | fuel + 1, source => do expr (embeddedN fuel) (← lift (Gen.expressionOf source))

/-- Plans the text of an expression. -/
def embedded (source : String) : Plan Shape := embeddedN (source.length + 1) source

/-- Plans an expression. -/
def expression (e : Expr) : Plan Shape := expr embedded e

/-- Code with a return at its end, if it has none yet. -/
def withReturn (code : List Instruction) : Plan (List Instruction) := do
  if code.getLast?.map (·.op) = some .ret then return code
  else return code ++ [.to .loadConst (← constant .null), ⟨.ret, .null⟩]

/-- Plans a routine and enters its code into the table. -/
def routine (name : String) (parameters : List String) (body : Plan Shape) : Plan Unit := do
  let outer := (← get).locals
  modify fun sc => { sc with locals := some (Slots.ofParameters parameters) }
  let shape ← body
  let code ← withReturn (shape.layout 0)
  modify fun sc => { sc with
    routines := Generator.putRoutine ⟨name, parameters, sc.locals.getD [], code.toArray⟩ sc.routines
    locals := outer }

/-- Runs a plan with the mark for conditional loops set, and sets it back. -/
def withLoop (inWhile : Bool) (body : Plan Shape) : Plan Shape := do
  let outer := (← get).inWhile
  modify fun sc => { sc with inWhile }
  let shape ← body
  modify fun sc => { sc with inWhile := outer }
  return shape

mutual

/-- Plans a statement. -/
def statement : Stmt → Plan Shape
  | .expression e => (expression e).andThen (op .pop)
  | .assign target value => (expression value).andThen (assignName target)
  | .assignMember object word value =>
    (expression object).andThen ((expression value).andThen
      ((loadConst (.str word)).andThen (op .setAttr)))
  | .assignIndex object index value =>
    (expression object).andThen ((expression index).andThen
      ((expression value).andThen (op .setItem)))
  | .declare name value hint =>
    (match value with
    | some e => expression e
    | none => loadConst (Gen.initialValue hint)).andThen (storeName name)
  | .function name parameters body => do
    routine name parameters (statements body)
    Plan.andThen (do opAt .loadFunc (← constant (.str name))) (storeName name)
  | .classDef name body => do
    let table ← methods name [] body
    (loadConst (.dict table)).andThen
      (Plan.andThen (do opAt .createClass (← constant (.str name))) (storeName name))
  | .branch condition thenBody elifs elseBody => do
    let c ← expression condition
    let b ← statements thenBody
    let more ← elifClauses elifs
    let last ← (match elseBody with
      | some body => statements body
      | none => pure .nothing)
    if elifs.isEmpty && (elseBody.getD []).isEmpty then return c.seq (.guarded b)
    else return .chain ((c, b) :: more) last
  | .forLoop target iterable body =>
    (expression iterable).andThen ((op .getIter).andThen
      (into .forLoop ((storeName target).andThen (withLoop false (statements body)))))
  | .whileLoop condition body => do
    let c ← expression condition
    return .whileLoop c (← withLoop true (statements body))
  | .repeatLoop condition body =>
    into .repeatLoop ((statements body).andThen (expression condition))
  | .switch subject cases _ => do
    let s ← expression subject
    let clauses ← caseClauses cases
    let last ← (defaultClause cases).andThen (op .pop)
    return s.seq (.chain clauses last)
  | .importModule source items =>
    (loadConst (.str source)).andThen
      (match items with
      | some (first :: rest) =>
        (loadConst (.list ((first :: rest).map .str))).andThen
          ((op .importFrom).andThen (each storeName (first :: rest)))
      | _ => (op .importModule).andThen (storeName source))
  | .returnValue value =>
    (match value with
    | some e => expression e
    | none => loadConst .null).andThen (op .ret)
  | .breakLoop | .continueLoop => do
    if (← get).inWhile then return .one ⟨.jump, .int (-1)⟩ else return .nothing
  | .tryBlock body catches finallyBody =>
    (op .tryBegin).andThen ((statements body).andThen ((op .tryEnd).andThen
      ((catchClauses catches).andThen
        (match finallyBody with
        | some (first :: rest) =>
          (op .finallyBegin).andThen ((statements (first :: rest)).andThen (op .finallyEnd))
        | _ => return .nothing))))
  | .throwValue e => (expression e).andThen (op .throwTop)
  | .asyncFunction _ _ _ | .decorated _ _ _ _ | .withBlock _ _ _ | .globals _ | .nonlocals _
  | .assertion _ _ | .deletion _ | .pass | .inert => return .nothing

/-- Plans statements one after another. -/
def statements : List Stmt → Plan Shape
  | [] => return .nothing
  | s :: rest => (statement s).andThen (statements rest)

/-- Plans the functions of a class; yields the table of their names. -/
def methods (name : String) (table : List (Datum × Datum)) :
    List Stmt → Plan (List (Datum × Datum))
  | [] => return table
  | .function method parameters body :: rest => do
    let full := name ++ "." ++ method
    routine full parameters (statements body)
    methods name (Datum.enter (.str method) (.str full) table) rest
  | _ :: rest => methods name table rest

/-- Plans further alternatives. -/
def elifClauses : List (Expr × List Stmt) → Plan (List (Shape × Shape))
  | [] => return []
  | (condition, body) :: rest => do
    let c ← expression condition
    let b ← statements body
    return (c, b) :: (← elifClauses rest)

/-- Plans the cases that have a value. -/
def caseClauses : List (Option Expr × List Stmt) → Plan (List (Shape × Shape))
  | [] => return []
  | (none, _) :: rest => caseClauses rest
  | (some value, body) :: rest => do
    let c ← (op .dup).andThen ((expression value).andThen (op .eq))
    let b ← statements body
    return (c, b) :: (← caseClauses rest)

/-- Plans the first case that has no value. -/
def defaultClause : List (Option Expr × List Stmt) → Plan Shape
  | [] => return .nothing
  | (none, body) :: _ => statements body
  | (some _, _) :: rest => defaultClause rest

/-- Plans catch clauses one after another. -/
def catchClauses : List (Option String × Option String × List Stmt) → Plan Shape
  | [] => return .nothing
  | (type, target, body) :: rest =>
    (match type.filter (· ≠ "") with
      | some name => do opAt .catchBegin (← constant (.str name))
      | none => op .catchBegin).andThen
    ((match target.filter (· ≠ "") with
      | some name => storeName name
      | none => op .pop).andThen
    ((statements body).andThen ((op .catchEnd).andThen (catchClauses rest))))

end

/-- Plans a whole program. -/
def program (p : Program) : Except CompileError (Shape × Scope) := (statements p).run {}

end Plan

end StackScript
