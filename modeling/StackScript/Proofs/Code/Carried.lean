import Mathlib.Data.List.Nodup
import StackScript.Proofs.Code.Growth

/-!
# What passes from programs to their code

A plan changes the tables and yields code. Many relations between the tables before and after hold
of each entry that is made and of one change after the other, and many properties of code pass from
its parts to the whole. Such a relation and such a property hold of the plan of every program whose
statements and expressions satisfy what is asked of them, part by part.
-/

namespace StackScript

/-! ## Parts of trees -/

/-- The expressions right inside an expression, but for those in the text of a formatted literal. -/
def Expr.parts : Expr → List Expr
  | .binary left _ right => [left, right]
  | .unary _ operand => [operand]
  | .call function arguments => function :: arguments
  | .member object _ => [object]
  | .index object place => [object, place]
  | .list elements | .tuple elements => elements
  | .dict pairs => pairs.flatMap fun pair => [pair.1, pair.2]
  | .comprehension element _ iterable condition => iterable :: element :: condition.toList
  | .literal _ | .formatted _ | .name _ | .lambda _ _ | .await _ | .inert => []

/-- The expressions right inside a statement. -/
def Stmt.exprs : Stmt → List Expr
  | .expression e | .assign _ e | .throwValue e | .forLoop _ e _ | .whileLoop e _
  | .repeatLoop e _ => [e]
  | .declare _ value _ | .returnValue value => value.toList
  | .assignMember object _ value => [object, value]
  | .assignIndex object index value => [object, index, value]
  | .branch condition _ elifs _ => condition :: elifs.map (·.1)
  | .switch subject cases _ => subject :: cases.filterMap (·.1)
  | _ => []

/-- The statements right inside a statement that become part of the same code. -/
def Stmt.inner : Stmt → List Stmt
  | .branch _ thenBody elifs elseBody => thenBody ++ elifs.flatMap (·.2) ++ elseBody.getD []
  | .forLoop _ _ body | .whileLoop _ body | .repeatLoop _ body => body
  | .switch _ cases _ => cases.flatMap (·.2)
  | .tryBlock body catches last => body ++ catches.flatMap (·.2.2) ++ last.getD []
  | _ => []

attribute [local simp] Expr.parts Stmt.exprs Stmt.inner

/-- The mark for conditional loops inside a statement. -/
def Stmt.mark (w : Bool) : Stmt → Bool
  | .forLoop _ _ _ => false
  | .whileLoop _ _ => true
  | _ => w

/-- The values of the pieces of a formatted literal. -/
def pieceValues (pieces : Datum) : List Datum :=
  match piecesOf pieces with
  | .ok items => items.filterMap fun item => (pieceField "value" item).toOption
  | .error _ => []

/-- The text of the expression in a piece of a formatted literal. -/
def pieceSource? (item : Datum) : Option String := do
  let type ← (pieceField "type" item).toOption
  if type.same (.str "expression") then
    let value ← (pieceField "value" item).toOption
    (holeSource value).toOption
  else none

/-- The texts of the expressions inside a formatted literal. -/
def holeSources (d : Datum) : List String :=
  match piecesOf d with
  | .ok items => items.filterMap pieceSource?
  | .error _ => []

/-- A set of constants that holds what any program may need: texts, lists and tables of them, and
the values of declarations without one. -/
structure Datum.Basic (A : Datum → Prop) : Prop where
  null : A .null
  zero : A (.int 0)
  initial : ∀ hint, A (Gen.initialValue hint)
  text : ∀ s, A (.str s)
  texts : ∀ names : List String, A (.list (names.map .str))
  table : ∀ fields : List (String × String), (fields.map (·.1)).Nodup →
    A (.dict (fields.map fun f => (.str f.1, .str f.2)))

theorem Datum.basic_all : Datum.Basic fun _ => True :=
  ⟨trivial, trivial, fun _ => trivial, fun _ => trivial, fun _ => trivial, fun _ _ => trivial⟩

/-! ## Relations and properties -/

/-- A relation between tables that holds of each entry, for constants of a set, and of one change
after the other. -/
structure Scope.Rule (A : Datum → Prop) (R : Scope → Scope → Prop) : Prop where
  refl : ∀ sc, R sc sc
  trans : ∀ {sc sc₁ sc₂}, R sc sc₁ → R sc₁ sc₂ → R sc sc₂
  inWhile : ∀ {sc sc'}, R sc sc' → sc'.inWhile = sc.inWhile
  pushConstant : ∀ {d} sc, A d → R sc { sc with constants := sc.constants.push d }
  putGlobal : ∀ {sc name}, sc.globals.slot? name = none →
    R sc { sc with globals := sc.globals.put name sc.globals.length }
  putLocal : ∀ {sc name slots}, sc.locals = some slots → slots.slot? name = none →
    R sc { sc with locals := some (slots.put name slots.length) }
  loop : ∀ {sc sc₁ w}, R { sc with inWhile := w } sc₁ → R sc { sc₁ with inWhile := sc.inWhile }

/-- An instruction of the wide set whose operand is null or a whole number. -/
structure Instruction.Legible (i : Instruction) : Prop where
  op : i.op ≠ .typeCheck
  operand : i.operand = .null ∨ ∃ n : Int, i.operand = .int n

theorem Instruction.Legible.to {op : Opcode} (h : op ≠ .typeCheck) (n : Nat) :
    (Instruction.to op n).Legible :=
  ⟨h, .inr ⟨n, rfl⟩⟩

/-- The instructions in the code of expressions, besides jumps and the appending of a loop. -/
def Opcode.evaluating : List Opcode :=
  [.loadConst, .loadFunc, .loadGlobal, .loadLocal, .storeGlobal, .storeLocal, .negate, .formatValue,
    .getIter, .call, .callMethod, .getAttr, .buildList, .buildTuple, .buildDict] ++ Opcode.joins

/-- The other instructions of statements, besides jumps. -/
def Opcode.acting : List Opcode :=
  [.pop, .dup, .setAttr, .setItem, .createClass, .importModule, .importFrom, .ret, .throwTop]

/-- The instructions of try blocks and of what belongs to them. -/
def Opcode.guarding : List Opcode :=
  [.tryBegin, .tryEnd, .catchBegin, .catchEnd, .finallyBegin, .finallyEnd, .reraise]

/-- A property of code that passes from the parts of an expression to the whole. -/
structure Shape.Carried (P : Shape → Prop) : Prop where
  nothing : P .nothing
  one : ∀ i : Instruction, i.op ∈ Opcode.evaluating → i.Legible → P (.one i)
  seq : ∀ {a b}, P a → P b → P (a.seq b)
  guarded : ∀ {a}, P a → P (.guarded a)
  append : P (.one ⟨.listAppend, .null⟩)
  forLoop : ∀ {a}, P a → P (.forLoop a)

/-- A property of code that passes from the parts of a statement to the whole, where there may be
`tries` or not. -/
structure Shape.Composed (tries : Prop) (P : Shape → Prop) : Prop
    extends Shape.Carried P where
  act : ∀ i : Instruction, i.op ∈ Opcode.acting → i.Legible → P (.one i)
  guard : tries → ∀ i : Instruction, i.op ∈ Opcode.guarding → i.Legible → P (.one i)
  choice : ∀ {a b}, P a → P b → P (.choice a b)
  whileLoop : ∀ {a b}, P a → P b → P (.whileLoop a b)
  repeatLoop : ∀ {a}, P a → P (.repeatLoop a)

theorem Shape.Composed.chain {tries : Prop} {P : Shape → Prop} (hP : Shape.Composed tries P)
    {last : Shape} (hlast : P last) :
    ∀ {clauses : List (Shape × Shape)}, (∀ clause ∈ clauses, P clause.1 ∧ P clause.2) →
      P (Shape.chain clauses last)
  | [], _ => hlast
  | (c, b) :: rest, h => by
    obtain ⟨⟨hc, hb⟩, hrest⟩ := List.forall_mem_cons.1 h
    exact hP.seq hc (hP.choice hb (hP.chain hlast hrest))

/-- What all instructions have passes from parts to the whole. -/
theorem Shape.composed_all {tries : Prop} {P : Instruction → Prop}
    (hone : ∀ i : Instruction, i.op ∈ .listAppend :: Opcode.evaluating ++ Opcode.acting →
      i.Legible → P i)
    (hguard : tries → ∀ i : Instruction, i.op ∈ Opcode.guarding → i.Legible → P i) :
    Shape.Composed tries (Shape.All P) where
  nothing := trivial
  one i h := hone i (by simp [h])
  seq := .intro
  guarded := id
  append := hone _ (by decide : Opcode.listAppend ∈ _) ⟨nofun, .inl rfl⟩
  forLoop := id
  act i h := hone i (by simp [h])
  guard := hguard
  choice := .intro
  whileLoop := .intro
  repeatLoop := id

/-! ## Plans -/

/-- From tables with the mark `w` for conditional loops the plan changes them as demanded, and its
result satisfies `P`. -/
def Plan.Carries {α : Type} (R : Scope → Scope → Prop) (w : Bool) (x : Plan α) (P : α → Prop) :
    Prop :=
  ∀ sc a sc', sc.inWhile = w → x sc = .ok (a, sc') → R sc sc' ∧ P a

namespace Plan.Carries

variable {α β : Type} {A : Datum → Prop} {R : Scope → Scope → Prop} {w : Bool}

section Rules

variable (hR : Scope.Rule A R) {P : α → Prop} {Q : β → Prop}
include hR

theorem value {a : α} (h : P a) : Carries R w (pure a) P := by
  intro sc b sc' hw hrun
  cases hrun
  exact ⟨hR.refl sc, h⟩

theorem lift {x : Except CompileError α} (h : ∀ a, x = .ok a → P a) :
    Carries R w (Plan.lift x) P := by
  intro sc b sc' hw hrun
  cases x with
  | error e => cases hrun
  | ok a =>
    cases hrun
    exact ⟨hR.refl sc, h b rfl⟩

theorem lifted (x : Except CompileError α) : Carries R w (Plan.lift x) (x = .ok ·) :=
  lift hR fun _ h => h

theorem bind {x : Plan α} {f : α → Plan β} (hx : Carries R w x P)
    (hf : ∀ a, P a → Carries R w (f a) Q) : Carries R w (x >>= f) Q := by
  intro sc b sc' hw hrun
  obtain ⟨a, sc₁, hx', hrun⟩ := Plan.bind_ok.1 hrun
  obtain ⟨h₁, ha⟩ := hx sc a sc₁ hw hx'
  obtain ⟨h₂, hb⟩ := hf a ha sc₁ b sc' ((hR.inWhile h₁).trans hw) hrun
  exact ⟨hR.trans h₁ h₂, hb⟩

theorem constant {d : Datum} (hd : A d) : Carries R w (Plan.constant d) fun _ => True := by
  intro sc i sc' hw hrun
  unfold Plan.constant at hrun
  split at hrun
  · cases hrun
    exact ⟨hR.refl sc, trivial⟩
  · cases hrun
    exact ⟨hR.pushConstant sc hd, trivial⟩

theorem globalSlot (name : String) : Carries R w (Plan.globalSlot name) fun _ => True := by
  intro sc i sc' hw hrun
  unfold Plan.globalSlot at hrun
  split at hrun
  · cases hrun
    exact ⟨hR.refl sc, trivial⟩
  · rename_i hnew
    cases hrun
    exact ⟨hR.putGlobal hnew, trivial⟩

theorem localSlot (name : String) : Carries R w (Plan.localSlot name) fun _ => True := by
  intro sc i sc' hw hrun
  unfold Plan.localSlot at hrun
  split at hrun
  · cases hrun
  · rename_i slots hslots
    split at hrun
    · cases hrun
      exact ⟨hR.refl sc, trivial⟩
    · rename_i hnew
      cases hrun
      exact ⟨hR.putLocal hslots hnew, trivial⟩

theorem withReturn {code : List Instruction} {Q : Instruction → Prop} (hnull : A .null)
    (hcode : ∀ i ∈ code, Q i) (hload : ∀ k, Q (.to .loadConst k)) (hret : Q ⟨.ret, .null⟩) :
    Carries R w (Plan.withReturn code) fun code' => ∀ i ∈ code', Q i := by
  unfold Plan.withReturn
  split
  · exact value hR hcode
  · refine bind hR (constant hR hnull) fun k _ => value hR fun i hi => ?_
    rcases List.mem_append.1 hi with hi | hi
    · exact hcode i hi
    · simp only [List.mem_cons, List.not_mem_nil, or_false] at hi
      rcases hi with rfl | rfl
      · exact hload k
      · exact hret

/-- A routine is entered with its code, and the locals of the place are as before. -/
theorem routine {name : String} {parameters : List String} {body : Plan Shape} {P : Shape → Prop}
    {Q : List Instruction → Prop} (hbody : Carries R w body P)
    (hreturn : ∀ shape, P shape → Carries R w (Plan.withReturn (shape.layout 0)) Q)
    (hput : ∀ {sc sc₁ code}, R { sc with locals := some (Slots.ofParameters parameters) } sc₁ →
      Q code → R sc { sc₁ with
        routines := Generator.putRoutine ⟨name, parameters, sc₁.locals.getD [], code.toArray⟩
          sc₁.routines
        locals := sc.locals }) :
    Carries R w (Plan.routine name parameters body) fun _ => True := by
  intro sc a sc' hw hrun
  let sc₀ : Scope := { sc with locals := some (Slots.ofParameters parameters) }
  obtain ⟨shape, sc₁, code, sc₂, hshape, hcode, rfl⟩ := Plan.routine_ok hrun
  obtain ⟨h₁, hP⟩ := hbody sc₀ shape sc₁ hw hshape
  obtain ⟨h₂, hQ⟩ := hreturn shape hP _ _ _ ((hR.inWhile h₁).trans hw) hcode
  exact ⟨hput (hR.trans h₁ h₂) hQ, trivial⟩

theorem withLoop {p : Plan Shape} {P : Shape → Prop} {w' : Bool} (hp : Carries R w' p P) :
    Carries R w (Plan.withLoop w' p) P := by
  intro sc s sc' hw hrun
  obtain ⟨sc₁, hshape, rfl⟩ := Plan.withLoop_ok hrun
  obtain ⟨h, hs⟩ := hp _ _ _ rfl hshape
  exact ⟨hR.loop h, hs⟩

end Rules

theorem failing {P : α → Prop} (e : CompileError) : Carries R w (throw e) P := by
  intro sc b sc' hw hrun
  cases hrun

theorem inspect {f : Scope → Plan α} {P : α → Prop}
    (hf : ∀ sc, sc.inWhile = w → Carries R w (f sc) P) : Carries R w (get >>= f) P :=
  fun sc a sc' hw hrun => hf sc hw sc a sc' hw hrun

theorem weaken {x : Plan α} {P Q : α → Prop} (h : Carries R w x P) (hPQ : ∀ a, P a → Q a) :
    Carries R w x Q :=
  fun sc a sc' hw hrun => (h sc a sc' hw hrun).imp_right (hPQ a)

variable (hR : Scope.Rule A R) {P : Shape → Prop}

section Names

include hR

/-- What holds of the second part may depend on the first one. -/
theorem before {p q : Plan Shape} {Q T : Shape → Prop} (hp : Carries R w p Q)
    (hq : ∀ a, Q a → Carries R w q fun b => T (a.seq b)) : Carries R w (p.andThen q) T :=
  bind hR hp fun a ha => bind hR (hq a ha) fun _ hb => value hR hb

theorem into {p : Plan Shape} {frame : Shape → Shape} (hp : Carries R w p P)
    (h : ∀ {a}, P a → P (frame a)) : Carries R w (Plan.into frame p) P :=
  bind hR hp fun _ ha => value hR (h ha)

variable {opcode : Opcode}

theorem opFound {x : Plan Nat} (hx : Carries R w x fun _ => True) (g : Nat → Nat)
    (h : ∀ n, P (.one (.to opcode n))) : Carries R w (do Plan.opAt opcode (g (← x))) P :=
  bind hR hx fun n _ => value hR (h (g n))

variable (hone : ∀ i : Instruction, i.op ∈ Opcode.evaluating → i.Legible → P (.one i))
include hone

omit hR in
theorem number (h : opcode ∈ Opcode.evaluating) (n : Nat) : P (.one (.to opcode n)) := by
  refine hone _ h (.to ?_ n)
  rintro rfl
  exact absurd h (by decide)

theorem op (h : opcode ∈ Opcode.evaluating) : Carries R w (Plan.op opcode) P := by
  refine value hR (hone _ h ⟨?_, .inl rfl⟩)
  rintro rfl
  exact absurd h (by decide)

theorem opAt (h : opcode ∈ Opcode.evaluating) (n : Nat) : Carries R w (Plan.opAt opcode n) P :=
  value hR (number hone h n)

theorem loadConst {d : Datum} (hd : A d) : Carries R w (Plan.loadConst d) P :=
  opFound hR (constant hR hd) id (number hone (by decide))

theorem storeName (name : String) : Carries R w (Plan.storeName name) P := by
  refine inspect fun sc _ => ?_
  split
  · exact opFound hR (localSlot hR name) id (number hone (by decide))
  · exact opFound hR (globalSlot hR name) id (number hone (by decide))

theorem loadName (name : String) : Carries R w (Plan.loadName name) P := by
  refine inspect fun sc _ => ?_
  split
  · exact opAt hR hone (by decide) _
  · exact opFound hR (globalSlot hR name) id (number hone (by decide))

theorem loadCallee {name : String} (hname : A (.str name)) :
    Carries R w (Plan.loadCallee name) P := by
  refine inspect fun sc _ => ?_
  split
  · exact opAt hR hone (by decide) _
  · refine inspect fun sc _ => ?_
    split
    · exact opAt hR hone (by decide) _
    · exact loadConst hR hone hname

theorem assignName (name : String) : Carries R w (Plan.assignName name) P := by
  refine inspect fun sc _ => ?_
  split
  · refine inspect fun sc _ => ?_
    split
    · exact opAt hR hone (by decide) _
    · exact opFound hR (localSlot hR name) id (number hone (by decide))
  · exact opFound hR (globalSlot hR name) id (number hone (by decide))

theorem binaryOp (operator : String) : Carries R w (Plan.binaryOp operator) P := by
  unfold Plan.binaryOp
  cases h : binaryOpcode? operator with
  | some opcode => exact op hR hone (List.mem_append_right _ (joins_of_binaryOpcode? h))
  | none => exact failing _

end Names

end Plan.Carries

/-! ## Expressions -/

/-- What is asked of expressions is asked of their parts, and constants are of a set. -/
structure Expr.Asked (A : Datum → Prop) (E : Expr → Prop) : Prop where
  parts : ∀ {e}, E e → ∀ part ∈ e.parts, E part
  literal : ∀ {d}, E (.literal d) → A d
  pieces : ∀ {d}, E (.formatted d) → ∀ v ∈ pieceValues d, A v
  holes : ∀ {d}, E (.formatted d) → ∀ source ∈ holeSources d, ∀ e,
    Gen.expressionOf source = .ok e → E e

theorem Expr.asked_any : Expr.Asked (fun _ => True) fun _ => True :=
  ⟨fun _ _ _ => trivial, fun _ => trivial, fun _ _ _ => trivial, fun _ _ _ _ _ => trivial⟩

/-- A relation between tables and a property of code, for expressions of which enough is asked. -/
structure Expr.Carried (A : Datum → Prop) (R : Scope → Scope → Prop) (E : Expr → Prop)
    (P : Shape → Prop) : Prop where
  rule : Scope.Rule A R
  basic : Datum.Basic A
  shape : Shape.Carried P
  asked : Expr.Asked A E

namespace Expr.Carried

open Plan (Carries)

variable {A : Datum → Prop} {R : Scope → Scope → Prop} {w : Bool} {E : Expr → Prop}
  {P : Shape → Prop} (K : Expr.Carried A R E P)
include K

theorem seq {p q : Plan Shape} (hp : Carries R w p P) (hq : Carries R w q P) :
    Carries R w (p.andThen q) P :=
  .before K.rule hp fun _ ha => hq.weaken fun _ hb => K.shape.seq ha hb

theorem nothing : Carries R w (pure .nothing) P := .value K.rule K.shape.nothing

variable {opcode : Opcode} {d : Datum}

theorem op (h : opcode ∈ Opcode.evaluating) : Carries R w (Plan.op opcode) P :=
  .op K.rule K.shape.one h

theorem opAt (h : opcode ∈ Opcode.evaluating) (n : Nat) : Carries R w (Plan.opAt opcode n) P :=
  .value K.rule (Carries.number K.shape.one h n)

theorem text (h : opcode ∈ Opcode.evaluating) (word : String) (g : Nat → Nat) :
    Carries R w (do Plan.opAt opcode (g (← Plan.constant (.str word)))) P :=
  .opFound K.rule (.constant K.rule (K.basic.text word)) g (Carries.number K.shape.one h)

theorem loadConst (hd : A d) : Carries R w (Plan.loadConst d) P :=
  .loadConst K.rule K.shape.one hd

theorem storeName (name : String) : Carries R w (Plan.storeName name) P :=
  .storeName K.rule K.shape.one name

theorem each {α : Type} {f : α → Plan Shape} : ∀ items : List α,
    (∀ x ∈ items, Carries R w (f x) P) → Carries R w (Plan.each f items) P
  | [], _ => K.nothing
  | x :: rest, h => K.seq (h x (by simp)) (each rest fun y hy => h y (by simp [hy]))

theorem comprehension {iterable body : Plan Shape} (hi : Carries R w iterable P)
    (target : String) (hb : Carries R w body P) :
    Carries R w ((Plan.opAt .buildList 0).andThen (iterable.andThen ((Plan.op .getIter).andThen
      (Plan.into .forLoop ((Plan.storeName target).andThen body))))) P :=
  K.seq (K.opAt (by decide) 0) (K.seq hi (K.seq (K.op (by decide))
    (.into K.rule (K.seq (K.storeName target) hb) K.shape.forLoop)))

variable {embedded : String → Plan Shape} {d : Datum}

theorem piece (hemb : ∀ source, (∀ e, Gen.expressionOf source = .ok e → E e) →
      Carries R w (embedded source) P)
    (hvalue : ∀ v, pieceField "value" d = .ok v → A v)
    (hhole : ∀ source, pieceSource? d = some source → ∀ e, Gen.expressionOf source = .ok e → E e) :
    Carries R w (Plan.piece embedded d) P := by
  refine .bind K.rule (.lifted K.rule _) fun type htype => ?_
  split
  · exact .bind K.rule (.lifted K.rule _) fun v hv => K.loadConst (hvalue v hv)
  · split
    · rename_i hexpression
      refine .bind K.rule (.lifted K.rule _) fun v hv => ?_
      refine .bind K.rule (.lifted K.rule _) fun source hsource => ?_
      refine K.seq (hemb source (hhole source ?_)) (K.op (by decide))
      simp [pieceSource?, htype, hexpression, hv, hsource, Except.toOption]
    · exact K.nothing

theorem formatted (hemb : ∀ source, (∀ e, Gen.expressionOf source = .ok e → E e) →
      Carries R w (embedded source) P)
    (h : E (.formatted d)) : Carries R w (Plan.formatted embedded d) P := by
  refine .bind K.rule (.lifted K.rule _) fun items hitems => ?_
  refine K.seq (K.each items fun item hitem => ?_) (K.each _ fun _ _ => K.op (by decide))
  refine K.piece hemb (fun v hv => K.asked.pieces h v ?_) fun source hsource =>
    K.asked.holes h source ?_
  · rw [pieceValues, hitems]
    exact List.mem_filterMap.2 ⟨item, hitem, by simp [hv, Except.toOption]⟩
  · rw [holeSources, hitems]
    exact List.mem_filterMap.2 ⟨item, hitem, hsource⟩

mutual

theorem expr (hemb : ∀ source, (∀ e, Gen.expressionOf source = .ok e → E e) →
      Carries R w (embedded source) P) :
    ∀ e : Expr, E e → Carries R w (Plan.expr embedded e) P
  | .literal _, h => K.loadConst (K.asked.literal h)
  | .formatted _, h => K.formatted hemb h
  | .name word, _ => .loadName K.rule K.shape.one word
  | .binary left operator right, h =>
    K.seq (expr hemb left (K.asked.parts h _ (by simp)))
      (K.seq (expr hemb right (K.asked.parts h _ (by simp)))
        (.binaryOp K.rule K.shape.one operator))
  | .unary operator operand, h => by
    have ih := expr hemb operand (K.asked.parts h _ (by simp))
    show Carries R w (if operator == "not" then _ else if operator == "-" then _ else
      if operator == "+" then _ else _) P
    split
    · exact K.seq ih (K.op (by decide))
    · split
      · exact K.seq (K.loadConst K.basic.zero) (K.seq ih (K.op (by decide)))
      · split
        · exact ih
        · exact .failing _
  | .call function arguments, h => by
    have hargs := exprs hemb arguments fun a ha => K.asked.parts h a (by simp [ha])
    have hcall := K.seq hargs (K.opAt (by decide : Opcode.call ∈ _) arguments.length)
    have hf : E function := K.asked.parts h _ (by simp)
    cases function with
    | member object word =>
      exact K.seq (expr hemb object (K.asked.parts hf _ (by simp)))
        (K.seq hargs (K.text (by decide) word _))
    | name word => exact K.seq (.loadCallee K.rule K.shape.one (K.basic.text word)) hcall
    | _ => exact K.seq (expr hemb _ hf) hcall
  | .member object word, h =>
    K.seq (expr hemb object (K.asked.parts h _ (by simp))) (K.text (by decide) word id)
  | .index object place, h =>
    K.seq (expr hemb object (K.asked.parts h _ (by simp)))
      (K.seq (expr hemb place (K.asked.parts h _ (by simp))) (K.op (by decide)))
  | .list elements, h | .tuple elements, h =>
    K.seq (exprs hemb elements (K.asked.parts h)) (K.opAt (by decide) _)
  | .dict pairs, h => K.seq (exprPairs hemb pairs (K.asked.parts h)) (K.opAt (by decide) _)
  | .comprehension element target iterable none, h =>
    K.comprehension (expr hemb iterable (K.asked.parts h _ (by simp)))
      target (K.seq (expr hemb element (K.asked.parts h _ (by simp)))
        (.value K.rule K.shape.append))
  | .comprehension element target iterable (some c), h =>
    K.comprehension (expr hemb iterable (K.asked.parts h _ (by simp)))
      target (K.seq (expr hemb c (K.asked.parts h _ (by simp))) (.into K.rule
        (K.seq (expr hemb element (K.asked.parts h _ (by simp)))
          (.value K.rule K.shape.append)) K.shape.guarded))
  | .lambda _ _, _ | .await _, _ | .inert, _ => K.nothing

theorem exprs (hemb : ∀ source, (∀ e, Gen.expressionOf source = .ok e → E e) →
      Carries R w (embedded source) P) :
    ∀ es : List Expr, (∀ e ∈ es, E e) → Carries R w (Plan.exprs embedded es) P
  | [], _ => K.nothing
  | e :: rest, h => K.seq (expr hemb e (h e (by simp))) (exprs hemb rest fun x hx => h x (by simp [hx]))

theorem exprPairs (hemb : ∀ source, (∀ e, Gen.expressionOf source = .ok e → E e) →
      Carries R w (embedded source) P) :
    ∀ pairs : List (Expr × Expr),
    (∀ e ∈ pairs.flatMap fun pair => [pair.1, pair.2], E e) →
    Carries R w (Plan.exprPairs embedded pairs) P
  | [], _ => K.nothing
  | (key, value) :: rest, h =>
    K.seq (expr hemb key (h key (by simp))) (K.seq (expr hemb value (h value (by simp)))
      (exprPairs hemb rest fun x hx => h x (List.mem_append_right _ hx)))

end

theorem embeddedN : ∀ (fuel : Nat) (source : String),
    (∀ e, Gen.expressionOf source = .ok e → E e) → Carries R w (Plan.embeddedN fuel source) P
  | 0, _, _ => .failing _
  | fuel + 1, _, h => .bind K.rule (.lift K.rule h) fun e he => K.expr (embeddedN fuel) e he

theorem expression {e : Expr} (h : E e) : Carries R w (Plan.expression e) P :=
  K.expr (fun source => K.embeddedN _ source) e h

theorem optional (hd : A d) {value : Option Expr} (h : ∀ e ∈ value.toList, E e) :
    Carries R w
      (match value with
      | some e => Plan.expression e
      | none => Plan.loadConst d) P := by
  cases value with
  | none => exact K.loadConst hd
  | some e => exact K.expression (h e (by simp))

end Expr.Carried

/-! ## Statements -/

theorem Datum.enter_texts (key value : String) {fields : List (String × String)}
    (h : (fields.map (·.1)).Nodup) : ∃ fields' : List (String × String), (fields'.map (·.1)).Nodup ∧
      Datum.enter (.str key) (.str value) (fields.map fun f => (.str f.1, .str f.2)) =
        fields'.map fun f => (.str f.1, .str f.2) := by
  suffices hput : ∃ fields' : List (String × String),
      fields'.map (·.1) = (if key ∈ fields.map (·.1) then fields.map (·.1)
        else fields.map (·.1) ++ [key]) ∧
      Datum.enter (.str key) (.str value) (fields.map fun f => (.str f.1, .str f.2)) =
        fields'.map fun f => (.str f.1, .str f.2) by
    obtain ⟨fields', hkeys, hfields⟩ := hput
    refine ⟨fields', ?_, hfields⟩
    rw [hkeys]
    split
    · exact h
    · rename_i hnew
      simpa using List.Nodup.concat hnew h
  clear h
  induction fields with
  | nil => exact ⟨[(key, value)], rfl, rfl⟩
  | cons f fields ih =>
    by_cases hkey : f.1 = key
    · refine ⟨(f.1, value) :: fields, by simp [hkey], ?_⟩
      simp [Datum.enter, Datum.same, Datum.sameLeaf, hkey]
    · obtain ⟨fields', hkeys, hfields⟩ := ih
      have hne : key ≠ f.1 := fun heq => hkey heq.symm
      refine ⟨f :: fields', ?_, ?_⟩
      · simp only [List.map_cons, hkeys, List.mem_cons, hne, false_or]
        split <;> rfl
      · simp [Datum.enter, Datum.same, Datum.sameLeaf, hkey, hfields]

/-- What is asked of statements, with the mark for conditional loops, is asked of what is inside. Of
a try block and of a function either no more is asked than of their parts, or their plan is known to
be as demanded. -/
structure Stmt.Asked (R : Scope → Scope → Prop) (tries : Prop) (E : Expr → Prop)
    (C : Bool → Stmt → Prop) (P : Shape → Prop) : Prop where
  exprs : ∀ {w s}, C w s → ∀ e ∈ s.exprs, E e
  inner : ∀ {w s}, C w s → ∀ part ∈ s.inner, C (s.mark w) part
  out : ∀ {w s}, C w s → s = .breakLoop ∨ s = .continueLoop → P (.one ⟨.jump, .int (-1)⟩)
  attempt : ∀ {w body catches last}, C w (.tryBlock body catches last) →
    tries ∨ Plan.Carries R w (Plan.statement (.tryBlock body catches last)) P
  function : ∀ {w name parameters body}, C w (.function name parameters body) → ∀ full,
    (∀ s ∈ body, C w s) ∧ (Plan.Carries R w (Plan.statements body) P →
      Plan.Carries R w (Plan.routine full parameters (Plan.statements body)) fun _ => True) ∨
    Plan.Carries R w (Plan.routine full parameters (Plan.statements body)) fun _ => True
  method : ∀ {w name body}, C w (.classDef name body) → ∀ method parameters inside,
    .function method parameters inside ∈ body → C w (.function method parameters inside)

/-- A relation between tables and a property of code, for statements of which enough is asked. -/
structure Stmt.Carried (A : Datum → Prop) (R : Scope → Scope → Prop) (tries : Prop)
    (E : Expr → Prop) (C : Bool → Stmt → Prop) (P : Shape → Prop) : Prop
    extends Expr.Carried A R E P where
  composed : Shape.Composed tries P
  statement : Stmt.Asked R tries E C P

namespace Stmt.Carried

open Plan (Carries)

variable {A : Datum → Prop} {R : Scope → Scope → Prop} {tries : Prop} {E : Expr → Prop}
  {C : Bool → Stmt → Prop} {P : Shape → Prop} (K : Stmt.Carried A R tries E C P)
include K

section Instructions

variable {w : Bool}

theorem inside {s : Stmt} {e : Expr} (h : C w s) (he : e ∈ s.exprs) :
    Carries R w (Plan.expression e) P :=
  K.expression (K.statement.exprs h e he)

variable {body : List Stmt} {opcode : Opcode}

theorem act (h : opcode ∈ Opcode.acting) : Carries R w (Plan.op opcode) P := by
  refine .value K.rule (K.composed.act _ h ⟨?_, .inl rfl⟩)
  rintro rfl
  exact absurd h (by decide)

theorem guard (htries : tries) (h : opcode ∈ Opcode.guarding) : Carries R w (Plan.op opcode) P := by
  refine .value K.rule (K.composed.guard htries _ h ⟨?_, .inl rfl⟩)
  rintro rfl
  exact absurd h (by decide)

theorem out {s : Stmt} (h : C w s) (hs : s = .breakLoop ∨ s = .continueLoop) : Carries R w
    (do if (← get).inWhile then return .one ⟨.jump, .int (-1)⟩ else return .nothing) P := by
  refine .inspect fun sc _ => ?_
  split
  · exact .value K.rule (K.statement.out h hs)
  · exact K.nothing

theorem branch {test : Bool} {c b last : Plan Shape} {m : Plan (List (Shape × Shape))}
    (hc : Carries R w c P) (hb : Carries R w b P)
    (hm : Carries R w m fun clauses => ∀ clause ∈ clauses, P clause.1 ∧ P clause.2)
    (hl : Carries R w last P) :
    Carries R w
      (do
        let c ← c
        let b ← b
        let more ← m
        let last ← last
        if test then return c.seq (.guarded b) else return .chain ((c, b) :: more) last) P := by
  refine .bind K.rule hc fun c hc => .bind K.rule hb fun b hb => .bind K.rule hm fun more hmore =>
    .bind K.rule hl fun last hl => ?_
  split
  · exact .value K.rule (K.shape.seq hc (K.shape.guarded hb))
  · exact .value K.rule (K.composed.chain hl (List.forall_mem_cons.2 ⟨⟨hc, hb⟩, hmore⟩))

theorem routine {name : String} {parameters : List String}
    (h : C w (.function name parameters body)) (full : String)
    (hbody : (∀ s ∈ body, C w s) → Carries R w (Plan.statements body) P) :
    Carries R w (Plan.routine full parameters (Plan.statements body)) fun _ => True := by
  rcases K.statement.function h full with ⟨hparts, hroutine⟩ | hroutine
  · exact hroutine (hbody hparts)
  · exact hroutine

/-- The plan of a try block is as demanded, or its parts are. -/
theorem attempt {catches : List (Option String × Option String × List Stmt)}
    {last : Option (List Stmt)} {q : Plan Shape} (h : C w (.tryBlock body catches last))
    (hplan : Plan.statement (.tryBlock body catches last) = (Plan.op .tryBegin).andThen
      ((Plan.statements body).andThen
        ((Plan.op .tryEnd).andThen ((Plan.catchClauses catches).andThen q))))
    (hlast : tries → (∀ s ∈ last.getD [], C w s) → Carries R w q P)
    (hbody : (∀ s ∈ body, C w s) → Carries R w (Plan.statements body) P)
    (hcatches : tries → (∀ s ∈ catches.flatMap fun clause => clause.2.2, C w s) →
      Carries R w (Plan.catchClauses catches) P) :
    Carries R w (Plan.statement (.tryBlock body catches last)) P := by
  rcases K.statement.attempt h with htries | hwhole
  · have hinner := K.statement.inner h
    have hbody := hbody fun s hs => hinner s (by simp [hs])
    have hcatches := hcatches htries fun s hs =>
      hinner s (List.mem_append_left _ (List.mem_append_right _ hs))
    have hlast := hlast htries fun s hs => hinner s (List.mem_append_right _ hs)
    rw [hplan]
    exact K.seq (K.guard htries (by decide)) (K.seq hbody (K.seq (K.guard htries (by decide))
      (K.seq hcatches hlast)))
  · exact hwhole

end Instructions

mutual

theorem stmt {w : Bool} : ∀ s : Stmt, C w s → Carries R w (Plan.statement s) P
  | .expression e, h =>
    K.seq (K.inside h (by simp)) (K.act (by decide))
  | .assign target value, h =>
    K.seq (K.inside h (by simp))
      (.assignName K.rule K.shape.one target)
  | .assignMember object word value, h =>
    K.seq (K.inside h (by simp))
      (K.seq (K.inside h (by simp))
        (K.seq (K.loadConst (K.basic.text word)) (K.act (by decide))))
  | .assignIndex object index value, h =>
    K.seq (K.inside h (by simp))
      (K.seq (K.inside h (by simp))
        (K.seq (K.inside h (by simp)) (K.act (by decide))))
  | .declare name value hint, h =>
    K.seq (K.optional (K.basic.initial hint) (K.statement.exprs h)) (K.storeName name)
  | .function name parameters body, h =>
    .bind K.rule (K.routine h name (stmts body)) fun _ _ =>
      K.seq (K.text (by decide) name id) (K.storeName name)
  | .classDef name body, h =>
    .bind K.rule (methods name [] body List.nodup_nil (K.statement.method h))
      fun table ⟨fields, hnames, htable⟩ =>
        K.seq (K.loadConst (htable ▸ K.basic.table fields hnames))
          (K.seq (.opFound K.rule (.constant K.rule (K.basic.text name)) id fun n =>
            K.composed.act _ (by decide : Opcode.createClass ∈ _) (.to (by decide) n))
            (K.storeName name))
  | .branch condition thenBody elifs last, h => by
    have hcondition : Carries R w (Plan.expression condition) P := K.inside h (by simp)
    have hthen := stmts thenBody fun s hs => K.statement.inner h s (by simp [hs])
    have helifs := elifClauses elifs (fun c hc => K.statement.exprs h _ (by simp; grind))
      fun c hc s hs => K.statement.inner h s (by simp; grind)
    cases last with
    | none => exact K.branch hcondition hthen helifs K.nothing
    | some body =>
      have helse := stmts body fun s hs => K.statement.inner h s (by simp [hs])
      exact K.branch hcondition hthen helifs helse
  | .forLoop target iterable body, h =>
    K.seq (K.inside h (by simp)) (K.seq (K.op (by decide))
      (.into K.rule (K.seq (K.storeName target)
        (.withLoop K.rule (stmts body (K.statement.inner h)))) K.shape.forLoop))
  | .whileLoop condition body, h =>
    .bind K.rule (K.inside h (by simp)) fun _ hc =>
      .bind K.rule (.withLoop K.rule (stmts body (K.statement.inner h))) fun _ hb =>
        .value K.rule (K.composed.whileLoop hc hb)
  | .repeatLoop condition body, h =>
    .into K.rule (K.seq (stmts body (K.statement.inner h))
      (K.inside h (by simp))) K.composed.repeatLoop
  | .switch subject cases _, h =>
    .bind K.rule (K.inside h (by simp)) fun _ hs =>
      .bind K.rule (caseClauses cases
          (fun e he => K.statement.exprs h e (by simp [he]))
          (K.statement.inner h)) fun _ hclauses =>
        .bind K.rule (K.seq (defaultClause cases (K.statement.inner h)) (K.act (by decide)))
          fun _ hlast => .value K.rule (K.shape.seq hs (K.composed.chain hlast hclauses))
  | .importModule source (some (first :: rest)), _ =>
    K.seq (K.loadConst (K.basic.text source)) (K.seq (K.loadConst (K.basic.texts (first :: rest)))
      (K.seq (K.act (by decide)) (K.each _ fun name _ => K.storeName name)))
  | .importModule source (some []), _ | .importModule source none, _ =>
    K.seq (K.loadConst (K.basic.text source)) (K.seq (K.act (by decide)) (K.storeName source))
  | .returnValue value, h =>
    K.seq (K.optional K.basic.null (K.statement.exprs h)) (K.act (by decide))
  | .breakLoop, h => K.out h (.inl rfl)
  | .continueLoop, h => K.out h (.inr rfl)
  | .tryBlock body catches none, h | .tryBlock body catches (some []), h =>
    K.attempt h rfl (fun _ _ => K.nothing) (stmts body) fun ht => catchClauses ht catches
  | .tryBlock body catches (some (first :: rest)), h =>
    K.attempt h rfl (fun ht hs => K.seq (K.guard ht (by decide))
        (K.seq (stmts (first :: rest) hs) (K.guard ht (by decide))))
      (stmts body) fun ht => catchClauses ht catches
  | .throwValue e, h =>
    K.seq (K.inside h (by simp)) (K.act (by decide))
  | .asyncFunction _ _ _, _ | .decorated _ _ _ _, _ | .withBlock _ _ _, _ | .globals _, _
  | .nonlocals _, _ | .assertion _ _, _ | .deletion _, _ | .pass, _ | .inert, _ => K.nothing

theorem stmts {w : Bool} : ∀ body : List Stmt, (∀ s ∈ body, C w s) →
    Carries R w (Plan.statements body) P
  | [], _ => K.nothing
  | s :: rest, h =>
    K.seq (stmt s (h s (by simp))) (stmts rest fun x hx => h x (by simp [hx]))

theorem methods {w : Bool} (name : String) (fields : List (String × String)) :
    ∀ body : List Stmt, (fields.map (·.1)).Nodup → (∀ method parameters inside,
      .function method parameters inside ∈ body → C w (.function method parameters inside)) →
    Carries R w (Plan.methods name (fields.map fun f => (.str f.1, .str f.2)) body) fun table =>
      ∃ fields : List (String × String), (fields.map (·.1)).Nodup ∧
        table = fields.map fun f => (.str f.1, .str f.2)
  | [], hnames, _ => .value K.rule ⟨fields, hnames, rfl⟩
  | s :: rest, hnames, h => by
    have hrest := fun m ps b hmem => h m ps b (List.mem_cons_of_mem _ hmem)
    cases s with
    | function method parameters inside =>
      refine .bind K.rule (K.routine (h _ _ _ List.mem_cons_self) _ (stmts inside)) fun _ _ => ?_
      obtain ⟨fields', hnames', hfields'⟩ :=
        Datum.enter_texts method (name ++ "." ++ method) hnames
      rw [hfields']
      exact methods name fields' rest hnames' hrest
    | _ => exact methods name fields rest hnames hrest

theorem elifClauses {w : Bool} : ∀ elifs : List (Expr × List Stmt),
    (∀ clause ∈ elifs, E clause.1) → (∀ clause ∈ elifs, ∀ s ∈ clause.2, C w s) →
    Carries R w (Plan.elifClauses elifs) fun clauses => ∀ clause ∈ clauses, P clause.1 ∧ P clause.2
  | [], _, _ => .value K.rule nofun
  | (_, body) :: rest, he, hs =>
    .bind K.rule (K.expression (he _ List.mem_cons_self)) fun _ hc =>
      .bind K.rule (stmts body (hs _ List.mem_cons_self)) fun _ hb =>
        .bind K.rule (elifClauses rest (fun c hc => he c (List.mem_cons_of_mem _ hc))
          fun c hc => hs c (List.mem_cons_of_mem _ hc)) fun _ hmore =>
            .value K.rule (List.forall_mem_cons.2 ⟨⟨hc, hb⟩, hmore⟩)

theorem caseClauses {w : Bool} : ∀ cases : List (Option Expr × List Stmt),
    (∀ e ∈ cases.filterMap (·.1), E e) → (∀ s ∈ cases.flatMap fun clause => clause.2, C w s) →
    Carries R w (Plan.caseClauses cases) fun clauses => ∀ clause ∈ clauses, P clause.1 ∧ P clause.2
  | [], _, _ => .value K.rule nofun
  | (none, _) :: rest, he, hs =>
    caseClauses rest he fun s hs' => hs s (List.mem_append_right _ hs')
  | (some value, body) :: rest, he, hs =>
    .bind K.rule (K.seq (K.act (by decide)) (K.seq (K.expression (he value List.mem_cons_self))
      (K.op (by decide)))) fun _ hc =>
        .bind K.rule (stmts body fun s hs' => hs s (List.mem_append_left _ hs')) fun _ hb =>
          .bind K.rule (caseClauses rest (fun e h => he e (List.mem_cons_of_mem _ h))
            fun s hs' => hs s (List.mem_append_right _ hs')) fun _ hmore =>
              .value K.rule (List.forall_mem_cons.2 ⟨⟨hc, hb⟩, hmore⟩)

theorem defaultClause {w : Bool} : ∀ cases : List (Option Expr × List Stmt),
    (∀ s ∈ cases.flatMap fun clause => clause.2, C w s) → Carries R w (Plan.defaultClause cases) P
  | [], _ => K.nothing
  | (none, body) :: _, h => stmts body fun s hs => h s (List.mem_append_left _ hs)
  | (some _, _) :: rest, h =>
    defaultClause rest fun s hs => h s (List.mem_append_right _ hs)

theorem catchClauses {w : Bool} (htries : tries) :
    ∀ catches : List (Option String × Option String × List Stmt),
    (∀ s ∈ catches.flatMap fun clause => clause.2.2, C w s) →
    Carries R w (Plan.catchClauses catches) P
  | [], _ => K.nothing
  | (type, target, body) :: rest, h => by
    refine K.seq ?_ (K.seq ?_ (K.seq (stmts body fun s hs => h s (List.mem_append_left _ hs))
      (K.seq (K.guard htries (by decide))
        (catchClauses htries rest fun s hs => h s (List.mem_append_right _ hs)))))
    · split
      · exact .opFound K.rule (.constant K.rule (K.basic.text _)) id fun n =>
          K.composed.guard htries _ (by decide : Opcode.catchBegin ∈ _) (.to (by decide) n)
      · exact K.guard htries (by decide)
    · split
      · exact K.storeName _
      · exact K.act (by decide)

end

end Stmt.Carried

end StackScript
