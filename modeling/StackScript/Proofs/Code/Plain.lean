import StackScript.Code.Compile
import StackScript.Proofs.Tree.Results

/-!
# Plain programs

A program is plain when every expression in it stands for one value and every jump in it has a
target: it has no function without a name, no awaited expression, no formatted literal without
pieces, no `switch`, `try` or `throw`, no `return` outside a function, and no way out of a
conditional loop from inside. The expressions inside formatted literals obey the same, and the
parameters of a function are distinct.
-/

namespace StackScript

/-- An expression that stands for one value. -/
inductive Expr.Plain : Expr → Prop
  | literal {d : Datum} : Plain (.literal d)
  | formatted {pieces : Datum} : pieces ≠ .list [] →
      (∀ items source, pieces = .list items → Scanner.Piece.datum (.hole source) ∈ items →
        ∀ e, Gen.expressionOf source = .ok e → Plain e) → Plain (.formatted pieces)
  | name {word : String} : Plain (.name word)
  | binary {left right : Expr} {operator : String} : Plain left → Plain right →
      Plain (.binary left operator right)
  | unary {operand : Expr} {operator : String} : Plain operand → Plain (.unary operator operand)
  | call {function : Expr} {arguments : List Expr} : Plain function →
      (∀ a ∈ arguments, Plain a) → Plain (.call function arguments)
  | member {object : Expr} {word : String} : Plain object → Plain (.member object word)
  | index {object index : Expr} : Plain object → Plain index → Plain (.index object index)
  | list {elements : List Expr} : (∀ e ∈ elements, Plain e) → Plain (.list elements)
  | tuple {elements : List Expr} : (∀ e ∈ elements, Plain e) → Plain (.tuple elements)
  | dict {pairs : List (Expr × Expr)} : (∀ entry ∈ pairs, Plain entry.1) →
      (∀ entry ∈ pairs, Plain entry.2) → Plain (.dict pairs)
  | comprehension {element iterable : Expr} {target : String} {condition : Option Expr} :
      Plain element → Plain iterable → (∀ c ∈ condition, Plain c) →
      Plain (.comprehension element target iterable condition)

mutual

/-- A statement whose code leaves the stack as it was, if its expressions are of a kind. `inFunction`
tells whether it stands inside a function, `inWhile` whether a conditional loop encloses it without a
counted one between. -/
def Stmt.Plain (ok : Expr → Prop) (inFunction inWhile : Bool) : Stmt → Prop
  | .expression e => ok e
  | .declare _ value _ => ∀ e ∈ value, ok e
  | .assign _ value => ok value
  | .assignMember object _ value => ok object ∧ ok value
  | .assignIndex object index value => ok object ∧ ok index ∧ ok value
  | .function _ parameters body => parameters.Nodup ∧ Stmt.AllPlain ok true inWhile body
  | .classDef _ body => Stmt.MethodsPlain ok inWhile body
  | .branch condition thenBody elifs elseBody =>
    ok condition ∧ Stmt.AllPlain ok inFunction inWhile thenBody ∧
      Stmt.ElifsPlain ok inFunction inWhile elifs ∧
      (match elseBody with
      | some body => Stmt.AllPlain ok inFunction inWhile body
      | none => True)
  | .forLoop _ iterable body => ok iterable ∧ Stmt.AllPlain ok inFunction false body
  | .whileLoop condition body => ok condition ∧ Stmt.AllPlain ok inFunction true body
  | .repeatLoop condition body => ok condition ∧ Stmt.AllPlain ok inFunction inWhile body
  | .returnValue value => inFunction = true ∧ ∀ e ∈ value, ok e
  | .breakLoop | .continueLoop => inWhile = false
  | .switch _ _ _ | .tryBlock _ _ _ | .throwValue _ => False
  | .asyncFunction _ _ _ | .decorated _ _ _ _ | .withBlock _ _ _ | .importModule _ _ | .globals _
  | .nonlocals _ | .assertion _ _ | .deletion _ | .pass | .inert => True

/-- All statements are plain. -/
def Stmt.AllPlain (ok : Expr → Prop) (inFunction inWhile : Bool) : List Stmt → Prop
  | [] => True
  | s :: rest => s.Plain ok inFunction inWhile ∧ Stmt.AllPlain ok inFunction inWhile rest

/-- The functions of a class are plain. -/
def Stmt.MethodsPlain (ok : Expr → Prop) (inWhile : Bool) : List Stmt → Prop
  | [] => True
  | .function _ parameters body :: rest =>
    parameters.Nodup ∧ Stmt.AllPlain ok true inWhile body ∧ Stmt.MethodsPlain ok inWhile rest
  | _ :: rest => Stmt.MethodsPlain ok inWhile rest

/-- Further alternatives are plain. -/
def Stmt.ElifsPlain (ok : Expr → Prop) (inFunction inWhile : Bool) :
    List (Expr × List Stmt) → Prop
  | [] => True
  | (condition, body) :: rest =>
    ok condition ∧ Stmt.AllPlain ok inFunction inWhile body ∧
      Stmt.ElifsPlain ok inFunction inWhile rest

end

/-- A plain program. -/
def Program.Plain (p : Program) : Prop := Stmt.AllPlain Expr.Plain false false p

/-! ## Parts of plain trees -/

theorem Gen.woven_expressionOf {source : String} {e : Expr} (h : expressionOf source = .ok e) :
    e.Woven := by
  unfold expressionOf at h
  cases hscan : Token.scan source with
  | error cause => simp [hscan, Except.mapError, bind, Except.bind] at h
  | ok tokens =>
    simp only [hscan, Except.mapError, bind, Except.bind] at h
    split at h
    · rename_i hrun
      cases h
      exact (Reading.yields_expression _ _ _ (Reading.laced_of_scan hscan) hrun).2
    · cases h

theorem Stmt.AllPlain.mem {ok : Expr → Prop} {f w : Bool} : ∀ {body : List Stmt},
    Stmt.AllPlain ok f w body → ∀ s ∈ body, s.Plain ok f w
  | [], _ => nofun
  | _ :: _, h => List.forall_mem_cons.2 ⟨h.1, h.2.mem⟩

theorem Stmt.ElifsPlain.mem {ok : Expr → Prop} {f w : Bool} :
    ∀ {elifs : List (Expr × List Stmt)}, Stmt.ElifsPlain ok f w elifs →
      ∀ clause ∈ elifs, ok clause.1 ∧ Stmt.AllPlain ok f w clause.2
  | [], _ => nofun
  | _ :: _, h => List.forall_mem_cons.2 ⟨⟨h.1, h.2.1⟩, h.2.2.mem⟩

theorem Stmt.MethodsPlain.function {ok : Expr → Prop} {w : Bool} {name : String}
    {parameters : List String} {inside : List Stmt} : ∀ {body : List Stmt},
    Stmt.MethodsPlain ok w body → .function name parameters inside ∈ body →
      parameters.Nodup ∧ Stmt.AllPlain ok true w inside
  | s :: rest, h, hmem => by
    rcases List.mem_cons.1 hmem with rfl | hrest
    · exact ⟨h.1, h.2.1⟩
    · cases s with
      | function _ _ _ => exact MethodsPlain.function h.2.2 hrest
      | _ => exact @MethodsPlain.function _ _ _ _ _ rest h hrest

end StackScript
