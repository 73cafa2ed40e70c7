import StackScript.Code.Compile
import StackScript.Proofs.Meaning.Interpreter

/-!
# The core language

The core language has declarations with a value, assignments to names, expression statements,
alternatives, loops and returns, over literals, names, operators, lists, tuples, items, comprehensions
and calls by name. `Rules` tells which literals and names may stand at a place. In a function a name of
its own is declared before it is used; `declared` lists the names that have been. Returns stand outside
of counted loops.
-/

namespace StackScript.Meaning

/-- What may stand at a place: the literals, the names of the main program, the names of functions,
and the names of the function at the place, none in the main program. -/
structure Rules where
  literal : Datum → Prop
  isGlobal : String → Prop
  functions : List String
  place : Place

namespace Rules

/-- May a name be read? A function's own names must have been declared. -/
def Reads (r : Rules) (declared : List String) (name : String) : Prop :=
  (name ∈ r.place.getD [] → name ∈ declared) ∧ (name ∉ r.place.getD [] → r.isGlobal name)

/-- May a name be bound? Functions bind only names of their own, and the main program does not bind
the names of functions. -/
def Binds (r : Rules) (name : String) : Prop :=
  match r.place with
  | none => r.isGlobal name ∧ name ∉ r.functions
  | some names => name ∈ names

/-- May something be called by a name? It is a function of the program, or one that every program can
call and whose name is no variable. -/
def Calls (r : Rules) (name : String) : Prop :=
  name ∈ r.functions ∨
    (Wide.plainFunction? name).isSome ∧ ¬ r.isGlobal name ∧ name ∉ r.place.getD []

section

variable (r : Rules) (declared : List String)

/-- An expression of the core language. -/
inductive Core : Expr → Prop
  | literal {d : Datum} (h : r.literal d) : Core (.literal d)
  | name {name : String} (h : r.Reads declared name) : Core (.name name)
  | binary {left right : Expr} {operator : String} (hop : (binaryOpcode? operator).isSome)
      (hl : Core left) (hr : Core right) : Core (.binary left operator right)
  | not {operand : Expr} (h : Core operand) : Core (.unary "not" operand)
  | minus {operand : Expr} (hzero : r.literal (.int 0)) (h : Core operand) :
      Core (.unary "-" operand)
  | plus {operand : Expr} (h : Core operand) : Core (.unary "+" operand)
  | index {object index : Expr} (ho : Core object) (hi : Core index) : Core (.index object index)
  | list {elements : List Expr} (h : ∀ e ∈ elements, Core e) : Core (.list elements)
  | tuple {elements : List Expr} (h : ∀ e ∈ elements, Core e) : Core (.tuple elements)
  | comprehension {element iterable : Expr} {target : String} {condition : Option Expr}
      (hplace : r.place = none) (htarget : r.Binds target) (hi : Core iterable)
      (hc : ∀ c ∈ condition, Core c) (he : Core element) :
      Core (.comprehension element target iterable condition)
  | call {name : String} {arguments : List Expr} (hname : r.Calls name)
      (h : ∀ e ∈ arguments, Core e) : Core (.call (.name name) arguments)

end

mutual

/-- A statement of the core language; the flag says whether it may return. -/
inductive CoreStmt (r : Rules) : Bool → List String → Stmt → Prop
  | expression {returns : Bool} {declared : List String} {e : Expr} (h : r.Core declared e) :
      CoreStmt r returns declared (.expression e)
  | declare {returns : Bool} {declared : List String} {name : String} {hint : Option String}
      {e : Expr} (h : r.Core declared e) (hname : r.Binds name) :
      CoreStmt r returns declared (.declare name (some e) hint)
  | assign {returns : Bool} {declared : List String} {name : String} {e : Expr}
      (h : r.Core declared e) (hname : r.Binds name) (hdeclared : r.place.isSome → name ∈ declared) :
      CoreStmt r returns declared (.assign name e)
  | branch {returns : Bool} {declared : List String} {condition : Expr} {body : List Stmt}
      {elifs : List (Expr × List Stmt)} {last : Option (List Stmt)}
      (h : CoreClauses r returns declared ((condition, body) :: elifs))
      (hlast : CoreBody r returns (declared ++ declaredAll body ++ declaredElifs elifs)
        (last.getD [])) :
      CoreStmt r returns declared (.branch condition body elifs last)
  | whileLoop {returns : Bool} {declared : List String} {condition : Expr} {body : List Stmt}
      (h : r.Core declared condition) (hbody : CoreBody r returns declared body) :
      CoreStmt r returns declared (.whileLoop condition body)
  | repeatLoop {returns : Bool} {declared : List String} {condition : Expr} {body : List Stmt}
      (hbody : CoreBody r returns declared body)
      (h : r.Core (declared ++ declaredAll body) condition) :
      CoreStmt r returns declared (.repeatLoop condition body)
  | forLoop {returns : Bool} {declared : List String} {target : String} {iterable : Expr}
      {body : List Stmt} (h : r.Core declared iterable) (htarget : r.Binds target)
      (hbody : CoreBody r false (declared ++ [target]) body) :
      CoreStmt r returns declared (.forLoop target iterable body)
  | returnValue {declared : List String} {e : Option Expr} (hplace : r.place.isSome)
      (h : ∀ v ∈ e, r.Core declared v) (hnone : e = none → r.literal .null) :
      CoreStmt r true declared (.returnValue e)

/-- Statements of the core language, each after the declarations of those before it. -/
inductive CoreBody (r : Rules) : Bool → List String → List Stmt → Prop
  | nil {returns : Bool} {declared : List String} : CoreBody r returns declared []
  | cons {returns : Bool} {declared : List String} {s : Stmt} {rest : List Stmt}
      (h : CoreStmt r returns declared s)
      (hrest : CoreBody r returns (declared ++ Meaning.declared s) rest) :
      CoreBody r returns declared (s :: rest)

/-- Alternatives of the core language. -/
inductive CoreClauses (r : Rules) : Bool → List String → List (Expr × List Stmt) → Prop
  | nil {returns : Bool} {declared : List String} : CoreClauses r returns declared []
  | cons {returns : Bool} {declared : List String} {condition : Expr} {body : List Stmt}
      {rest : List (Expr × List Stmt)} (h : r.Core declared condition)
      (hbody : CoreBody r returns declared body)
      (hrest : CoreClauses r returns (declared ++ declaredAll body) rest) :
      CoreClauses r returns declared ((condition, body) :: rest)

end

end Rules

end StackScript.Meaning
