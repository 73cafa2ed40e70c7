import StackScript.Datum.Basic

/-!
# Program trees

The tree of a program: expressions and statements. Operators keep the text by which they were
written. `inert` stands for a node that is neither: it takes part in a tree and does nothing.
-/

namespace StackScript

/-- An expression. -/
inductive Expr where
  | literal (value : Datum)
  | formatted (pieces : Datum)
  | name (name : String)
  | binary (left : Expr) (operator : String) (right : Expr)
  | unary (operator : String) (operand : Expr)
  | call (function : Expr) (arguments : List Expr)
  | member (object : Expr) (name : String)
  | index (object index : Expr)
  | list (elements : List Expr)
  | tuple (elements : List Expr)
  | dict (pairs : List (Expr × Expr))
  | comprehension (element : Expr) (target : String) (iterable : Expr) (condition : Option Expr)
  | lambda (parameters : List String) (body : Expr)
  | await (operand : Expr)
  | inert
  deriving Inhabited

/-- A statement. -/
inductive Stmt where
  | expression (e : Expr)
  | declare (name : String) (value : Option Expr) (hint : Option String)
  | assign (target : String) (value : Expr)
  | assignMember (object : Expr) (name : String) (value : Expr)
  | assignIndex (object index value : Expr)
  | function (name : String) (parameters : List String) (body : List Stmt)
  | asyncFunction (name : String) (parameters : List String) (body : List Stmt)
  | decorated (decorators : List (String × List Expr))
      (name : String) (parameters : List String) (body : List Stmt)
  | classDef (name : String) (body : List Stmt)
  | branch (condition : Expr) (thenBody : List Stmt) (elifs : List (Expr × List Stmt))
      (elseBody : Option (List Stmt))
  | forLoop (target : String) (iterable : Expr) (body : List Stmt)
  | whileLoop (condition : Expr) (body : List Stmt)
  | repeatLoop (condition : Expr) (body : List Stmt)
  | switch (subject : Expr) (cases : List (Option Expr × List Stmt))
      (defaultBody : Option (List Stmt))
  | withBlock (context : Expr) (target : Option String) (body : List Stmt)
  | importModule (source : String) (items : Option (List String))
  | returnValue (value : Option Expr)
  | breakLoop
  | continueLoop
  | globals (names : List String)
  | nonlocals (names : List String)
  | assertion (test : Expr) (message : Option Expr)
  | deletion (targets : List Expr)
  | pass
  | tryBlock (body : List Stmt)
      (catches : List (Option String × Option String × List Stmt))
      (finallyBody : Option (List Stmt))
  | throwValue (value : Expr)
  | inert
  deriving Inhabited

/-- One catch clause: the type it takes, the name it gives the exception, its body. -/
abbrev CatchClause := Option String × Option String × List Stmt

abbrev Program := List Stmt

end StackScript
