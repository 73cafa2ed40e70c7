import StackScript.Datum.Tagged
import StackScript.Tree.Basic

/-!
# Outlines of trees

The outline of a tree is its plain form as data, for tools that show or exchange trees. Every node
is an object that names its kind under `_`, with a field for each of its parts.
-/

namespace StackScript

def outlineNode (kind : String) (fields : List (String × Datum)) : Datum :=
  .object (("_", .str kind) :: fields)

namespace Expr

mutual

def outline : Expr → Datum
  | literal .null => outlineNode "NoneLiteral" []
  | literal (.bool b) => outlineNode "BooleanLiteral" [("value", .bool b)]
  | literal (.str s) => outlineNode "StringLiteral" [("value", .str s)]
  | literal d => outlineNode "NumberLiteral" [("value", d.tagged)]
  | formatted pieces => outlineNode "FStringLiteral" [("parts", pieces)]
  | name word => outlineNode "Identifier" [("name", .str word)]
  | binary left op right => outlineNode "BinaryOperation"
      [("left", outline left), ("operator", .str op), ("right", outline right)]
  | unary op e => outlineNode "UnaryOperation" [("operator", .str op), ("operand", outline e)]
  | call f arguments => outlineNode "FunctionCall"
      [("function", outline f), ("arguments", .list (outlines arguments))]
  | member e word => outlineNode "AttributeAccess"
      [("object", outline e), ("attribute", .str word)]
  | index e i => outlineNode "IndexAccess" [("object", outline e), ("index", outline i)]
  | list es => outlineNode "ListLiteral" [("elements", .list (outlines es))]
  | tuple es => outlineNode "TupleLiteral" [("elements", .list (outlines es))]
  | dict pairs => outlineNode "DictLiteral" [("pairs", .list (outlinePairs pairs))]
  | comprehension e word source condition => outlineNode "ListComprehension"
      [("element", outline e), ("variable", .str word), ("iterable", outline source),
       ("condition", match condition with
          | some c => outline c
          | none => .null)]
  | lambda parameters body => outlineNode "LambdaExpression"
      [("parameters", .strings parameters), ("body", outline body)]
  | await e => outlineNode "AwaitExpression" [("expression", outline e)]
  | inert => outlineNode "Expression" []

def outlines : List Expr → List Datum
  | [] => []
  | e :: rest => outline e :: outlines rest

def outlinePairs : List (Expr × Expr) → List Datum
  | [] => []
  | (k, v) :: rest => .list [outline k, outline v] :: outlinePairs rest

end

end Expr

namespace Stmt

def outlineFunction (kind name : String) (parameters : List String) (body : List Datum) : Datum :=
  outlineNode kind
    [("name", .str name), ("parameters", .strings parameters), ("body", .list body)]

mutual

def outline : Stmt → Datum
  | expression e => outlineNode "ExpressionStatement" [("expression", e.outline)]
  | declare name value hint => outlineNode "VarDeclaration"
      [("name", .str name), ("value", .optional Expr.outline value),
       ("type_hint", .optional .str hint)]
  | assign target value => outlineNode "Assignment"
      [("target", .str target), ("value", value.outline)]
  | assignMember e word value => outlineNode "AttributeAssignment"
      [("object", e.outline), ("attribute", .str word), ("value", value.outline)]
  | assignIndex e i value => outlineNode "IndexAssignment"
      [("object", e.outline), ("index", i.outline), ("value", value.outline)]
  | function name parameters body =>
    outlineFunction "FunctionDef" name parameters (outlines body)
  | asyncFunction name parameters body =>
    outlineFunction "AsyncFunctionDef" name parameters (outlines body)
  | decorated decorators name parameters body => outlineNode "DecoratedFunction"
      [("decorators", .list (decorators.map fun (word, arguments) =>
          outlineNode "Decorator"
            [("name", .str word), ("args", .list (Expr.outlines arguments))])),
       ("function", outlineFunction "FunctionDef" name parameters (outlines body))]
  | classDef name body => outlineNode "ClassDef"
      [("name", .str name), ("body", .list (outlines body))]
  | branch condition thenBody elifs elseBody => outlineNode "IfStatement"
      [("condition", condition.outline), ("then_body", .list (outlines thenBody)),
       ("elif_clauses", .list (outlineElifs elifs)),
       ("else_body", match elseBody with
          | some body => .list (outlines body)
          | none => .null)]
  | forLoop word source body => outlineNode "ForLoop"
      [("variable", .str word), ("iterable", source.outline), ("body", .list (outlines body))]
  | whileLoop condition body => outlineNode "WhileLoop"
      [("condition", condition.outline), ("body", .list (outlines body))]
  | repeatLoop condition body => outlineNode "RepeatLoop"
      [("condition", condition.outline), ("body", .list (outlines body))]
  | switch subject cases defaultBody => outlineNode "SwitchStatement"
      [("expression", subject.outline), ("cases", .list (outlineCases cases)),
       ("default_case", match defaultBody with
          | some body => .list (outlines body)
          | none => .null)]
  | withBlock context word body => outlineNode "WithStatement"
      [("context_expr", context.outline), ("optional_vars", .optional .str word),
       ("body", .list (outlines body))]
  | importModule source items => outlineNode "ImportStatement"
      [("module", .str source), ("items", .optional .strings items)]
  | returnValue value => outlineNode "ReturnStatement"
      [("value", .optional Expr.outline value)]
  | breakLoop => outlineNode "BreakStatement" []
  | continueLoop => outlineNode "ContinueStatement" []
  | globals names => outlineNode "GlobalStatement" [("names", .strings names)]
  | nonlocals names => outlineNode "NonlocalStatement" [("names", .strings names)]
  | assertion e message => outlineNode "AssertStatement"
      [("test", e.outline), ("msg", .optional Expr.outline message)]
  | deletion es => outlineNode "DelStatement" [("targets", .list (Expr.outlines es))]
  | pass => outlineNode "PassStatement" []
  | tryBlock body catches finallyBody => outlineNode "TryStatement"
      [("try_body", .list (outlines body)), ("catch_clauses", .list (outlineCatches catches)),
       ("finally_body", match finallyBody with
          | some body => .list (outlines body)
          | none => .null)]
  | throwValue e => outlineNode "ThrowStatement" [("exception", e.outline)]
  | inert => outlineNode "Statement" []

def outlines : List Stmt → List Datum
  | [] => []
  | s :: rest => outline s :: outlines rest

def outlineElifs : List (Expr × List Stmt) → List Datum
  | [] => []
  | (condition, body) :: rest =>
    outlineNode "ElifClause" [("condition", condition.outline), ("body", .list (outlines body))]
      :: outlineElifs rest

def outlineCases : List (Option Expr × List Stmt) → List Datum
  | [] => []
  | (value, body) :: rest =>
    outlineNode "CaseClause"
      [("value", .optional Expr.outline value), ("body", .list (outlines body))]
      :: outlineCases rest

def outlineCatches : List (Option String × Option String × List Stmt) → List Datum
  | [] => []
  | (type, word, body) :: rest =>
    outlineNode "CatchClause"
      [("exception_type", .optional .str type), ("exception_name", .optional .str word),
       ("body", .list (outlines body))]
      :: outlineCatches rest

end

end Stmt

def Program.outline (program : Program) : Datum :=
  outlineNode "Program" [("statements", .list (Stmt.outlines program))]

/-! ## Trees from outlines -/

namespace Expr

/-- The expression of an outline that is nested no deeper than the fuel. What is no outline of an
expression is inert. -/
def ofOutlineN : Nat → Datum → Expr
  | 0, _ => inert
  | fuel + 1, d =>
    let text (field : String) : String := (d.fieldD field).textD
    let part (field : String) : Expr := ofOutlineN fuel (d.fieldD field)
    let parts (field : String) : List Expr := (d.fieldD field).itemsD.map (ofOutlineN fuel)
    match (d.fieldD "_").textD with
    | "NumberLiteral" | "StringLiteral" | "BooleanLiteral" => literal (d.fieldD "value").untagged
    | "NoneLiteral" => literal .null
    | "FStringLiteral" => formatted (d.fieldD "parts")
    | "Identifier" => name (text "name")
    | "BinaryOperation" => binary (part "left") (text "operator") (part "right")
    | "UnaryOperation" => unary (text "operator") (part "operand")
    | "FunctionCall" => call (part "function") (parts "arguments")
    | "AttributeAccess" => member (part "object") (text "attribute")
    | "IndexAccess" => index (part "object") (part "index")
    | "ListLiteral" => list (parts "elements")
    | "TupleLiteral" => tuple (parts "elements")
    | "DictLiteral" => dict ((d.fieldD "pairs").itemsD.map fun pair =>
        (ofOutlineN fuel (pair.itemsD.getD 0 .null), ofOutlineN fuel (pair.itemsD.getD 1 .null)))
    | "ListComprehension" => comprehension (part "element") (text "variable") (part "iterable")
        ((d.fieldD "condition").option (ofOutlineN fuel))
    | "LambdaExpression" => lambda (d.fieldD "parameters").stringsD (part "body")
    | "AwaitExpression" => await (part "expression")
    | _ => inert

def ofOutline (d : Datum) : Expr := ofOutlineN d.depth d

end Expr

namespace Stmt

/-- The statement of an outline that is nested no deeper than the fuel. What is no outline of a
statement is inert. -/
def ofOutlineN : Nat → Datum → Stmt
  | 0, _ => inert
  | fuel + 1, d =>
    let text (field : String) : String := (d.fieldD field).textD
    let part (field : String) : Expr := Expr.ofOutline (d.fieldD field)
    let block (d : Datum) : List Stmt := d.itemsD.map (ofOutlineN fuel)
    let body (field : String) : List Stmt := block (d.fieldD field)
    match (d.fieldD "_").textD with
    | "ExpressionStatement" => expression (part "expression")
    | "VarDeclaration" => declare (text "name") ((d.fieldD "value").option Expr.ofOutline)
        ((d.fieldD "type_hint").option Datum.textD)
    | "Assignment" => assign (text "target") (part "value")
    | "AttributeAssignment" => assignMember (part "object") (text "attribute") (part "value")
    | "IndexAssignment" => assignIndex (part "object") (part "index") (part "value")
    | "FunctionDef" => function (text "name") (d.fieldD "parameters").stringsD (body "body")
    | "AsyncFunctionDef" =>
      asyncFunction (text "name") (d.fieldD "parameters").stringsD (body "body")
    | "ClassDef" => classDef (text "name") (body "body")
    | "IfStatement" => branch (part "condition") (body "then_body")
        ((d.fieldD "elif_clauses").itemsD.map fun clause =>
          (Expr.ofOutline (clause.fieldD "condition"), block (clause.fieldD "body")))
        ((d.fieldD "else_body").option block)
    | "ForLoop" => forLoop (text "variable") (part "iterable") (body "body")
    | "WhileLoop" => whileLoop (part "condition") (body "body")
    | "RepeatLoop" => repeatLoop (part "condition") (body "body")
    | "SwitchStatement" => switch (part "expression")
        ((d.fieldD "cases").itemsD.map fun clause =>
          ((clause.fieldD "value").option Expr.ofOutline, block (clause.fieldD "body")))
        ((d.fieldD "default_case").option block)
    | "ImportStatement" =>
      importModule (text "module") ((d.fieldD "items").option Datum.stringsD)
    | "ReturnStatement" => returnValue ((d.fieldD "value").option Expr.ofOutline)
    | "BreakStatement" => breakLoop
    | "ContinueStatement" => continueLoop
    | "TryStatement" => tryBlock (body "try_body")
        ((d.fieldD "catch_clauses").itemsD.map fun clause =>
          ((clause.fieldD "exception_type").option Datum.textD,
            (clause.fieldD "exception_name").option Datum.textD, block (clause.fieldD "body")))
        ((d.fieldD "finally_body").option block)
    | "ThrowStatement" => throwValue (part "exception")
    | _ => inert

def ofOutline (d : Datum) : Stmt := ofOutlineN d.depth d

end Stmt

def Program.ofOutline (d : Datum) : Program :=
  (d.fieldD "statements").itemsD.map Stmt.ofOutline

end StackScript
