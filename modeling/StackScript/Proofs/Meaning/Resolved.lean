import StackScript.Machine.Wide.Function
import StackScript.Proofs.Code.Plan
import StackScript.Proofs.Code.Slots

/-!
# Code with resolved names

`Tables.Codes` says which code a tree of the core language has under the final tables of a program:
a literal loads its constant, and a name loads or stores its slot. Unlike the plan of the same code it
speaks of no growing tables, so that what the code does can be followed without looking at how the
tables came about. The core language has neither classes nor exceptions nor jumps out of loops, and
returns stand outside of counted loops, since these leave their iterator on the stack.
-/

namespace StackScript.Meaning

/-- The tables under which a part of a program has been compiled: `locals` are the slots of the
function at the place, none in the main program, and `functions` the names of all functions. -/
structure Tables where
  constants : List Datum
  globals : Slots
  locals : Option Slots
  functions : List String

namespace Tables

/-- The code that reads a name. -/
inductive Loads (t : Tables) (name : String) : Shape → Prop
  | ofLocal {slots : Slots} {k : Nat} (hlocals : t.locals = some slots)
      (hk : slots.slot? name = some k) : Loads t name (.one (.to .loadLocal k))
  | ofGlobal {k : Nat} (hlocals : ∀ slots ∈ t.locals, name ∉ slots.names)
      (hk : t.globals.slot? name = some k) : Loads t name (.one (.to .loadGlobal k))

/-- The code that stores the top of the stack under a name of the place. -/
inductive Stores (t : Tables) (name : String) : Shape → Prop
  | ofLocal {slots : Slots} {k : Nat} (hlocals : t.locals = some slots)
      (hk : slots.slot? name = some k) : Stores t name (.one (.to .storeLocal k))
  | ofGlobal {k : Nat} (hlocals : t.locals = none) (hname : name ∉ t.functions)
      (hk : t.globals.slot? name = some k) : Stores t name (.one (.to .storeGlobal k))

/-- The code that loads the name of what is called. -/
inductive Calls (t : Tables) (name : String) : Shape → Prop
  | ofConstant {i : Nat} (hi : t.constants[i]? = some (.str name)) :
      Calls t name (.one (.to .loadConst i))
  | ofGlobal {k : Nat} (hname : name ∈ t.functions) (hk : t.globals.slot? name = some k) :
      Calls t name (.one (.to .loadGlobal k))

mutual

/-- The code of an expression. -/
inductive Codes (t : Tables) : Expr → Shape → Prop
  | literal {d : Datum} {i : Nat} (hi : t.constants[i]? = some d) :
      Codes t (.literal d) (.one (.to .loadConst i))
  | name {name : String} {a : Shape} (ha : t.Loads name a) : Codes t (.name name) a
  | binary {left right : Expr} {operator : String} {op : Opcode} {a b : Shape}
      (ha : Codes t left a) (hb : Codes t right b) (hop : binaryOpcode? operator = some op) :
      Codes t (.binary left operator right) (a.seq (b.seq (.one ⟨op, .null⟩)))
  | not {operand : Expr} {a : Shape} (ha : Codes t operand a) :
      Codes t (.unary "not" operand) (a.seq (.one ⟨.negate, .null⟩))
  | minus {operand : Expr} {i : Nat} {a : Shape} (hi : t.constants[i]? = some (.int 0))
      (ha : Codes t operand a) : Codes t (.unary "-" operand)
        ((Shape.one (.to .loadConst i)).seq (a.seq (.one ⟨.sub, .null⟩)))
  | plus {operand : Expr} {a : Shape} (ha : Codes t operand a) : Codes t (.unary "+" operand) a
  | index {object index : Expr} {a b : Shape} (ha : Codes t object a) (hb : Codes t index b) :
      Codes t (.index object index) (a.seq (b.seq (.one ⟨.getItem, .null⟩)))
  | list {elements : List Expr} {a : Shape} (ha : CodesAll t elements a) :
      Codes t (.list elements) (a.seq (.one (.to .buildList elements.length)))
  | tuple {elements : List Expr} {a : Shape} (ha : CodesAll t elements a) :
      Codes t (.tuple elements) (a.seq (.one (.to .buildTuple elements.length)))
  | comprehension {element iterable : Expr} {target : String} {a b c : Shape}
      (ha : Codes t iterable a) (hb : t.Stores target b) (hc : Codes t element c) :
      Codes t (.comprehension element target iterable none)
        ((Shape.one (.to .buildList 0)).seq (a.seq ((Shape.one ⟨.getIter, .null⟩).seq
          (.forLoop (b.seq (c.seq (.one ⟨.listAppend, .null⟩)))))))
  | filtered {element iterable condition : Expr} {target : String} {a b c d : Shape}
      (ha : Codes t iterable a) (hb : t.Stores target b) (hd : Codes t condition d)
      (hc : Codes t element c) : Codes t (.comprehension element target iterable (some condition))
        ((Shape.one (.to .buildList 0)).seq (a.seq ((Shape.one ⟨.getIter, .null⟩).seq
          (.forLoop (b.seq (d.seq (.guarded (c.seq (.one ⟨.listAppend, .null⟩)))))))))
  | call {name : String} {arguments : List Expr} {a b : Shape}
      (hname : name ∈ t.functions ∨ (Wide.plainFunction? name).isSome) (ha : t.Calls name a)
      (hb : CodesAll t arguments b) :
      Codes t (.call (.name name) arguments) (a.seq (b.seq (.one (.to .call arguments.length))))

/-- The code of expressions one after another. -/
inductive CodesAll (t : Tables) : List Expr → Shape → Prop
  | nil : CodesAll t [] .nothing
  | cons {e : Expr} {rest : List Expr} {a b : Shape} (ha : Codes t e a)
      (hb : CodesAll t rest b) : CodesAll t (e :: rest) (a.seq b)

end

mutual

/-- The code of a statement; the flag says whether it may return. -/
inductive CodesStmt (t : Tables) : Bool → Stmt → Shape → Prop
  | expression {returns : Bool} {e : Expr} {a : Shape} (ha : t.Codes e a) :
      CodesStmt t returns (.expression e) (a.seq (.one ⟨.pop, .null⟩))
  | declare {returns : Bool} {name : String} {hint : Option String} {e : Expr} {a b : Shape}
      (ha : t.Codes e a) (hb : t.Stores name b) :
      CodesStmt t returns (.declare name (some e) hint) (a.seq b)
  | assign {returns : Bool} {name : String} {e : Expr} {a b : Shape} (ha : t.Codes e a)
      (hb : t.Stores name b) : CodesStmt t returns (.assign name e) (a.seq b)
  | branch {returns : Bool} {condition : Expr} {body : List Stmt}
      {elifs : List (Expr × List Stmt)} {last : Option (List Stmt)} {a : Shape}
      (ha : CodesChoice t returns ((condition, body) :: elifs) last a) :
      CodesStmt t returns (.branch condition body elifs last) a
  | whileLoop {returns : Bool} {condition : Expr} {body : List Stmt} {a b : Shape}
      (ha : t.Codes condition a) (hb : CodesBody t returns body b) :
      CodesStmt t returns (.whileLoop condition body) (.whileLoop a b)
  | repeatLoop {returns : Bool} {condition : Expr} {body : List Stmt} {a b : Shape}
      (ha : CodesBody t returns body a) (hb : t.Codes condition b) :
      CodesStmt t returns (.repeatLoop condition body) (.repeatLoop (a.seq b))
  | forLoop {returns : Bool} {target : String} {iterable : Expr} {body : List Stmt}
      {a b c : Shape} (ha : t.Codes iterable a) (hb : t.Stores target b)
      (hc : CodesBody t false body c) : CodesStmt t returns (.forLoop target iterable body)
        (a.seq ((Shape.one ⟨.getIter, .null⟩).seq (.forLoop (b.seq c))))
  | returnValue {e : Expr} {a : Shape} (ha : t.Codes e a) :
      CodesStmt t true (.returnValue (some e)) (a.seq (.one ⟨.ret, .null⟩))
  | returnNothing {i : Nat} (hi : t.constants[i]? = some .null) :
      CodesStmt t true (.returnValue none) ((Shape.one (.to .loadConst i)).seq (.one ⟨.ret, .null⟩))

/-- The code of statements one after another. -/
inductive CodesBody (t : Tables) : Bool → List Stmt → Shape → Prop
  | nil {returns : Bool} : CodesBody t returns [] .nothing
  | cons {returns : Bool} {s : Stmt} {rest : List Stmt} {a b : Shape}
      (ha : CodesStmt t returns s a) (hb : CodesBody t returns rest b) :
      CodesBody t returns (s :: rest) (a.seq b)

/-- The code of alternatives and what runs if none is taken. -/
inductive CodesChoice (t : Tables) :
    Bool → List (Expr × List Stmt) → Option (List Stmt) → Shape → Prop
  | chain {returns : Bool} {clauses : List (Expr × List Stmt)} {last : Option (List Stmt)}
      {codes : List (Shape × Shape)} {a : Shape} (hclauses : CodesClauses t returns clauses codes)
      (ha : CodesBody t returns (last.getD []) a) :
      CodesChoice t returns clauses last (.chain codes a)
  | guarded {returns : Bool} {condition : Expr} {body : List Stmt} {last : Option (List Stmt)}
      {a b : Shape} (ha : t.Codes condition a) (hb : CodesBody t returns body b)
      (hlast : last.getD [] = []) :
      CodesChoice t returns [(condition, body)] last (a.seq (.guarded b))

/-- The codes of the conditions and bodies of alternatives. -/
inductive CodesClauses (t : Tables) :
    Bool → List (Expr × List Stmt) → List (Shape × Shape) → Prop
  | nil {returns : Bool} : CodesClauses t returns [] []
  | cons {returns : Bool} {condition : Expr} {body : List Stmt}
      {rest : List (Expr × List Stmt)} {a b : Shape} {clauses : List (Shape × Shape)}
      (ha : t.Codes condition a) (hb : CodesBody t returns body b)
      (hrest : CodesClauses t returns rest clauses) :
      CodesClauses t returns ((condition, body) :: rest) ((a, b) :: clauses)

end

end Tables

end StackScript.Meaning
