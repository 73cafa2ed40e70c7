import StackScript.Proofs.Code.Entered
import StackScript.Proofs.Machine.Balance

/-!
# Which function a routine comes from

The functions of a program are compiled where they stand, and the code of each of them is entered into
one table, under its name. A function inside another one is entered before it. A name that is there
already is given the new code, so that of several functions of one name the last one stays.
-/

namespace StackScript

/-! ## Functions in the order of their code -/

/-- A function as it stands in a program, maybe in a conditional loop. -/
structure FunctionText where
  name : String
  parameters : List String
  inWhile : Bool
  body : List Stmt

mutual

/-- The functions in a statement, those inside a function before it. -/
def Stmt.definitions (inWhile : Bool) : Stmt → List FunctionText
  | .function name parameters body =>
    Stmt.definitionsOf inWhile body ++ [⟨name, parameters, inWhile, body⟩]
  | .classDef name body => Stmt.definitionsOfMethods inWhile name body
  | .branch _ thenBody elifs none =>
    Stmt.definitionsOf inWhile thenBody ++ Stmt.definitionsOfElifs inWhile elifs
  | .branch _ thenBody elifs (some body) =>
    Stmt.definitionsOf inWhile thenBody ++ (Stmt.definitionsOfElifs inWhile elifs ++
      Stmt.definitionsOf inWhile body)
  | .forLoop _ _ body => Stmt.definitionsOf false body
  | .whileLoop _ body => Stmt.definitionsOf true body
  | .repeatLoop _ body => Stmt.definitionsOf inWhile body
  | .switch _ cases _ =>
    Stmt.definitionsOfCases inWhile cases ++ Stmt.definitionsOfDefault inWhile cases
  | .tryBlock body catches none =>
    Stmt.definitionsOf inWhile body ++ Stmt.definitionsOfCatches inWhile catches
  | .tryBlock body catches (some last) =>
    Stmt.definitionsOf inWhile body ++ (Stmt.definitionsOfCatches inWhile catches ++
      Stmt.definitionsOf inWhile last)
  | .expression _ | .declare _ _ _ | .assign _ _ | .assignMember _ _ _ | .assignIndex _ _ _
  | .asyncFunction _ _ _ | .decorated _ _ _ _ | .withBlock _ _ _ | .importModule _ _
  | .returnValue _ | .breakLoop | .continueLoop | .globals _ | .nonlocals _ | .assertion _ _
  | .deletion _ | .pass | .throwValue _ | .inert => []

def Stmt.definitionsOf (inWhile : Bool) : List Stmt → List FunctionText
  | [] => []
  | s :: rest => s.definitions inWhile ++ Stmt.definitionsOf inWhile rest

/-- The methods of a class, under their full names, and the functions in them. -/
def Stmt.definitionsOfMethods (inWhile : Bool) (name : String) : List Stmt → List FunctionText
  | [] => []
  | .function method parameters body :: rest =>
    (Stmt.definitionsOf inWhile body ++ [⟨name ++ "." ++ method, parameters, inWhile, body⟩]) ++
      Stmt.definitionsOfMethods inWhile name rest
  | _ :: rest => Stmt.definitionsOfMethods inWhile name rest

def Stmt.definitionsOfElifs (inWhile : Bool) : List (Expr × List Stmt) → List FunctionText
  | [] => []
  | (_, body) :: rest => Stmt.definitionsOf inWhile body ++ Stmt.definitionsOfElifs inWhile rest

def Stmt.definitionsOfCases (inWhile : Bool) : List (Option Expr × List Stmt) → List FunctionText
  | [] => []
  | (none, _) :: rest => Stmt.definitionsOfCases inWhile rest
  | (some _, body) :: rest => Stmt.definitionsOf inWhile body ++ Stmt.definitionsOfCases inWhile rest

def Stmt.definitionsOfDefault (inWhile : Bool) : List (Option Expr × List Stmt) → List FunctionText
  | [] => []
  | (none, body) :: _ => Stmt.definitionsOf inWhile body
  | (some _, _) :: rest => Stmt.definitionsOfDefault inWhile rest

def Stmt.definitionsOfCatches (inWhile : Bool) :
    List (Option String × Option String × List Stmt) → List FunctionText
  | [] => []
  | (_, _, body) :: rest => Stmt.definitionsOf inWhile body ++ Stmt.definitionsOfCatches inWhile rest

end

/-- The functions of a program, in the order in which their routines are entered. -/
def Program.definitions (p : Program) : List FunctionText := Stmt.definitionsOf false p

/-! ## Routines of functions -/

/-- What is planned under a mark for conditional loops stands in the code, from an index up to
another. -/
def Plan.LaidOut (w : Bool) (p : Plan Shape) (code : Array Instruction) (start stop : Nat) : Prop :=
  ∃ sc shape sc', sc.inWhile = w ∧ p sc = .ok (shape, sc') ∧ Placed code start shape ∧
    start + shape.size = stop

/-- The code is at its end at an index, with a return as its last instruction, or a return of null
stands there and nothing else. -/
def ClosedAt (code : Array Instruction) (stop : Nat) : Prop :=
  stop = code.size ∧ (∃ i ∈ code.back?, i.op = .ret) ∨
    code.size = stop + 2 ∧ ∃ k, Stretch code stop [.to .loadConst k, ⟨.ret, .null⟩]

/-- The routine has the code of the function, and a return behind it unless that ends in one. Its first
slots are those of the parameters. -/
structure FunctionText.Makes (f : FunctionText) (r : Routine) : Prop where
  name : r.name = f.name
  parameters : r.parameters = f.parameters
  slots : Slots.ofParameters f.parameters <+: r.slots
  body : ∃ stop, (Plan.statements f.body).LaidOut f.inWhile r.code 0 stop ∧ ClosedAt r.code stop

/-- The plan enters the routines of these functions, one after the other, and keeps the mark for
conditional loops. -/
def Plan.Enters {α : Type} (w : Bool) (x : Plan α) (fs : List FunctionText) : Prop :=
  ∀ sc a sc', sc.inWhile = w → x sc = .ok (a, sc') → sc'.inWhile = sc.inWhile ∧
    ∃ rs, List.Forall₂ FunctionText.Makes fs rs ∧
      sc'.routines = rs.foldl (fun table r => Generator.putRoutine r table) sc.routines

/-- The mark for conditional loops and the routines are as before. -/
structure Scope.Still (sc sc' : Scope) : Prop where
  inWhile : sc'.inWhile = sc.inWhile
  routines : sc'.routines = sc.routines

theorem Scope.Rule.still : Scope.Rule (fun _ => True) Scope.Still where
  refl _ := ⟨rfl, rfl⟩
  trans h₁ h₂ := ⟨h₂.inWhile.trans h₁.inWhile, h₂.routines.trans h₁.routines⟩
  inWhile h := h.inWhile
  pushConstant _ _ := ⟨rfl, rfl⟩
  putGlobal _ := ⟨rfl, rfl⟩
  putLocal _ _ := ⟨rfl, rfl⟩
  loop h := ⟨rfl, h.routines⟩

/-- A statement with no other one inside. -/
def Stmt.Single : Stmt → Prop
  | .function _ _ _ | .classDef _ _ => False
  | s => s.inner = []

theorem Stmt.Single.inner {s : Stmt} (h : s.Single) : s.inner = [] := by
  cases s <;> first | exact h | rfl

theorem carried_still : Stmt.Carried (fun _ => True) Scope.Still True (fun _ => True)
    (fun _ s => s.Single) (Shape.All fun _ => True) where
  rule := .still
  basic := Datum.basic_all
  shape := Shape.composed_any.toCarried
  asked := Expr.asked_any
  composed := Shape.composed_any
  statement.exprs _ _ _ := trivial
  statement.inner h := by simp [h.inner]
  statement.out _ _ := trivial
  statement.attempt _ := .inl trivial
  statement.function h := h.elim
  statement.method h := h.elim

namespace Plan.Enters

variable {α β : Type} {w : Bool} {fs gs : List FunctionText} {x : Plan α} {p q : Plan Shape}

theorem still {P : α → Prop} (h : Carries Scope.Still w x P) : Enters w x [] := by
  intro sc a sc' hw hrun
  obtain ⟨hstill, -⟩ := h sc a sc' hw hrun
  exact ⟨hstill.inWhile, [], .nil, hstill.routines⟩

theorem value (a : α) : Enters w (pure a) [] := still (P := fun _ => True) (.value .still trivial)

theorem bind {f : α → Plan β} (hx : Enters w x fs) (hf : ∀ a, Enters w (f a) gs) :
    Enters w (x >>= f) (fs ++ gs) := by
  intro sc b sc' hw hrun
  obtain ⟨a, sc₁, hx', hrun⟩ := Plan.bind_ok.1 hrun
  obtain ⟨hmark, rs, hrs, htable⟩ := hx sc a sc₁ hw hx'
  obtain ⟨hmark', rs', hrs', htable'⟩ := hf a sc₁ b sc' (hmark.trans hw) hrun
  refine ⟨hmark'.trans hmark, rs ++ rs', List.rel_append hrs hrs', ?_⟩
  rw [List.foldl_append, htable', htable]

theorem before {f : α → Plan β} (hx : Enters w x []) (hf : ∀ a, Enters w (f a) fs) :
    Enters w (x >>= f) fs :=
  hx.bind hf

theorem after {f : α → Plan β} (hx : Enters w x fs) (hf : ∀ a, Enters w (f a) []) :
    Enters w (x >>= f) fs := by
  have h := hx.bind hf
  rwa [List.append_nil] at h

theorem andThen (hp : Enters w p fs) (hq : Enters w q gs) : Enters w (p.andThen q) (fs ++ gs) :=
  hp.bind fun _ => hq.after fun _ => value _

theorem andStill (hp : Enters w p fs) (hq : Enters w q []) : Enters w (p.andThen q) fs :=
  hp.after fun _ => hq.after fun _ => value _

theorem stillAnd (hp : Enters w p []) (hq : Enters w q fs) : Enters w (p.andThen q) fs :=
  hp.andThen hq

theorem into (hp : Enters w p fs) (frame : Shape → Shape) : Enters w (Plan.into frame p) fs :=
  hp.after fun _ => value _

theorem op (opcode : Opcode) : Enters w (Plan.op opcode) [] := value _

theorem expression (e : Expr) : Enters w (Plan.expression e) [] := still (carried_still.expression trivial)

theorem loadConst (d : Datum) : Enters w (Plan.loadConst d) [] := still (carried_still.loadConst trivial)

theorem storeName (name : String) : Enters w (Plan.storeName name) [] := still (carried_still.storeName name)

theorem constant (d : Datum) : Enters w (Plan.constant d) [] := still (.constant .still trivial)

theorem single {s : Stmt} (h : s.Single) : Enters w (Plan.statement s) [] :=
  still (carried_still.stmt s h)

theorem withLoop {w' : Bool} (h : Enters w' p fs) : Enters w (Plan.withLoop w' p) fs := by
  intro sc shape sc' hw hrun
  obtain ⟨sc₁, hshape, rfl⟩ := Plan.withLoop_ok hrun
  obtain ⟨-, rs, hrs, htable⟩ := h _ _ _ rfl hshape
  exact ⟨rfl, rs, hrs, htable⟩

end Plan.Enters

theorem Plan.constant_locals {d : Datum} {n : Nat} {sc sc' : Scope}
    (h : Plan.constant d sc = .ok (n, sc')) : sc'.locals = sc.locals := by
  unfold Plan.constant at h
  split at h <;> cases h <;> rfl

/-- Statements only add to the slots of the function that they stand in. -/
theorem Plan.statements_slots {body : List Stmt} {slots : Slots} {shape : Shape} {sc sc' : Scope}
    (hslots : sc.locals = some slots) (h : Plan.statements body sc = .ok (shape, sc')) :
    slots <+: sc'.locals.getD [] := by
  have hleads := (carried_literals Datum.basic_all fun _ _ _ _ _ => trivial).stmts body
    (fun _ _ _ _ => trivial) _ _ _ rfl h
  rcases hleads.1.grows.locals with ⟨hnone, -⟩ | ⟨before, after, hbefore, hafter, hle⟩
  · rw [hslots] at hnone
    cases hnone
  · rw [hslots] at hbefore
    cases hbefore
    rw [hafter]
    exact hle

/-- Code with a return at its end starts with the code that it was made of. -/
theorem Plan.withReturn_ok {code code' : List Instruction} {sc sc' : Scope}
    (h : Plan.withReturn code sc = .ok (code', sc')) :
    sc'.inWhile = sc.inWhile ∧ sc'.routines = sc.routines ∧ sc'.locals = sc.locals ∧
      ∃ more, code' = code ++ more ∧ ClosedAt code'.toArray code.length := by
  unfold Plan.withReturn at h
  split at h
  · rename_i hlast
    cases h
    obtain ⟨i, hi, hop⟩ := Option.map_eq_some_iff.1 hlast
    exact ⟨rfl, rfl, rfl, [], (List.append_nil _).symm, .inl ⟨rfl, i, by simpa using hi, hop⟩⟩
  · obtain ⟨k, sc₁, hconstant, h⟩ := Plan.bind_ok.1 h
    cases h
    obtain ⟨hstill, -⟩ := Plan.Carries.constant Scope.Rule.still trivial _ _ _ rfl hconstant
    refine ⟨hstill.inWhile, hstill.routines, Plan.constant_locals hconstant, _, rfl,
      .inr ⟨by simp, k, ?_⟩⟩
    have hbehind := Stretch.right (Stretch.start (code ++ [.to .loadConst k, ⟨.ret, .null⟩]) [])
    rwa [List.append_nil, Nat.zero_add] at hbehind

theorem Plan.Enters.routine {w : Bool} {body : List Stmt} {fs : List FunctionText} (name : String)
    (parameters : List String) (h : Plan.Enters w (Plan.statements body) fs) :
    Plan.Enters w (Plan.routine name parameters (Plan.statements body))
      (fs ++ [⟨name, parameters, w, body⟩]) := by
  intro sc a sc' hw hrun
  let sc₀ : Scope := { sc with locals := some (Slots.ofParameters parameters) }
  obtain ⟨shape, sc₁, code, sc₂, hshape, hcode, rfl⟩ := Plan.routine_ok hrun
  obtain ⟨hmark, rs, hrs, htable⟩ := h sc₀ shape sc₁ hw hshape
  obtain ⟨hmark', htable', hlocals, more, rfl, hclosed⟩ := Plan.withReturn_ok hcode
  refine ⟨hmark'.trans hmark, rs ++ [⟨name, parameters, sc₂.locals.getD [], (shape.layout 0 ++ more).toArray⟩],
    List.rel_append hrs (.cons ⟨rfl, rfl, ?_, ?_⟩ .nil), ?_⟩
  · rw [hlocals]
    exact Plan.statements_slots rfl hshape
  · rw [Shape.length_layout] at hclosed
    exact ⟨shape.size, ⟨sc₀, shape, sc₁, hw, hshape, Stretch.start _ more, Nat.zero_add _⟩, hclosed⟩
  · rw [List.foldl_append, ← htable, ← htable']
    rfl

/-! ## Statements -/

open Plan (Enters)

theorem enters_catchBegin {w : Bool} (type : Option String) : Enters w
    (match type.filter (· ≠ "") with
    | some name => do Plan.opAt .catchBegin (← Plan.constant (.str name))
    | none => Plan.op .catchBegin) [] := by
  split
  · exact (Enters.constant _).after fun _ => .value _
  · exact .op _

theorem enters_catchStore {w : Bool} (target : Option String) : Enters w
    (match target.filter (· ≠ "") with
    | some name => Plan.storeName name
    | none => Plan.op .pop) [] := by
  split
  · exact .storeName _
  · exact .op _

mutual

theorem enters_statement {w : Bool} : ∀ s : Stmt, Enters w (Plan.statement s) (s.definitions w)
  | .function name parameters body =>
    (Enters.routine name parameters (enters_statements body)).after fun _ =>
      Enters.andThen ((Enters.constant _).after fun _ => .value _) (.storeName name)
  | .classDef name body =>
    (enters_methods name [] body).after fun table => (Enters.loadConst _).andThen
      (Enters.andThen ((Enters.constant _).after fun _ => .value _) (.storeName name))
  | .branch condition thenBody elifs none =>
    (Enters.expression condition).before fun _ => (enters_statements thenBody).bind fun _ =>
      (enters_elifClauses elifs).after fun _ => (Enters.value _).before fun _ => by
        split <;> exact .value _
  | .branch condition thenBody elifs (some body) =>
    (Enters.expression condition).before fun _ => (enters_statements thenBody).bind fun _ =>
      (enters_elifClauses elifs).bind fun _ => (enters_statements body).after fun _ => by
        split <;> exact .value _
  | .forLoop target iterable body =>
    (Enters.expression iterable).andThen ((Enters.op _).andThen
      (((Enters.storeName target).andThen (enters_statements body).withLoop).into _))
  | .whileLoop condition body =>
    (Enters.expression condition).before fun _ =>
      (enters_statements body).withLoop.after fun _ => .value _
  | .repeatLoop condition body => ((enters_statements body).andStill (.expression condition)).into _
  | .switch subject cases _ =>
    (Enters.expression subject).before fun _ => (enters_caseClauses cases).bind fun _ =>
      ((enters_defaultClause cases).andStill (.op _)).after fun _ => .value _
  | .tryBlock body catches none =>
    (Enters.op _).stillAnd ((enters_statements body).andThen
      ((Enters.op _).stillAnd ((enters_catchClauses catches).andStill (.value _))))
  | .tryBlock body catches (some []) =>
    (Enters.op _).stillAnd ((enters_statements body).andThen
      ((Enters.op _).stillAnd ((enters_catchClauses catches).andThen (.value _))))
  | .tryBlock body catches (some (first :: rest)) =>
    (Enters.op _).stillAnd ((enters_statements body).andThen
      ((Enters.op _).stillAnd ((enters_catchClauses catches).andThen
        ((Enters.op _).stillAnd ((enters_statements (first :: rest)).andStill (.op _))))))
  | .expression _ | .assign _ _ | .assignMember _ _ _ | .assignIndex _ _ _ | .declare _ _ _
  | .importModule _ _ | .returnValue _ | .breakLoop | .continueLoop | .throwValue _
  | .asyncFunction _ _ _ | .decorated _ _ _ _ | .withBlock _ _ _ | .globals _ | .nonlocals _
  | .assertion _ _ | .deletion _ | .pass | .inert => .single rfl

theorem enters_statements {w : Bool} : ∀ body : List Stmt,
    Enters w (Plan.statements body) (Stmt.definitionsOf w body)
  | [] => .value _
  | s :: rest => (enters_statement s).andThen (enters_statements rest)

theorem enters_methods {w : Bool} (name : String) (table : List (Datum × Datum)) : ∀ body : List Stmt,
    Enters w (Plan.methods name table body) (Stmt.definitionsOfMethods w name body)
  | [] => .value _
  | s :: rest => by
    cases s with
    | function method parameters body =>
      exact (Enters.routine _ parameters (enters_statements body)).bind fun _ =>
        enters_methods name _ rest
    | _ => exact enters_methods name table rest

theorem enters_elifClauses {w : Bool} : ∀ elifs : List (Expr × List Stmt),
    Enters w (Plan.elifClauses elifs) (Stmt.definitionsOfElifs w elifs)
  | [] => .value _
  | (condition, body) :: rest =>
    (Enters.expression condition).before fun _ => (enters_statements body).bind fun _ =>
      (enters_elifClauses rest).after fun _ => .value _

theorem enters_caseClauses {w : Bool} : ∀ cases : List (Option Expr × List Stmt),
    Enters w (Plan.caseClauses cases) (Stmt.definitionsOfCases w cases)
  | [] => .value _
  | (none, _) :: rest => enters_caseClauses rest
  | (some value, body) :: rest =>
    Enters.before ((Enters.op .dup).andThen ((Enters.expression value).andThen (.op .eq)))
      fun _ => (enters_statements body).bind fun _ => (enters_caseClauses rest).after fun _ => .value _

theorem enters_defaultClause {w : Bool} : ∀ cases : List (Option Expr × List Stmt),
    Enters w (Plan.defaultClause cases) (Stmt.definitionsOfDefault w cases)
  | [] => .value _
  | (none, body) :: _ => enters_statements body
  | (some _, _) :: rest => enters_defaultClause rest

theorem enters_catchClauses {w : Bool} : ∀ catches : List (Option String × Option String × List Stmt),
    Enters w (Plan.catchClauses catches) (Stmt.definitionsOfCatches w catches)
  | [] => .value _
  | (type, target, body) :: rest =>
    (enters_catchBegin type).stillAnd ((enters_catchStore target).stillAnd
      ((enters_statements body).andThen ((Enters.op _).stillAnd (enters_catchClauses rest))))

end

/-! ## Programs -/

/-- A routine that is entered is found under its name, and the others as before. -/
theorem find?_putRoutine (r : Routine) (name : String) (table : List Routine) :
    (Generator.putRoutine r table).find? (·.name = name) =
      if r.name = name then some r else table.find? (·.name = name) := by
  induction table with
  | nil =>
    by_cases hname : r.name = name <;> simp [Generator.putRoutine, hname]
  | cons first rest ih =>
    rw [Generator.putRoutine]
    split
    · rename_i hsame
      by_cases hname : r.name = name <;> simp [eq_of_beq hsame, hname]
    · rename_i hsame
      by_cases hfirst : first.name = name
      · have hname : r.name ≠ name := fun h => hsame (beq_iff_eq.2 (hfirst.trans h.symm))
        simp [hfirst, hname]
      · simp [hfirst, ih]

theorem find?_putRoutines (rs : List Routine) (name : String) (table : List Routine) :
    (rs.foldl (fun table r => Generator.putRoutine r table) table).find? (·.name = name) =
      (rs.reverse.find? (·.name = name)).or (table.find? (·.name = name)) := by
  induction rs generalizing table with
  | nil => rfl
  | cons r rs ih =>
    rw [List.foldl_cons, ih, find?_putRoutine, List.reverse_cons, List.find?_append, Option.or_assoc]
    by_cases hname : r.name = name <;> simp [hname]

/-- The function of a name that is entered last. -/
def Program.definition? (p : Program) (name : String) : Option FunctionText :=
  p.definitions.reverse.find? (·.name = name)

theorem find?_of_makes {fs : List FunctionText} {rs : List Routine} (h : List.Forall₂ FunctionText.Makes fs rs)
    (name : String) :
    Option.Rel FunctionText.Makes (fs.find? (·.name = name)) (rs.find? (·.name = name)) := by
  induction h with
  | nil => exact .none
  | cons hmakes _ ih =>
    rw [List.find?_cons, List.find?_cons, hmakes.name]
    split
    · exact .some hmakes
    · exact ih

theorem exists_of_makes {fs : List FunctionText} {rs : List Routine}
    (h : List.Forall₂ FunctionText.Makes fs rs) {r : Routine} (hr : r ∈ rs) : ∃ f ∈ fs, f.Makes r := by
  induction h with
  | nil => cases hr
  | cons hmakes _ ih =>
    rcases List.mem_cons.1 hr with rfl | hr
    · exact ⟨_, .head _, hmakes⟩
    · obtain ⟨f, hf, hmakes'⟩ := ih hr
      exact ⟨f, .tail _ hf, hmakes'⟩

theorem mem_putRoutines {r : Routine} {rs table : List Routine}
    (h : r ∈ rs.foldl (fun table r => Generator.putRoutine r table) table) : r ∈ rs ∨ r ∈ table := by
  induction rs generalizing table with
  | nil => exact .inr h
  | cons first rest ih =>
    rcases ih h with hr | hr
    · exact .inl (.tail _ hr)
    · rcases mem_putRoutine hr with rfl | hr
      · exact .inl (.head _)
      · exact .inr hr

section Programs

variable {p : Program} {c : Compiled} (h : p.compile = .ok c)

include h

theorem routines_of_compile : ∃ rs, List.Forall₂ FunctionText.Makes p.definitions rs ∧
    c.unit.routines = rs.foldl (fun table r => Generator.putRoutine r table) [] := by
  obtain ⟨shape, sc, hplan, hunit, -⟩ := compile_eq_ok h
  obtain ⟨-, rs, hrs, htable⟩ := enters_statements p {} shape sc rfl hplan
  exact ⟨rs, hrs, by rw [hunit]; exact htable⟩

/-- Under each name there is the routine of its last function. -/
theorem definition_of_compile (name : String) :
    Option.Rel FunctionText.Makes (p.definition? name) (c.unit.routines.find? (·.name = name)) := by
  obtain ⟨rs, hrs, htable⟩ := routines_of_compile h
  rw [htable, find?_putRoutines, List.find?_nil, Option.or_none]
  exact find?_of_makes (List.rel_reverse hrs) name

/-- Each routine is that of a function. -/
theorem makes_of_compile {r : Routine} (hr : r ∈ c.unit.routines) : ∃ f ∈ p.definitions, f.Makes r := by
  obtain ⟨rs, hrs, htable⟩ := routines_of_compile h
  rw [htable] at hr
  exact exists_of_makes hrs ((mem_putRoutines hr).resolve_right List.not_mem_nil)

end Programs

end StackScript
