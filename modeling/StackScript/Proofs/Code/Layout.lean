import StackScript.Proofs.Code.Follows

/-!
# The generator lays out what is planned

Compiling an expression or a statement follows its plan, by recursion on the tree.
-/

namespace StackScript

/-! ## Expressions -/

theorem Follows.binaryOp (operator : String) :
    Follows
      (match binaryOpcode? operator with
      | some op => Gen.emit' op
      | none => throw (.unknownBinary operator))
      (Plan.binaryOp operator) := by
  unfold Plan.binaryOp
  cases binaryOpcode? operator with
  | some op => exact .op op
  | none => exact .failing _

variable {p : Program} {plan : String → Plan Shape} {gen : String → Gen Unit} {m : Gen Unit}
  {shape : Shape} {sc : Scope}

theorem Follows.piece (h : ∀ source, Follows (gen source) (plan source))
    (d : Datum) : Follows (Gen.piece gen d) (Plan.piece plan d) := by
  refine .read (.lift _) fun type => ?_
  by_cases htext : type.same (.str "text")
  · simp only [htext, if_true]
    exact .read (.lift _) fun value => .loadConst value
  · by_cases hhole : type.same (.str "expression")
    · simp only [htext, hhole, if_true, if_false, Bool.false_eq_true]
      exact .read (.lift _) fun value => .read (.lift _) fun source => (h source).seq (.op _)
    · simp only [htext, hhole, if_false, Bool.false_eq_true]
      exact .nothing

theorem Follows.formatted (h : ∀ source, Follows (gen source) (plan source))
    (d : Datum) : Follows (Gen.formatted gen d) (Plan.formatted plan d) :=
  .read (.lift _) fun _ => (Follows.each (Follows.piece h) _).seq (.each (fun _ => .op _) _)

mutual

theorem follows_expr (h : ∀ source, Follows (gen source) (plan source)) :
    ∀ e, Follows (Gen.expr gen e) (Plan.expr plan e)
  | .literal d => .loadConst d
  | .formatted pieces => .formatted h pieces
  | .name word => .loadName word
  | .binary left operator right =>
    (follows_expr h left).seq ((follows_expr h right).seq (.binaryOp operator))
  | .unary operator operand => by
    have ih := follows_expr h operand
    show Follows (if operator == "not" then _ else if operator == "-" then _ else
      if operator == "+" then _ else _) (if operator == "not" then _ else
        if operator == "-" then _ else if operator == "+" then _ else _)
    split
    · exact ih.seq (.op _)
    · split
      · exact (Follows.loadConst _).seq (ih.seq (.op _))
      · split
        · exact ih
        · exact .failing _
  | .call function arguments => by
    have hf := follows_expr h function
    have ha := (follows_exprs h arguments).seq (.opAt .call arguments.length)
    cases function with
    | member object word =>
      exact (follows_expr h object).seq ((follows_exprs h arguments).seq
        (.read (.constant _) fun _ => .opAt _ _))
    | name word => exact (Follows.loadCallee word).seq ha
    | _ => exact hf.seq ha
  | .member object word =>
    (follows_expr h object).seq (.read (.constant _) fun _ => .opAt _ _)
  | .index object index =>
    (follows_expr h object).seq ((follows_expr h index).seq (.op _))
  | .list elements | .tuple elements => (follows_exprs h elements).seq (.opAt _ _)
  | .dict pairs => (follows_exprPairs h pairs).seq (.opAt _ _)
  | .comprehension element target iterable (some c) => by
    have hbody := ((Follows.storeName target).seq ((follows_expr h c).seq
        ((follows_expr h element).seq (.op .listAppend)).guarded)).forLoop
    have := (Follows.opAt .buildList 0).seq ((follows_expr h iterable).seq
      ((Follows.op .getIter).seq hbody))
    show Follows (_ >>= _) (Plan.andThen _ _)
    simpa using this
  | .comprehension element target iterable none => by
    have hbody := ((Follows.storeName target).seq
        ((follows_expr h element).seq (.op .listAppend))).forLoop
    have := (Follows.opAt .buildList 0).seq ((follows_expr h iterable).seq
      ((Follows.op .getIter).seq hbody))
    show Follows (_ >>= _) (Plan.andThen _ _)
    simpa using this
  | .lambda _ _ | .await _ | .inert => .nothing

theorem follows_exprs (h : ∀ source, Follows (gen source) (plan source)) :
    ∀ es, Follows (Gen.exprs gen es) (Plan.exprs plan es)
  | [] => .nothing
  | e :: rest => (follows_expr h e).seq (follows_exprs h rest)

theorem follows_exprPairs (h : ∀ source, Follows (gen source) (plan source)) :
    ∀ pairs, Follows (Gen.exprPairs gen pairs) (Plan.exprPairs plan pairs)
  | [] => .nothing
  | (key, value) :: rest =>
    (follows_expr h key).seq ((follows_expr h value).seq (follows_exprPairs h rest))

end

theorem follows_embeddedN : ∀ fuel source,
    Follows (Gen.embeddedN fuel source) (Plan.embeddedN fuel source)
  | 0, _ => .failing _
  | fuel + 1, _ => .read (.lift _) fun e => follows_expr (follows_embeddedN fuel) e

theorem follows_expression (e : Expr) : Follows (Gen.expression e) (Plan.expression e) :=
  follows_expr (fun _ => follows_embeddedN _ _) e

/-! ## Statements -/

/-- A return is appended to the code of a routine if it is planned. -/
theorem Gen.ensureReturn_agrees (g : Generator) :
    Agrees g (fun _ code block => code = g.code.toList ++ block) (Gen.ensureReturn g)
      (Plan.withReturn g.code.toList g.scope) := by
  have hback : g.code.back? = g.code.toList.getLast? := by simp
  show Agrees g _ ((if (g.code.back?.map (·.op)) ≠ some .ret then _ else _ : Gen Unit) g) _
  unfold Plan.withReturn
  rw [hback]
  by_cases hret : g.code.toList.getLast?.map (·.op) = some .ret
  · rw [if_pos hret, if_neg (not_not_intro hret)]
    exact .ok (.refl g) (by simp)
  · rw [if_neg hret, if_pos hret, Gen.loadConst, bind_assoc]
    refine .next (.refl g) (Reads.constant .null g) fun i _ rest g₁ he₁ ⟨hi, hrest⟩ => ?_
    subst hi hrest
    obtain ⟨g₂, hg₂, he₂⟩ := he₁.emitAt .loadConst i
    obtain ⟨g₃, hg₃, he₃⟩ := he₂.emit .ret .null
    exact .run hg₂ (.done hg₃ he₃ rfl)

theorem Reads.routine {p : Plan Shape} (h : Follows m p) (name : String)
    (parameters : List String) :
    Reads (Gen.routine name parameters m) (Plan.routine name parameters p) := by
  intro g
  let g₀ : Generator :=
    { g with current := some ⟨name, parameters, Slots.ofParameters parameters, #[]⟩ }
  show Agrees g _ ((do m; Gen.ensureReturn; modify _ : Gen Unit) g₀)
    ((do
      let shape ← p
      let code ← Plan.withReturn (shape.layout 0)
      modify fun sc => { sc with
        routines := Generator.putRoutine ⟨name, parameters, sc.locals.getD [], code.toArray⟩
          sc.routines
        locals := g.scope.locals } : Plan Unit) g₀.scope)
  refine .bind (h g₀) fun _ shape block g₁ he₁ hblock => ?_
  have hcode : g₁.code.toList = shape.layout 0 := by
    simpa [g₀, Generator.code, hblock] using he₁.code
  rw [← hcode]
  refine .bind (Gen.ensureReturn_agrees g₁) fun _ code rest g₂ he₂ hrest => ?_
  have he := he₁.trans he₂
  obtain ⟨r, hr⟩ : ∃ r, g₂.current = some r := Option.isSome_iff_exists.1 he.isSome
  have hhead : (r.name, r.parameters) = (name, parameters) := by simpa [hr, g₀] using he.heading
  have hrcode : r.code.toList = code := by
    simpa [Generator.code, hr, hrest] using he₂.code
  have hroutine : r = ⟨name, parameters, g₂.scope.locals.getD [], code.toArray⟩ := by
    cases hhead
    simp [← hrcode, Generator.scope, hr]
  let g₃ : Generator := { g₂ with
    routines := Generator.putRoutine r g₂.routines, current := g.current }
  refine .done (show _ = EStateM.Result.ok _ g₃ from ?_) ⟨?_, ?_, fun _ => he.main rfl, rfl⟩ ⟨rfl, rfl⟩
  · show EStateM.Result.ok _ _ = EStateM.Result.ok _ _
    dsimp only
    rw [hr]
  · dsimp only
    rw [← hroutine]
    rfl
  · cases hc : g.current with
    | none => simpa [g₃, Generator.code, hc] using congrArg Array.toList (he.main rfl)
    | some r => simp [g₃, Generator.code, hc]

theorem Follows.withLoop {p : Plan Shape} (h : Follows m p) (inWhile : Bool) :
    Follows (Gen.withLoop inWhile m) (Plan.withLoop inWhile p) := by
  intro g
  let g₀ : Generator := { g with inWhile }
  show Agrees g _ ((do m; modify fun g' => { g' with inWhile := g.inWhile } : Gen Unit) g₀)
    ((do
      let shape ← p
      modify fun sc => { sc with inWhile := g.inWhile }
      return shape : Plan Shape) g₀.scope)
  exact .bind (h g₀) fun _ body rest g₁ he hrest => .ok ⟨rfl, he.code, he.main, he.heading⟩ hrest

theorem Follows.jumpOut :
    Follows (do if (← get).inWhile then Gen.emit .jump (.int (-1)))
      (do if (← get).inWhile then return .one ⟨.jump, .int (-1)⟩ else return .nothing) := by
  refine .inspect (fun g => g.inWhile) (fun sc => sc.inWhile) (fun _ => rfl)
    (k := fun b => if b then _ else _) (q := fun b => if b then _ else _) ?_
  rintro (_ | _)
  · exact .nothing
  · exact .emit _ _

theorem Follows.guardedAfter {m' : Gen Unit} {p q : Plan Shape} (h : Follows m p)
    (h' : Follows m' q) :
    Follows
      (do
        m
        let skip ← Gen.here
        Gen.emitAt .jumpIfFalse 0
        m'
        Gen.patch skip (← Gen.here))
      (do
        let condition ← p
        let body ← q
        return condition.seq (.guarded body)) := by
  have := h.seq h'.guarded
  simpa [Plan.andThen, Plan.into] using this

theorem Gen.ignore_here : (fun _ => PUnit.unit) <$> Gen.here = pure PUnit.unit := rfl

mutual

theorem follows_statement : ∀ s, Follows (Gen.statement s) (Plan.statement s)
  | .expression e => (follows_expression e).seq (.op _)
  | .assign target value => (follows_expression value).seq (.assignName target)
  | .assignMember object word value =>
    (follows_expression object).seq ((follows_expression value).seq
      ((Follows.loadConst _).seq (.op _)))
  | .assignIndex object index value =>
    (follows_expression object).seq ((follows_expression index).seq
      ((follows_expression value).seq (.op _)))
  | .declare name (some e) _ => (follows_expression e).seq (.storeName name)
  | .declare name none _ => (Follows.loadConst _).seq (.storeName name)
  | .function name parameters body =>
    .read (.routine (follows_statements body) name parameters) fun _ => by
      have := (Follows.read (.constant (.str name)) fun i => .opAt .loadFunc i).seq
        (.storeName name)
      simpa using this
  | .classDef name body =>
    .read (reads_methods name [] body) fun table => by
      have := (Follows.loadConst (.dict table)).seq
        ((Follows.read (.constant (.str name)) fun i => .opAt .createClass i).seq
          (.storeName name))
      simpa using this
  | .branch condition thenBody [] none => by
    have := (follows_expression condition).guardedAfter (follows_statements thenBody)
    show Follows (_ >>= _) (_ >>= _)
    simpa [Gen.elifClauses, Plan.elifClauses, Gen.ignore_here] using this
  | .branch condition thenBody [] (some []) => by
    have := (follows_expression condition).guardedAfter (follows_statements thenBody)
    show Follows (_ >>= _) (_ >>= _)
    simpa [Gen.elifClauses, Plan.elifClauses, Gen.statements, Plan.statements, Gen.ignore_here]
      using this
  | .branch condition thenBody [] (some (first :: rest)) => by
    have := Follows.chain (.cons (follows_expression condition) (follows_statements thenBody)
      (.nil (.int (0 : Nat)))) (follows_statements (first :: rest))
    show Follows (_ >>= _) (_ >>= _)
    simpa [Gen.elifClauses, Plan.elifClauses, Gen.emitAt] using this
  | .branch condition thenBody (clause :: elifs) none => by
    have := Follows.chain (.cons (follows_expression condition) (follows_statements thenBody)
      (follows_elifClauses (clause :: elifs))) .nothing
    show Follows (_ >>= _) (_ >>= _)
    simpa [Gen.emitAt] using this
  | .branch condition thenBody (clause :: elifs) (some body) => by
    have := Follows.chain (.cons (follows_expression condition) (follows_statements thenBody)
      (follows_elifClauses (clause :: elifs))) (follows_statements body)
    show Follows (_ >>= _) (_ >>= _)
    simpa [Gen.emitAt] using this
  | .forLoop target iterable body => by
    have := (follows_expression iterable).seq ((Follows.op .getIter).seq
      ((Follows.storeName target).seq ((follows_statements body).withLoop false)).forLoop)
    show Follows (_ >>= _) (Plan.andThen _ _)
    simpa using this
  | .whileLoop condition body =>
    (follows_expression condition).whileLoop ((follows_statements body).withLoop true)
  | .repeatLoop condition body => by
    have := ((follows_statements body).seq (follows_expression condition)).repeatLoop
    show Follows (_ >>= _) (Plan.into _ _)
    simpa using this
  | .switch subject cases _ => by
    have := (follows_expression subject).seq (Follows.chain (follows_caseClauses cases)
      ((follows_defaultClause cases).seq (.op .pop)))
    show Follows (_ >>= _) (_ >>= _)
    simpa [Plan.andThen] using this
  | .importModule source (some (first :: rest)) =>
    (Follows.loadConst _).seq ((Follows.loadConst _).seq ((Follows.op _).seq
      (.each (fun name => .storeName name) (first :: rest))))
  | .importModule source (some []) | .importModule source none =>
    (Follows.loadConst _).seq ((Follows.op _).seq (.storeName source))
  | .returnValue (some e) => (follows_expression e).seq (.op _)
  | .returnValue none => (Follows.loadConst _).seq (.op _)
  | .breakLoop | .continueLoop => .jumpOut
  | .tryBlock body catches (some (first :: rest)) => by
    have := (Follows.op .tryBegin).seq ((follows_statements body).seq ((Follows.op .tryEnd).seq
      ((follows_catchClauses catches).seq ((Follows.op .finallyBegin).seq
        ((follows_statements (first :: rest)).seq (.op .finallyEnd))))))
    show Follows (_ >>= _) (Plan.andThen _ _)
    simpa using this
  | .tryBlock body catches (some []) | .tryBlock body catches none => by
    have := (Follows.op .tryBegin).seq ((follows_statements body).seq ((Follows.op .tryEnd).seq
      ((follows_catchClauses catches).seq .nothing)))
    show Follows (_ >>= _) (Plan.andThen _ _)
    simpa using this
  | .throwValue e => (follows_expression e).seq (.op _)
  | .asyncFunction _ _ _ | .decorated _ _ _ _ | .withBlock _ _ _ | .globals _ | .nonlocals _
  | .assertion _ _ | .deletion _ | .pass | .inert => .nothing

theorem follows_statements : ∀ body, Follows (Gen.statements body) (Plan.statements body)
  | [] => .nothing
  | s :: rest => (follows_statement s).seq (follows_statements rest)

theorem reads_methods (name : String) (table : List (Datum × Datum)) : ∀ body : List Stmt,
    Reads (Gen.methods name table body) (Plan.methods name table body)
  | [] => .value table
  | s :: rest => by
    cases s with
    | function method parameters body =>
      exact .bind (.routine (follows_statements body) (name ++ "." ++ method) parameters)
        fun _ => reads_methods name _ rest
    | _ => exact reads_methods name table rest

theorem follows_elifClauses : ∀ elifs,
    FollowsOpen (.int (0 : Nat)) (Gen.elifClauses elifs) (Plan.elifClauses elifs)
  | [] => .nil _
  | (condition, body) :: rest =>
    .cons (follows_expression condition) (follows_statements body) (follows_elifClauses rest)

theorem follows_caseClauses : ∀ cases,
    FollowsOpen (.int (-1)) (Gen.caseClauses cases) (Plan.caseClauses cases)
  | [] => .nil _
  | (none, _) :: rest => follows_caseClauses rest
  | (some value, body) :: rest => by
    have := ((Follows.op .dup).seq ((follows_expression value).seq (.op .eq)))
    have := FollowsOpen.cons this (follows_statements body) (follows_caseClauses rest)
    show FollowsOpen _ (_ >>= _) (_ >>= _)
    simpa using this

theorem follows_defaultClause : ∀ cases,
    Follows (Gen.defaultClause cases) (Plan.defaultClause cases)
  | [] => .nothing
  | (none, body) :: _ => follows_statements body
  | (some _, _) :: rest => follows_defaultClause rest

theorem follows_catchClauses : ∀ catches,
    Follows (Gen.catchClauses catches) (Plan.catchClauses catches)
  | [] => .nothing
  | (type, target, body) :: rest => by
    have htail := (follows_statements body).seq
      ((Follows.op .catchEnd).seq (follows_catchClauses rest))
    have htyped (name : String) {m p} (h : Follows m p) := (Follows.read
      (.constant (.str name)) fun i => .opAt .catchBegin i).seq h
    simp only [bind_assoc] at htyped
    show Follows (match type.filter (· ≠ "") with | some name => _ | none => _) (Plan.andThen _ _)
    cases type.filter (· ≠ "") <;> cases target.filter (· ≠ "")
    · exact (Follows.op .catchBegin).seq ((Follows.op .pop).seq htail)
    · exact (Follows.op .catchBegin).seq ((Follows.storeName _).seq htail)
    · exact htyped _ ((Follows.op .pop).seq htail)
    · exact htyped _ ((Follows.storeName _).seq htail)

end

/-! ## Programs -/

/-- The compiled program of a plan: the main program ends with a halt. -/
def Shape.unit (shape : Shape) (sc : Scope) : CodeUnit :=
  ⟨sc.constants.toList, sc.globals, sc.routines, shape.layout 0 ++ [⟨.halt, .null⟩]⟩

theorem Gen.statements_of_program
    (hp : Plan.program p = .ok (shape, sc)) :
    ∃ g, (do Gen.statements p; Gen.emit' .halt : Gen Unit) {} = .ok () g ∧
      g.unit = shape.unit sc := by
  obtain ⟨g, hg, e⟩ := ((follows_statements p).seq (.op .halt)).ok (g := {})
    (Plan.bind_ok.2 ⟨shape, sc, hp, rfl⟩)
  refine ⟨g, hg, ?_⟩
  have hnone : g.current = none := by simpa using e.isSome
  have hmain : g.main.toList = shape.layout 0 ++ [⟨.halt, .null⟩] := by
    simpa [Generator.code, hnone, Shape.layout] using e.code
  rw [Shape.unit, ← e.scope, ← hmain]
  rfl

theorem Program.compile_eq (p : Program) : p.compile = match Gen.generate p {} with
    | .ok bytes g => .ok ⟨g.unit, bytes⟩
    | .error e _ => .error e := rfl

theorem compile_of_generated {g : Generator}
    (hg : (do Gen.statements p; Gen.emit' .halt : Gen Unit) {} = .ok () g) :
    p.compile = (Gen.bytesOf g.unit).map (⟨g.unit, ·⟩) := by
  have hgenerate : Gen.generate p {} = Gen.lift (Gen.bytesOf g.unit) g := by
    have hsteps : Gen.generate p = (do Gen.statements p; Gen.emit' .halt) >>= fun _ =>
        Gen.serialize := by
      simp [Gen.generate]
    rw [hsteps]
    exact Gen.bind_ok hg rfl
  rw [p.compile_eq, hgenerate]
  cases Gen.bytesOf g.unit with
  | ok bytes => rfl
  | error e => rfl

/-- A planned program compiles to the layout of its plan, if that can be written. -/
theorem compile_of_program (hp : Plan.program p = .ok (shape, sc)) :
    p.compile = (Gen.bytesOf (shape.unit sc)).map (⟨shape.unit sc, ·⟩) := by
  obtain ⟨g, hg, hunit⟩ := Gen.statements_of_program hp
  rw [compile_of_generated hg, hunit]

theorem compile_of_error {e : CompileError} (hp : Plan.program p = .error e) :
    p.compile = .error e := by
  obtain ⟨g, hg⟩ := (follows_statements p).error (g := {}) hp
  rw [p.compile_eq, show Gen.generate p {} = .error e g from Gen.bind_error hg]

theorem compile_eq_ok {c : Compiled} (h : p.compile = .ok c) :
    ∃ shape sc, Plan.program p = .ok (shape, sc) ∧ c.unit = shape.unit sc ∧
      Gen.bytesOf c.unit = .ok c.bytes := by
  cases hp : Plan.program p with
  | error e => simp [compile_of_error hp] at h
  | ok planned =>
    obtain ⟨shape, sc⟩ := planned
    rw [compile_of_program hp] at h
    cases hb : Gen.bytesOf (shape.unit sc) with
    | error e => simp [hb, Except.map] at h
    | ok bytes =>
      rw [hb] at h
      cases h
      exact ⟨shape, sc, rfl, rfl, hb⟩

end StackScript
