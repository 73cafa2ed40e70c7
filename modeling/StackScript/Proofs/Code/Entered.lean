import StackScript.Proofs.Code.Carried

/-!
# What planning enters into the tables

Whatever program is planned, also one that leaves the stack in disorder: the tables only grow, a
name never loses its slot, and the constants that come in are the literals of the program and a few
that every program may need. All instructions have operands of one kind.
-/

namespace StackScript

/-! ## Literals -/

mutual

/-- The literals that an expression loads. -/
def Expr.literals : Expr → List Datum
  | .literal d => [d]
  | .formatted pieces => pieceValues pieces
  | .name _ => []
  | .binary left _ right => left.literals ++ right.literals
  | .unary _ operand => operand.literals
  | .call function arguments => function.literals ++ Expr.literalsOf arguments
  | .member object _ => object.literals
  | .index object place => object.literals ++ place.literals
  | .list elements | .tuple elements => Expr.literalsOf elements
  | .dict pairs => Expr.literalsOfPairs pairs
  | .comprehension element _ iterable condition =>
    iterable.literals ++ element.literals ++
      (match condition with
      | some c => c.literals
      | none => [])
  | .lambda _ _ | .await _ | .inert => []

/-- The literals that expressions load. -/
def Expr.literalsOf : List Expr → List Datum
  | [] => []
  | e :: rest => e.literals ++ Expr.literalsOf rest

/-- The literals that keys and values load. -/
def Expr.literalsOfPairs : List (Expr × Expr) → List Datum
  | [] => []
  | (key, value) :: rest => key.literals ++ value.literals ++ Expr.literalsOfPairs rest

end

/-- The literals of an expression that may be missing. -/
def Expr.literalsOf? : Option Expr → List Datum
  | some e => e.literals
  | none => []

mutual

/-- The literals that a statement loads. -/
def Stmt.literals : Stmt → List Datum
  | .expression e | .assign _ e | .throwValue e => e.literals
  | .declare _ value _ | .returnValue value => Expr.literalsOf? value
  | .assignMember object _ value => object.literals ++ value.literals
  | .assignIndex object index value => object.literals ++ index.literals ++ value.literals
  | .function _ _ body | .classDef _ body => Stmt.literalsOf body
  | .branch condition thenBody elifs none =>
    condition.literals ++ Stmt.literalsOf thenBody ++ Stmt.literalsOfElifs elifs
  | .branch condition thenBody elifs (some body) =>
    condition.literals ++ Stmt.literalsOf thenBody ++ Stmt.literalsOfElifs elifs ++
      Stmt.literalsOf body
  | .forLoop _ e body | .whileLoop e body | .repeatLoop e body =>
    e.literals ++ Stmt.literalsOf body
  | .switch subject cases _ => subject.literals ++ Stmt.literalsOfCases cases
  | .tryBlock body catches none => Stmt.literalsOf body ++ Stmt.literalsOfCatches catches
  | .tryBlock body catches (some last) =>
    Stmt.literalsOf body ++ Stmt.literalsOfCatches catches ++ Stmt.literalsOf last
  | .asyncFunction _ _ _ | .decorated _ _ _ _ | .withBlock _ _ _ | .importModule _ _ | .breakLoop
  | .continueLoop | .globals _ | .nonlocals _ | .assertion _ _ | .deletion _ | .pass | .inert => []

/-- The literals that statements load. -/
def Stmt.literalsOf : List Stmt → List Datum
  | [] => []
  | s :: rest => s.literals ++ Stmt.literalsOf rest

/-- The literals of further alternatives. -/
def Stmt.literalsOfElifs : List (Expr × List Stmt) → List Datum
  | [] => []
  | (condition, body) :: rest =>
    condition.literals ++ Stmt.literalsOf body ++ Stmt.literalsOfElifs rest

/-- The literals of cases. -/
def Stmt.literalsOfCases : List (Option Expr × List Stmt) → List Datum
  | [] => []
  | (value, body) :: rest =>
    Expr.literalsOf? value ++ Stmt.literalsOf body ++ Stmt.literalsOfCases rest

/-- The literals of catch clauses. -/
def Stmt.literalsOfCatches : List (Option String × Option String × List Stmt) → List Datum
  | [] => []
  | (_, _, body) :: rest => Stmt.literalsOf body ++ Stmt.literalsOfCatches rest

end

/-- The literals that the code of a program loads. -/
def Program.literals (p : Program) : List Datum := Stmt.literalsOf p

/-! ## Instructions -/

/-- All instructions of a shape are legible. -/
abbrev Shape.Legible (s : Shape) : Prop := s.All Instruction.Legible

theorem Shape.Legible.layout {s : Shape} (h : s.Legible) (start : Nat) :
    ∀ i ∈ s.layout start, i.Legible := by
  refine All.layout h (fun op hop target => .to ?_ target) start
  revert op
  decide

theorem Shape.composed_legible : Shape.Composed True Shape.Legible :=
  Shape.composed_all (fun _ _ h => h) (fun _ _ _ h => h)

/-! ## Tables -/

/-- Slots after more names have been entered: a new one has a number below the count of all. -/
structure Slots.Leads (slots slots' : Slots) : Prop where
  names : slots.names.Nodup → slots'.names.Nodup
  numbers : ∀ entry ∈ slots', entry ∈ slots ∨ entry.2 < slots'.length

/-- The code of a routine is legible, its names are distinct, and their slots are those of the
parameters or counted on. -/
structure Routine.Legible (r : Routine) : Prop where
  names : r.slots.names.Nodup
  numbers : ∀ entry ∈ r.slots, entry.2 < r.parameters.length + r.slots.length
  code : ∀ i ∈ r.code.toList, i.Legible

/-- What planning does to the tables, where the new constants are of a set. -/
structure Scope.Leads (A : Datum → Prop) (sc sc' : Scope) : Prop where
  grows : sc.Grows sc'
  constants : ∀ d ∈ sc'.constants.toList, d ∈ sc.constants.toList ∨ A d
  globals : sc.globals.Proper → sc'.globals.Proper
  locals : ∀ slots slots', sc.locals = some slots → sc'.locals = some slots' → slots.Leads slots'
  names : (sc.routines.map (·.name)).Nodup → (sc'.routines.map (·.name)).Nodup
  routines : ∀ r ∈ sc'.routines, r ∈ sc.routines ∨ r.Legible

theorem Slots.Leads.refl (slots : Slots) : slots.Leads slots :=
  ⟨id, fun _ h => .inl h⟩

theorem Slots.Leads.trans {a b c : Slots} (hab : a.Leads b) (hbc : b.Leads c)
    (hle : b.length ≤ c.length) : a.Leads c := by
  refine ⟨fun h => hbc.names (hab.names h), fun entry hc => ?_⟩
  rcases hbc.numbers entry hc with hb | hlt
  · rcases hab.numbers entry hb with ha | hlt
    · exact .inl ha
    · exact .inr (by omega)
  · exact .inr hlt

variable {name : String} {slots : Slots} {d : Datum}

theorem Slots.nodup_append_new (k : Nat) (hnew : slots.slot? name = none) (h : slots.names.Nodup) :
    (Slots.names (slots ++ [(name, k)])).Nodup := by
  have hnames := List.Nodup.concat (Slots.slot?_eq_none.1 hnew) h
  simpa [Slots.names] using hnames

theorem Slots.Leads.put (hnew : slots.slot? name = none) :
    slots.Leads (slots.put name slots.length) := by
  rw [Slots.put_of_new hnew]
  refine ⟨Slots.nodup_append_new _ hnew, fun entry hentry => ?_⟩
  rcases List.mem_append.1 hentry with hentry | hentry
  · exact .inl hentry
  · rw [List.mem_singleton.1 hentry]
    exact .inr (by simp)

namespace Scope.Leads

variable {A : Datum → Prop} {sc sc₁ sc₂ : Scope}

theorem refl (sc : Scope) : sc.Leads A sc where
  grows := .refl sc
  constants := fun _ h => .inl h
  globals := id
  locals := fun slots _ h h' => Option.some.inj (h.symm.trans h') ▸ .refl slots
  names := id
  routines := fun _ h => .inl h

theorem trans (h₁ : sc.Leads A sc₁) (h₂ : sc₁.Leads A sc₂) : sc.Leads A sc₂ where
  grows := h₁.grows.trans h₂.grows
  constants := by
    intro d hd
    rcases h₂.constants d hd with hd | hd
    · exact h₁.constants d hd
    · exact .inr hd
  globals := fun h => h₂.globals (h₁.globals h)
  locals := by
    intro slots slots₂ hslots hslots₂
    rcases h₁.grows.locals with ⟨hnone, -⟩ | ⟨-, slots₁, -, hslots₁, -⟩
    · rw [hnone] at hslots
      cases hslots
    · rcases h₂.grows.locals with ⟨hnone, -⟩ | ⟨_, _, ha, hb, hab⟩
      · rw [hnone] at hslots₁
        cases hslots₁
      · rw [hslots₁] at ha
        rw [hslots₂] at hb
        cases ha
        cases hb
        exact (h₁.locals _ _ hslots hslots₁).trans (h₂.locals _ _ hslots₁ hslots₂) hab.length_le
  names := fun h => h₂.names (h₁.names h)
  routines := by
    intro r hr
    rcases h₂.routines r hr with hr | hr
    · exact h₁.routines r hr
    · exact .inr hr

theorem pushConstant (hd : A d) (sc : Scope) :
    sc.Leads A { sc with constants := sc.constants.push d } where
  grows := .pushConstant sc d
  constants := by
    intro e he
    rcases List.mem_append.1 (Array.toList_push ▸ he) with he | he
    · exact .inl he
    · exact .inr (List.mem_singleton.1 he ▸ hd)
  globals := id
  locals := (refl (A := A) sc).locals
  names := id
  routines := fun _ h => .inl h

variable {name : String}

theorem putGlobal (hnew : sc.globals.slot? name = none) :
    sc.Leads A { sc with globals := sc.globals.put name sc.globals.length } where
  grows := .putGlobal hnew
  constants := fun _ h => .inl h
  globals := fun h => h.put_new hnew
  locals := (refl (A := A) sc).locals
  names := id
  routines := fun _ h => .inl h

theorem putLocal (hslots : sc.locals = some slots) (hnew : slots.slot? name = none) :
    sc.Leads A { sc with locals := some (slots.put name slots.length) } where
  grows := .putLocal hslots hnew
  constants := fun _ h => .inl h
  globals := id
  locals := by
    intro a b ha hb
    rw [hslots] at ha
    cases ha
    cases hb
    exact .put hnew
  names := id
  routines := fun _ h => .inl h

theorem loop {w : Bool} (h : { sc with inWhile := w }.Leads A sc₁) :
    sc.Leads A { sc₁ with inWhile := sc.inWhile } :=
  { h with grows := ⟨h.grows.constants, h.grows.globals, h.grows.locals, rfl⟩ }

theorem rule (A : Datum → Prop) : Scope.Rule A (Scope.Leads A) where
  refl := refl
  trans := trans
  inWhile h := h.grows.inWhile
  pushConstant sc hd := pushConstant hd sc
  putGlobal := putGlobal
  putLocal := putLocal
  loop := loop

end Scope.Leads

theorem Slots.mem_put {k : Nat} {entry : String × Nat}
    (h : entry ∈ slots.put name k) : entry = (name, k) ∨ entry ∈ slots := by
  induction slots with
  | nil => exact .inl (List.mem_singleton.1 h)
  | cons first rest ih =>
    rw [Slots.put] at h
    split at h
    · rcases List.mem_cons.1 h with h | h
      · exact .inl h
      · exact .inr (List.mem_cons_of_mem _ h)
    · rcases List.mem_cons.1 h with rfl | h
      · exact .inr List.mem_cons_self
      · rcases ih h with h | h
        · exact .inl h
        · exact .inr (List.mem_cons_of_mem _ h)

theorem Slots.names_put_of_mem (k : Nat)
    (h : name ∈ slots.names) : (slots.put name k).names = slots.names := by
  induction slots with
  | nil => cases h
  | cons first rest ih =>
    rw [Slots.put]
    split
    · rename_i heq
      simp [Slots.names, eq_of_beq heq]
    · rename_i hne
      have hrest : name ∈ Slots.names rest := by
        rcases List.mem_cons.1 h with heq | hrest
        · exact absurd (beq_iff_eq.2 heq.symm) hne
        · exact hrest
      exact congrArg (first.1 :: ·) (ih hrest)

theorem Slots.nodup_put (name : String) (k : Nat) (h : slots.names.Nodup) :
    (slots.put name k).names.Nodup := by
  by_cases hname : name ∈ slots.names
  · rw [Slots.names_put_of_mem k hname]
    exact h
  · have hnew := Slots.slot?_eq_none.2 hname
    rw [Slots.put_of_new hnew]
    exact Slots.nodup_append_new k hnew h

/-- The parameters of a routine have distinct names as slots, also if they are not distinct, and
each slot is the place of a parameter. -/
theorem Slots.legible_ofParameters (parameters : List String) :
    (Slots.ofParameters parameters).names.Nodup ∧
      ∀ entry ∈ Slots.ofParameters parameters, entry.2 < parameters.length := by
  have hfold : ∀ (entries : List (String × Nat)) (start : Slots), start.names.Nodup →
      (∀ entry ∈ start, entry.2 < parameters.length) →
      (∀ entry ∈ entries, entry.2 < parameters.length) →
      (entries.foldl (fun slots entry => slots.put entry.1 entry.2) start).names.Nodup ∧
        ∀ entry ∈ entries.foldl (fun slots entry => slots.put entry.1 entry.2) start,
          entry.2 < parameters.length := by
    intro entries
    induction entries with
    | nil => exact fun start hnames hstart _ => ⟨hnames, hstart⟩
    | cons first rest ih =>
      intro start hnames hstart hentries
      refine ih _ (Slots.nodup_put _ _ hnames) (fun entry hentry => ?_) fun entry hentry =>
        hentries entry (List.mem_cons_of_mem _ hentry)
      rcases Slots.mem_put hentry with rfl | hentry
      · exact hentries first List.mem_cons_self
      · exact hstart entry hentry
  refine hfold parameters.zipIdx [] List.nodup_nil nofun ?_
  intro entry hentry
  have := List.snd_lt_of_mem_zipIdx hentry
  simpa using this

/-! ## Routines -/

theorem names_putRoutine (r : Routine) (routines : List Routine) :
    ((Generator.putRoutine r routines).map (·.name)) =
      if r.name ∈ routines.map (·.name) then routines.map (·.name)
      else routines.map (·.name) ++ [r.name] := by
  induction routines with
  | nil => rfl
  | cons first rest ih =>
    rw [Generator.putRoutine]
    by_cases h : first.name = r.name
    · simp [h]
    · have hne : r.name ≠ first.name := fun heq => h heq.symm
      simp only [beq_iff_eq, h, if_false, List.map_cons, ih, List.mem_cons, hne, false_or]
      split <;> rfl

theorem nodup_putRoutine (r : Routine) {routines : List Routine}
    (h : (routines.map (·.name)).Nodup) :
    ((Generator.putRoutine r routines).map (·.name)).Nodup := by
  rw [names_putRoutine]
  split
  · exact h
  · rename_i hnew
    simpa using List.Nodup.concat hnew h

/-- A routine that ends its plan is entered, and the locals of the place are as before. -/
theorem Scope.Leads.putRoutine {A : Datum → Prop} {sc sc₁ : Scope}
    {parameters : List String} {code : List Instruction}
    (h : { sc with locals := some (Slots.ofParameters parameters) }.Leads A sc₁)
    (hcode : ∀ i ∈ code, i.Legible) :
    sc.Leads A { sc₁ with
      routines := Generator.putRoutine ⟨name, parameters, sc₁.locals.getD [], code.toArray⟩
        sc₁.routines
      locals := sc.locals } := by
  obtain ⟨slots, hslots⟩ : ∃ slots, sc₁.locals = some slots := by
    rcases h.grows.locals with ⟨hnone, -⟩ | ⟨_, slots, -, hslots, -⟩
    · cases hnone
    · exact ⟨slots, hslots⟩
  have hlegible : Routine.Legible ⟨name, parameters, slots, code.toArray⟩ := by
    obtain ⟨hnames, hnumbers⟩ := Slots.legible_ofParameters parameters
    have hleads := h.locals _ _ rfl hslots
    refine ⟨hleads.names hnames, fun entry hentry => ?_, by simpa using hcode⟩
    show entry.2 < parameters.length + slots.length
    rcases hleads.numbers entry hentry with hentry | hlt
    · have := hnumbers entry hentry
      omega
    · omega
  refine ⟨⟨h.grows.constants, h.grows.globals, (Scope.Grows.refl sc).locals, h.grows.inWhile⟩,
    h.constants, h.globals, (Scope.Leads.refl (A := A) sc).locals,
    fun hnames => nodup_putRoutine _ (h.names hnames), fun r hr => ?_⟩
  rcases mem_putRoutine hr with rfl | hr
  · rw [hslots]
    exact .inr hlegible
  · exact h.routines r hr

/-! ## Trees -/

theorem Expr.literalsOf_eq (es : List Expr) : Expr.literalsOf es = es.flatMap Expr.literals := by
  induction es with
  | nil => rfl
  | cons e rest ih => simp [Expr.literalsOf, ih]

theorem Expr.literalsOfPairs_eq : ∀ pairs : List (Expr × Expr), Expr.literalsOfPairs pairs =
    (pairs.flatMap fun pair => [pair.1, pair.2]).flatMap Expr.literals
  | [] => rfl
  | pair :: rest => by simp [Expr.literalsOfPairs, Expr.literalsOfPairs_eq rest]

theorem Expr.literals_of_part {e part : Expr} (h : part ∈ e.parts)
    (hd : d ∈ part.literals) : d ∈ e.literals := by
  cases e with
  | comprehension element target iterable condition =>
    cases condition <;> simp_all [parts, literals] <;> grind
  | _ => simp_all [parts, literals, literalsOf_eq, literalsOfPairs_eq] <;> grind

theorem Stmt.mem_literalsOf (body : List Stmt) :
    d ∈ Stmt.literalsOf body ↔ ∃ s ∈ body, d ∈ s.literals := by
  induction body with
  | nil => simp [Stmt.literalsOf]
  | cons s rest ih => simp [Stmt.literalsOf, ih]

theorem Stmt.mem_literalsOfElifs : ∀ elifs : List (Expr × List Stmt),
    d ∈ Stmt.literalsOfElifs elifs ↔
      ∃ clause ∈ elifs, d ∈ clause.1.literals ∨ d ∈ Stmt.literalsOf clause.2
  | [] => by simp [Stmt.literalsOfElifs]
  | _ :: rest => by simp [Stmt.literalsOfElifs, Stmt.mem_literalsOfElifs rest, or_assoc]

theorem Stmt.mem_literalsOfCases : ∀ cases : List (Option Expr × List Stmt),
    d ∈ Stmt.literalsOfCases cases ↔
      ∃ clause ∈ cases, d ∈ Expr.literalsOf? clause.1 ∨ d ∈ Stmt.literalsOf clause.2
  | [] => by simp [Stmt.literalsOfCases]
  | _ :: rest => by simp [Stmt.literalsOfCases, Stmt.mem_literalsOfCases rest, or_assoc]

theorem Stmt.mem_literalsOfCatches : ∀ catches : List (Option String × Option String × List Stmt),
    d ∈ Stmt.literalsOfCatches catches ↔ ∃ clause ∈ catches, d ∈ Stmt.literalsOf clause.2.2
  | [] => by simp [Stmt.literalsOfCatches]
  | _ :: rest => by simp [Stmt.literalsOfCatches, Stmt.mem_literalsOfCatches rest]

theorem Stmt.literals_of_expr {s : Stmt} {e : Expr} (h : e ∈ s.exprs)
    (hd : d ∈ e.literals) : d ∈ s.literals := by
  cases s with
  | declare name value hint | returnValue value =>
    simp only [exprs, Option.mem_toList] at h
    subst h
    exact hd
  | branch condition thenBody elifs elseBody =>
    cases elseBody <;> simp_all [exprs, literals, mem_literalsOfElifs] <;> grind
  | switch subject cases fallback =>
    simp_all [exprs, literals, mem_literalsOfCases]
    rcases h with rfl | ⟨body, h⟩
    · exact .inl hd
    · exact .inr ⟨_, _, h, .inl hd⟩
  | _ => simp_all [exprs, literals] <;> grind

theorem Stmt.literals_of_inner {s part : Stmt} (h : part ∈ s.inner)
    (hd : d ∈ part.literals) : d ∈ s.literals := by
  cases s with
  | branch condition thenBody elifs elseBody =>
    cases elseBody <;> simp_all [inner, literals, mem_literalsOf, mem_literalsOfElifs] <;> grind
  | tryBlock body catches last =>
    cases last <;> simp_all [inner, literals, mem_literalsOf, mem_literalsOfCatches] <;> grind
  | _ => simp_all [inner, literals, mem_literalsOf, mem_literalsOfCases] <;> grind

section Trees

variable {A : Datum → Prop} (hA : Datum.Basic A)
  (hread : ∀ source e, Gen.expressionOf source = .ok e → ∀ d ∈ e.literals, A d)
include hA hread

/-- Constants of a set lead the tables on, and all instructions are legible. -/
theorem carried_literals : Stmt.Carried A (Scope.Leads A) True (∀ d ∈ ·.literals, A d)
    (fun _ s => ∀ d ∈ s.literals, A d) Shape.Legible where
  rule := Scope.Leads.rule A
  basic := hA
  shape := Shape.composed_legible.toCarried
  composed := Shape.composed_legible
  asked.parts h _ hpart d hd := h d (Expr.literals_of_part hpart hd)
  asked.literal h := h _ (by simp [Expr.literals])
  asked.pieces h := h
  asked.holes _ source _ e he := hread source e he
  statement.exprs h _ he d hd := h d (Stmt.literals_of_expr he hd)
  statement.inner h _ hs d hd := h d (Stmt.literals_of_inner hs hd)
  statement.out _ _ := ⟨by decide, .inr ⟨-1, rfl⟩⟩
  statement.attempt _ := .inl trivial
  statement.function h full := by
    have hR := Scope.Leads.rule A
    refine .inl ⟨fun s hs d hd => h d ((Stmt.mem_literalsOf _).2 ⟨s, hs, hd⟩), fun hbody => ?_⟩
    refine hbody.routine hR (fun shape hshape => ?_) .putRoutine
    exact .withReturn hR hA.null (hshape.layout 0) (.to (by decide)) ⟨by decide, .inl rfl⟩
  statement.method h _ _ _ hm d hd := h d ((Stmt.mem_literalsOf _).2 ⟨_, hm, hd⟩)

end Trees

end StackScript
