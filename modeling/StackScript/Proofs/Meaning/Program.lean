import StackScript.Proofs.Meaning.Planned

/-!
# Plans of whole programs

A program of the core language defines functions and then runs statements. Its plan succeeds, enters a
routine for each function, in order, and yields code that binds the name of each function and goes on
with the code of the statements.
-/

namespace StackScript.Meaning

/-- The statement that defines a function. -/
def Procedure.definition (d : Procedure) : Stmt := .function d.name d.parameters d.body

/-- A function of the core language, under the rules of the main program. -/
structure Rules.CoreProcedure (r : Rules) (d : Procedure) : Prop where
  parameters : d.parameters.Nodup
  apart : ∀ name ∈ d.names, ¬ r.isGlobal name
  body : ({ r with place := some d.names } : Rules).CoreBody true d.parameters d.body
  returns : ∃ e, d.body.getLast? = some (.returnValue e)

/-- The functions and the statements of a program of the core language. -/
structure Rules.CoreProgram (r : Rules) (defs : List Procedure) (body : List Stmt) : Prop where
  place : r.place = none
  functions : r.functions = defs.map (·.name)
  distinct : (defs.map (·.name)).Nodup
  notPlain : ∀ d ∈ defs, Wide.plainFunction? d.name = none
  procedures : ∀ d ∈ defs, r.CoreProcedure d
  body : r.CoreBody false [] body

/-- The code of a function. -/
structure Tables.CodesProcedure (t : Tables) (d : Procedure) (code : Routine) : Prop where
  name : code.name = d.name
  parameters : code.parameters = d.parameters
  slots : code.slots.Proper
  first : ∃ more, code.slots.names = d.parameters ++ more
  known : ∀ name, name ∈ d.names ↔ name ∈ code.slots.names
  body : ∃ a, ({ t with locals := some code.slots } : Tables).CodesBody true d.body a ∧
    code.code = (a.layout 0).toArray

/-- The codes of functions, in order. -/
structure Tables.CodesProcedures (t : Tables) (defs : List Procedure) (codes : List Routine) :
    Prop where
  names : codes.map (·.name) = defs.map (·.name)
  each : ∀ d ∈ defs, ∃ code ∈ codes, t.CodesProcedure d code
  only : ∀ code ∈ codes, ∃ d ∈ defs, t.CodesProcedure d code

/-- The code of definitions and of the statements after them. -/
inductive Tables.CodesProgram (t : Tables) (body : List Stmt) : List Procedure → Shape → Prop
  | statements {a : Shape} (ha : t.CodesBody false body a) : CodesProgram t body [] a
  | definition {d : Procedure} {rest : List Procedure} {i k : Nat} {a : Shape}
      (hi : t.constants[i]? = some (.str d.name)) (hk : t.globals.slot? d.name = some k)
      (ha : CodesProgram t body rest a) : CodesProgram t body (d :: rest)
        (((Shape.one (.to .loadFunc i)).seq (.one (.to .storeGlobal k))).seq a)

/-! ## Functions -/

/-- The tables as they stand. -/
def Rules.tables (r : Rules) (sc : Scope) : Tables :=
  ⟨sc.constants.toList, sc.globals, sc.locals, r.functions⟩

variable {r : Rules} {sc : Scope} {body : List Stmt} {d : Procedure} {defs : List Procedure}
  {code : Routine} {t : Tables}

theorem Rules.Ordered.covers {declared : List String}
    (h : r.Ordered declared sc) : (r.tables sc).Covers r sc := by
  refine ⟨List.prefix_refl _, List.prefix_refl _, ?_, ?_, rfl⟩
  · cases hl : sc.locals with
    | none => exact .inl ⟨rfl, hl⟩
    | some slots => exact .inr ⟨slots, slots, rfl, hl, List.prefix_refl _⟩
  · intro slots hslots name hname
    have hslots : sc.locals = some slots := hslots
    rcases h.locals with ⟨-, hl⟩ | ⟨names, slots', hplace, hl, -, hnames, hsub⟩
    · rw [hl] at hslots
      cases hslots
    · rw [hl] at hslots
      cases hslots
      rw [hplace]
      exact hsub name ((hnames name).1 hname)

/-- Code of a body that ends with a return ends with one. -/
theorem Tables.CodesBody.getLast?_layout {a : Shape}
    {e : Option Expr} (h : t.CodesBody true body a) (hlast : body.getLast? = some (.returnValue e))
    (n : Nat) : (a.layout n).getLast? = some ⟨.ret, .null⟩ := by
  induction body generalizing a n with
  | nil => cases hlast
  | cons s rest ih =>
    cases h with
    | @cons _ _ _ a b ha hb =>
      cases rest with
      | nil =>
        cases hlast
        cases hb
        cases ha <;> simp [Shape.layout]
      | cons s' rest =>
        have := ih hb (by simpa using hlast) (n + a.size)
        rw [Shape.layout, List.getLast?_append, this]
        rfl

theorem plans_routine (hr : r.Sound) (hplace : r.place = none)
    (hd : r.CoreProcedure d) (hsc : r.Ordered [] sc) :
    ∃ code sc', Plan.routine d.name d.parameters (Plan.statements d.body) sc = .ok ((), sc') ∧
      sc.Grows sc' ∧ sc'.routines = Generator.putRoutine code sc.routines ∧ r.Ordered [] sc' ∧
      ∀ t : Tables, t.Covers r sc' → t.CodesProcedure d code := by
  let r' : Rules := { r with place := some d.names }
  have hr' : r'.Sound := ⟨hr.strings, hr.coherent, hd.apart, hr.functions⟩
  have hl : sc.locals = none := by
    rcases hsc.locals with ⟨-, hl⟩ | ⟨names, -, hnames, -⟩
    · exact hl
    · rw [hplace] at hnames
      cases hnames
  have hparameters : (Slots.ofParameters d.parameters).names = d.parameters := by
    rw [Slots.ofParameters_eq hd.parameters, Slots.names, List.zipIdx_map_fst]
  have hsc₀ : r'.Ordered d.parameters { sc with locals := some (.ofParameters d.parameters) } := by
    refine ⟨hsc.constants, hsc.globals, hsc.known, .inr ⟨d.names, _, rfl, rfl,
      Slots.proper_ofParameters hd.parameters, fun name => by rw [hparameters], fun name hname => ?_⟩⟩
    exact List.mem_append_left _ hname
  obtain ⟨shape, sc₁, hrun, hg, hroutines, hsc₁, hbody⟩ := plans_body hr' hd.body _ hsc₀
  obtain ⟨slots, hslots, hproper, hnames, hsub⟩ : ∃ slots, sc₁.locals = some slots ∧
      slots.Proper ∧ (∀ name, name ∈ slots.names ↔ name ∈ d.names) ∧
      Slots.ofParameters d.parameters <+: slots := by
    rcases hsc₁.locals with ⟨hnone, -⟩ | ⟨names, slots, -, hslots, hproper, hnames, -⟩
    · cases hnone
    · rcases hg.locals with ⟨hnone, -⟩ | ⟨a, b, ha, hb, hab⟩
      · cases hnone
      · cases ha
        rw [hslots] at hb
        cases hb
        exact ⟨slots, hslots, hproper, hnames, hab⟩
  obtain ⟨e, he⟩ := hd.returns
  have hret : (shape.layout 0).getLast? = some ⟨.ret, .null⟩ :=
    (hbody _ hsc₁.covers).getLast?_layout he 0
  have hcode : Plan.withReturn (shape.layout 0) sc₁ = .ok (shape.layout 0, sc₁) := by
    rw [Plan.withReturn, hret]
    rfl
  let code : Routine := ⟨d.name, d.parameters, slots, (shape.layout 0).toArray⟩
  let sc' : Scope := { sc₁ with
    routines := Generator.putRoutine code sc₁.routines, locals := none }
  have hplan : Plan.routine d.name d.parameters (Plan.statements d.body) sc = .ok ((), sc') := by
    refine Plan.bind_ok.2 ⟨sc, sc, rfl, Plan.bind_ok.2 ⟨(), _, rfl, Plan.bind_ok.2
      ⟨shape, sc₁, hrun, Plan.bind_ok.2 ⟨shape.layout 0, sc₁, hcode, ?_⟩⟩⟩⟩
    show Except.ok ((), { sc₁ with
      routines := Generator.putRoutine ⟨d.name, d.parameters, sc₁.locals.getD [],
        (shape.layout 0).toArray⟩ sc₁.routines, locals := sc.locals }) = _
    rw [hl, hslots]
    rfl
  refine ⟨code, sc', hplan, ⟨hg.constants, hg.globals, .inl ⟨hl, rfl⟩, hg.inWhile⟩,
    congrArg _ hroutines, ⟨hsc₁.constants, hsc₁.globals, hsc₁.known, .inl ⟨hplace, rfl⟩⟩,
    fun t ht => ?_⟩
  have hcovers : ({ t with locals := some slots } : Tables).Covers r' sc₁ := by
    refine ⟨ht.constants, ht.globals, .inr ⟨slots, slots, hslots, rfl, List.prefix_refl _⟩, ?_,
      ht.functions⟩
    rintro slots' hslots' name hname
    cases hslots'
    exact (hnames name).1 hname
  refine ⟨rfl, rfl, hproper, ?_, fun name => (hnames name).symm, shape, hbody _ hcovers, rfl⟩
  obtain ⟨more, rfl⟩ := hsub
  refine ⟨Slots.names more, ?_⟩
  show Slots.names (Slots.ofParameters d.parameters ++ more) = _
  rw [Slots.names, List.map_append]
  exact congrArg (· ++ _) hparameters

/-! ## Programs -/

theorem putRoutine_of_new {routines : List Routine}
    (h : ∀ other ∈ routines, other.name ≠ code.name) :
    Generator.putRoutine code routines = routines ++ [code] := by
  induction routines with
  | nil => rfl
  | cons other rest ih =>
    have hne : (other.name == code.name) = false := by simpa using h other (by simp)
    rw [Generator.putRoutine, hne, ih fun x hx => h x (by simp [hx])]
    rfl

theorem Tables.CodesProcedures.cons {codes : List Routine} (h : t.CodesProcedure d code)
    (hrest : t.CodesProcedures defs codes) : t.CodesProcedures (d :: defs) (code :: codes) := by
  refine ⟨by simp [h.name, hrest.names], ?_, ?_⟩
  · intro other hother
    rcases List.mem_cons.1 hother with rfl | hother
    · exact ⟨code, by simp, h⟩
    · obtain ⟨code', hcode', hc⟩ := hrest.each other hother
      exact ⟨code', by simp [hcode'], hc⟩
  · intro other hother
    rcases List.mem_cons.1 hother with rfl | hother
    · exact ⟨d, by simp, h⟩
    · obtain ⟨d', hd', hc⟩ := hrest.only other hother
      exact ⟨d', by simp [hd'], hc⟩

/-- The plan of a definition: a routine, and code that binds its name. -/
theorem plans_definition (hr : r.Sound) (hplace : r.place = none)
    (hd : r.CoreProcedure d) (hname : d.name ∈ r.functions) (hsc : r.Ordered [] sc) :
    ∃ code sc' i k, Plan.statement d.definition sc =
        .ok ((Shape.one (.to .loadFunc i)).seq (.one (.to .storeGlobal k)), sc') ∧
      sc.Grows sc' ∧ sc'.routines = Generator.putRoutine code sc.routines ∧ r.Ordered [] sc' ∧
      ∀ t : Tables, t.Covers r sc' → t.CodesProcedure d code ∧
        t.constants[i]? = some (.str d.name) ∧ t.globals.slot? d.name = some k := by
  obtain ⟨code, sc₁, hrun₁, hg₁, hroutines₁, hsc₁, hcode⟩ := plans_routine hr hplace hd hsc
  obtain ⟨i, sc₂, hrun₂, hg₂, hroutines₂, hsc₂, hi⟩ :=
    Rules.Plans.constant hr (hr.strings d.name) sc₁ hsc₁
  obtain ⟨s, sc₃, hrun₃, hg₃, hroutines₃, hsc₃, hs⟩ :=
    Rules.Plans.storeGlobal hplace (hr.functions d.name hname) sc₂ hsc₂
  obtain ⟨k, -, -, rfl⟩ := hs _ hsc₃.covers
  refine ⟨code, sc₃, i, k, Plan.bind_ok.2 ⟨(), sc₁, hrun₁, Plan.bind_ok.2
    ⟨_, sc₂, Plan.bind_ok.2 ⟨i, sc₂, hrun₂, rfl⟩, Plan.bind_ok.2 ⟨_, sc₃, hrun₃, rfl⟩⟩⟩,
    hg₁.trans (hg₂.trans hg₃), (hroutines₃.trans hroutines₂).trans hroutines₁, hsc₃, fun t ht => ?_⟩
  have ht₂ := ht.of_grows hg₃
  obtain ⟨k', -, hk', heq⟩ := hs t ht
  cases heq
  exact ⟨hcode t (ht₂.of_grows hg₂), hi t ht₂, hk'⟩

theorem plans_statements (hr : r.Sound) (hplace : r.place = none)
    (hbody : r.CoreBody false [] body) (defs : List Procedure)
    (hdefs : ∀ d ∈ defs, r.CoreProcedure d ∧ d.name ∈ r.functions)
    (hdistinct : (defs.map (·.name)).Nodup) (hsc : r.Ordered [] sc)
    (hnew : ∀ d ∈ defs, ∀ other ∈ sc.routines, other.name ≠ d.name) :
    ∃ shape codes sc', Plan.statements (defs.map Procedure.definition ++ body) sc = .ok (shape, sc') ∧
      sc.Grows sc' ∧ sc'.routines = sc.routines ++ codes ∧ r.Ordered [] sc' ∧
      ∀ t : Tables, t.Covers r sc' →
        t.CodesProgram body defs shape ∧ t.CodesProcedures defs codes := by
  induction defs generalizing sc with
  | nil =>
    have hplan : r.Plans [] [] (Plan.statements body) (fun t a => t.CodesBody false body a) :=
      (plans_body hr hbody).anywhere hplace
    obtain ⟨shape, sc', hrun, hg, hroutines, hsc', hs⟩ := hplan sc hsc
    exact ⟨shape, [], sc', hrun, hg, by simpa using hroutines, hsc', fun t ht =>
      ⟨.statements (hs t ht), rfl, by simp, by simp⟩⟩
  | cons d defs ih =>
    obtain ⟨hd, hname⟩ := hdefs d (by simp)
    obtain ⟨hother, hdistinct⟩ := List.nodup_cons.1 hdistinct
    obtain ⟨code, sc₁, i, k, hrun₁, hg₁, hroutines₁, hsc₁, hs₁⟩ :=
      plans_definition hr hplace hd hname hsc
    have hcodename : code.name = d.name := (hs₁ _ hsc₁.covers).1.name
    have happend : sc₁.routines = sc.routines ++ [code] := by
      rw [hroutines₁]
      exact putRoutine_of_new fun x hx => hcodename ▸ hnew d (by simp) x hx
    obtain ⟨shape, codes, sc₂, hrun₂, hg₂, hroutines₂, hsc₂, hs₂⟩ :=
      ih (fun x hx => hdefs x (by simp [hx])) hdistinct hsc₁ (by
        intro x hx other hmem
        rw [happend] at hmem
        rcases List.mem_append.1 hmem with hmem | hmem
        · exact hnew x (by simp [hx]) other hmem
        · rw [List.mem_singleton.1 hmem, hcodename]
          exact fun heq => hother (List.mem_map.2 ⟨x, hx, heq.symm⟩))
    refine ⟨_, code :: codes, sc₂, Plan.bind_ok.2 ⟨_, sc₁, hrun₁, Plan.bind_ok.2 ⟨_, sc₂, hrun₂, rfl⟩⟩,
      hg₁.trans hg₂, by simp [hroutines₂, happend], hsc₂, fun t ht => ?_⟩
    obtain ⟨hcode, hi, hk⟩ := hs₁ t (ht.of_grows hg₂)
    obtain ⟨hprogram, hcodes⟩ := hs₂ t ht
    exact ⟨.definition hi hk hprogram, hcodes.cons hcode⟩

theorem plans_program (hr : r.Sound) (h : r.CoreProgram defs body) :
    ∃ shape sc, Plan.program (defs.map Procedure.definition ++ body) = .ok (shape, sc) ∧
      r.Ordered [] sc ∧ sc.locals = none ∧ (r.tables sc).CodesProgram body defs shape ∧
      (r.tables sc).CodesProcedures defs sc.routines := by
  have hstart : r.Ordered [] {} := ⟨by simp, .nil, by simp [Slots.names], .inl ⟨h.place, rfl⟩⟩
  obtain ⟨shape, codes, sc, hrun, hg, hroutines, hsc, hs⟩ :=
    plans_statements hr h.place h.body defs
      (fun d hd => ⟨h.procedures d hd, h.functions ▸ List.mem_map_of_mem hd⟩) h.distinct hstart
      (by simp)
  obtain ⟨hprogram, hcodes⟩ := hs _ hsc.covers
  refine ⟨shape, sc, hrun, hsc, ?_, hprogram, ?_⟩
  · rcases hg.locals with ⟨-, hl⟩ | ⟨a, -, ha, -⟩
    · exact hl
    · cases ha
  · rw [hroutines]
    exact hcodes

end StackScript.Meaning
