import StackScript.Proofs.Meaning.Loading

/-!
# Compiled programs keep their meaning

A program of the core language compiles, unless a section of its file is too long for its length to be
written. A machine that loads the file and runs it does what the interpreter does: if the interpreter
comes to its end, the machine ends with an empty stack, the same output and the same values of names,
and if the interpreter stops at a failing operation, the machine reports that failure.

* `compiles_of_topLevel`: programs of statements alone;
* `compiles_of_withFunctions`: programs with functions.
-/

namespace StackScript.Meaning

open Wide

/-! ## Ends of runs -/

/-- With enough steps allowed, the machine ends in a state. -/
def EndsIn (s s' : State) : Prop := ∃ k, ∀ limit, k ≤ limit → ∃ left, Wide.run limit s = ⟨.done, left, s'⟩

/-- How a run ends when a step stops with a cause. -/
def outcomeOf (left : Nat) (s : State) : Stop → Outcome
  | .halted => ⟨.done, left, s⟩
  | .failed (.unreadable e) => ⟨.broken e, left, s⟩
  | .failed cause => ⟨.done, left, s.report cause⟩

/-- With enough steps allowed, the machine stops with a cause, in the store and with the output of a
memory. -/
def FailsWith (s : State) (cause : Stop) (w : Memory) : Prop :=
  ∃ s' : State, s'.store = w.store ∧ s'.output = w.output ∧
    ∃ k, ∀ limit, k ≤ limit → ∃ left, Wide.run limit s = outcomeOf left s' cause

/-- The value of a global name, by its slot. A name without a slot has none. -/
def valueOf (slots : Slots) (globals : Array Value) (name : String) : Value :=
  ((slots.slot? name).bind (globals[·]?)).getD .none

variable {defs : List Procedure} {body : List Stmt} {cause : Stop} {w : Memory} {r : Rules}
  {im : Image} {t : Tables} {a : Shape}

theorem loop_of_stop {s s' : State} (hs : s.running)
    (h : Act.step s = .error cause s') (fuel : Nat) :
    loop (fuel + 1) s = outcomeOf fuel s' cause := by
  have hs : s.pc.compare .lt s.main.size = .ok true := hs
  rw [loop, hs]
  simp only [h]
  cases cause with
  | halted => rfl
  | failed cause => cases cause <;> rfl

theorem outcome_of_runs {s t u : State} (hpc : s.pc = .at 0) (h : Runs s t)
    (ht : t.running) (hstep : Act.step t = .error cause u) :
    ∃ k, ∀ limit, k ≤ limit → ∃ left, Wide.run limit s = outcomeOf left u cause := by
  obtain ⟨k, hk⟩ := h
  refine ⟨k + 1, fun limit hlimit => ⟨limit - (k + 1), ?_⟩⟩
  have hrun : Wide.run limit s = loop limit s := by
    rw [Wide.run, ← hpc]
  rw [hrun, show limit = limit - (k + 1) + 1 + k by omega, hk, loop_of_stop ht hstep]
  rw [show limit - (k + 1) + 1 + k - (k + 1) = limit - (k + 1) by omega]

theorem failsWith_of_crashes {s : State} (hpc : s.pc = .at 0)
    (h : Crashes s cause w) : FailsWith s cause w := by
  obtain ⟨t, u, hrun, ht, hstep, hstore, houtput⟩ := h
  exact ⟨u, hstore, houtput, outcome_of_runs hpc hrun ht hstep⟩

theorem valueOf_slotValues {slots : Slots} (h : slots.Proper) {values : String → Value}
    (hnone : ∀ name, slots.slot? name = none → values name = .none) :
    valueOf slots (slotValues slots values) = values := by
  funext name
  cases hk : slots.slot? name with
  | none => simp [valueOf, hk, hnone name hk]
  | some k => simp [valueOf, hk, slotValues_getElem? h hk]

/-! ## Whole programs -/

theorem proceduresOf_definitions (h : r.CoreBody false [] body) :
    proceduresOf (defs.map Procedure.definition ++ body) = defs := by
  have hdefs : proceduresOf (defs.map Procedure.definition) = defs := by
    induction defs with
    | nil => rfl
    | cons d defs ih => exact congrArg (d :: ·) ih
  have hbody : ∀ {declared : List String} {body : List Stmt}, r.CoreBody false declared body →
      proceduresOf body = [] := by
    intro declared body h
    induction body generalizing declared with
    | nil => rfl
    | cons s rest ih =>
      cases h with
      | cons hs hrest =>
        have hrest' := ih hrest
        cases hs <;> exact hrest'
  calc proceduresOf (defs.map Procedure.definition ++ body)
      = proceduresOf (defs.map Procedure.definition) ++ proceduresOf body := List.filterMap_append
    _ = defs := by rw [hdefs, hbody h, List.append_nil]

/-- The machine follows the definitions of a program and then its statements. -/
theorem reaches_program {procedures : List Procedure} (hl : Loaded im procedures t)
    (ha : t.CodesProgram body defs a) {n : Nat} (hp : Placed im.main n a) (hintact : im.Intact w)
    (hnamed : ∀ f ∈ t.functions, f ∈ defs.map (·.name) ∨ w.globals f = .str f)
    (hunbound : ∀ name, im.globals.slot? name = none → w.globals name = .none) (fuel : Nat) :
    Reaches (Good im t.functions) (im.state .main w [] n)
      (fun _ w' => im.state .main w' [] (n + a.size)) none
      (execAll procedures none fuel (defs.map Procedure.definition ++ body) w) := by
  induction ha generalizing n w fuel with
  | statements ha =>
    have hg : Good im t.functions w := by
      refine ⟨hintact, fun f hf => ?_, hunbound⟩
      simpa using hnamed f hf
    exact (simulates hl fuel).execAll .main hl.sound ha hp hg (by simp)
  | @definition d rest i k a hi hk _ ih =>
    cases fuel with
    | zero => trivial
    | succ fuel =>
      cases fuel with
      | zero => trivial
      | succ fuel =>
        let w₁ : Memory := { w with globals := put w.globals d.name (.str d.name) }
        have hbind : execAll procedures none (fuel + 2)
            ((d :: rest).map Procedure.definition ++ body) w =
            execAll procedures none (fuel + 1) (rest.map Procedure.definition ++ body) w₁ := rfl
        have hvalid : im.Valid .main := hl.sound
        have hintact₁ : im.Intact w₁ := hintact
        obtain ⟨v, hv, hload⟩ := runs_loadConst (S := []) hl .main hvalid (.inr rfl) hi
          hp.first.first.one hintact
        cases hv
        have hstore : Runs (im.state .main w [.str d.name] (n + 1)) (im.state .main w₁ [] (n + 2)) :=
          runs_storeGlobal hvalid (hl.globals ▸ hk) hp.first.rest.one (.str d.name)
        have hrest : Placed im.main (n + 2) a := hp.rest
        rw [hbind, show n + ((((Shape.one (.to .loadFunc i)).seq (.one (.to .storeGlobal k))).seq
          a).size) = n + 2 + a.size by simp only [Shape.size]; omega]
        refine (ih hrest hintact₁ (fun f hf => ?_) (fun name hname => ?_) (fuel + 1)).after
          (hload.trans hstore)
        · by_cases hf' : f = d.name
          · exact .inr (by simp [w₁, put, hf'])
          · rcases hnamed f hf with hmem | hmem
            · exact .inl (by simpa [hf'] using hmem)
            · exact .inr (by simp [w₁, put, hf', hmem])
        · have hne : name ≠ d.name := by
            rintro rfl
            rw [hl.globals, hk] at hname
            cases hname
          show put w.globals d.name _ name = _
          rw [put, if_neg hne, hunbound name hname]

/-- A machine that has loaded a program does what the program means, however far the interpreter is
let: it ends as the interpreter ends, and fails as the interpreter fails. -/
def Keeps (p : Program) (slots : Slots) (s : State) : Prop :=
  ∀ fuel, match run fuel p s.store with
    | .ok _ w => ∃ s', EndsIn s s' ∧ s'.stack = [] ∧ s'.frames = [] ∧ s'.store = w.store ∧
        s'.output = w.output ∧ valueOf slots s'.globals = w.globals
    | .error (.stopped cause) w => FailsWith s cause w
    | .error .exhausted _ => True
    | .error (.returned _) _ => False

/-- Code is generated for a program, and it is written unless a section is too long for that. The machine
that loads the file does what the program means. -/
def Compiles (p : Program) : Prop :=
  ∃ g : Generator, (do Gen.statements p; Gen.emit' .halt : Gen Unit) {} = .ok () g ∧
    p.compile = (if CodeFile.fits g.unit then .ok ⟨g.unit, CodeFile.ofUnit g.unit⟩
      else .error .longSection) ∧
    (CodeFile.fits g.unit = true →
      ∃ s, State.load {} (CodeFile.ofUnit g.unit) = .ok s ∧ Keeps p g.unit.globals s)

theorem keeps_of_loaded (hl : Loaded im defs t) (hbody : r.CoreBody false [] body)
    (ha : t.CodesProgram body defs a)
    (hmain : im.main = (a.layout 0 ++ [(⟨.halt, .null⟩ : Instruction)]).toArray)
    (hw : w = { store := w.store }) (hintact : im.Intact w) :
    Keeps (defs.map Procedure.definition ++ body) im.globals (im.state .main w [] 0) := by
  have hvalid : im.Valid .main := hl.sound
  have hplaced : Stretch im.main 0 (a.layout 0 ++ [⟨.halt, .null⟩]) := by
    intro j i hj
    simpa [hmain] using hj
  have hhalt : im.main[a.size]? = some ⟨.halt, .null⟩ := by
    have := hplaced.right.head
    rwa [Shape.length_layout, Nat.zero_add] at this
  intro fuel
  have hreach := reaches_program hl ha hplaced.left hintact
    (fun f hf => .inl (hl.functions ▸ hf)) (fun name _ => by rw [hw]) fuel
  have hrun : run fuel (defs.map Procedure.definition ++ body) (im.state .main w [] 0).store =
      execAll defs none fuel (defs.map Procedure.definition ++ body) w := by
    rw [run, proceduresOf_definitions hbody, hw]
    rfl
  rw [hrun]
  match execAll defs none fuel (defs.map Procedure.definition ++ body) w, hreach with
  | .ok _ w', ⟨hgood, hruns⟩ =>
    rw [Nat.zero_add] at hruns
    have hend := outcome_of_runs rfl hruns (running_state hvalid hhalt) (step_state hvalid hhalt)
    exact ⟨_, hend, rfl, rfl, rfl, rfl, valueOf_slotValues hl.sound.globals hgood.unbound⟩
  | .error .exhausted _, _ => trivial
  | .error (.stopped cause) w', hcrash => exact failsWith_of_crashes rfl hcrash
  | .error (.returned _) w', ⟨_, hnone, _⟩ => cases hnone

theorem compiles_program (hr : r.Sound) (hlits : ∀ d, r.literal d → Literal d)
    (h : r.CoreProgram defs body) : Compiles (defs.map Procedure.definition ++ body) := by
  obtain ⟨shape, sc, hplan, hsc, hlocals, hcode, hcodes⟩ := plans_program hr h
  have hliterals : ∀ d ∈ (shape.unit sc).constants, Literal d := fun d hd =>
    hlits d (hsc.constants d hd)
  obtain ⟨g, hg, hunit⟩ := Gen.statements_of_program hplan
  refine ⟨g, hg, ?_⟩
  rw [compile_of_generated hg, hunit]
  have hbuilt : CodeFile.fits (shape.unit sc) = true → Built r defs body shape sc := fun hfits =>
    ⟨h, hlits, hsc, hlocals, hcode, hcodes, hfits⟩
  refine ⟨?_, fun hfits => ?_⟩
  · rw [bytesOf_literals hliterals fun hfits => (hbuilt hfits).storable]
    split <;> rfl
  · have hbuilt := hbuilt hfits
    obtain ⟨pool, hpool⟩ := exists_pool hliterals
    exact ⟨_, load_ofUnit hbuilt.storable hfits hpool,
      keeps_of_loaded (hbuilt.loaded hpool) h.body hcode rfl rfl rfl⟩

/-! ## Programs that can be written -/

/-- Literals of a program, no two of which are equal but of different kinds. -/
structure Coherent (literals : Datum → Prop) : Prop where
  literal : ∀ d, literals d → Literal d
  kinds : ∀ a b, literals a → literals b → a.same b = true → a.kindName = b.kindName

/-- The rules of a main program with some literals, global names and functions. Texts and nothing are
always allowed. -/
def rulesOf (literals : Datum → Prop) (globals : String → Prop) (functions : List String) : Rules where
  literal d := literals d ∨ d = .null ∨ ∃ s, d = .str s
  isGlobal := globals
  functions := functions
  place := none

namespace Coherent

variable {literals : Datum → Prop} (h : Coherent literals) {globals : String → Prop}
  {functions : List String}
include h

theorem literal_rulesOf {d : Datum} (hd : (rulesOf literals globals functions).literal d) :
    Literal d := by
  rcases hd with hd | rfl | ⟨s, rfl⟩
  · exact h.literal d hd
  · exact .null
  · exact .str s

theorem sound_rulesOf (hf : ∀ f ∈ functions, globals f) :
    (rulesOf literals globals functions).Sound := by
  refine ⟨fun s => .inr (.inr ⟨s, rfl⟩), fun a b ha hb hsame => ?_, by simp [rulesOf], hf⟩
  have hla := h.literal_rulesOf ha
  have hlb := h.literal_rulesOf hb
  refine hla.eq_of_same hlb hsame ?_
  rcases hb with hb | hb
  · rcases ha with ha | ha
    · exact h.kinds a b ha hb hsame
    · exact (hlb.kindName_of_same hla (hlb.same_comm hla ▸ hsame) ha).symm
  · exact hla.kindName_of_same hlb hsame hb

end Coherent

theorem coherent_small : Coherent fun d => ∃ n : Nat, n ≤ 2 ^ 32 ∧ d = .int n := by
  constructor
  · rintro _ ⟨n, hn, rfl⟩
    exact .int (two_pow_lt_digitLimit (by simpa using by omega))
  · rintro _ _ ⟨n, -, rfl⟩ ⟨k, -, rfl⟩ -
    rfl

theorem core_small {globals : String → Prop} {functions : List String} {place : Place} (n : Nat)
    (hn : n ≤ 2 ^ 32) {declared : List String} :
    ({ rulesOf (fun d => ∃ n : Nat, n ≤ 2 ^ 32 ∧ d = .int n) globals functions with place } :
      Rules).Core declared (.literal (.int n)) :=
  .literal (.inl ⟨n, hn, rfl⟩)

/-- A program of statements alone, with no function and no call. -/
def TopLevel (p : Program) : Prop :=
  ∃ literals, Coherent literals ∧ (rulesOf literals (fun _ => True) []).CoreBody false [] p

/-- A program that defines functions and runs statements; `globals` are the names of its variables and
functions. -/
def WithFunctions (defs : List Procedure) (body : List Stmt) : Prop :=
  ∃ literals globals, Coherent literals ∧ (∀ d ∈ defs, globals d.name) ∧
    (rulesOf literals globals (defs.map (·.name))).CoreProgram defs body

/-- Statements outside of functions keep their meaning. -/
theorem compiles_of_topLevel {p : Program} (h : TopLevel p) : Compiles p := by
  obtain ⟨literals, hliterals, hbody⟩ := h
  have hprogram : (rulesOf literals (fun _ => True) []).CoreProgram [] p :=
    ⟨rfl, rfl, List.nodup_nil, by simp, by simp, hbody⟩
  exact compiles_program (hliterals.sound_rulesOf (by simp)) (fun _ => hliterals.literal_rulesOf)
    hprogram

/-- A program with loops, a comprehension, alternatives and a minus. -/
def differences : Program := [
  .declare "total" (some (.literal (.int 0))) none,
  .forLoop "n"
    (.comprehension (.binary (.name "k") "*" (.name "k")) "k"
      (.tuple [.literal (.int 2), .literal (.int 3)]) (some (.binary (.name "k") "!=" (.name "total"))))
    [.branch (.binary (.name "n") ">" (.literal (.int 4)))
      [.assign "total" (.binary (.name "total") "+" (.name "n"))] []
      (some [.assign "total" (.unary "-" (.name "n"))])],
  .whileLoop (.binary (.name "total") ">" (.literal (.int 3)))
    [.assign "total" (.binary (.name "total") "-" (.literal (.int 2)))]]

theorem topLevel_differences : TopLevel differences := by
  let r := rulesOf (fun d => ∃ n : Nat, n ≤ 2 ^ 32 ∧ d = .int n) (fun _ => True) []
  have hint : ∀ {declared : List String} (n : Nat), n ≤ 2 ^ 32 →
      r.Core declared (.literal (.int n)) := fun n hn => core_small n hn
  have hname : ∀ {declared : List String} (name : String), r.Core declared (.name name) :=
    fun name => .name ⟨by simp [r, rulesOf], fun _ => trivial⟩
  have hbinds : ∀ name, r.Binds name := fun name => ⟨trivial, by simp [r, rulesOf]⟩
  have hplace : ∀ {declared : List String} {name : String}, r.place.isSome → name ∈ declared := by
    simp [r, rulesOf]
  have hitems : ∀ {declared : List String}, ∀ e ∈ [Expr.literal (.int 2), .literal (.int 3)],
      r.Core declared e := by
    intro declared e he
    rcases List.mem_cons.1 he with rfl | he
    · exact hint 2 (by decide)
    · exact List.mem_singleton.1 he ▸ hint 3 (by decide)
  refine ⟨_, coherent_small, .cons (.declare (hint 0 (by decide)) (hbinds _)) (.cons (.forLoop
    (.comprehension rfl (hbinds _) (.tuple hitems) ?_ (.binary rfl (hname _) (hname _))) (hbinds _)
    (.cons (.branch (.cons (.binary rfl (hname _) (hint 4 (by decide)))
      (.cons (.assign (.binary rfl (hname _) (hname _)) (hbinds _) hplace) .nil) .nil)
      (.cons (.assign (.minus (.inl ⟨0, by decide, rfl⟩) (hname _)) (hbinds _) hplace) .nil)) .nil))
    (.cons (.whileLoop (.binary rfl (hname _) (hint 3 (by decide)))
      (.cons (.assign (.binary rfl (hname _) (hint 2 (by decide))) (hbinds _) hplace) .nil)) .nil))⟩
  rintro c hc
  cases hc
  exact .binary rfl (hname _) (hname _)

theorem compiles_differences : TopLevel differences ∧ Compiles differences :=
  ⟨topLevel_differences, compiles_of_topLevel topLevel_differences⟩

/-- Functions keep their meaning, also those that call themselves or each other. -/
theorem compiles_of_withFunctions {defs : List Procedure} {body : List Stmt}
    (h : WithFunctions defs body) : Compiles (defs.map Procedure.definition ++ body) := by
  obtain ⟨literals, globals, hliterals, hnames, hprogram⟩ := h
  refine compiles_program (hliterals.sound_rulesOf ?_) (fun _ => hliterals.literal_rulesOf) hprogram
  intro f hf
  obtain ⟨d, hd, rfl⟩ := List.mem_map.1 hf
  exact hnames d hd

/-- A function that calls itself twice. -/
def steps : Procedure where
  name := "steps"
  parameters := ["n"]
  body := [
    .declare "total" (some (.name "n")) none,
    .branch (.binary (.name "n") ">" (.literal (.int 2)))
      [.assign "total" (.binary
        (.call (.name "steps") [.binary (.name "n") "-" (.literal (.int 1))]) "+"
        (.call (.name "steps") [.binary (.name "n") "-" (.literal (.int 2))]))] [] none,
    .returnValue (some (.name "total"))]

/-- A program that prints the value of that function. -/
def stepsOfFive : List Stmt := [
  .declare "found" (some (.call (.name "steps") [.literal (.int 5)])) none,
  .expression (.call (.name "print") [.name "found"])]

theorem withFunctions_steps : WithFunctions [steps] stepsOfFive := by
  let globals : String → Prop := fun name => name = "steps" ∨ name = "found"
  let r := rulesOf (fun d => ∃ n : Nat, n ≤ 2 ^ 32 ∧ d = .int n) globals ["steps"]
  let inside : Rules := { r with place := some steps.names }
  have hint : ∀ {declared : List String} (n : Nat), n ≤ 2 ^ 32 →
      inside.Core declared (.literal (.int n)) := fun n hn => core_small n hn
  have hnames : steps.names = ["n", "total"] := rfl
  have hown : ∀ {declared : List String} {name : String}, name ∈ steps.names → name ∈ declared →
      inside.Core declared (.name name) := fun hmem hdeclared =>
    .name ⟨fun _ => hdeclared, fun hnot => absurd hmem hnot⟩
  have hcall : ∀ n : Nat, n ≤ 2 ^ 32 → inside.Core ["n", "total"]
      (.call (.name "steps") [.binary (.name "n") "-" (.literal (.int n))]) := by
    intro n hn
    refine .call (.inl (by simp [inside, r, rulesOf])) fun e he => ?_
    rw [List.mem_singleton.1 he]
    exact .binary rfl (hown (by decide) (by decide)) (hint n hn)
  have hbody : inside.CoreBody true ["n"] steps.body :=
    .cons (.declare (hown (by decide) (by decide)) (show "total" ∈ steps.names by decide))
      (.cons (.branch (.cons (.binary rfl (hown (by decide) (by decide)) (hint 2 (by decide)))
        (.cons (.assign (.binary rfl (hcall 1 (by decide)) (hcall 2 (by decide)))
          (show "total" ∈ steps.names by decide) (fun _ => by decide)) .nil) .nil) .nil)
      (.cons (.returnValue rfl (fun v hv => by
        cases hv
        exact hown (by decide) (by decide)) (by simp)) .nil))
  refine ⟨_, globals, coherent_small, by simp [globals, steps], rfl, rfl, by simp, ?_, ?_, ?_⟩
  · intro d hd
    rw [List.mem_singleton.1 hd]
    rfl
  · intro d hd
    rw [List.mem_singleton.1 hd]
    refine ⟨by decide, fun name hname => ?_, hbody, _, rfl⟩
    rw [hnames] at hname
    rintro (rfl | rfl) <;> simp at hname
  · refine .cons (.declare (.call (.inl (by simp [rulesOf, steps])) fun e he => ?_)
      ⟨.inr rfl, by simp [rulesOf, steps]⟩) (.cons (.expression (.call (.inr ⟨rfl, ?_, by simp [rulesOf]⟩)
        fun e he => ?_)) .nil)
    · rw [List.mem_singleton.1 he]
      exact .literal (.inl ⟨5, by decide, rfl⟩)
    · simp [rulesOf, globals]
    · rw [List.mem_singleton.1 he]
      exact .name ⟨by simp [rulesOf], fun _ => .inr rfl⟩

theorem compiles_steps : WithFunctions [steps] stepsOfFive ∧
    Compiles ([steps].map Procedure.definition ++ stepsOfFive) :=
  ⟨withFunctions_steps, compiles_of_withFunctions withFunctions_steps⟩

end StackScript.Meaning
