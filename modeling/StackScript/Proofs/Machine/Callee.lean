import StackScript.Proofs.Machine.Literal
import StackScript.Proofs.Machine.PastEnd

/-!
# What a name calls

A definition binds the name of its function to a text, which is that name again, and there is nothing
of the body in it. A call looks such a text up, first among the functions that every program can call
and then among the routines. So the functions of one name that a program defines are all one to a
call: it enters the body of the last of them, whichever was bound.

* `call_by_name`: definitions and calls in one program.
-/

namespace StackScript

/-! ## The code of definitions -/

theorem Plan.constant_text {text : String} {n : Nat} {sc sc' : Scope}
    (h : Plan.constant (.str text) sc = .ok (n, sc')) : sc'.constants[n]? = some (.str text) := by
  unfold Plan.constant at h
  split at h
  · rename_i i hfound
    cases h
    obtain ⟨hlt, hsame, -⟩ := Array.findIdx?_eq_some_iff_getElem.1 hfound
    rw [Array.getElem?_eq_getElem hlt, Datum.eq_of_same_plain hsame (.inr ⟨text, rfl⟩)]
  · cases h
    exact Array.getElem?_push_size

/-- A name is stored to the variable that it is read from behind that. -/
theorem Plan.storeName_stores {name : String} {shape : Shape} {sc sc' : Scope}
    (h : Plan.storeName name sc = .ok (shape, sc')) :
    (∃ k, sc'.locals.bind (·.slot? name) = some k ∧ shape = .one (Variable.call k).store) ∨
    sc'.locals = none ∧ ∃ k, sc'.globals.slot? name = some k ∧ shape = .one (Variable.main k).store := by
  cases hlocals : sc.locals with
  | some slots =>
    simp only [Plan.storeName, Plan.get_bind, hlocals, Option.isSome_some, if_true] at h
    obtain ⟨k, sc₁, hslot, h⟩ := Plan.bind_ok.1 h
    cases h
    exact .inl ⟨k, (Plan.localSlot_known hslot).1, rfl⟩
  | none =>
    simp only [Plan.storeName, Plan.get_bind, hlocals, Option.isSome_none, Bool.false_eq_true,
      if_false] at h
    obtain ⟨k, sc₁, hslot, h⟩ := Plan.bind_ok.1 h
    cases h
    obtain ⟨hknown, hsame⟩ := Plan.globalSlot_known hslot
    exact .inr ⟨hsame.trans hlocals, k, hknown, rfl⟩

/-- A definition is compiled to a load of the name, which is a constant, and a store to the variable
that the name is read from. -/
theorem definition_code {name : String} {parameters : List String} {body : List Stmt}
    {g g' : Generator} {c : Compiled}
    (h : Gen.statement (.function name parameters body) g = .ok () g') (hbefore : g'.Before c) :
    ∃ n x, g'.code.toList = g.code.toList ++ [.to .loadFunc n, Variable.store x] ∧
      g'.read? name = some x ∧ c.unit.constants[n]? = some (.str name) := by
  obtain ⟨shape, sc, hplan, hemits⟩ := (follows_statement _).of_ok h
  have hplan : (Plan.routine name parameters (Plan.statements body) >>= fun _ =>
      Plan.andThen (do Plan.opAt .loadFunc (← Plan.constant (.str name))) (Plan.storeName name))
        g.scope = .ok (shape, sc) := hplan
  obtain ⟨-, sc₁, -, hplan⟩ := Plan.bind_ok.1 hplan
  obtain ⟨first, sc₂, last, hfirst, hlast, rfl⟩ := Plan.andThen_ok hplan
  obtain ⟨n, _, hconstant, hfirst⟩ := Plan.bind_ok.1 hfirst
  cases hfirst
  have hgrows : sc₂.Grows sc := ((carried_literals Datum.basic_all
    fun _ _ _ _ _ => trivial).storeName name _ _ _ rfl hlast).1.grows
  have hconstants := hgrows.constants
  rw [← hemits.scope] at hconstants
  have hn : c.unit.constants[n]? = some (.str name) :=
    getElem?_mono (hconstants.trans hbefore)
      (by rw [Array.getElem?_toList]; exact Plan.constant_text hconstant)
  have hglobals : g'.globals = sc.globals := congrArg Scope.globals hemits.scope
  unfold Generator.read? Generator.global?
  rw [← Generator.scope_local?, hemits.scope, hglobals]
  rcases Plan.storeName_stores hlast with ⟨k, hslot, rfl⟩ | ⟨hnone, k, hslot, rfl⟩
  · exact ⟨n, .call k, hemits.code, by rw [hslot], hn⟩
  · exact ⟨n, .main k, hemits.code, by rw [hnone, hslot]; rfl, hn⟩

/-- What is called is loaded from the variable that the name is read from, and is the name itself if
there is none. -/
theorem Plan.loadCallee_loads {name : String} {shape : Shape} {g : Generator} {sc : Scope}
    (h : Plan.loadCallee name g.scope = .ok (shape, sc)) :
    (∃ x, g.read? name = some x ∧ shape = .one x.load) ∨
    g.read? name = none ∧ ∃ n, shape = .one (.to .loadConst n) ∧ sc.constants[n]? = some (.str name) := by
  unfold Generator.read?
  rw [← Generator.scope_local?]
  cases hlocal : g.scope.locals.bind (·.slot? name) with
  | some k =>
    simp only [Plan.loadCallee, Plan.get_bind, hlocal] at h
    cases h
    exact .inl ⟨.call k, rfl, rfl⟩
  | none =>
    cases hglobal : g.global? name with
    | some k =>
      replace hglobal : g.scope.globals.slot? name = some k := hglobal
      simp only [Plan.loadCallee, Plan.get_bind, hlocal, hglobal] at h
      cases h
      exact .inl ⟨.main k, rfl, rfl⟩
    | none =>
      replace hglobal : g.scope.globals.slot? name = none := hglobal
      simp only [Plan.loadCallee, Plan.get_bind, hlocal, hglobal] at h
      obtain ⟨n, _, hconstant, h⟩ := Plan.bind_ok.1 h
      cases h
      exact .inr ⟨rfl, n, rfl, Plan.constant_text hconstant⟩

/-- A call by name loads what it calls before all arguments. -/
theorem call_code {name : String} {arguments : List Expr} {g g' : Generator} {c : Compiled}
    (h : Gen.expression (.call (.name name) arguments) g = .ok () g') (hbefore : g'.Before c) :
    ∃ i between, g'.code.toList = g.code.toList ++ i :: (between ++ [.to .call arguments.length]) ∧
      ((∃ x, g.read? name = some x ∧ i = x.load) ∨
        g.read? name = none ∧ ∃ n, i = .to .loadConst n ∧ c.unit.constants[n]? = some (.str name)) := by
  obtain ⟨shape, sc, hplan, hemits⟩ := (follows_expression _).of_ok h
  have hplan : ((Plan.loadCallee name).andThen ((Plan.exprs Plan.embedded arguments).andThen
      (Plan.opAt .call arguments.length))) g.scope = .ok (shape, sc) := hplan
  obtain ⟨callee, sc₁, rest, hcallee, hrest, rfl⟩ := Plan.andThen_ok hplan
  obtain ⟨between, sc₂, last, hbetween, hlast, rfl⟩ := Plan.andThen_ok hrest
  cases hlast
  have hcarried := carried_literals Datum.basic_all fun _ _ _ _ _ => trivial
  have hgrows := (hcarried.exprs (fun source => hcarried.embeddedN _ source) arguments
    (fun _ _ _ _ => trivial) _ _ _ rfl hbetween).1.grows.constants
  rw [← hemits.scope] at hgrows
  rcases Plan.loadCallee_loads hcallee with ⟨x, hread, rfl⟩ | ⟨hread, n, rfl, hn⟩
  · exact ⟨x.load, between.layout (g.code.size + 1), hemits.code, .inl ⟨x, hread, rfl⟩⟩
  · refine ⟨_, between.layout (g.code.size + 1), hemits.code, .inr ⟨hread, n, rfl, ?_⟩⟩
    rw [← Array.getElem?_toList] at hn
    exact getElem?_mono (hgrows.trans hbefore) hn

namespace Wide

/-! ## Calls by name -/

section Calls

variable {s w : State} {name : String} {arguments below : List Value} {r : StackScript.Routine}

/-- The machine behind a call instruction that has taken its arguments and what is called. -/
def State.popped (s : State) (below : List Value) : State := { s.fetched with stack := below }

theorem Act.popMany_append (h : w.stack = arguments.reverse ++ below) :
    Act.popMany arguments.length w = .ok arguments { w with stack := below } := by
  have hpop : Act.popMany arguments.length w =
      (if w.stack.length < arguments.length then
        (do set { w with stack := [] }; Act.fault .popEmpty)
      else (do
        set { w with stack := w.stack.drop arguments.length }
        return (w.stack.take arguments.length).reverse) : Act (List Value)) w := rfl
  have hlength : arguments.length = arguments.reverse.length := List.length_reverse.symm
  rw [hpop, h, if_neg (by simp), hlength, List.drop_left, List.take_left, List.reverse_reverse]
  rfl

theorem Act.step_call (hplain : s.functions = .plain)
    (hnext : s.next? = some (.to .call arguments.length))
    (hstack : s.stack = arguments.reverse ++ .str name :: below) :
    Act.step s = calling .plain s.routines (.str name) arguments (s.popped below) := by
  obtain ⟨s₁, hfetch⟩ := State.fetch_of_next? hnext
  obtain ⟨-, hsame⟩ := Act.outline_fetch hfetch
  obtain ⟨hfunctions, hroutines, -⟩ := Act.program_of_fetch hfetch
  have hpop := Act.popMany_append (hsame.trans hstack)
  obtain rfl : s₁ = s.fetched := Act.eq_fetched hfetch
  show (Act.fetch >>= _) s = _
  rw [bind_of_ok hfetch]
  show Act.call (.int arguments.length) s.fetched = _
  rw [Act.call_eq]
  show (Act.popMany arguments.length >>= _) s.fetched = _
  rw [bind_of_ok hpop]
  show calling s.fetched.functions s.fetched.routines (.str name) arguments (s.popped below) = _
  rw [hfunctions, hplain, hroutines]

/-- A routine is entered if the arguments are as many as its parameters and its slots hold them. -/
theorem Act.enter_ofCode : Act.enter (.ofCode r) arguments w =
    if arguments.length ≠ r.parameters.length then
      .error (.failed (.routineArguments r.name r.parameters.length arguments.length)) w
    else if r.slots.length < arguments.length then
      .error (.failed (.value .assignmentOutOfRange)) w
    else .ok () (w.enter (.ofCode r)
      (arguments ++ List.replicate (r.slots.length - arguments.length) Value.none).toArray) := by
  have hwanted : Act.lengthOf (Routine.ofCode r).parameters = pure r.parameters.length := by
    simp [Act.lengthOf, Routine.ofCode, Listing.ofDatum?, Listing.size]
  have hsize : Act.lengthOf (Routine.ofCode r).slots = pure r.slots.length := by
    simp [Act.lengthOf, Routine.ofCode, Slots.datum, Listing.ofDatum?, Listing.size]
  rw [Act.enter, hwanted, hsize]
  show (if arguments.length ≠ r.parameters.length then _ else
    if r.slots.length < arguments.length then _ else modify fun s => { s with
      frames := ⟨.ofCode r, s.pc, .at 0,
        (arguments ++ List.replicate (r.slots.length - arguments.length) Value.none).toArray⟩ ::
          s.frames } : Act Unit) w = _
  by_cases hcount : arguments.length ≠ r.parameters.length
  · rw [if_pos hcount, if_pos hcount]
    rfl
  · rw [if_neg hcount, if_neg hcount]
    split <;> rfl

/-- A function that every program can call answers without a call being entered. -/
theorem frames_of_function {f : Function} {t : State} (hf : function? .plain name = some f)
    (h : (f arguments >>= Act.push) w = .ok () t) : t.frames = w.frames := by
  have hdeals : Act.Deals Custody.free 0 (Act.Same 1) (fun _ => True) (f arguments >>= Act.push) :=
    .first (.confined (confined_plainFunction hf arguments)) fun _ => .push
  obtain ⟨-, -, -, -, hrest, -⟩ := (hdeals w (Custody.guards_free w)).done () t h
  exact congrArg (·.frames) hrest

theorem lookup_ofCode (routines : List StackScript.Routine) (name : String) :
    (routines.map fun r => (r.name, Routine.ofCode r)).lookup name =
      (routines.find? (·.name = name)).map .ofCode := by
  induction routines with
  | nil => rfl
  | cons r routines ih =>
    rw [List.map_cons, List.lookup_cons, List.find?_cons, ih]
    by_cases hname : r.name = name
    · simp [hname]
    · have hne : (name == r.name) = false := by simpa using Ne.symm hname
      simp [hname, hne]

end Calls

end Wide

/-! ## The calls of a program -/

/-- There is a slot for each parameter if their names are distinct. -/
theorem FunctionText.Makes.slots_length {f : FunctionText} {r : Routine} (h : f.Makes r)
    (hnodup : f.parameters.Nodup) : f.parameters.length ≤ r.slots.length := by
  have hle := h.slots.length_le
  rwa [Slots.ofParameters_eq hnodup, List.length_zipIdx] at hle

open Wide

/-- What the step of a call by name does. One of the functions that every program can call answers at
once, whatever functions the program has. Otherwise the body that is entered is that of the last
function of the name, with the arguments in its first slots. -/
structure Program.Calls (p : Program) (name : String) (arguments below : List Value) (s : State) :
    Prop where
  answered : ∀ f, function? .plain name = some f →
    Act.step s = (f arguments >>= Act.push) (s.popped below) ∧
      ∀ t, Act.step s = .ok () t → t.frames = s.fetched.frames
  entered : ∀ d, function? .plain name = none → p.definition? name = some d → ∃ r, d.Makes r ∧
    (∀ t, Act.step s = .ok () t → ∃ locals, t = (s.popped below).enter (.ofCode r) locals) ∧
    (d.parameters.Nodup → arguments.length = d.parameters.length → ∃ others,
      Act.step s = .ok () ((s.popped below).enter (.ofCode r) (arguments ++ others).toArray)) ∧
    (arguments.length ≠ d.parameters.length → Act.step s =
      .error (.failed (.routineArguments name d.parameters.length arguments.length)) (s.popped below))
  unknown : function? .plain name = none → p.definition? name = none →
    Act.step s = .error (.failed (.unknownRoutine name)) (s.popped below)

section Programs

variable {p : Program} {c : Compiled} {s₀ s : State} (hc : p.compile = .ok c)
  (hload : State.load {} c.bytes = .ok s₀)

include hc hload

theorem lookup_of_load (hs : Reached s₀ s) (name : String) : s.functions = .plain ∧
    Option.Rel (fun d routine => ∃ r, d.Makes r ∧ routine = .ofCode r) (p.definition? name)
      (s.routines.lookup name) := by
  obtain ⟨constants, rfl⟩ := loaded_of_load hc hload
  have hprogram := hs.program
  refine ⟨(congrArg Prod.fst hprogram).trans (State.loaded_start c.unit constants).2.2.2, ?_⟩
  have hroutines : s.routines = c.unit.routines.map fun r => (r.name, Routine.ofCode r) :=
    congrArg (·.2.1) hprogram
  rw [hroutines, lookup_ofCode]
  have hmakes := definition_of_compile hc name
  generalize p.definition? name = d, c.unit.routines.find? (·.name = name) = r at hmakes ⊢
  cases hmakes with
  | none => exact .none
  | some hmakes => exact .some ⟨_, hmakes, rfl⟩

theorem calls_of_reached {name : String} {arguments below : List Value} (hs : Reached s₀ s)
    (hnext : s.next? = some (.to .call arguments.length))
    (hstack : s.stack = arguments.reverse ++ .str name :: below) : p.Calls name arguments below s := by
  obtain ⟨hplain, hlookup⟩ := lookup_of_load hc hload hs name
  have hstep := Act.step_call hplain hnext hstack
  refine ⟨fun f hf => ?_, fun d hf hd => ?_, fun hf hd => ?_⟩
  · have hanswer : Act.step s = (f arguments >>= Act.push) (s.popped below) := by
      rw [hstep, Act.calling, hf]
    refine ⟨hanswer, fun t ht => ?_⟩
    rw [hanswer] at ht
    exact (frames_of_function hf ht : t.frames = (s.popped below).frames)
  · rw [hd] at hlookup
    generalize hfound : s.routines.lookup name = found at hlookup
    obtain ⟨r, hmakes, rfl⟩ : ∃ r, d.Makes r ∧ found = some (.ofCode r) := by
      cases hlookup with
      | some h =>
        obtain ⟨r, hmakes, rfl⟩ := h
        exact ⟨r, hmakes, rfl⟩
    have henter : Act.step s = Act.enter (.ofCode r) arguments (s.popped below) := by
      rw [hstep, Act.calling, hf, hfound]
    have hname : d.name = name := by simpa using List.find?_some hd
    rw [Act.enter_ofCode, hmakes.parameters, hmakes.name, hname] at henter
    refine ⟨r, hmakes, fun t ht => ?_, fun hnodup hcount => ?_, fun hcount => ?_⟩
    · rw [henter] at ht
      split at ht
      · cases ht
      · split at ht
        · cases ht
        · cases ht
          exact ⟨_, rfl⟩
    · have hfits := hmakes.slots_length hnodup
      rw [henter, if_neg (by simpa using hcount), if_neg (by omega)]
      exact ⟨_, rfl⟩
    · rw [henter, if_pos hcount]
  · rw [hd] at hlookup
    generalize hfound : s.routines.lookup name = found at hlookup
    cases hlookup
    rw [hstep, Act.calling, hf, hfound]
    rfl

end Programs

/-- In every program, whatever it has compiled before and whatever the body is, a definition puts the
text of its name on the stack and stores it to the variable that the name is read from. A call by name
loads that variable, or the text itself where there is no such variable. And when a call comes to a
text, it is answered by the function that every program can call under it. If there is none, the call
enters the body of the last function of that name in the program, also if another function of the name
was the one that was bound. -/
theorem call_by_name {p : Program} {c : Compiled} (hc : p.compile = .ok c)
    (hliterals : ∀ d ∈ p.literals, d.Scalar)
    (hdecimals : ∀ x, .float x ∈ c.unit.constants →
      Datum.read (Datum.write (.float x)) = .ok (.float x)) :
    ∃ s₀, State.load {} c.bytes = .ok s₀ ∧
      (∀ name parameters body (g g' : Generator),
        Gen.statement (.function name parameters body) g = .ok () g' → g'.Before c →
        ∃ n x, g'.code.toList = g.code.toList ++ [.to .loadFunc n, Variable.store x] ∧
          g'.read? name = some x ∧ s₀.Puts (.to .loadFunc n) (.str name)) ∧
      (∀ name arguments (g g' : Generator),
        Gen.expression (.call (.name name) arguments) g = .ok () g' → g'.Before c →
        ∃ i between,
          g'.code.toList = g.code.toList ++ i :: (between ++ [.to .call arguments.length]) ∧
          ((∃ x, g.read? name = some x ∧ i = x.load) ∨
            g.read? name = none ∧ s₀.Puts i (.str name))) ∧
      ∀ s name arguments below, Reached s₀ s → s.next? = some (.to .call arguments.length) →
        s.stack = arguments.reverse ++ .str name :: below → p.Calls name arguments below s := by
  obtain ⟨s₀, hload, hputs⟩ := loads_of_compile hc hliterals hdecimals
  refine ⟨s₀, hload, fun name parameters body g g' hcode hbefore => ?_,
    fun name arguments g g' hcode hbefore => ?_,
    fun s name arguments below hs hnext hstack => calls_of_reached hc hload hs hnext hstack⟩
  · obtain ⟨n, x, hemitted, hread, hn⟩ := definition_code hcode hbefore
    exact ⟨n, x, hemitted, hread, hputs .loadFunc n _ (.inr rfl) hn (.str name)⟩
  · obtain ⟨i, between, hemitted, hi⟩ := call_code hcode hbefore
    refine ⟨i, between, hemitted, hi.imp_right ?_⟩
    rintro ⟨hread, n, rfl, hn⟩
    exact ⟨hread, hputs .loadConst n _ (.inl rfl) hn (.str name)⟩

/-- A function of a name that is defined once more behind a call of it. -/
def Program.renewed : Program :=
  [.function "f" [] [.returnValue (some (.literal (.int 1)))],
   .declare "a" (some (.call (.name "f") [])) none,
   .function "f" [] [.returnValue (some (.literal (.int 2)))],
   .declare "b" (some (.call (.name "f") [])) none]

/-- A function of the name of one that every program can call. -/
def Program.hidden : Program :=
  [.function "len" ["x"] [.returnValue (some (.literal (.int 5)))],
   .declare "y" (some (.call (.name "len") [.list [.literal (.int 1)]])) none]

/-- The next instruction is a call of so many arguments by a name. -/
def Wide.State.callsByName (w : State) (name : String) (n : Nat) : Bool :=
  w.calls? = some n && match w.stack.drop n with
    | .str text :: _ => text == name
    | _ => false

/-- The first call enters the body of the second definition, although the first one is bound. -/
theorem call_by_name_renewed : ∃ c s₀ s below r, Program.renewed.compile = .ok c ∧
    State.load {} c.bytes = .ok s₀ ∧ Reached s₀ s ∧ s.next? = some (.to .call 0) ∧
    s.stack = .str "f" :: below ∧ (FunctionText.mk "f" [] false [.returnValue (some (.literal (.int 2)))]).Makes r ∧
    ∃ others, Act.step s = .ok () ((s.popped below).enter (.ofCode r) others) := by
  have hrun : (runOf Program.renewed 3).map (·.callsByName "f" 0) = some true := by decide +kernel
  obtain ⟨s, hs, hcalls⟩ := Option.map_eq_some_iff.1 hrun
  obtain ⟨c, s₀, hc, hload, hreached⟩ := runOf_eq_some (by decide +kernel) hs
  obtain ⟨hnext, below, hstack⟩ : s.next? = some (.to .call 0) ∧ ∃ below, s.stack = .str "f" :: below := by
    simp only [State.callsByName, Bool.and_eq_true, decide_eq_true_eq, List.drop_zero] at hcalls
    refine ⟨State.next?_of_calls? hcalls.1, ?_⟩
    cases hstack : s.stack with
    | nil => simp [hstack] at hcalls
    | cons v below =>
      cases v with
      | str text =>
        obtain rfl : text = "f" := by simpa [hstack] using hcalls.2
        exact ⟨below, rfl⟩
      | _ => simp [hstack] at hcalls
  have hconstants : c.unit.constants = [.int 1, .str "f", .int 2] :=
    constants_of_plan hc (by with_unfolding_all rfl)
  have hliterals : ∀ d ∈ Program.renewed.literals, d.Scalar := by
    have heq : Program.renewed.literals = [.int 1, .int 2] := rfl
    simp [heq, Datum.Scalar.int]
  obtain ⟨s₁, hload', -, -, hall⟩ := call_by_name hc hliterals (by simp [hconstants])
  obtain rfl : s₀ = s₁ := Except.ok.inj (hload.symm.trans hload')
  obtain ⟨r, hmakes, -, henter, -⟩ :=
    (hall s "f" [] below hreached hnext hstack).entered ⟨"f", [], false, [.returnValue (some (.literal (.int 2)))]⟩
      rfl rfl
  obtain ⟨others, hstep⟩ := henter List.nodup_nil rfl
  exact ⟨c, s₀, s, below, r, hc, hload, hreached, hnext, hstack, hmakes, _, hstep⟩

/-- Both calls of the first program come to the second definition, and the call of the second program to
none at all. -/
theorem definition_passed_over :
    Program.renewed.EndsWith (·.globals.toList.tail.map Value.int?) [some 2, some 2] ∧
      Program.hidden.EndsWith (·.globals.toList.tail.map Value.int?) [some 1] :=
  ⟨exists_of_runOf 14 (by decide +kernel) (by decide +kernel),
    exists_of_runOf 7 (by decide +kernel) (by decide +kernel)⟩

end StackScript
