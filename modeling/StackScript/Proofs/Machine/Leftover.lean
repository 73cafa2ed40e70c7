import StackScript.Proofs.Machine.Loaded

/-!
# What a machine keeps from one program to the next

A machine that loads a program keeps its stack, its calls, its handlers, its exception and its
routines from before. The operands that are left below do not matter to instructions that find their
own, nor do routines that are not called. Calls in progress do matter: the run goes on with them,
and not with the program.

* `run_after_load`: the next program, with and without calls in progress.
-/

namespace StackScript

namespace Wide

/-! ## Steps and runs above other operands -/

variable {table routines old : List (String × Routine)} {bytes : List UInt8} {base : List Value}
  {w s : State}

/-- A step that finds its operands and routines is the same above other operands and with more
routines. -/
theorem Act.step_above
    (hneeds : ∀ i ∈ w.next?, needs i ≤ w.stack.length) (htable : Covers table w.routines)
    (hknown : ∀ name w', w.routines.lookup name = none →
      step w = .error (.failed (.unknownRoutine name)) w' → table.lookup name = none) :
    step (w.above base table) = resultAbove base table (step w) := by
  have hfetch := ((deals_fetch (C := .free)) w (Custody.guards_free w)).above (Nat.zero_le _) base
    table htable
  cases hrun : fetch w with
  | error e w₁ =>
    rw [step, bind_of_error hrun] at hknown ⊢
    rw [hrun] at hfetch
    refine bind_of_error (hfetch fun name w' hnone h => ?_)
    cases h
    exact hknown name w₁ hnone rfl
  | ok found w₁ =>
    rw [step, bind_of_ok hrun] at hknown ⊢
    rw [hrun] at hfetch
    rw [bind_of_ok (hfetch fun _ _ _ h => by cases h)]
    cases found with
    | none => rfl
    | some i =>
      have hstack : w₁.stack = w.stack := (outline_fetch hrun).2
      have hroutines : w₁.routines = w.routines := (program_of_fetch hrun).2.1
      refine ((deals_perform i) w₁ (Custody.guards_free w₁)).above ?_ base table
        (hroutines ▸ htable) (hroutines ▸ hknown)
      rw [hstack]
      exact hneeds i (State.next?_of_fetch hrun)

/-- The routine for want of which a machine stops. -/
def Stop.missing? : Stop → Option String
  | .failed (.unknownRoutine name) => some name
  | _ => none

/-- In so many steps no instruction lacks an operand, and no routine is missing whose name is in the
table. -/
def Unaided (old : List (String × Routine)) : Nat → State → Prop
  | 0, _ => True
  | count + 1, s => (∀ i ∈ s.next?, needs i ≤ s.stack.length) ∧
    match Act.step s with
    | .ok _ t => Unaided old count t
    | .error e _ => ∀ name ∈ e.missing?, name ∉ old.map (·.1)

instance decidableUnaided (old : List (String × Routine)) :
    ∀ count s, Decidable (Unaided old count s)
  | 0, _ => .isTrue trivial
  | count + 1, s =>
    have : Decidable (match Act.step s with
        | .ok _ t => Unaided old count t
        | .error e _ => ∀ name ∈ e.missing?, name ∉ old.map (·.1)) :=
      match Act.step s with
      | .ok _ t => decidableUnaided old count t
      | .error e _ => inferInstanceAs (Decidable (∀ name ∈ e.missing?, _))
    inferInstanceAs (Decidable (_ ∧ _))

/-- A table that has some routines, and those of another table where they lack a name. -/
def Backed (routines old table : List (String × Routine)) : Prop :=
  ∀ name, table.lookup name = (routines.lookup name).or (old.lookup name)

theorem Backed.covers (h : Backed routines old table) : Covers table routines := by
  intro name routine hroutine
  rw [h name, hroutine]
  rfl

/-- An outcome above other operands. -/
def Outcome.above (o : Outcome) (base : List Value) (table : List (String × Routine)) : Outcome :=
  { o with state := o.state.above base table }

/-- A run that lacks nothing is the same above other operands and with more routines. -/
theorem loop_above (fuel : Nat) : ∀ {w : State}, Backed w.routines old table → Unaided old fuel w →
      loop fuel (w.above base table) = (loop fuel w).above base table := by
  induction fuel with
  | zero =>
    intro w _ _
    have hcompare : (w.above base table).pc.compare .lt (w.above base table).main.size =
        w.pc.compare .lt w.main.size := rfl
    rw [loop, loop, hcompare]
    split <;> rfl
  | succ fuel ih =>
    intro w htable hunaided
    obtain ⟨hneeds, hrest⟩ := hunaided
    have hstep : Act.step (w.above base table) = resultAbove base table (Act.step w) := by
      refine Act.step_above hneeds htable.covers fun name w' hnone hstop => ?_
      rw [hstop] at hrest
      have hname : old.lookup name = none := by
        refine List.lookup_eq_none_iff.2 fun entry hentry => ?_
        have hne := hrest name rfl
        simp only [bne_iff_ne]
        rintro rfl
        exact hne (List.mem_map_of_mem hentry)
      rw [htable name, hnone, hname]
      rfl
    have hcompare : (w.above base table).pc.compare .lt (w.above base table).main.size =
        w.pc.compare .lt w.main.size := rfl
    rw [loop, loop, hcompare]
    split
    · rfl
    · rfl
    · rw [hstep]
      cases hrun : Act.step w with
      | ok _ t =>
        rw [hrun] at hrest
        have hroutines : t.routines = w.routines := congrArg (·.2.1) (Act.program_step hrun)
        exact ih (hroutines ▸ htable) hrest
      | error e t => cases e with
        | halted => rfl
        | failed cause => cases cause <;> rfl

/-! ## Loading -/

theorem lookup_putRoutine (routines : List (String × Routine)) (r : Routine) (name : String) :
    (putRoutine routines r).lookup name =
      if name = r.name then some r else routines.lookup name := by
  induction routines with
  | nil => grind [putRoutine]
  | cons entry rest ih => grind [putRoutine]

theorem Backed.put {entries : List (Datum × Datum)} :
    ∀ {routines table table' : List (String × Routine)}, Backed routines old table →
      putRoutines table entries = .ok table' →
      ∃ routines', putRoutines routines entries = .ok routines' ∧ Backed routines' old table' := by
  induction entries with
  | nil =>
    intro routines table table' h hput
    cases hput
    exact ⟨routines, rfl, h⟩
  | cons entry rest ih =>
    intro routines table table' h hput
    obtain ⟨name, d⟩ := entry
    simp only [putRoutines, bind, Except.bind] at hput ⊢
    cases hroutine : routineOf (keyName name) d with
    | error e => simp [hroutine] at hput
    | ok r =>
      simp only [hroutine] at hput ⊢
      refine ih (fun word => ?_) hput
      rw [lookup_putRoutine, lookup_putRoutine, h word]
      split <;> rfl

/-- A machine with nothing but routines and what values refer to. -/
def State.renewed (s : State) (routines : List (String × Routine)) : State :=
  { functions := s.functions, store := s.store, routines }

/-- A machine goes on with what a file does not replace. -/
def State.regain (s t : State) : State :=
  { t with
    stack := s.stack, frames := s.frames, pc := s.pc, handlers := s.handlers,
    current := s.current, output := s.output }

theorem State.load_eq (s : State) (bytes : List UInt8) :
    s.load bytes = ((s.renewed s.routines).load bytes).map s.regain := by
  have hroutines : (s.renewed s.routines).routines = s.routines := rfl
  have hconstants : ∀ d, s.withConstants d =
      { s.regain ((s.renewed s.routines).withConstants d) with
        globalSlots := s.globalSlots, main := s.main, globals := s.globals } := by
    intro d
    obtain ⟨v, t, hrun⟩ := Value.ofDatum_ok d s.store
    simp only [withConstants, renewed, EStateM.run, hrun]
    rfl
  simp only [load, bind, Except.bind, hroutines, hconstants]
  repeat' split
  all_goals rfl

/-- Loading is the same whatever routines there were before, but for the routines. -/
theorem State.load_backed {t : State} (hbacked : Backed routines old table)
    (h : (s.renewed table).load bytes = .ok t) :
    ∃ t₀, (s.renewed routines).load bytes = .ok t₀ ∧ t = { t₀ with routines := t.routines } ∧
      Backed t₀.routines old t.routines := by
  simp only [load, bind, Except.bind] at h ⊢
  repeat' split at h
  all_goals cases h
  rename_i hroutines _ _ _ _ _ _
  split at hroutines
  · cases hroutines
  · rename_i entries hentries
    cases hput : putRoutines (s.renewed table).routines entries with
    | error e => simp [hput, Except.mapError] at hroutines
    | ok table' =>
      obtain ⟨routines', hput', hbacked'⟩ := hbacked.put hput
      have hroutines' : putRoutines (s.renewed routines).routines entries = .ok routines' := hput'
      simp only [hput, Except.mapError, Except.ok.injEq] at hroutines
      subst hroutines
      simp only [hroutines', Except.mapError]
      refine ⟨_, rfl, ?_, hbacked'⟩
      simp only [withConstants, renewed]
      split <;> rfl

/-- What a new machine has when it has loaded a file, beside what the file says. -/
theorem State.load_start {t : State}
    (h : (s.renewed routines).load bytes = .ok t) : (s.renewed []).regain t = t := by
  have hsame : (s.renewed routines).load bytes =
      ((s.renewed routines).load bytes).map (s.renewed routines).regain := State.load_eq _ _
  rw [h] at hsame
  exact (Except.ok.inj hsame).symm

theorem State.next?_eq (w : State) : w.next? =
    match w.outline.counter.compare .ge w.outline.code.size with
    | .ok false => (w.outline.counter.pick w.outline.code).toOption
    | _ => none := by
  rw [next?, Act.fetch, bind_of_ok (Act.run_code w), bind_of_ok (Act.run_counter w)]
  cases w.outline.counter.compare .ge w.outline.code.size with
  | error e => rfl
  | ok past => cases past with
    | true => rfl
    | false => cases w.outline.counter.pick w.outline.code <;> rfl

theorem State.next?_start (hframes : w.frames = []) (hpc : w.pc = .at 0) :
    w.next? = w.main[0]? := by
  have hcode : w.outline.code = w.main := by simp [outline, Outline.code, hframes]
  have hcounter : w.outline.counter = .at (0 : Nat) := by
    simp [outline, Outline.counter, hframes, hpc]
  rw [next?_eq, hcode, hcounter]
  cases hmain : w.main[0]? with
  | none =>
    have hsize : w.main.size = 0 := by simpa using hmain
    rw [hsize]
    rfl
  | some i =>
    have hlt : 0 < w.main.size := (Array.getElem?_eq_some_iff.1 hmain).1
    have hpick : (Counter.at (0 : Nat)).pick w.main = .ok i := by
      simp only [Counter.pick, Counter.index?, beyondIndex_natCast (Nat.zero_le _),
        place?_natCast hlt, Option.bind_some, hmain, Bool.false_eq_true, if_false]
    rw [compare_ge_at hlt, hpick]
    rfl

/-- A call goes on whatever the counter of the main program is. -/
theorem State.next?_call {v : State} (hframes : w.frames ≠ []) (hsame : v.frames = w.frames) :
    v.next? = w.next? := by
  cases hw : w.frames with
  | nil => exact absurd hw hframes
  | cons frame rest =>
    have hv : v.frames = frame :: rest := hsame.trans hw
    simp only [next?_eq, outline, Outline.code, Outline.counter, hv, hw, List.map_cons]

/-- A machine without calls, handlers and exceptions runs what it has loaded above its operands. -/
theorem run_regain {t : State} (hframes : s.frames = [])
    (hhandlers : s.handlers = []) (hcurrent : s.current = none)
    (hstart : (s.renewed []).regain t = t) (htable : Backed t.routines old table) {limit : Nat}
    (hunaided : Unaided old limit t) :
    run limit { s.regain t with routines := table, output := "" } =
      (run limit t).above s.stack table := by
  have habove : { s.regain t with routines := table, pc := .at 0, output := "" } =
      t.above s.stack table := by
    rw [← hstart]
    simp only [State.regain, State.above, State.renewed, hframes, hhandlers, hcurrent]
    rfl
  have hpc : { t with pc := .at 0 } = t := by
    rw [← hstart]
    rfl
  rw [run, run, hpc, habove, loop_above limit htable hunaided]

/-- A program on a machine that has run others, and on a new one with the same values in store.
Calls that are in progress go on before the program begins. If there are none, the program begins
with its first instruction; and if no handler and no exception is left, it gives the same as on the
new machine, provided that it finds there all operands and calls no function of the old programs. -/
theorem run_after_load {s s₁ : State} {bytes : List UInt8} (hload : s.load bytes = .ok s₁) :
    ∃ s₀, (s.renewed []).load bytes = .ok s₀ ∧
      (s.frames ≠ [] → State.next? { s₁ with pc := .at 0 } = s.next?) ∧
      (s.frames = [] → State.next? { s₁ with pc := .at 0 } = s₀.main[0]? ∧
        (s.handlers = [] → s.current = none → ∀ limit, Unaided s.routines limit s₀ →
          (run limit { s₁ with output := "" }).finish = (run limit s₀).finish ∧
          (run limit { s₁ with output := "" }).left = (run limit s₀).left ∧
          (run limit { s₁ with output := "" }).state.output = (run limit s₀).state.output ∧
          (run limit { s₁ with output := "" }).state.globals = (run limit s₀).state.globals)) := by
  rw [State.load_eq] at hload
  cases hrenewed : (s.renewed s.routines).load bytes with
  | error e =>
    rw [hrenewed] at hload
    cases hload
  | ok t =>
    rw [hrenewed] at hload
    cases hload
    have hbacked : Backed [] s.routines s.routines := fun name => rfl
    obtain ⟨s₀, hs₀, ht, htable⟩ := State.load_backed hbacked hrenewed
    have hstart := State.load_start hs₀
    refine ⟨s₀, hs₀, fun hframes => ?_, fun hframes =>
      ⟨?_, fun hhandlers hcurrent limit hunaided => ?_⟩⟩
    · exact State.next?_call (v := { s.regain t with pc := .at 0 }) hframes rfl
    · have hpc := State.next?_start (w := { s.regain t with pc := .at 0 }) hframes rfl
      rw [hpc, ht]
      rfl
    · have hregain : { s.regain t with output := "" } =
          { s.regain s₀ with routines := t.routines, output := "" } := by
        rw [ht]
        rfl
      rw [hregain, run_regain hframes hhandlers hcurrent hstart htable hunaided]
      exact ⟨rfl, rfl, rfl, rfl⟩

/-- The machine after a program, the next program, and machines that have loaded it: this one, and
another one in its place. -/
def followed (first next : Program) (new : State → State) :
    Option (State × Compiled × State × State) := do
  let s₀ ← (State.load {} (← first.compile.toOption).bytes).toOption
  let s := (run 100 s₀).state
  let c ← next.compile.toOption
  return (s, c, ← (s.load c.bytes).toOption, ← ((new s).load c.bytes).toOption)

theorem followed_eq_some {first next : Program} {new : State → State} {s₁ s₀ : State}
    {c : Compiled} (h : followed first next new = some (s, c, s₁, s₀)) :
    ∃ b s', first.compile = .ok b ∧ State.load {} b.bytes = .ok s' ∧ (run 100 s').state = s ∧
      next.compile = .ok c ∧ s.load c.bytes = .ok s₁ ∧ (new s).load c.bytes = .ok s₀ := by
  simp only [followed, bind, Option.bind_eq_some_iff, pure, Option.some.injEq, Prod.mk.injEq] at h
  obtain ⟨b, hb, s', hs', c, hc, s₁, hs₁, s₀, hs₀, hs, rfl, rfl, rfl⟩ := h
  subst hs
  exact ⟨b, s', eq_ok_of_toOption hb, eq_ok_of_toOption hs', rfl, eq_ok_of_toOption hc,
    eq_ok_of_toOption hs₁, eq_ok_of_toOption hs₀⟩

end Wide

/-- A list that is never finished. -/
def Program.halfList : Program :=
  [.declare "l" (some (.list [.literal (.int 1),
    .binary (.literal (.int 1)) "/" (.literal (.int 0))])) none]

/-- A call that fails. -/
def Program.failingCall : Program :=
  [.function "f" [] [.returnValue (some (.binary (.literal (.int 1)) "/" (.literal (.int 0))))],
   .expression (.call (.name "f") [])]

/-- A function and its value. -/
def Program.tellTwo : Program :=
  [.function "g" [] [.returnValue (some (.literal (.int 2)))],
   .expression (.call (.name "print") [.call (.name "g") []])]

open Wide

theorem run_after_load_halfList : ∃ b s' s c s₁ s₀, Program.halfList.compile = .ok b ∧
    State.load {} b.bytes = .ok s' ∧ (run 100 s').state = s ∧ s.stack.length = 1 ∧
    Program.tellTwo.compile = .ok c ∧ s.load c.bytes = .ok s₁ ∧
    (s.renewed []).load c.bytes = .ok s₀ ∧ Unaided s.routines 100 s₀ ∧
    (run 100 { s₁ with output := "" }).state.output = (run 100 s₀).state.output ∧
    (run 100 s₀).state.output = "2\n" := by
  have hrun : (followed .halfList .tellTwo (·.renewed [])).map (fun (s, c, s₁, s₀) =>
      (s.stack.length, s.frames.isEmpty && s.handlers.isEmpty && s.current.isNone,
        decide (Unaided s.routines 100 s₀), (run 100 s₀).state.output)) =
      some (1, true, true, "2\n") := by
    decide +kernel
  obtain ⟨⟨s, c, s₁, s₀⟩, hfollowed, hrun⟩ := Option.map_eq_some_iff.1 hrun
  simp only [Prod.mk.injEq, Bool.and_eq_true, List.isEmpty_iff, Option.isNone_iff_eq_none,
    decide_eq_true_eq] at hrun
  obtain ⟨hstack, ⟨⟨hframes, hhandlers⟩, hcurrent⟩, hunaided, houtput⟩ := hrun
  obtain ⟨b, s', hb, hs', hs, hc, hs₁, hs₀⟩ := followed_eq_some hfollowed
  obtain ⟨t, ht, -, hcalm⟩ := run_after_load hs₁
  cases ht.symm.trans hs₀
  obtain ⟨-, -, hsame, -⟩ := (hcalm hframes).2 hhandlers hcurrent 100 hunaided
  exact ⟨b, s', s, c, s₁, _, hb, hs', hs, hstack, hc, hs₁, hs₀, hunaided, hsame, houtput⟩

/-- A call that has failed goes on when the next program should begin, and takes its operands from
there. -/
theorem call_resumed_by_next_program : ∃ b s' s c s₁ s₀, Program.failingCall.compile = .ok b ∧
    State.load {} b.bytes = .ok s' ∧ (run 100 s').state = s ∧
    s.output = "Runtime error: Division by zero\nCall stack:\n  0: f at instruction 3\n" ∧
    Program.tellTwo.compile = .ok c ∧ s.load c.bytes = .ok s₁ ∧
    State.load {} c.bytes = .ok s₀ ∧ (run 100 s₀).state.output = "2\n" ∧
    (run 100 { s₁ with output := "" }).state.output =
      "Runtime error: pop from empty list\nCall stack:\n  0: f at instruction 4\n" := by
  have hrun : (followed .failingCall .tellTwo fun _ => {}).map (fun (s, _, s₁, s₀) =>
      (s.output, (run 100 s₀).state.output, (run 100 { s₁ with output := "" }).state.output)) =
      some ("Runtime error: Division by zero\nCall stack:\n  0: f at instruction 3\n", "2\n",
        "Runtime error: pop from empty list\nCall stack:\n  0: f at instruction 4\n") := by
    decide +kernel
  obtain ⟨⟨s, c, s₁, s₀⟩, hfollowed, hrun⟩ := Option.map_eq_some_iff.1 hrun
  simp only [Prod.mk.injEq] at hrun
  obtain ⟨hfailed, hnew, hold⟩ := hrun
  obtain ⟨b, s', hb, hs', hs, hc, hs₁, hs₀⟩ := followed_eq_some hfollowed
  exact ⟨b, s', s, c, s₁, s₀, hb, hs', hs, hfailed, hc, hs₁, hs₀, hnew, hold⟩

end StackScript
