import StackScript.Proofs.Code.Hosted
import StackScript.Proofs.Code.Restored
import StackScript.Proofs.Machine.Pace

/-!
# Calls leave the stack balanced

A return takes the top of the stack and puts it back, whatever else the call has left below it. So a
call replaces its callee and arguments by one value only if it returns where it has nothing but that
value on the stack. In an orderly program it always does: no function returns from inside a counted
loop, whose iterator would stay.

* `stack_after_return`: a call of an orderly program replaces callee and arguments by its value;
* `iterator_left_by_return`: a return from inside a loop does not.
-/

namespace StackScript

/-- Returns stand where there is nothing below their value. -/
def Rules.cleanReturn : Rules where
  of op := if op = .ret then .bottom else .any
  free := by
    intro op h
    refine if_neg fun hret => h ?_
    rw [hret]
    decide

/-- A program in which the functions are tidy and return at the bottom. -/
def Program.Orderly (p : Program) : Prop := Stmt.AllHost .cleanReturn false p

theorem Program.Orderly.paced {p : Program} (hp : p.Orderly) {c : Compiled}
    (hc : p.compile = .ok c) : ∀ r ∈ c.unit.routines, Paced .cleanReturn none r.code.toList := by
  obtain ⟨shape, sc, hplan, hunit, -⟩ := compile_eq_ok hc
  have hret : (Rules.cleanReturn.of .ret).Allows true := rfl
  obtain ⟨⟨-, hpaced⟩, -⟩ := (carried_hosts hret).stmts p hp.mem {} shape sc rfl hplan
  rw [hunit]
  exact hpaced nofun

namespace Wide

/-! ## Runs -/

/-- The states that a machine reaches while at least so many calls are in progress. -/
inductive Within (depth : Nat) (s : State) : State → Prop
  | refl : Within depth s s
  | step {t u : State} : Within depth s t → Act.step t = .ok () u → depth ≤ u.frames.length →
      Within depth s u

/-- The states that a machine reaches. -/
abbrev Reached (s t : State) : Prop := Within 0 s t

/-- A number of steps with at least so many calls in progress. -/
def stepsWithin (depth : Nat) : Nat → State → Option State
  | 0, s => some s
  | count + 1, s =>
    match stepsWithin depth count s with
    | none => none
    | some t =>
      match Act.step t with
      | .ok _ u => if depth ≤ u.frames.length then some u else none
      | .error _ _ => none

variable {s t : State} {p : Program} {count n depth : Nat}

theorem stepsWithin_succ {u : State} (h : stepsWithin depth (count + 1) s = some u) :
    ∃ t, stepsWithin depth count s = some t ∧ Act.step t = .ok () u ∧ depth ≤ u.frames.length := by
  rw [stepsWithin] at h
  split at h
  · cases h
  · rename_i t ht
    split at h
    · rename_i hstep
      split at h
      · rename_i hdepth
        cases h
        exact ⟨t, ht, hstep, hdepth⟩
      · cases h
    · cases h

theorem Within.of_steps : ∀ {count : Nat} {t : State},
    stepsWithin depth count s = some t → Within depth s t
  | 0, _, h => by
    cases h
    exact .refl
  | count + 1, t, h => by
    obtain ⟨r, hr, hstep, hdeep⟩ := stepsWithin_succ h
    exact .step (of_steps hr) hstep hdeep

/-- A machine with the plain functions, all of whose routines are paced. -/
structure State.Tame (rules : Rules) (w : State) : Prop where
  plain : w.functions = .plain
  paced : ∀ entry ∈ w.routines, Paced rules none entry.2.code.toList

theorem State.Tame.step {rules : Rules} {w w' : State} (h : w.Tame rules)
    (hstep : Act.step w = .ok () w') : w'.Tame rules := by
  have hprogram := Act.program_step hstep
  have hroutines : w'.routines = w.routines := congrArg (·.2.1) hprogram
  exact ⟨(congrArg Prod.fst hprogram).trans h.plain, hroutines ▸ h.paced⟩

theorem Reached.tame {rules : Rules} (hs : s.Tame rules) (h : Reached s t) : t.Tame rules := by
  induction h with
  | refl => exact hs
  | step _ hstep _ ih => exact ih.step hstep

/-! ## Values of the calls in progress -/

/-- The values of calls that wait for one value each, above a floor that belongs to the calls at the
bottom. -/
inductive Waits (rules : Rules) (bottom : List (Frame Routine)) (floor : List Value) :
    List (Frame Routine) → List Value → Prop
  | bottom : Waits rules bottom floor bottom floor
  | call {frame : Frame Routine} {frames : List (Frame Routine)} {segment stack : List Value} :
      Stands rules frame.routine.code frame.pc (segment.length + 1) →
      Waits rules bottom floor frames stack →
      Waits rules bottom floor (frame :: frames) (segment ++ stack)

/-- A call runs above the calls at the bottom, and its values are on top of those that wait. -/
def Active (rules : Rules) (bottom : List (Frame Routine)) (floor : List Value) (w : State) :
    Prop :=
  ∃ frame frames segment stack, w.outline.frames = frame :: frames ∧ w.stack = segment ++ stack ∧
    Stands rules frame.routine.code frame.pc segment.length ∧
    Waits rules bottom floor frames stack

variable {rules : Rules} {bottom : List (Frame Routine)} {floor : List Value} {w w' : State}

theorem Waits.length_le {frames : List (Frame Routine)} {stack : List Value}
    (h : Waits rules bottom floor frames stack) : bottom.length ≤ frames.length := by
  induction h with
  | bottom => exact Nat.le_refl _
  | call _ _ ih =>
    rw [List.length_cons]
    omega

theorem mem_of_lookup {routines : List (String × Routine)} {name : String} {routine : Routine}
    (h : routines.lookup name = some routine) : (name, routine) ∈ routines := by
  obtain ⟨_, _, heq, -⟩ := List.lookup_eq_some_iff.1 h
  simp [heq]

theorem length_frames (w : State) : w.outline.frames.length = w.frames.length := by
  simp [State.outline]

theorem Active.length_lt (h : Active rules bottom floor w) : bottom.length < w.frames.length := by
  obtain ⟨frame, frames, segment, stack, hframes, -, -, hwaits⟩ := h
  rw [← length_frames, hframes, List.length_cons]
  exact Nat.lt_succ_of_le hwaits.length_le

/-- A step keeps the values of the calls in order, or it is the return of the last call above the
bottom, which leaves one value on the floor. -/
theorem Active.step (hret : rules.of .ret = .bottom) (htame : w.Tame rules)
    (h : Active rules bottom floor w) (hstep : Act.step w = .ok () w') :
    Active rules bottom floor w' ∨ w'.frames.length = bottom.length ∧
      w.next? = some ⟨.ret, .null⟩ ∧ ∃ v, w.stack = v :: floor ∧ w'.stack = v :: floor := by
  obtain ⟨frame, frames, segment, stack, hframes, hstack, hstands, hwaits⟩ := h
  rcases Act.step_eq_ok hstep with rfl | ⟨i, w₁, hfetch, hrun⟩
  · exact .inl ⟨frame, frames, segment, stack, hframes, hstack, hstands, hwaits⟩
  · have hcode : w.outline.code = frame.routine.code := by rw [Outline.code, hframes]
    have hcounter : w.outline.counter = frame.pc := by rw [Outline.counter, hframes]
    have hjump : ∀ c, (w.outline.jump c).frames = { frame with pc := c } :: frames := by
      intro c
      rw [Outline.jump, hframes]
    rw [← hcode, ← hcounter] at hstands
    obtain ⟨segment', hstack', hstride, -⟩ := step_stands hstack hfetch hstands hrun
    cases hstride with
    | goes c houtline hstands' =>
      refine .inl ⟨{ frame with pc := c }, frames, segment', stack, ?_, hstack', ?_, hwaits⟩
      · rw [houtline, hjump]
      · rw [hcode] at hstands'
        exact hstands'
    | enters n name routine _ _ _ hlookup houtline hstands' =>
      refine .inl ⟨⟨routine, (w.outline.jump w.outline.counter.next).pc, .at 0, #[]⟩,
        { frame with pc := w.outline.counter.next } :: frames, [], segment' ++ stack, ?_, hstack',
        .start (htame.paced _ (mem_of_lookup hlookup)), .call ?_ hwaits⟩
      · rw [houtline, Outline.enter, hjump]
      · rw [hcode] at hstands'
        exact hstands'
    | returns c hinstruction hrule hsame houtline =>
      rw [hret] at hrule
      have hleave : w'.outline.frames = frames := by
        rw [houtline, Outline.leave, hjump]
      obtain ⟨v, rfl⟩ := List.length_eq_one_iff.1 hrule
      rw [hsame, hstack]
      cases hwaits with
      | bottom =>
        refine .inr ⟨?_, State.next?_of_fetch (hinstruction ▸ hfetch), v, rfl, rfl⟩
        rw [← length_frames, hleave]
      | @call frame' frames' segment₁ stack₁ hstands₁ hwaits₁ =>
        refine .inl ⟨frame', frames', v :: segment₁, stack₁, hleave, ?_, hstands₁, hwaits₁⟩
        rw [hsame, hstack]
        rfl

theorem Active.within (hret : rules.of .ret = .bottom) {u : State} (htame : t.Tame rules)
    (ht : Active rules bottom floor t) (hdepth : bottom.length < depth)
    (hu : Within depth t u) : Active rules bottom floor u ∧ u.Tame rules := by
  induction hu with
  | refl => exact ⟨ht, htame⟩
  | step _ hstep hdeep ih =>
    obtain ⟨hactive, htame⟩ := ih
    refine ⟨?_, htame.step hstep⟩
    rcases hactive.step hret htame hstep with hactive | ⟨hlast, -⟩
    · exact hactive
    · omega

/-- A call of a routine begins with no values of its own, above what is below callee and
arguments. -/
theorem Active.enter {s₁ : State} (htame : s.Tame rules) {taken : List Value}
    (hfetch : Act.fetch s = .ok (some ⟨.call, .int n⟩) s₁) (hstack : s.stack = taken ++ floor)
    (htaken : taken.length = n + 1) (hstep : Act.step s = .ok () t)
    (hdeep : s.frames.length < t.frames.length) : Active rules s₁.outline.frames floor t ∧
      t.frames.length = s₁.outline.frames.length + 1 := by
  obtain ⟨-, hroutines, hdepth⟩ := Act.program_of_fetch hfetch
  have hrun : Act.perform (.to .call n) s₁ = .ok () t := by
    rw [Act.step, bind_of_ok hfetch] at hstep
    exact hstep
  have hneeds : needs (.to .call n) ≤ taken.length := Nat.le_of_eq htaken.symm
  obtain ⟨k, segment, ⟨-, hleaves⟩, hstack', hlength, -⟩ :=
    Act.step_slides hfetch hrun hstack hneeds
  rcases hleaves with ⟨-, hrest⟩ | ⟨rfl, name, routine, locals, hlookup, hrest⟩
  · rw [State.frames_of_rest hrest] at hdeep
    omega
  · have hempty : segment.length = 0 := by rw [hlength, htaken]; exact Nat.sub_self _
    cases List.length_eq_zero_iff.1 hempty
    have hlookup : s.routines.lookup name = some routine := hroutines ▸ hlookup
    have hframes : t.outline.frames =
        ⟨routine, s₁.outline.pc, .at 0, #[]⟩ :: s₁.outline.frames :=
      congrArg Outline.frames (State.outline_of_rest hrest)
    refine ⟨⟨_, _, [], floor, hframes, hstack', ?_, .bottom⟩, ?_⟩
    · exact .start (htame.paced _ (mem_of_lookup hlookup))
    · rw [← length_frames, hframes, List.length_cons]

theorem tame_load {c : Compiled} (hp : p.Orderly) (hc : p.compile = .ok c)
    (hload : State.load {} c.bytes = .ok s) : s.Tame .cleanReturn := by
  obtain ⟨constants, rfl⟩ := loaded_of_load hc hload
  refine ⟨(State.loaded_start c.unit constants).2.2.2, fun entry hentry => ?_⟩
  obtain ⟨r, hr, rfl⟩ := List.mem_map.1 hentry
  exact hp.paced hc r hr

/-- In an orderly program a call of a routine replaces callee and arguments by the value that it
returns: whenever the machine calls a routine with a stack below callee and arguments, and later
leaves that call, it does so by a return, and the value returned stands right on that stack. -/
theorem stack_after_return {p : Program} {c : Compiled} (hp : p.Orderly) (hc : p.compile = .ok c)
    {s₀ s t u v : State} (hload : State.load {} c.bytes = .ok s₀) (hs : Reached s₀ s) {n : Nat}
    (hnext : s.next? = some ⟨.call, .int n⟩) {callee : Value} {arguments below : List Value}
    (hstack : s.stack = arguments.reverse ++ callee :: below) (hcount : arguments.length = n)
    (hcall : Act.step s = .ok () t) (hdeep : s.frames.length < t.frames.length)
    (hu : Within t.frames.length t u) (hleave : Act.step u = .ok () v)
    (hleft : v.frames.length < t.frames.length) :
    u.next? = some ⟨.ret, .null⟩ ∧
      ∃ value, u.stack = value :: below ∧ v.stack = value :: below := by
  obtain ⟨s₁, hfetch⟩ := State.fetch_of_next? hnext
  have htame := hs.tame (tame_load hp hc hload)
  have hstack : s.stack = (arguments.reverse ++ [callee]) ++ below := by simp [hstack]
  have htaken : (arguments.reverse ++ [callee]).length = n + 1 := by simp [hcount]
  obtain ⟨ht, hdepth⟩ := Active.enter htame hfetch hstack htaken hcall hdeep
  obtain ⟨hactive, htame_u⟩ := ht.within rfl (htame.step hcall) ht.length_lt hu
  rcases hactive.step rfl htame_u hleave with hactive | ⟨-, hreturns⟩
  · have := hactive.length_lt
    omega
  · exact hreturns

/-- The state of a program after so many steps. -/
def runOf (p : Program) (count : Nat) : Option State := do
  let (shape, sc) ← (Plan.program p).toOption
  let constants ← (Datum.read (Datum.write (.list (shape.unit sc).constants))).toOption
  stepsWithin 0 count (State.loaded (shape.unit sc) constants)

theorem unit_of_plan {c : Compiled} {shape : Shape} {sc : Scope} (hc : p.compile = .ok c)
    (h : (Plan.program p).toOption = some (shape, sc)) : c.unit = shape.unit sc := by
  obtain ⟨shape', sc', hplan, hunit, -⟩ := compile_eq_ok hc
  rw [hplan] at h
  cases h
  exact hunit

/-- Such a run starts from a program that is compiled and loaded. -/
theorem steps_of_runOf (hcompiles : p.compile.toOption.isSome = true) (h : runOf p count = some s) :
    ∃ c s₀, p.compile = .ok c ∧ State.load {} c.bytes = .ok s₀ ∧
      stepsWithin 0 count s₀ = some s := by
  obtain ⟨c, hc⟩ := Option.isSome_iff_exists.1 hcompiles
  have hc := eq_ok_of_toOption hc
  unfold runOf at h
  simp only [bind, Option.bind_eq_some_iff] at h
  obtain ⟨⟨shape, sc⟩, hplan, constants, hread, hs⟩ := h
  refine ⟨c, _, hc, ?_, hs⟩
  rw [load_of_read hc, unit_of_plan hc hplan, eq_ok_of_toOption hread]
  rfl

theorem runOf_eq_some (hcompiles : p.compile.toOption.isSome = true) (h : runOf p count = some s) :
    ∃ c s₀, p.compile = .ok c ∧ State.load {} c.bytes = .ok s₀ ∧ Reached s₀ s := by
  obtain ⟨c, s₀, hc, hload, hs⟩ := steps_of_runOf hcompiles h
  exact ⟨c, s₀, hc, hload, .of_steps hs⟩

/-- A state of the run that has a property is reached from the program that is compiled and loaded. -/
theorem exists_of_runOf {P : State → Prop} [DecidablePred P] (count : Nat)
    (hcompiles : p.compile.toOption.isSome = true) (h : (runOf p count).any (P ·) = true) :
    ∃ c s₀ t, p.compile = .ok c ∧ State.load {} c.bytes = .ok s₀ ∧ Reached s₀ t ∧ P t := by
  obtain ⟨t, ht, hP⟩ := (Option.any_eq_true _ _).1 h
  obtain ⟨c, s₀, hc, hload, hreached⟩ := runOf_eq_some hcompiles ht
  exact ⟨c, s₀, t, hc, hload, hreached, of_decide_eq_true hP⟩

/-- A call of a routine during a run: the state before it, the first and the last state within it,
and the state after it, each reached from the one before by so many steps. -/
def callOf (p : Program) (before within : Nat) : Option (State × State × State × State) := do
  let s ← runOf p before
  let t ← stepsWithin 0 1 s
  let u ← stepsWithin t.frames.length within t
  let v ← stepsWithin 0 1 u
  return (s, t, u, v)

theorem step_of_steps (h : stepsWithin 0 1 s = some t) : Act.step s = .ok () t := by
  unfold stepsWithin at h
  simp only [stepsWithin, Nat.zero_le, if_true] at h
  split at h
  · rename_i hstep
    cases h
    exact hstep
  · cases h

theorem callOf_eq_some {before within : Nat} {u v : State}
    (hcompiles : p.compile.toOption.isSome = true)
    (h : callOf p before within = some (s, t, u, v)) :
    ∃ c s₀, p.compile = .ok c ∧ State.load {} c.bytes = .ok s₀ ∧ Reached s₀ s ∧
      Act.step s = .ok () t ∧ Within t.frames.length t u ∧ Act.step u = .ok () v := by
  unfold callOf at h
  simp only [bind, Option.bind_eq_some_iff, pure, Option.some.injEq, Prod.mk.injEq] at h
  obtain ⟨_, hs, _, ht, _, hu, _, hv, rfl, rfl, rfl, rfl⟩ := h
  obtain ⟨c, s₀, hc, hload, hreached⟩ := runOf_eq_some hcompiles hs
  exact ⟨c, s₀, hc, hload, hreached, step_of_steps ht, .of_steps hu, step_of_steps hv⟩

/-- The number of arguments of the call that the machine makes next. -/
def State.calls? (w : State) : Option Nat :=
  match w.next? with
  | some ⟨.call, .int (.ofNat n)⟩ => some n
  | _ => none

theorem State.next?_of_calls? (h : w.calls? = some n) : w.next? = some ⟨.call, .int n⟩ := by
  unfold State.calls? at h
  split at h
  · rename_i hnext
    cases h
    exact hnext
  · cases h

end Wide

/-- The sum of a list under construction and the value of a recursive call. -/
def Program.countdown : Program :=
  [.function "down" ["n"]
    [.branch (.binary (.name "n") "<=" (.literal (.int 0))) [.returnValue (some (.literal (.int 0)))]
      [] none,
     .returnValue (some (.binary (.literal (.int 1)) "+"
       (.call (.name "down") [.binary (.name "n") "-" (.literal (.int 1))])))],
   .declare "l" (some (.list [.literal (.int 7), .call (.name "down") [.literal (.int 2)]])) none]

open Wide in
theorem stack_after_return_countdown : Program.countdown.Orderly ∧ ∃ c s₀ s t u v callee arg below,
    Program.countdown.compile = .ok c ∧ State.load {} c.bytes = .ok s₀ ∧ Reached s₀ s ∧
    s.next? = some ⟨.call, .int 1⟩ ∧ s.stack = arg :: callee :: below ∧ Act.step s = .ok () t ∧
    s.frames.length < t.frames.length ∧ Within t.frames.length t u ∧ Act.step u = .ok () v ∧
    v.frames.length < t.frames.length ∧
    ∃ value, u.stack = value :: below ∧ v.stack = value :: below := by
  have horderly : Program.countdown.Orderly := by
    refine ⟨⟨⟨.binary .name .literal, ⟨⟨rfl, ?_⟩, trivial⟩, trivial, trivial⟩, ⟨rfl, ?_⟩, trivial⟩,
      trivial, trivial⟩
    · rintro e ⟨⟩
      exact .literal
    · rintro e ⟨⟩
      refine .binary .literal (.call trivial nofun .name ?_)
      rintro a (_ | ⟨_, ⟨⟩⟩)
      exact .binary .name .literal
  have hrun : (callOf Program.countdown 5 29).any (fun (s, t, _, v) => s.calls? = some 1 ∧
      s.stack.length = 3 ∧ s.frames.length = 0 ∧ t.frames.length = 1 ∧ v.frames.length = 0) = true := by
    decide +kernel
  simp only [Option.any_eq_true, decide_eq_true_eq, Prod.exists] at hrun
  obtain ⟨s, t, u, v, hcall, hcalls, hstack, hs, ht, hv⟩ := hrun
  obtain ⟨c, s₀, hc, hload, hreached, hstep, hwithin, hleave⟩ := callOf_eq_some (by decide +kernel) hcall
  obtain ⟨arg, callee, below, hstack⟩ : ∃ arg callee below, s.stack = arg :: callee :: below := by
    match s.stack, hstack with
    | arg :: callee :: below, _ => exact ⟨arg, callee, below, rfl⟩
  have hnext := State.next?_of_calls? hcalls
  have htaken : s.stack = [arg].reverse ++ callee :: below := hstack
  obtain ⟨-, hvalue⟩ := stack_after_return horderly hc hload hreached hnext htaken rfl hstep
    (by omega) hwithin hleave (by omega)
  exact ⟨horderly, c, s₀, s, t, u, v, callee, arg, below, hc, hload, hreached, hnext, hstack, hstep,
    by omega, hwithin, hleave, by omega, hvalue⟩

/-- The first item of a list, returned from inside the loop over it. -/
def Program.firstItem : Program :=
  [.function "first" []
    [.forLoop "x" (.list [.literal (.int 1), .literal (.int 2)]) [.returnValue (some (.name "x"))]],
   .declare "l" (some (.list [.literal (.int 0), .call (.name "first") []])) none]

open Wide in
/-- The iterator of the loop stays below the value that is returned, so that the stack after the call
has one value too many. -/
theorem iterator_left_by_return : ∃ c s₀ s t u v callee below,
    Program.firstItem.compile = .ok c ∧ State.load {} c.bytes = .ok s₀ ∧ Reached s₀ s ∧
    s.next? = some ⟨.call, .int 0⟩ ∧ s.stack = callee :: below ∧ Act.step s = .ok () t ∧
    s.frames.length < t.frames.length ∧ Within t.frames.length t u ∧
    u.next?.map (·.op) = some .ret ∧ Act.step u = .ok () v ∧ v.frames.length < t.frames.length ∧
    ∀ value, v.stack ≠ value :: below := by
  have hrun : (callOf Program.firstItem 4 7).any (fun (s, t, u, v) => s.calls? = some 0 ∧
      u.next?.map (·.op) = some .ret ∧ s.stack.length = 2 ∧ s.frames.length = 0 ∧
      t.frames.length = 1 ∧ v.frames.length = 0 ∧ v.stack.length = 3) = true := by
    decide +kernel
  simp only [Option.any_eq_true, decide_eq_true_eq, Prod.exists] at hrun
  obtain ⟨s, t, u, v, hcall, hcalls, hret, hstack, hs, ht, hv, hheight⟩ := hrun
  obtain ⟨c, s₀, hc, hload, hreached, hstep, hwithin, hleave⟩ := callOf_eq_some (by decide +kernel) hcall
  obtain ⟨callee, below, hbelow⟩ : ∃ callee below, s.stack = callee :: below := by
    match s.stack, hstack with
    | callee :: below, _ => exact ⟨callee, below, rfl⟩
  refine ⟨c, s₀, s, t, u, v, callee, below, hc, hload, hreached, State.next?_of_calls? hcalls, hbelow,
    hstep, by omega, hwithin, hret, hleave, by omega, fun value hvalue => ?_⟩
  rw [hbelow, List.length_cons] at hstack
  rw [hvalue, List.length_cons] at hheight
  omega

end StackScript
