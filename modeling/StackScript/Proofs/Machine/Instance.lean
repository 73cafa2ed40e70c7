import StackScript.Proofs.Machine.Agreement
import StackScript.Proofs.Machine.Iteration

/-!
# Making objects on the fast machine

A call of a class puts the new object on the stack, where the class and the arguments were, and then
calls the constructor, which has the object in its first slot as well. Nothing but the return from
the constructor decides what is left of this: it takes away what the constructor returns if that is
nothing, the object is right below it and the routine has the name of a constructor.

* `call_class_return`: the object alone is left exactly if the constructor has such a name, returns
  nothing and leaves nothing on the stack;
* `constructor_leftover`: a call whose result is not used stays on the stack of the machine, and the
  variable does not get the object.
-/

namespace StackScript.Fast

/-- A value that is called as a class: the class, or the name of one. -/
def State.CallsClass (f : State) (callee : Value) (c : Nat) : Prop :=
  callee = .classRef c ∨
    (∃ name, callee = .str name) ∧ f.classes.get? callee = some (.classRef c)

/-- What the class of a call makes, and the constructor it finds. -/
structure State.Makes (f : State) (c : Nat) (made constructor : Value) (store : Store) : Prop where
  object : ∃ ref between, made = .object ref ∧ Value.newObject c f.store = .ok made between ∧
    Value.findMethod (.classRef c) (.str "__init__") between = .ok constructor store

variable {f : State} {c : Nat} {callee made constructor : Value} {store : Store}
  {arguments below : List Value}

/-- The machine when a call has taken the class and the arguments from the stack and is counted. -/
def State.summoned (f : State) (below : List Value) (store : Store) : State :=
  { f with
    stack := below
    store := store
    stats := if f.counting then { f.stats with calls := f.stats.calls + 1 } else f.stats }

/-- What is done with a new object when the constructor is found. -/
def prepare (made : Value) (name : Option String) (arguments : List Value) : Value → Act Unit
  | .none => do
    if !arguments.isEmpty then Act.fail (.noConstructor name)
    Act.push made
  | constructor => do
    Act.push made
    Act.enter constructor (made :: arguments)

/-- A call of a class makes the object and looks for the constructor. -/
theorem call_class (hstack : f.stack = arguments.reverse ++ callee :: below)
    (hclass : f.CallsClass callee c) (hmakes : f.Makes c made constructor store) :
    ∃ name, Act.call (.int arguments.length) f =
      prepare made name arguments constructor (f.summoned below store) := by
  obtain ⟨ref, between, -, hobject, hfind⟩ := hmakes.object
  have htake : (f.stack.take arguments.length).reverse = arguments := by
    rw [hstack, List.take_left' (List.length_reverse ..), List.reverse_reverse]
  have hdrop : f.stack.drop arguments.length = callee :: below := by
    rw [hstack, List.drop_left' (List.length_reverse ..)]
  let g : State := f.summoned below f.store
  have hcall : Act.call (.int arguments.length) f = Act.callValue callee arguments g := by
    rw [Act.call_of_lt (by simp [hstack]), bind_of_ok (Act.popMany_of_le (by simp [hstack])),
      bind_of_ok (Act.pop_cons hdrop), htake]
    show Act.callValue callee arguments (if f.counting = true then _ else _) = _
    cases hcounting : f.counting <;> simp [g, State.summoned, hcounting]
  have hconstruct (name : Option String) : Act.construct c name arguments g =
      prepare made name arguments constructor (f.summoned below store) := by
    have hnew : Act.op (Value.newObject c) g = .ok made { g with store := between } := Act.op_ok hobject
    have hmethod : Act.op (Value.findMethod (.classRef c) (.str "__init__"))
        { g with store := between } = .ok constructor { g with store := store } := Act.op_ok hfind
    rw [Act.construct, bind_of_ok hnew, bind_of_ok hmethod]
    cases constructor <;> rfl
  rcases hclass with rfl | ⟨⟨name, rfl⟩, hget⟩
  · exact ⟨none, hcall.trans (hconstruct none)⟩
  · refine ⟨some name, hcall.trans ((?_ : _ = _).trans (hconstruct (some name)))⟩
    rw [Act.callValue, bind_of_ok (Act.get_run g)]
    dsimp only
    rw [show g.classes = f.classes from rfl, hget]

/-- A call is entered if it has as many arguments as the routine has parameters. -/
theorem enter_routine {r slots : Nat} {frames : List (Frame Nat)}
    (hparameters : (f.store.routines.getD r default).parameters.length = .ok arguments.length)
    (hslots : (f.store.routines.getD r default).slots.length = .ok slots)
    (hframes : f.frames = frames) : Act.enter (.routine r) arguments f = .ok () { f with frames :=
      ⟨r, f.pc, .at 0, (arguments ++ List.replicate slots Value.none).toArray⟩ :: frames } := by
  have hwanted : Act.lengthOf (f.store.routines.getD r default).parameters f =
      .ok arguments.length f := by
    rw [Act.lengthOf, hparameters]
    rfl
  have hsize : Act.lengthOf (f.store.routines.getD r default).slots f = .ok slots f := by
    rw [Act.lengthOf, hslots]
    rfl
  have hcell : Act.routineAt r f = .ok (f.store.routines.getD r default) f := rfl
  simp only [Act.enter]
  rw [bind_of_ok hcell, bind_of_ok hwanted]
  simp only [ne_eq, not_true, if_false]
  rw [bind_of_ok hsize, ← hframes]
  have hcount : arguments.length + slots - arguments.length = slots := by omega
  show EStateM.Result.ok () _ = _
  rw [hcount]

/-- What a return puts on the stack. -/
def handBack (name : String) (v : Value) (stack : List Value) : Act Unit := do
  match v, stack with
  | .none, .object _ :: _ => if !Act.isConstructor name then Act.push v
  | _, _ => Act.push v

/-- The return from a routine: nothing is taken away below a value, and the value is left out only
if it is nothing, an object is below it and the routine has the name of a constructor. -/
theorem ret_stack {frame : Frame Nat} {rest : List (Frame Nat)} {v : Value}
    (hframes : f.frames = frame :: rest) (hstack : f.stack = v :: below) :
    ∃ f', Act.ret f = .ok () f' ∧ f'.frames = rest ∧ f'.pc = frame.returnTo ∧
      (f'.stack = below ∧ v = .none ∧ (∃ ref under, below = .object ref :: under) ∧
          Act.isConstructor (f.store.routines.getD frame.routine default).name = true ∨
        f'.stack = v :: below ∧ ¬ (v = .none ∧ (∃ ref under, below = .object ref :: under) ∧
          Act.isConstructor (f.store.routines.getD frame.routine default).name = true)) := by
  let g : State := { f with stack := below, frames := rest, pc := frame.returnTo }
  have hret : Act.ret f =
      handBack (f.store.routines.getD frame.routine default).name v below g := by
    rw [Act.ret, bind_of_ok (Act.demand_of_le (by simp [hstack])), bind_of_ok (Act.pop_cons hstack)]
    rw [bind_of_ok (Act.get_run _)]
    dsimp only
    rw [hframes]
    rfl
  by_cases hnothing : v = .none ∧ ∃ ref under, below = .object ref :: under
  · obtain ⟨rfl, ref, under, rfl⟩ := hnothing
    simp only [handBack] at hret
    cases hname : Act.isConstructor (f.store.routines.getD frame.routine default).name with
    | true =>
      rw [hname] at hret
      exact ⟨g, hret, rfl, rfl, .inl ⟨rfl, rfl, ⟨ref, under, rfl⟩, rfl⟩⟩
    | false =>
      rw [hname] at hret
      exact ⟨_, hret, rfl, rfl, .inr ⟨rfl, by simp⟩⟩
  · refine ⟨{ g with stack := v :: below }, ?_, rfl, rfl,
      .inr ⟨rfl, fun h => hnothing ⟨h.1, h.2.1⟩⟩⟩
    rw [hret, handBack.eq_def]
    split
    · exact absurd ⟨rfl, _, _, rfl⟩ hnothing
    · rfl

/-- A call of a class leaves the new object alone on the stack exactly if there is no constructor,
or the constructor returns nothing and leaves nothing on the stack. -/
theorem call_class_return (hstack : f.stack = arguments.reverse ++ callee :: below)
    (hclass : f.CallsClass callee c) (hmakes : f.Makes c made constructor store) :
    (constructor = .none → arguments = [] →
      Act.call (.int arguments.length) f = .ok () (f.summoned (made :: below) store)) ∧
    ∀ r slots, constructor = .routine r →
      (store.routines.getD r default).parameters.length = .ok (arguments.length + 1) →
      (store.routines.getD r default).slots.length = .ok slots →
      Act.call (.int arguments.length) f = .ok () { f.summoned (made :: below) store with
        frames := ⟨r, f.pc, .at 0, (made :: arguments ++ List.replicate slots Value.none).toArray⟩ ::
          f.frames } ∧
      ∀ (g : State) (frame : Frame Nat) (v : Value) (left : List Value),
        g.frames = frame :: f.frames → frame.routine = r → frame.returnTo = f.pc →
        g.stack = v :: (left ++ made :: below) →
        ∃ g', Act.ret g = .ok () g' ∧ g'.frames = f.frames ∧ g'.pc = f.pc ∧
          (g'.stack = made :: below ↔ v = .none ∧ left = [] ∧
            Act.isConstructor (g.store.routines.getD r default).name = true) := by
  obtain ⟨name, hcall⟩ := call_class hstack hclass hmakes
  refine ⟨?_, ?_⟩
  · rintro rfl rfl
    rw [hcall]
    rfl
  · rintro r slots rfl hparameters hslots
    refine ⟨?_, ?_⟩
    · rw [hcall]
      exact @enter_routine (f.summoned (made :: below) store) (made :: arguments) r slots
        f.frames hparameters hslots rfl
    · rintro g frame v left hframes rfl hhome hstack'
      obtain ⟨ref, -, rfl, -⟩ := hmakes.object
      obtain ⟨g', hret, hrest, hpc, hleft⟩ := ret_stack hframes hstack'
      refine ⟨g', hret, hrest, hpc.trans hhome, ?_⟩
      rcases hleft with ⟨hg, rfl, -, hname⟩ | ⟨hg, hnot⟩
      · rw [hg]
        refine ⟨fun h => ⟨rfl, List.append_left_eq_self.1 h, hname⟩, ?_⟩
        rintro ⟨-, rfl, -⟩
        rfl
      · rw [hg]
        constructor
        · intro h
          have hlength := congrArg List.length h
          simp at hlength
          omega
        · rintro ⟨rfl, rfl, hname⟩
          exact absurd ⟨rfl, ⟨ref, below, rfl⟩, hname⟩ hnot

/-- A machine that is about to make an object whose constructor has one parameter more. -/
def State.summoning : State where
  stack := [.int 5, .classRef 0, .int 7]
  store :=
    { dicts := #[#[(.str "__init__", .routine 0)], #[]]
      classes := #[⟨.str "A", .dict 0, .dict 1, .none⟩]
      routines := #[⟨"A.__init__", .list [.str "self", .str "x"], .rows #[], .dict [], .null⟩] }

theorem call_class_return_summoning : ∃ store,
    State.summoning.Makes 0 (.object 0) (.routine 0) store ∧
    ∀ (g : State) (frame : Frame Nat), g.frames = [frame] → frame.routine = 0 →
      frame.returnTo = .at 0 → g.stack = [.none, .object 0, .int 7] → g.store = store →
      ∃ g', Act.ret g = .ok () g' ∧ g'.stack = [.object 0, .int 7] := by
  have hmakes : State.summoning.Makes 0 (.object 0) (.routine 0)
      { State.summoning.store with objects := #[⟨0, #[]⟩] } := ⟨0, _, rfl, rfl, rfl⟩
  refine ⟨_, hmakes, fun g frame hframes hroutine hhome hstack hstore => ?_⟩
  have hstart : State.summoning.stack = [.int 5].reverse ++ .classRef 0 :: [.int 7] := rfl
  obtain ⟨g', hret, -, -, hleft⟩ := ((call_class_return hstart (.inl rfl) hmakes).2 0 0 rfl rfl
    rfl).2 g frame .none [] hframes hroutine hhome hstack
  refine ⟨g', hret, hleft.2 ⟨rfl, rfl, ?_⟩⟩
  rw [hstore]
  decide +kernel

/-- A class whose constructor shows its argument and keeps it, or gives it back. -/
def showingClass (last : List Stmt) : Program :=
  [.classDef "A" [.function "__init__" ["self", "x"]
      (.assignMember (.name "self") "x" (.name "x") :: last)],
    .declare "a" (some (.call (.name "A") [.literal (.int 5)])) none]

/-- What is shown, the stack and the variables at the end of a run. -/
def outcomeOf (p : Program) (count : Nat) : Option (String × List String × List String) :=
  (loadedOf p).map fun f =>
    let last := (run count f).state
    (last.output, last.stack.map Value.kind, last.globals.toList.map Value.kind)

/-- The call in the first constructor leaves its result on the stack, and the constructor returns
nothing on top of it: the variable gets nothing. The second gives a number back, which the variable
gets. Both leave the object on the stack. -/
theorem constructor_leftover :
    outcomeOf (showingClass [.expression (.call (.name "print") [.name "x"])]) 18 =
      some ("5\n", ["NoneType", "AquaObject"], ["AquaClass", "NoneType"]) ∧
    outcomeOf (showingClass [.returnValue (some (.literal (.int 3)))]) 15 =
      some ("", ["AquaObject"], ["AquaClass", "int"]) := by
  decide +kernel

end StackScript.Fast
