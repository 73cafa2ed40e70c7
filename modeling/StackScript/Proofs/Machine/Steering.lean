import StackScript.Machine.Fast.Load
import StackScript.Machine.Fast.Run
import StackScript.Proofs.Machine.Control
import StackScript.Proofs.Machine.Custody

/-!
# What the fast machine does with its calls

Most actions of the fast machine leave its calls and counters alone, also where they fail. The others
jump, write a local slot, enter a routine or return from one, and no instruction does more than one of
these. Before an instruction is fetched, the calls that are at their end return.
-/

namespace StackScript

instance {ρ : Type} {raises : Prop} : Std.Refl (@Control.Goes ρ raises) := ⟨fun _ => .stays⟩

namespace Fast

/-- Where a machine is. -/
def State.control (f : State) : Control Nat := ⟨f.pc, f.frames⟩

namespace Act

variable {α β : Type} {x y : Act α} {g : α → Act β} {R S : Control Nat → Control Nat → Prop}

/-- What an action does to the calls, whether it fails or not. -/
def Leads (R : Control Nat → Control Nat → Prop) (x : Act α) : Prop :=
  ∀ f, R f.control (stateAfter (x f)).control

namespace Leads

theorem bind {T : Control Nat → Control Nat → Prop} (hx : Leads R x) (hg : ∀ a, Leads S (g a))
    (hstop : ∀ c c', R c c' → T c c') (hgo : ∀ c c₁ c', R c c₁ → S c₁ c' → T c c') :
    Leads T (x >>= g) := by
  intro f
  have hf := hx f
  cases hrun : x f with
  | error e f₁ =>
    rw [hrun] at hf
    rw [bind_of_error hrun]
    exact hstop _ _ hf
  | ok a f₁ =>
    rw [hrun] at hf
    rw [bind_of_ok hrun]
    exact hgo _ _ _ hf (hg a f₁)

theorem ite {c : Prop} [Decidable c] (hx : Leads R x) (hy : Leads R y) :
    Leads R (if c then x else y) := by
  split
  · exact hx
  · exact hy

/-! ### Actions that leave the calls alone -/

variable [Std.Refl R]

theorem of_eq (h : Leads Eq x) : Leads R x := fun f => h f ▸ refl f.control

theorem first (hx : Leads Eq x) (hg : ∀ a, Leads R (g a)) : Leads R (x >>= g) :=
  bind hx hg (fun c _ h => h ▸ refl c) fun _ _ _ h h' => h ▸ h'

theorem pure (a : α) : Leads R (Pure.pure a : Act α) := fun f => refl f.control

theorem throw (e : Stop) : Leads R (MonadExcept.throw e : Act α) := fun f => refl f.control

theorem get : Leads R (MonadState.get : Act State) := fun f => refl f.control

theorem change {h : State → State} (hh : ∀ f, (h f).control = f.control) :
    Leads R (modify h : Act Unit) := of_eq fun f => (hh f).symm

theorem push (v : Value) : Leads R (Act.push v) := change fun _ => rfl

theorem opOr (rename : Fault → Failure) (x : Op α) : Leads R (Act.opOr rename x) := by
  refine of_eq fun f => ?_
  unfold Act.opOr
  dsimp only
  split <;> rfl

theorem ofExcept (x : Except Fault α) : Leads R (Act.ofExcept x) := opOr _ _

theorem pop : Leads R Act.pop := by
  refine of_eq fun f => ?_
  cases hstack : f.stack <;> cases f <;> cases hstack <;> rfl

theorem popMany (count : Nat) : Leads R (Act.popMany count) := by
  refine of_eq fun f => ?_
  show _ = (stateAfter ((if f.stack.length < count then
    (do set { f with stack := [] }; Act.fault .popEmpty : Act (List Value)) else
    (do set { f with stack := f.stack.drop count }
        return (f.stack.take count).reverse)) f)).control
  split <;> rfl

end Leads

theorem leads_texts : ∀ vs : List Value, Leads Eq (vs.mapM textOf)
  | [] => .pure _
  | _ :: vs => by
    rw [List.mapM_cons]
    exact .first (.opOr _ _) fun _ => .first (leads_texts vs) fun _ => .pure _

theorem leads_popPairs : ∀ (count : Nat) (t : Table), Leads Eq (popPairs count t)
  | 0, _ => .pure _
  | count + 1, _ => .first .pop fun _ => .first .pop fun _ => .first (.opOr _ _) fun _ =>
    leads_popPairs count _

theorem leads_membersOf (libraries : Libraries) (library : Value) (name : String) :
    ∀ (items : List Value) (t : Table), Leads Eq (membersOf libraries library name t items)
  | [], _ => .pure _
  | _ :: rest, _ => .first (.opOr _ _) fun _ =>
    .ite (.first (.opOr _ _) fun _ => leads_membersOf libraries library name rest _)
      (.first (.opOr _ _) fun _ => .throw _)

theorem leads_found {found : Option Nat} {then_ : Nat → Act Table} (routineName : Value)
    (h : ∀ ref, Leads Eq (then_ ref)) : Leads Eq (match found with
      | some ref => then_ ref
      | none => do fail (.methodRoutine (← textOf routineName))) := by
  cases found with
  | none => exact .first (.opOr _ _) fun _ => .throw _
  | some ref => exact h ref

theorem leads_methodsOf (routines : List (String × Nat)) : ∀ (entries : List (Value × Value))
    (methods : Table), Leads Eq (methodsOf routines methods entries)
  | [], _ => .pure _
  | (_, routineName) :: rest, _ =>
    .first (.opOr _ _) fun _ => leads_found routineName fun _ => leads_methodsOf routines rest _

variable {locals : Array Value} {name : String} {h : Function} {f : State}

theorem leads_function (hname : function? name = some h)
    (arguments : List Value) : Leads Eq (h arguments) := by
  unfold function? at hname
  split at hname <;> cases hname
  all_goals
    dsimp only [printAll, unary, unaryOr, range, extreme, round, print, textOf, fault, fail, ask, op]
    repeat' with_reducible first
      | exact .pure _
      | exact .throw _
      | exact .get
      | exact .opOr _ _
      | exact .change fun _ => by with_unfolding_all rfl
      | exact leads_texts _
      | refine .first ?_ fun _ => ?_
      | refine .ite ?_ ?_
      | split

theorem leads_callFunction (hname : function? name = some h)
    (arguments : List Value) : Leads Eq (callFunction name h arguments) := by
  intro f
  have hf := leads_function hname arguments f
  show _ = (stateAfter (EStateM.tryCatch (h arguments) _ f)).control
  unfold EStateM.tryCatch
  cases hrun : h arguments f with
  | ok v f₁ => rwa [hrun] at hf
  | error e f₁ =>
    rw [hrun] at hf
    cases e <;> exact hf

/-! ## Jumps, variables and calls -/

theorem control_jump (target : Counter) (f : State) :
    (stateAfter (jump target f)).control = f.control.jump target := by
  cases hframes : f.frames <;> cases f <;> cases hframes <;> rfl

theorem leads_jump (target : Counter) : Leads (Control.Goes False) (jump target) := fun f => by
  rw [control_jump]
  exact .jumps target

theorem setLocals_cons {frame : Frame Nat}
    {rest : List (Frame Nat)} (h : f.frames = frame :: rest) :
    setLocals locals f = .ok () { f with frames := { frame with locals } :: rest } := by
  cases f
  cases h
  rfl

theorem setLocals_nil (h : f.frames = []) : setLocals locals f = .ok () f := by
  cases f
  cases h
  rfl

theorem leads_setLocals (locals : Array Value) : Leads (Control.Goes False) (setLocals locals) := by
  intro f
  cases hframes : f.frames with
  | nil =>
    rw [setLocals_nil hframes]
    exact .stays
  | cons frame rest =>
    rw [setLocals_cons hframes]
    exact .writes hframes locals

theorem leads_storeVar [Std.Refl R] (hR : ∀ locals, Leads R (setLocals locals)) (operand : Datum) :
    Leads R (storeVar operand) := by
  dsimp only [storeVar, operandValue, fail, op]
  repeat' with_reducible first
    | exact hR _
    | exact .throw _
    | exact .get
    | exact .pop
    | exact .opOr _ _
    | exact .ofExcept _
    | exact .change fun _ => by with_unfolding_all rfl
    | refine .first ?_ fun _ => ?_
    | refine .ite ?_ ?_
    | split

/-- Local slots may be made before one of them is written, which is one change of the call. -/
theorem leads_grown (locals : Array Value) (x : Except Fault (Array Value)) :
    Leads (Control.Goes False) (do
      setLocals locals
      setLocals (← ofExcept x)) := by
  intro f
  cases hframes : f.frames with
  | nil =>
    rw [bind_of_ok (setLocals_nil hframes)]
    exact Leads.first (.opOr _ _) leads_setLocals f
  | cons frame rest =>
    have hwrites := @Control.Goes.writes Nat False f.control frame rest hframes
    rw [bind_of_ok (setLocals_cons hframes)]
    cases x with
    | error e => exact hwrites locals
    | ok written => exact hwrites written

theorem leads_enter (routine : Value) (arguments : List Value) :
    Leads (Control.Goes False) (enter routine arguments) := by
  cases routine with
  | routine ref =>
    have hthen (wanted : Nat) (cell : RoutineCell) : Leads (Control.Goes False) (do
        let size := wanted + (← lengthOf cell.slots)
        let locals := (arguments ++ List.replicate (size - arguments.length) Value.none).toArray
        modify fun s => { s with frames := { routine := ref, returnTo := s.pc, locals } :: s.frames }
          : Act Unit) := .first (.opOr _ _) fun _ _ => .enters ref _
    exact .first (.first .get fun _ => .pure _) fun cell => .first (.opOr _ _) fun wanted =>
      .ite (.first (.throw _) fun _ => hthen wanted cell) (hthen wanted cell)
  | _ => exact .throw _

theorem leads_handBack (v : Value) (frame : Frame Nat) : Leads Eq (do
    let name := (← routineAt frame.routine).name
    match v, (← get).stack with
    | .none, .object _ :: _ => if !isConstructor name then push v
    | _, _ => push v) := by
  refine .first (.first .get fun _ => .pure _) fun _ => .first .get fun _ => ?_
  split
  · exact .ite (.push _) (.pure _)
  · exact .push _

theorem control_handBack (v : Value) (f : State) : (stateAfter ((do
    match (← get).frames with
    | [] => push v
    | frame :: rest =>
      modify fun s => { s with frames := rest, pc := frame.returnTo }
      let name := (← routineAt frame.routine).name
      match v, (← get).stack with
      | .none, .object _ :: _ => if !isConstructor name then push v
      | _, _ => push v : Act Unit) f)).control = f.control.leave := by
  rw [bind_of_ok (show (get : Act State) f = .ok f f from rfl)]
  cases hframes : f.frames with
  | nil => exact (Control.leave_of_nil hframes).symm
  | cons frame rest =>
    refine (leads_handBack v frame { f with frames := rest, pc := frame.returnTo }).symm.trans ?_
    simp [State.control, Control.leave, hframes]

/-- A return takes the innermost call away, unless there is nothing to return. -/
theorem leads_ret : Leads (fun c c' => c' = c ∨ c' = c.leave) ret := by
  have : Std.Refl fun c c' : Control Nat => c' = c ∨ c' = c.leave := ⟨fun _ => .inl rfl⟩
  exact .first (.first .get fun _ => .ite (.throw _) (.pure _)) fun _ => .first .pop fun v f =>
    .inr (control_handBack v f)

/-! ## Instructions -/

/-- Every instruction is made of operations on values that leave the calls alone, before at most one
action that does not. -/
theorem leads_perform (o : Opcode) (operand : Datum) :
    Leads (Control.Goes False) (perform o operand) := by
  cases o
  case ret =>
    intro f
    rcases leads_ret f with h | h
    · exact h ▸ .stays
    · exact h ▸ .leaves
  all_goals
    dsimp only [perform, binary, loadVar, loadSlot, loadGlobal, loadWithin, loadLocal, storeGlobal,
      storeLocal, arith, order, same, truth, member, jumpIf, call, callValue, construct,
      callMethod, demand, countOf, createClass, createObject, getAttr, setAttr, getItem, setItem, len,
      takeCounted, buildDict, getIter, forIter, listAppend, importModule, importFrom, typeCheck,
      constant, constantAt, operandValue, textOf, compare, fault, fail, ask, op]
    repeat' with_reducible first
      | exact .pure _
      | exact .throw _
      | exact .get
      | exact .pop
      | exact .popMany _
      | exact .push _
      | exact .opOr _ _
      | exact .ofExcept _
      | exact .change fun _ => by with_unfolding_all first | rfl | split <;> rfl
      | exact leads_methodsOf _ _ _
      | exact leads_membersOf _ _ _ _ _
      | exact leads_popPairs _ _
      | exact leads_callFunction (by assumption) _
      | exact leads_jump _
      | exact leads_grown _ _
      | exact leads_setLocals _
      | exact leads_storeVar leads_setLocals _
      | exact leads_enter _ _
      | refine .first ?_ fun _ => ?_
      | refine .ite ?_ ?_
      | split

theorem leads_performRow (code operand : Datum) :
    Leads (Control.Goes False) (performRow code operand) := by
  unfold performRow
  split
  · exact leads_perform _ _
  · split <;> exact .throw _

/-! ## Fetching -/

/-- Calls may return, and nothing else happens to them. -/
def Falls (c c' : Control Nat) : Prop := ∃ count, c' = Control.leave^[count] c

instance : Std.Refl Falls := ⟨fun _ => ⟨0, rfl⟩⟩

theorem leads_settle : ∀ count : Nat, Leads Falls (settle count)
  | 0 => .pure _
  | count + 1 => by
    refine .first .get fun f => ?_
    cases f.frames with
    | nil => exact .pure _
    | cons frame rest =>
      refine .first (.first .get fun _ => .pure _) fun _ => .first (.ofExcept _) fun past => ?_
      cases past with
      | false => exact .pure _
      | true =>
        refine .first (.push _) fun _ => leads_ret.bind (fun _ => leads_settle count) ?_ ?_
        · rintro c _ (rfl | rfl)
          · exact ⟨0, rfl⟩
          · exact ⟨1, rfl⟩
        · rintro c _ _ (rfl | rfl) ⟨more, rfl⟩
          · exact ⟨more, rfl⟩
          · exact ⟨more + 1, rfl⟩

theorem leads_list (code operand : Datum) : Leads Eq (list code operand) := by
  refine .first .get fun f => .first (.opOr _ _) fun _ => ?_
  cases f.frames with
  | nil => exact .first (.pure _) fun _ => .change fun _ => rfl
  | cons =>
    exact .first (.first .get fun _ => .pure _) fun _ => .first (.pure _) fun _ => .change fun _ => rfl

/-- The counter of the code that runs may be moved. -/
def Onward (c c' : Control Nat) : Prop := c' = c ∨ ∃ target, c' = c.jump target

instance : Std.Refl Onward := ⟨fun _ => .inl rfl⟩

/-- Finds the next row when no call is at its end. -/
def findRow : Act (Option (Datum × Datum)) := do
  let s ← get
  match s.frames with
  | frame :: _ =>
    let row ← ofExcept (rowAt (← routineAt frame.routine).code frame.pc)
    jump frame.pc.next
    return some row
  | [] =>
    if ← ofExcept (s.pc.compare .ge s.main.size) then return none
    let row ← ofExcept (rowAt s.main s.pc)
    jump s.pc.next
    return some row

theorem leads_findRow : Leads Onward findRow := by
  have hjump (target : Counter) (row : Datum × Datum) : Leads Onward (do
      jump target
      return some row : Act (Option (Datum × Datum))) := fun f => .inr ⟨target, control_jump target f⟩
  refine .first .get fun f => ?_
  cases f.frames with
  | nil => exact .first (.ofExcept _) fun _ => .ite (.pure _) (.first (.ofExcept _) fun _ => hjump _ _)
  | cons => exact .first (.first .get fun _ => .pure _) fun _ => .first (.ofExcept _) fun _ => hjump _ _

/-- Before the next row is found, calls return that are at their end. -/
theorem leads_next? : Leads (fun c c' => ∃ c₁, Falls c c₁ ∧ Onward c₁ c') next? := by
  have hfetch (count : Nat) : Leads (fun c c' => ∃ c₁, Falls c c₁ ∧ Onward c₁ c')
      (settle count >>= fun _ => findRow) :=
    (leads_settle count).bind (fun _ => leads_findRow) (fun _ c' h => ⟨c', h, .inl rfl⟩)
      fun _ c₁ _ h h' => ⟨c₁, h, h'⟩
  refine Leads.bind (S := Eq) (fun f => hfetch f.frames.length f) (fun found => ?_) (fun _ _ => id)
    fun _ _ _ h h' => h' ▸ h
  cases found with
  | none => exact .pure _
  | some row =>
    exact .first (.change fun _ => by split <;> rfl) fun _ => .first .get fun _ =>
      .ite (.first (leads_list _ _) fun _ => .pure _) (.pure _)

end Act

end Fast

end StackScript
