import Mathlib.Data.List.Forall2
import StackScript.Machine.Fast.Run
import StackScript.Machine.Wide.Load
import StackScript.Machine.Wide.Run
import StackScript.Proofs.Machine.Custody

/-!
# Actions that do the same on both machines

The wide and the fast machine were written apart: the fast one looks at the height of the stack
before it takes anything, keeps its routines in the store and has local slots beyond those it needs.
`Lockstep` relates a state of the one to a state of the other. An action of the fast machine mirrors
an action of the wide one when it does, in a related state, whatever the other does without failing.
-/

namespace StackScript

open Wide

/-! ## The relation -/

/-- The rows of a listing spell code: it is what the wide machine loads from them. -/
def Listing.Spells (listing : Listing) (code : Array Instruction) : Prop :=
  ∃ rows, listing = .rows rows ∧ codeOf (.list rows.toList) = .ok code

/-- A routine of the wide machine stands in a cell of the fast one. -/
structure Wide.Routine.StandsIn (r : Wide.Routine) (cell : RoutineCell) : Prop where
  name : cell.name = r.name
  parameters : cell.parameters = r.parameters
  slots : cell.slots = r.slots
  code : cell.code.Spells r.code

/-- Two calls in progress correspond: the fast machine may have local slots beyond those of the
wide one. `cells` are the routines in the store of the fast machine. -/
structure FramesMatch (cells : Array RoutineCell) (a : Frame Wide.Routine) (b : Frame Nat) :
    Prop where
  routine : a.routine.StandsIn (cells.getD b.routine default)
  returnTo : b.returnTo = a.returnTo
  pc : b.pc = a.pc
  locals : a.locals.toList <+: b.locals.toList

/-- A state of the wide machine with the plain functions, and a state of the fast machine that
corresponds to it. -/
structure Lockstep (w : State) (f : Fast.State) : Prop where
  functions : w.functions = .plain
  store : f.store = w.store.withRoutines f.store.routines
  constants : f.constants = w.constants
  globals : f.globals = w.globals
  stack : f.stack = w.stack
  pc : f.pc = w.pc
  main : f.main.Spells w.main
  routines : ∀ name, Option.Rel
    (fun r ref => Wide.Routine.StandsIn r (f.store.routines.getD ref default))
    (w.routines.lookup name) (f.routines.lookup name)
  frames : List.Forall₂ (FramesMatch f.store.routines) w.frames f.frames

/-- No class has been defined, so that there is no object either. -/
structure Fast.State.Classless (f : Fast.State) : Prop where
  classes : f.classes = #[]
  store : f.store.ObjectFree
  constants : f.constants.objectFree = true
  globals : ∀ v ∈ f.globals, v.objectFree = true
  stack : ∀ v ∈ f.stack, v.objectFree = true
  locals : ∀ frame ∈ f.frames, ∀ v ∈ frame.locals, v.objectFree = true

/-! ## Slots -/

/-- An operand that is null or counts something. -/
def Datum.IsCount (d : Datum) : Prop := d = .null ∨ ∃ n : Nat, d = .int n

namespace Value

variable {v : Value} {n : Nat}

theorem arrayItem_prefix {a b : Array Value} (hab : a.toList <+: b.toList)
    (h : arrayItem a (.int n) = .ok v) : arrayItem b (.int n) = .ok v := by
  obtain ⟨hbeyond, hv⟩ := arrayItem_natCast.1 h
  obtain ⟨hlt, -⟩ := Array.getElem?_eq_some_iff.1 hv
  obtain ⟨more, hb⟩ := hab
  refine arrayItem_natCast.2 ⟨hbeyond, ?_⟩
  rw [← Array.getElem?_toList, ← hb, List.getElem?_append_left (by simpa using hlt),
    Array.getElem?_toList, hv]

theorem arrayPut_prefix {a b a' : Array Value} (hab : a.toList <+: b.toList)
    (h : arrayPut a (.int n) v = .ok a') :
    ∃ b', arrayPut b (.int n) v = .ok b' ∧ a'.toList <+: b'.toList := by
  obtain ⟨hbeyond, hlt, rfl⟩ := arrayPut_natCast.1 h
  have hlt' : n < b.size := Nat.lt_of_lt_of_le hlt (by simpa using hab.length_le)
  obtain ⟨more, hb⟩ := hab
  refine ⟨_, arrayPut_natCast.2 ⟨hbeyond, hlt', rfl⟩, more, ?_⟩
  rw [Array.toList_setIfInBounds, Array.toList_setIfInBounds, ← hb,
    List.set_append_left _ _ (by simpa using hlt)]

end Value

/-! ## Actions that do the same -/

/-- Related states without classes, after the wide machine has shown something more than `shownWide`
and the fast one the same more than `shownFast`. -/
structure Alike (shownWide shownFast : String) (w : State) (f : Fast.State) : Prop where
  lockstep : Lockstep w f
  classless : f.Classless
  shown : ∃ text, w.output = shownWide ++ text ∧ f.output = shownFast ++ text

/-- Whatever the first action does in a state, the second does in a related one. -/
def Mirrors {α : Type} (P : α → Prop) (x : Act α) (y : Fast.Act α) : Prop :=
  ∀ ⦃shownWide shownFast w f a w'⦄, Alike shownWide shownFast w f → x w = .ok a w' →
    ∃ f', y f = .ok a f' ∧ Alike shownWide shownFast w' f' ∧ f'.debug = f.debug ∧ P a

/-- The action fails on a stack with fewer values. -/
def Wide.Act.Takes {α : Type} (n : Nat) (x : Act α) : Prop :=
  ∀ w a w', x w = .ok a w' → n ≤ w.stack.length

namespace Wide.Act

variable {α : Type} {n : Nat} {w w' : State}

theorem pop_eq_ok {v : Value} (h : pop w = .ok v w') :
    ∃ rest, w.stack = v :: rest ∧ w' = { w with stack := rest } := by
  obtain ⟨_, _, ⟨⟩, h⟩ := bind_eq_ok h
  cases hstack : w.stack with
  | nil =>
    rw [hstack] at h
    cases h
  | cons u rest =>
    rw [hstack] at h
    cases h
    exact ⟨rest, rfl, rfl⟩

theorem popMany_eq_ok {vs : List Value} (h : popMany n w = .ok vs w') :
    n ≤ w.stack.length ∧ vs = (w.stack.take n).reverse ∧
      w' = { w with stack := w.stack.drop n } := by
  have h : (if w.stack.length < n then (do set { w with stack := [] }; fault .popEmpty)
    else (do set { w with stack := w.stack.drop n }; return (w.stack.take n).reverse) :
      Act (List Value)) w = .ok vs w' := h
  split at h
  · cases h
  · cases h
    exact ⟨by omega, rfl, rfl⟩

variable {target : Counter}

theorem jump_main (h : w.frames = []) : jump target w = .ok () { w with pc := target } := by
  cases w
  cases h
  rfl

theorem jump_call {frame : Frame Routine} {rest : List (Frame Routine)}
    (h : w.frames = frame :: rest) :
    jump target w = .ok () { w with frames := { frame with pc := target } :: rest } := by
  cases w
  cases h
  rfl

theorem ofExcept_eq_ok {x : Except Fault α} {a : α} (h : ofExcept x w = .ok a w') :
    x = .ok a ∧ w' = w := by
  cases x with
  | error e => cases h
  | ok b =>
    cases h
    exact ⟨rfl, rfl⟩

theorem Takes.zero (x : Act α) : Takes 0 x := fun _ _ _ _ => Nat.zero_le _

theorem Takes.pop {k : Value → Act α} (h : ∀ v, Takes n (k v)) : Takes (n + 1) (pop >>= k) := by
  intro w a w' hrun
  obtain ⟨v, w₁, hpop, hrun⟩ := bind_eq_ok hrun
  obtain ⟨rest, hstack, rfl⟩ := pop_eq_ok hpop
  have := h v _ a w' hrun
  rw [hstack]
  exact Nat.succ_le_succ this

end Wide.Act

namespace Fast.Act

variable {f : State} {n : Nat}

theorem pop_cons {v : Value} {rest : List Value} (h : f.stack = v :: rest) :
    pop f = .ok v { f with stack := rest } := by
  cases f
  cases h
  rfl

theorem popMany_of_le (h : n ≤ f.stack.length) :
    popMany n f = .ok (f.stack.take n).reverse { f with stack := f.stack.drop n } := by
  show (if f.stack.length < n then (do set { f with stack := [] }; fault .popEmpty)
    else (do set { f with stack := f.stack.drop n }; return (f.stack.take n).reverse) :
      Act (List Value)) f = _
  rw [if_neg (by omega)]
  rfl

variable {target : Counter}

theorem jump_main (h : f.frames = []) : jump target f = .ok () { f with pc := target } := by
  cases f
  cases h
  rfl

theorem jump_call {frame : Frame Nat} {rest : List (Frame Nat)} (h : f.frames = frame :: rest) :
    jump target f = .ok () { f with frames := { frame with pc := target } :: rest } := by
  cases f
  cases h
  rfl

theorem demand_of_le {label : String} (h : n ≤ f.stack.length) : demand label n f = .ok () f := by
  show (if (f.stack.take n).length < n then fail (.needs label n) else pure () : Act Unit) f = _
  rw [if_neg (by simp; omega)]
  rfl

end Fast.Act

namespace Alike

variable {shownWide shownFast : String} {w : State} {f : Fast.State}

theorem store (h : Alike shownWide shownFast w f) : w.store.ObjectFree := by
  have hfree := h.classless.store
  rw [h.lockstep.store] at hfree
  exact ⟨hfree.lists, hfree.dicts⟩

/-- Other stacks of the two machines, as long as they are the same. -/
theorem withStack (h : Alike shownWide shownFast w f) {stack : List Value}
    (hstack : ∀ v ∈ stack, v.objectFree = true) :
    Alike shownWide shownFast { w with stack } { f with stack } :=
  ⟨{ h.lockstep with stack := rfl }, { h.classless with stack := hstack }, h.shown⟩

theorem withFrames (h : Alike shownWide shownFast w f) {a : List (Frame Wide.Routine)}
    {b : List (Frame Nat)} (hframes : List.Forall₂ (FramesMatch f.store.routines) a b)
    (hlocals : ∀ frame ∈ b, ∀ v ∈ frame.locals, v.objectFree = true) :
    Alike shownWide shownFast { w with frames := a } { f with frames := b } :=
  ⟨{ h.lockstep with frames := hframes }, { h.classless with locals := hlocals }, h.shown⟩

theorem putGlobal (h : Alike shownWide shownFast w f) {v index : Value} {rest : List Value}
    {globals : Array Value} (hstack : f.stack = v :: rest)
    (hput : Value.arrayPut f.globals index v = .ok globals) :
    Alike shownWide shownFast { w with stack := rest, globals }
      { f with stack := rest, globals } := by
  have hfree : ∀ u ∈ v :: rest, u.objectFree = true := hstack ▸ h.classless.stack
  refine ⟨{ h.lockstep with globals := rfl, stack := rfl }, ?_, h.shown⟩
  refine { h.classless with globals := ?_, stack := ?_ }
  · intro u hu
    rcases Value.mem_arrayPut hput hu with rfl | hu
    · exact hfree u List.mem_cons_self
    · exact h.classless.globals u hu
  · exact fun u hu => hfree u (List.mem_cons_of_mem _ hu)

/-- Both machines are in the main program, or both are in a call. -/
theorem frames (h : Alike shownWide shownFast w f) : w.frames = [] ∧ f.frames = [] ∨
    ∃ a restWide b restFast, w.frames = a :: restWide ∧ f.frames = b :: restFast ∧
      FramesMatch f.store.routines a b ∧
      List.Forall₂ (FramesMatch f.store.routines) restWide restFast := by
  have hframes := h.lockstep.frames
  cases hw : w.frames with
  | nil =>
    rw [hw] at hframes
    exact .inl ⟨rfl, List.forall₂_nil_left_iff.1 hframes⟩
  | cons a restWide =>
    rw [hw] at hframes
    obtain ⟨b, restFast, hab, hrest, hf⟩ := List.forall₂_cons_left_iff.1 hframes
    exact .inr ⟨a, restWide, b, restFast, rfl, hf, hab, hrest⟩

end Alike

namespace Mirrors

variable {α β : Type} {P : α → Prop} {Q : β → Prop}

theorem pure {a : α} (ha : P a) : Mirrors P (Pure.pure a) (Pure.pure a) := by
  intro _ _ w f b w' h hrun
  cases hrun
  exact ⟨f, rfl, h, rfl, ha⟩

variable {y : Fast.Act α} {x : Act α}

theorem fails {cause : Failure} : Mirrors P (Act.fail cause) y := by
  intro _ _ w f b w' h hrun
  cases hrun

theorem bind {k : α → Act β} {l : α → Fast.Act β}
    (hx : Mirrors P x y) (hk : ∀ a, P a → Mirrors Q (k a) (l a)) :
    Mirrors Q (x >>= k) (y >>= l) := by
  intro _ _ w f b w' h hrun
  obtain ⟨a, w₁, hxrun, hkrun⟩ := bind_eq_ok hrun
  obtain ⟨f₁, hy, h₁, hdebug₁, ha⟩ := hx h hxrun
  obtain ⟨f₂, hl, h₂, hdebug₂, hb⟩ := hk a ha h₁ hkrun
  exact ⟨f₂, (bind_of_ok hy).trans hl, h₂, hdebug₂.trans hdebug₁, hb⟩

theorem look {k : State → Act β} {l : Fast.State → Fast.Act β}
    (h : ∀ w f, (∃ shownWide shownFast, Alike shownWide shownFast w f) → Mirrors Q (k w) (l f)) :
    Mirrors Q (get >>= k) (get >>= l) :=
  fun _ _ w f _ _ halike hrun => h w f ⟨_, _, halike⟩ halike hrun

/-- An operation that does not see routines, instead of one that yields no more than it does. -/
theorem opOf {x y : Op α} (hxy : ∀ s a t, x s = .ok a t → y s = .ok a t) (hy : Op.Keeps .classless P y)
    (renameWide : Fault → Failure) (renameFast : Fault → Fast.Failure) :
    Mirrors P (Act.opOr renameWide x) (Fast.Act.opOr renameFast y) := by
  intro _ _ w f a w' h hrun
  unfold Act.opOr at hrun
  cases hstore : x w.store with
  | error e t =>
    simp only [hstore] at hrun
    cases hrun
  | ok a' t =>
    simp only [hstore] at hrun
    cases hrun
    have hfree := Custody.holds_classless.1
      (hy.ok (Custody.holds_classless.2 h.store) (hxy _ _ _ hstore)).2
    obtain ⟨ha, hblind⟩ := (hy w.store (Custody.holds_classless.2 h.store)).2 a t (hxy _ _ _ hstore)
    have hfast : y f.store = .ok a (t.withRoutines f.store.routines) := by
      rw [h.lockstep.store]
      exact hblind f.store.routines
    refine ⟨{ f with store := t.withRoutines f.store.routines }, ?_,
      ⟨{ h.lockstep with store := rfl }, { h.classless with store := ⟨hfree.lists, hfree.dicts⟩ },
        h.shown⟩, rfl, ha⟩
    simp only [Fast.Act.opOr, hfast]

theorem op {x : Op α} (hx : Op.Keeps .classless P x) (renameWide : Fault → Failure)
    (renameFast : Fault → Fast.Failure) :
    Mirrors P (Act.opOr renameWide x) (Fast.Act.opOr renameFast x) :=
  opOf (fun _ _ _ h => h) hx renameWide renameFast

theorem ask {g : Store → Except Fault α} (hblind : ∀ s cells, g (s.withRoutines cells) = g s) :
    Mirrors (fun _ => True) (Act.ask g) (Fast.Act.ask g) :=
  op (.ask hblind) .value .value

theorem ofExcept {x y : Except Fault α} (h : ∀ a, x = .ok a → y = .ok a ∧ P a) :
    Mirrors P (Act.ofExcept x) (Fast.Act.ofExcept y) := by
  cases x with
  | error e =>
    intro _ _ w f a w' _ hrun
    cases hrun
  | ok a =>
    obtain ⟨rfl, ha⟩ := h a rfl
    refine op (x := Op.ofExcept (.ok a)) (.ofExcept fun b hb => ?_) .value .value
    cases hb
    exact ha

theorem push {v : Value} (hv : v.objectFree = true) :
    Mirrors (fun _ => True) (Act.push v) (Fast.Act.push v) := by
  intro _ _ w f a w' h hrun
  cases hrun
  refine ⟨{ f with stack := v :: f.stack }, rfl, ?_, rfl, trivial⟩
  rw [h.lockstep.stack]
  refine h.withStack fun u hu => ?_
  rcases List.mem_cons.1 hu with rfl | hu
  · exact hv
  · exact h.classless.stack u (h.lockstep.stack ▸ hu)

theorem pop : Mirrors (·.objectFree = true) Act.pop Fast.Act.pop := by
  intro _ _ w f v w' h hrun
  obtain ⟨rest, hstack, rfl⟩ := Act.pop_eq_ok hrun
  have hfast : f.stack = v :: rest := h.lockstep.stack.trans hstack
  have hfree : ∀ u ∈ v :: rest, u.objectFree = true := hfast ▸ h.classless.stack
  refine ⟨{ f with stack := rest }, Fast.Act.pop_cons hfast, h.withStack ?_, rfl, ?_⟩
  · exact fun u hu => hfree u (List.mem_cons_of_mem _ hu)
  · exact hfree v List.mem_cons_self

theorem popMany (n : Nat) : Mirrors (fun vs => ∀ v ∈ vs, v.objectFree = true)
    (Act.popMany n) (Fast.Act.popMany n) := by
  intro _ _ w f vs w' h hrun
  obtain ⟨hlength, rfl, rfl⟩ := Act.popMany_eq_ok hrun
  have hfree : ∀ u ∈ w.stack, u.objectFree = true := h.lockstep.stack ▸ h.classless.stack
  refine ⟨{ f with stack := f.stack.drop n }, ?_, ?_, rfl, ?_⟩
  · rw [← h.lockstep.stack] at hlength ⊢
    exact Fast.Act.popMany_of_le hlength
  · rw [h.lockstep.stack]
    exact h.withStack fun u hu => hfree u (List.mem_of_mem_drop hu)
  · exact fun v hv => hfree v (List.mem_of_mem_take (List.mem_reverse.1 hv))

/-- The second action makes sure that the stack is high enough; the first fails if it is not. -/
theorem demand {n : Nat} (label : String)
    (hx : Act.Takes n x) (h : Mirrors P x y) :
    Mirrors P x (do Fast.Act.demand label n; y) := by
  intro _ _ w f a w' halike hrun
  have hn : n ≤ f.stack.length := halike.lockstep.stack ▸ hx w a w' hrun
  rw [bind_of_ok (Fast.Act.demand_of_le hn)]
  exact h halike hrun

theorem jump (target : Counter) :
    Mirrors (fun _ => True) (Act.jump target) (Fast.Act.jump target) := by
  intro _ _ w f a w' h hrun
  rcases h.frames with ⟨hw, hf⟩ | ⟨a, restWide, b, restFast, hw, hf, hframe, hrest⟩
  · rw [Act.jump_main hw] at hrun
    cases hrun
    exact ⟨_, Fast.Act.jump_main hf, ⟨{ h.lockstep with pc := rfl }, { h.classless with }, h.shown⟩,
      rfl, trivial⟩
  · rw [Act.jump_call hw] at hrun
    cases hrun
    refine ⟨_, Fast.Act.jump_call hf, h.withFrames ?_ ?_, rfl, trivial⟩
    · exact .cons { hframe with pc := rfl } hrest
    · intro frame hframe v hv
      rcases List.mem_cons.1 hframe with rfl | hframe
      · exact h.classless.locals b (by simp [hf]) v hv
      · exact h.classless.locals frame (by simp [hf, hframe]) v hv

end Mirrors

namespace Wide.Act

variable {d : Datum} {v : Value} {w w' : State} {u : Unit}

/-- A value is put into slots where an operand says. -/
theorem put_eq_ok (items : State → Array Value) (change : Array Value → State → State)
    (hd : d.IsCount) (h : (do
      let index ← operandValue d
      let new ← ofExcept (Value.arrayPut (items (← get)) index v)
      modify (change new)) w = .ok u w') :
    ∃ (n : Nat) (new : Array Value), d = .int n ∧ Value.arrayPut (items w) (.int n) v = .ok new ∧
      w' = change new w := by
  rcases hd with rfl | ⟨n, rfl⟩
  · cases h
  · have h : (ofExcept (Value.arrayPut (items w) (.int n) v) >>= fun new =>
      modify (change new)) w = .ok u w' := h
    obtain ⟨new, w₁, hread, hset⟩ := bind_eq_ok h
    obtain ⟨hput, rfl⟩ := ofExcept_eq_ok hread
    cases hset
    exact ⟨n, new, rfl, hput, rfl⟩

end Wide.Act

namespace Fast.Act

variable {values : Array Value} {n : Nat}

theorem grown_of_lt (h : n < values.size) : grown values (.int n) = .ok values := by
  show (if (n : Int) < values.size then Except.ok values else _) = _
  rw [if_pos (by omega)]

theorem compare_int (o : OrderOp) (i j : Int) (f : State) :
    compare o (.int i) (.int j) f = .ok (o.holds (Ord.compare i j)) f := rfl

theorem holds_ge_of_lt {i j : Int} (h : i < j) : OrderOp.holds .ge (Ord.compare i j) = false := by
  rw [Int.compare_eq_lt.2 h]
  rfl

theorem holds_lt_of_le {i j : Int} (h : j ≤ i) : OrderOp.holds .lt (Ord.compare i j) = false := by
  rw [OrderOp.holds, beq_eq_false_iff_ne, ne_eq, Int.compare_eq_lt]
  omega

section Stores

variable {f : State} {v : Value} {rest : List Value} {n : Nat}

theorem ofExcept_ok {α : Type} {x : Except Fault α} {a : α} (h : x = .ok a) (f : State) :
    ofExcept x f = .ok a f := by
  rw [h]
  rfl

theorem op_ok {α : Type} {x : Op α} {a : α} {store : Store} (h : x f.store = .ok a store) :
    op x f = .ok a { f with store } := by
  simp only [op, opOr, h]

variable {globals : Array Value}

theorem storeGlobal_run (hstack : f.stack = v :: rest)
    (hlt : n < f.globals.size) (hput : Value.arrayPut f.globals (.int n) v = .ok globals) :
    storeGlobal (.int n) f = .ok () { f with stack := rest, globals } := by
  cases f
  cases hstack
  show (ofExcept (grown _ (.int n)) >>= _) _ = _
  rw [bind_of_ok (ofExcept_ok (grown_of_lt hlt) _)]
  show (ofExcept (Value.arrayPut _ (.int n) v) >>= _) _ = _
  rw [bind_of_ok (ofExcept_ok hput _)]
  rfl

theorem storeVar_main {operand : Datum} {index : Value} (hstack : f.stack = v :: rest)
    (hmain : f.frames = []) (hindex : Value.ofDatum operand f.store = .ok index f.store)
    (hput : Value.arrayPut f.globals index v = .ok globals) :
    storeVar operand f = .ok () { f with stack := rest, globals } := by
  have hoperand : operandValue operand { f with stack := rest } = _ := op_ok hindex
  cases f
  cases hstack
  cases hmain
  show (operandValue operand >>= _) _ = _
  rw [bind_of_ok hoperand]
  show (ofExcept (Value.arrayPut _ index v) >>= _) _ = _
  rw [bind_of_ok (ofExcept_ok hput _)]
  rfl

variable {frame : Frame Nat} {frames : List (Frame Nat)} {locals : Array Value}

theorem storeVar_call (hstack : f.stack = v :: rest) (hcall : f.frames = frame :: frames)
    (hput : Value.arrayPut frame.locals (.int n) v = .ok locals) : storeVar (.int n) f =
      .ok () { f with stack := rest, frames := { frame with locals } :: frames } := by
  cases f
  cases hstack
  cases hcall
  show (ofExcept (Value.arrayPut frame.locals (.int n) v) >>= _) _ = _
  rw [bind_of_ok (ofExcept_ok hput _)]
  rfl

theorem storeLocal_run (hstack : f.stack = v :: rest) (hcall : f.frames = frame :: frames)
    (hlt : n < frame.locals.size) (hput : Value.arrayPut frame.locals (.int n) v = .ok locals) :
    storeLocal (.int n) f =
      .ok () { f with stack := rest, frames := { frame with locals } :: frames } := by
  cases f
  cases hstack
  cases hcall
  show (ofExcept (grown frame.locals (.int n)) >>= _) _ = _
  rw [bind_of_ok (ofExcept_ok (grown_of_lt hlt) _)]
  show (ofExcept (Value.arrayPut frame.locals (.int n) v) >>= _) _ = _
  rw [bind_of_ok (ofExcept_ok hput _)]
  rfl

end Stores

theorem loadWithin_of_lt {target : String}
    (h : n < values.size) : loadWithin target values (.int n) = loadSlot values (.int n) := by
  funext f
  have hindex : operandValue (.int n) f = .ok (.int n) f := rfl
  unfold loadWithin loadSlot
  rw [bind_of_ok hindex, bind_of_ok (compare_int _ _ _ f), holds_ge_of_lt (by omega),
    bind_of_ok hindex]
  rfl

end Fast.Act

namespace Mirrors

variable {a b : Array Value} {d : Datum}

theorem operandValue (hd : d.IsCount) : Mirrors (·.objectFree = true) (Act.operandValue d)
    (Fast.Act.operandValue d) := by
  rcases hd with rfl | ⟨n, rfl⟩
  · exact op (P := (·.objectFree = true)) (.pure (a := Value.none) rfl) .value .value
  · exact op (P := (·.objectFree = true)) (.pure (a := Value.int n) rfl) .value .value

theorem counted {α : Type} {P : α → Prop} {k : Value → Act α} {y : Datum → Fast.Act α}
    (hd : d.IsCount) (hnull : ∀ w a w', k .none w ≠ .ok a w')
    (hint : ∀ n : Nat, Mirrors P (k (.int n)) (y (.int n))) :
    Mirrors P (Act.operandValue d >>= k) (y d) := by
  rcases hd with rfl | ⟨n, rfl⟩
  · exact fun _ _ w _ a w' _ hrun => absurd hrun (hnull w a w')
  · exact hint n

theorem loadSlot (hd : d.IsCount) (hab : a.toList <+: b.toList)
    (hb : ∀ v ∈ b, v.objectFree = true) : Mirrors (fun _ => True)
      (do Act.push (← Act.ofExcept (Value.arrayItem a (← Act.operandValue d))))
      (Fast.Act.loadSlot b d) := by
  refine counted hd (y := Fast.Act.loadSlot b) (fun w a w' hrun => ?_) fun n => ?_
  · cases hrun
  · show Mirrors _ _ (Fast.Act.ofExcept (Value.arrayItem b (.int n)) >>= Fast.Act.push)
    refine .bind (P := (·.objectFree = true)) (.ofExcept fun v hv => ?_) fun v hv => .push hv
    have hv := Value.arrayItem_prefix hab hv
    exact ⟨hv, Custody.fit_arrayItem (C := .classless) hb hv⟩

theorem loadWithin (target : String) (hd : d.IsCount) (hab : a.toList <+: b.toList)
    (hb : ∀ v ∈ b, v.objectFree = true) : Mirrors (fun _ => True)
      (do Act.push (← Act.ofExcept (Value.arrayItem a (← Act.operandValue d))))
      (Fast.Act.loadWithin target b d) := by
  intro _ _ w f u w' h hrun
  rcases hd with rfl | ⟨n, rfl⟩
  · cases hrun
  · have hlt : n < a.size := by
      cases hitem : Value.arrayItem a (.int n) with
      | error e =>
        have hrun : (Act.ofExcept (Value.arrayItem a (.int n)) >>= Act.push) w =
          .ok u w' := hrun
        rw [hitem] at hrun
        cases hrun
      | ok v =>
        exact (Array.getElem?_eq_some_iff.1 (Value.arrayItem_natCast.1 hitem).2).1
    have hlt : n < b.size := Nat.lt_of_lt_of_le hlt (by simpa using hab.length_le)
    rw [Fast.Act.loadWithin_of_lt hlt]
    exact loadSlot (.inr ⟨n, rfl⟩) hab hb h hrun

end Mirrors

end StackScript
