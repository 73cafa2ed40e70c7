import StackScript.Machine.Wide.Run
import StackScript.Proofs.Code.Plan
import StackScript.Proofs.Code.Reload
import StackScript.Proofs.Machine.Confined
import StackScript.Proofs.Machine.Outline

/-!
# Steps of a loaded machine

`Image.state` is the state of a machine that has loaded an image and stands at an instruction of the
main program or of a routine, in a given memory and with a given stack. There is one lemma for each
kind of instruction, which says what state the machine steps to. `Runs` leads from a state to another
in some steps, `Crashes` to a step that fails.
-/

namespace StackScript.Wide

open Meaning

/-! ## Images and states -/

/-- What a machine has loaded: the list of the constants and its place in the store, the slots of
global names, the routines and the main program. -/
structure Image where
  ref : Nat
  pool : Array Value
  globals : Slots
  routines : List (String × Routine)
  main : Array Instruction

/-- Where a machine stands: in the main program, or in a routine with calls around it and a place of
the main program to return to. -/
inductive Spot where
  | main
  | routine (r : Routine) (slots : Slots) (outer : List (Frame Routine)) (back : Nat)

/-- The values of slots. -/
def slotValues (slots : Slots) (values : String → Value) : Array Value :=
  (slots.map fun entry => values entry.1).toArray

namespace Spot

/-- The calls in progress, with the innermost at an instruction. -/
def frames (locals : String → Value) (n : Nat) : Spot → List (Frame Routine)
  | main => []
  | routine r slots outer back => ⟨r, .at back, .at n, slotValues slots locals⟩ :: outer

/-- The index of the next instruction of the main program. -/
def back (n : Nat) : Spot → Nat
  | main => n
  | routine _ _ _ back => back

end Spot

namespace Image

/-- The code in which a machine stands. -/
def code (im : Image) : Spot → Array Instruction
  | .main => im.main
  | .routine r _ _ _ => r.code

/-- The state of a machine at an instruction. -/
def state (im : Image) (spot : Spot) (w : Memory) (stack : List Value) (n : Nat) : State where
  store := w.store
  constants := .list im.ref
  globalSlots := im.globals.datum
  routines := im.routines
  main := im.main
  stack := stack
  frames := spot.frames w.locals n
  pc := .at (spot.back n)
  globals := slotValues im.globals w.globals
  output := w.output

/-- The tables of an image are proper, and not too long for an index. -/
structure Sound (im : Image) : Prop where
  globals : im.globals.Proper
  slots : im.globals.length ≤ Value.sizeLimit
  pool : im.pool.size ≤ Value.sizeLimit
  main : im.main.size ≤ Value.sizeLimit

/-- The same for a routine; its place to return to is before the end of the main program. -/
def Valid (im : Image) : Spot → Prop
  | .main => im.Sound
  | .routine r slots _ back => im.Sound ∧ r.code.size ≤ Value.sizeLimit ∧ slots.Proper ∧
      slots.length ≤ Value.sizeLimit ∧ back < im.main.size

theorem Valid.sound {im : Image} {spot : Spot} (h : im.Valid spot) : im.Sound := by
  cases spot with
  | main => exact h
  | routine r slots outer back => exact h.1

/-- The constants are where they were loaded. -/
def Intact (im : Image) (w : Memory) : Prop := w.store.lists[im.ref]? = some im.pool

end Image

/-! ## Runs -/

/-- The main program is not at its end. -/
def State.running (s : State) : Prop := s.pc.compare .lt s.main.size = .ok true

/-- A state leads to another in some steps. -/
def Runs (s t : State) : Prop := ∃ k, ∀ fuel, loop (fuel + k) s = loop fuel t

/-- A state leads to a step that stops with a cause, in the store and with the output of a memory. -/
def Crashes (s : State) (cause : Stop) (w : Memory) : Prop :=
  ∃ t u, Runs s t ∧ t.running ∧ Act.step t = .error cause u ∧ u.store = w.store ∧
    u.output = w.output

theorem Runs.refl (s : State) : Runs s s := ⟨0, fun _ => rfl⟩

theorem Runs.trans {s t u : State} (h : Runs s t) (h' : Runs t u) : Runs s u := by
  obtain ⟨k, hk⟩ := h
  obtain ⟨j, hj⟩ := h'
  exact ⟨j + k, fun fuel => by rw [← Nat.add_assoc, hk, hj]⟩

theorem Runs.step {s t : State} (hs : s.running) (h : Act.step s = .ok () t) : Runs s t := by
  refine ⟨1, fun fuel => ?_⟩
  have hs' : s.pc.compare .lt s.main.size = .ok true := hs
  rw [loop, hs']
  simp only [h]

theorem Crashes.after {s t : State} {cause : Stop} {w : Memory} (h : Runs s t)
    (h' : Crashes t cause w) : Crashes s cause w := by
  obtain ⟨u, v, hrun, rest⟩ := h'
  exact ⟨u, v, h.trans hrun, rest⟩

/-- What holds at every place of interest: the constants are intact, some names stand for the
routines of that name, and a name without a slot has no value. -/
structure Good (im : Image) (names : List String) (w : Memory) : Prop where
  intact : im.Intact w
  named : ∀ f ∈ names, w.globals f = .str f
  unbound : ∀ name, im.globals.slot? name = none → w.globals name = .none

/-- A machine follows a part of a program from a state. Where the part ends with a value, the machine
goes to the state that `next` tells; where it fails, so does the machine; and where it returns, the
machine goes to the state that `ret` tells. Without `ret` the part does not return. -/
def Reaches {α : Type} (good : Memory → Prop) (s : State) (next : α → Memory → State)
    (ret : Option (Value → Memory → State)) : EStateM.Result Signal Memory α → Prop
  | .ok a w => good w ∧ Runs s (next a w)
  | .error .exhausted _ => True
  | .error (.stopped cause) w => Crashes s cause w
  | .error (.returned v) w => ∃ r ∈ ret, good w ∧ Runs s (r v w)

namespace Reaches

variable {α β : Type} {good : Memory → Prop} {s t : State} {ret : Option (Value → Memory → State)}

theorem after {next : α → Memory → State} {r : EStateM.Result Signal Memory α} (hst : Runs s t)
    (h : Reaches good t next ret r) : Reaches good s next ret r := by
  match r, h with
  | .ok a w, h => exact ⟨h.1, hst.trans h.2⟩
  | .error .exhausted _, _ => trivial
  | .error (.stopped cause) w, h => exact Crashes.after hst h
  | .error (.returned v) w, ⟨r, hr, hg, hrun⟩ => exact ⟨r, hr, hg, hst.trans hrun⟩

variable {r : EStateM.Result Signal Memory α} {next mid : α → Memory → State}

theorem bind {x : Run α} {k : α → Run β} {w : Memory}
    {next : β → Memory → State} (hx : Reaches good s mid ret (x w))
    (hk : ∀ a w', x w = .ok a w' → good w' → Reaches good (mid a w') next ret (k a w')) :
    Reaches good s next ret ((x >>= k) w) := by
  cases h : x w with
  | ok a w' =>
    rw [h] at hx
    rw [bind_of_ok h]
    exact (hk a w' h hx.1).after hx.2
  | error signal w' =>
    rw [h] at hx
    rw [bind_of_error h]
    cases signal <;> exact hx

/-- What does not return goes the same way wherever a return would lead. -/
theorem anyReturn (h : Reaches good s next none r) : Reaches good s next ret r := by
  match r, h with
  | .ok a w, h => exact h
  | .error .exhausted _, _ => trivial
  | .error (.stopped cause) w, h => exact h

theorem onward (h : Reaches good s mid ret r) (hnext : ∀ a w, Runs (mid a w) (next a w)) :
    Reaches good s next ret r := by
  match r, h with
  | .ok a w, h => exact ⟨h.1, h.2.trans (hnext a w)⟩
  | .error .exhausted _, _ => trivial
  | .error (.stopped cause) w, h => exact h
  | .error (.returned v) w, h => exact h

end Reaches

/-! ## Fetching -/

variable {parameters : List String} {vs : List Value} {n size : Nat}

theorem beyondIndex_natCast (h : n ≤ Value.sizeLimit) : Value.beyondIndex (n : Int) = false := by
  simp only [Value.beyondIndex, Bool.or_eq_false_iff, decide_eq_false_iff_not]
  omega

theorem place?_natCast (h : n < size) : Value.place? size (n : Int) = some n := by
  simp [Value.place?, show ¬ (n : Int) < 0 by omega, h]

theorem pick_at {α : Type} {items : Array α} {i : α} (h : items[n]? = some i)
    (hsize : items.size ≤ Value.sizeLimit) : (Counter.at n).pick items = .ok i := by
  obtain ⟨hlt, -⟩ := Array.getElem?_eq_some_iff.1 h
  simp [Counter.pick, Counter.index?, beyondIndex_natCast (show n ≤ Value.sizeLimit by omega),
    place?_natCast hlt, h]

theorem compare_at (op : OrderOp) (n size : Nat) :
    (Counter.at n).compare op size = .ok (op.holds (compare n size)) := by
  simp only [Counter.compare, Int.compare_eq_ite_lt, Nat.compare_eq_ite_lt, Int.ofNat_lt]

theorem compare_lt_at (h : n < size) : (Counter.at n).compare .lt size = .ok true := by
  rw [compare_at, Nat.compare_eq_lt.2 h]
  rfl

theorem compare_ge_at (h : n < size) : (Counter.at n).compare .ge size = .ok false := by
  rw [compare_at, Nat.compare_eq_lt.2 h]
  rfl

section At

variable {w : State} {n : Nat} {i : Instruction}

/-- A counter that points into the code fetches the instruction there. -/
theorem State.fetch_at (hcounter : w.outline.counter = .at n) (hi : w.outline.code[n]? = some i)
    (hsize : w.outline.code.size ≤ Value.sizeLimit) : Act.fetch w = .ok (some i) w.fetched := by
  obtain ⟨hlt, -⟩ := Array.getElem?_eq_some_iff.1 hi
  have hend : Act.ofExcept ((Counter.at n).compare .ge w.outline.code.size) w = .ok false w := by
    rw [compare_ge_at hlt]
    rfl
  have hpick : Act.ofExcept ((Counter.at n).pick w.outline.code) w = .ok i w := by
    rw [pick_at hi hsize]
    rfl
  rw [State.fetched, Act.fetch, bind_of_ok (Act.run_code w), bind_of_ok (Act.run_counter w), hcounter,
    bind_of_ok hend]
  show (Act.ofExcept ((Counter.at n).pick w.outline.code) >>= fun instruction => do
    Act.jump (Counter.at n).next
    return some instruction) w = _
  rw [bind_of_ok hpick]
  rfl

theorem Act.step_at (hcounter : w.outline.counter = .at n)
    (hi : w.outline.code[n]? = some i) (hsize : w.outline.code.size ≤ Value.sizeLimit) :
    Act.step w = Act.perform i w.fetched := by
  rw [Act.step, bind_of_ok (State.fetch_at hcounter hi hsize)]

end At

section Step

variable {im : Image} {spot : Spot} {w : Memory} {S : List Value} {n : Nat} {i : Instruction}

theorem running_state (hv : im.Valid spot) (h : (im.code spot)[n]? = some i) :
    (im.state spot w S n).running := by
  cases spot with
  | main => exact compare_lt_at (Array.getElem?_eq_some_iff.1 h).1
  | routine r slots outer back => exact compare_lt_at hv.2.2.2.2

/-- A step performs the instruction, with the counter moved on. -/
theorem step_state (hv : im.Valid spot) (h : (im.code spot)[n]? = some i) :
    Act.step (im.state spot w S n) = Act.perform i (im.state spot w S (n + 1)) := by
  have hsize : (im.code spot).size ≤ Value.sizeLimit := by
    cases spot with
    | main => exact hv.main
    | routine r slots outer back => exact hv.2.1
  have hcounter : (im.state spot w S n).outline.counter = .at n := by cases spot <;> rfl
  have hcode : (im.state spot w S n).outline.code = im.code spot := by cases spot <;> rfl
  rw [Act.step_at hcounter (hcode ▸ h) (hcode ▸ hsize)]
  cases spot <;> rfl

theorem Runs.perform (hv : im.Valid spot) (h : (im.code spot)[n]? = some i) {t : State}
    (hi : Act.perform i (im.state spot w S (n + 1)) = .ok () t) : Runs (im.state spot w S n) t :=
  .step (running_state hv h) (by rw [step_state hv h, hi])

theorem Crashes.perform (hv : im.Valid spot) (h : (im.code spot)[n]? = some i) {u : State}
    {cause : Stop} {w' : Memory} (hi : Act.perform i (im.state spot w S (n + 1)) = .error cause u)
    (hstore : u.store = w'.store) (houtput : u.output = w'.output) :
    Crashes (im.state spot w S n) cause w' :=
  ⟨_, u, .refl _, running_state hv h, by rw [step_state hv h, hi], hstore, houtput⟩

/-- An action on values does in a machine what it does in a memory. -/
theorem act_state {α : Type} {x : Act α} (hx : Act.Local x) :
    x (im.state spot w S n) = match x { store := w.store, output := w.output } with
      | .ok a t => .ok a (im.state spot { w with store := t.store, output := t.output } S n)
      | .error e t => .error e (im.state spot { w with store := t.store, output := t.output } S n) := by
  rw [hx (im.state spot w S n)]
  show resultOver _ (x { store := w.store, output := w.output }) = _
  cases x { store := w.store, output := w.output } <;> rfl

theorem Good.act {names : List String} {α : Type} {P : α → Prop} {x : Act α}
    (hx : Act.Confined (.pinned im.ref im.pool) P x) (hg : Good im names w) {a : α} {w' : Memory}
    (h : Meaning.act x w = .ok a w') : Good im names w' := by
  obtain ⟨hpool, -⟩ := hx.keeps { store := w.store, output := w.output }
    (Custody.holds_pinned.2 hg.intact)
  unfold Meaning.act at h
  cases hrun : x { store := w.store, output := w.output } with
  | error e t => simp [hrun] at h
  | ok b t =>
    rw [hrun] at h hpool
    cases h
    exact ⟨hpool.kept, hg.named, hg.unbound⟩

theorem Reaches.perform {names : List String} {α : Type} {P : α → Prop} {x : Act α}
    {k : α → Act Unit} {S' : List Value} {next : α → Memory → State} (hv : im.Valid spot)
    (h : (im.code spot)[n]? = some i) (hg : Good im names w)
    (hx : Act.Confined (.pinned im.ref im.pool) P x)
    (hi : Act.perform i (im.state spot w S' (n + 1)) = (x >>= k) (im.state spot w S (n + 1)))
    (hk : ∀ a w', k a (im.state spot w' S (n + 1)) = .ok () (next a w')) :
    Reaches (Good im names) (im.state spot w S' n) next none (Meaning.act x w) := by
  have hact : x (im.state spot w S (n + 1)) = _ := act_state hx.isLocal
  unfold Meaning.act
  cases hrun : x { store := w.store, output := w.output } with
  | ok a t =>
    rw [hrun] at hact
    refine ⟨hg.act hx (a := a) (by rw [Meaning.act, hrun]), .perform hv h ?_⟩
    rw [hi, bind_of_ok hact, hk]
  | error e t =>
    rw [hrun] at hact
    exact Crashes.perform hv h (hi.trans (bind_of_error hact)) rfl rfl

/-! ## Slots and constants -/

variable {names : List String} {name : String} {k m : Nat} {op : Opcode} {items : Array Value}
  {slots : Slots} {v : Value}

theorem arrayItem_of_lt (h : items[k]? = some v)
    (hsize : items.size ≤ Value.sizeLimit) : Value.arrayItem items (.int k) = .ok v := by
  obtain ⟨hlt, -⟩ := Array.getElem?_eq_some_iff.1 h
  exact Value.arrayItem_natCast.2 ⟨beyondIndex_natCast (by omega), h⟩

theorem arrayPut_of_lt (h : k < items.size) (hsize : items.size ≤ Value.sizeLimit) (v : Value) :
    Value.arrayPut items (.int k) v = .ok (items.setIfInBounds k v) :=
  Value.arrayPut_natCast.2 ⟨beyondIndex_natCast (by omega), h, rfl⟩

theorem slotValues_getElem? (hs : slots.Proper)
    (h : slots.slot? name = some k) (values : String → Value) :
    (slotValues slots values)[k]? = some (values name) := by
  simp [slotValues, hs.getElem? h]

theorem size_slotValues (slots : Slots) (values : String → Value) :
    (slotValues slots values).size = slots.length := by
  simp [slotValues]

theorem slotValues_put (hs : slots.Proper)
    (h : slots.slot? name = some k) (values : String → Value) (v : Value) :
    slotValues slots (put values name v) = (slotValues slots values).setIfInBounds k v := by
  refine Array.ext_getElem? fun j => ?_
  have hlt := hs.lt_length h
  rw [Array.getElem?_setIfInBounds, size_slotValues, if_pos hlt]
  cases hj : slots[j]? with
  | none =>
    have hne : k ≠ j := by
      rintro rfl
      simp [hs.getElem? h] at hj
    simp [slotValues, hj, hne]
  | some entry =>
    have hslot := hs.slot?_of_getElem? hj
    by_cases heq : entry.1 = name
    · have hkj : k = j := by simpa [heq, h] using hslot
      simp [slotValues, hj, hkj, put, heq]
    · have hne : k ≠ j := by
        rintro rfl
        exact heq (hs.injective hslot h)
      simp [slotValues, hj, hne, put, heq]

/-! ## One lemma for each instruction -/

variable (hv : im.Valid spot)
include hv

theorem runs_constant (hop : op = .loadConst ∨ op = .loadFunc)
    (h : (im.code spot)[n]? = some (.to op k)) (hw : im.Intact w) (hk : im.pool[k]? = some v) :
    Runs (im.state spot w S n) (im.state spot w (v :: S) (n + 1)) := by
  have hlist : w.store.list im.ref = im.pool := by
    rw [Store.list, Array.getD_eq_getD_getElem?, show w.store.lists[im.ref]? = some im.pool from hw]
    rfl
  have hitem : Act.constant (.int k) (im.state spot w S (n + 1)) =
      .ok v (im.state spot w S (n + 1)) := by
    show Act.op (Op.ofExcept (Value.arrayItem (w.store.list im.ref) (.int k)))
      (im.state spot w S (n + 1)) = _
    rw [hlist, arrayItem_of_lt hk hv.sound.pool]
    rfl
  have hperform : Act.perform (.to op k) = Act.constant (.int k) >>= Act.push := by
    rcases hop with rfl | rfl <;> rfl
  refine .perform hv h ?_
  rw [hperform, bind_of_ok hitem]
  rfl

theorem runs_loadGlobal (hk : im.globals.slot? name = some k)
    (h : (im.code spot)[n]? = some (.to .loadGlobal k)) :
    Runs (im.state spot w S n) (im.state spot w (w.globals name :: S) (n + 1)) := by
  refine .perform hv h ?_
  show (Act.ofExcept (Value.arrayItem (slotValues im.globals w.globals) (.int k)) >>= Act.push) _ = _
  rw [arrayItem_of_lt (slotValues_getElem? hv.sound.globals hk w.globals)
    (by rw [size_slotValues]; exact hv.sound.slots)]
  rfl

theorem runs_storeGlobal (hk : im.globals.slot? name = some k)
    (h : (im.code spot)[n]? = some (.to .storeGlobal k)) (v : Value) :
    Runs (im.state spot w (v :: S) n)
      (im.state spot { w with globals := put w.globals name v } S (n + 1)) := by
  refine .perform hv h ?_
  show (Act.ofExcept (Value.arrayPut (slotValues im.globals w.globals) (.int k) v) >>=
    fun globals => modify fun s => { s with globals }) (im.state spot w S (n + 1)) = _
  rw [arrayPut_of_lt (by rw [size_slotValues]; exact hv.sound.globals.lt_length hk)
    (by rw [size_slotValues]; exact hv.sound.slots), ← slotValues_put hv.sound.globals hk]
  cases spot <;> rfl

theorem runs_jump (h : (im.code spot)[n]? = some (.to .jump m)) :
    Runs (im.state spot w S n) (im.state spot w S m) := by
  refine .perform hv h ?_
  cases spot <;> rfl

theorem runs_jumpIf {wanted : Bool}
    (hop : op = .jumpIfFalse ∧ wanted = false ∨ op = .jumpIfTrue ∧ wanted = true)
    (h : (im.code spot)[n]? = some (.to op m)) (v : Value) : Runs (im.state spot w (v :: S) n)
      (im.state spot w S (if v.truth w.store = wanted then m else n + 1)) := by
  refine .perform hv h ?_
  have hperform : Act.perform (.to op m) = Act.jumpIf wanted (.int m) := by
    rcases hop with ⟨rfl, rfl⟩ | ⟨rfl, rfl⟩ <;> rfl
  rw [hperform]
  show (if (v.truth w.store == wanted) = true then Act.jump (.at m) else pure ()) _ = _
  by_cases htruth : v.truth w.store = wanted
  · rw [if_pos (by simpa using htruth), if_pos htruth]
    cases spot <;> rfl
  · rw [if_neg (by simpa using htruth), if_neg htruth]
    rfl

theorem runs_pop (h : (im.code spot)[n]? = some ⟨.pop, .null⟩) (v : Value) :
    Runs (im.state spot w (v :: S) n) (im.state spot w S (n + 1)) :=
  .perform hv h rfl

omit hv in
theorem popMany_state (vs : List Value) :
    Act.popMany vs.length (im.state spot w (vs.reverse ++ S) n) = .ok vs (im.state spot w S n) := by
  have htake : ((vs.reverse ++ S).take vs.length).reverse = vs := by
    rw [← List.length_reverse, List.take_left, List.reverse_reverse]
  have hdrop : (vs.reverse ++ S).drop vs.length = S := by
    rw [← List.length_reverse, List.drop_left]
  show (ite ((vs.reverse ++ S).length < vs.length) (_ : Act (List Value))
    (do
      set { im.state spot w (vs.reverse ++ S) n with stack := (vs.reverse ++ S).drop vs.length }
      return ((vs.reverse ++ S).take vs.length).reverse)) _ = _
  rw [if_neg (by simp), htake, hdrop]
  rfl

theorem reaches_buildList (hg : Good im names w) (vs : List Value)
    (h : (im.code spot)[n]? = some (.to .buildList vs.length)) :
    Reaches (Good im names) (im.state spot w (vs.reverse ++ S) n)
      (fun v w' => im.state spot w' (v :: S) (n + 1)) none
      (act (Act.op (Op.newList vs.toArray)) w) := by
  refine Reaches.perform hv h hg (.op (.newList fun _ _ => trivial)) (k := Act.push) (S := S) ?_
    fun _ _ => rfl
  show (Act.popMany vs.length >>= fun items => Act.op (Op.newList items.toArray) >>= Act.push) _ = _
  rw [bind_of_ok (popMany_state vs)]

theorem runs_buildTuple (vs : List Value)
    (h : (im.code spot)[n]? = some (.to .buildTuple vs.length)) :
    Runs (im.state spot w (vs.reverse ++ S) n) (im.state spot w (.tuple vs :: S) (n + 1)) := by
  refine .perform hv h ?_
  show (Act.popMany vs.length >>= fun items => Act.push (.tuple items)) _ = _
  rw [bind_of_ok (popMany_state vs)]
  rfl

theorem reaches_binary (hg : Good im names w) {operator : String}
    {f : Value → Value → Act Value} (hf : binary? operator = some f)
    (hop : binaryOpcode? operator = some op) (h : (im.code spot)[n]? = some ⟨op, .null⟩)
    (a b : Value) : Reaches (Good im names) (im.state spot w (b :: a :: S) n)
      (fun v w' => im.state spot w' (v :: S) (n + 1)) none (act (f a b) w) := by
  have hperform : Act.perform ⟨op, .null⟩ = Act.binary f := by
    unfold binary? at hf
    split at hf <;> cases hf <;> cases hop <;> rfl
  refine Reaches.perform hv h hg (confined_binary hf trivial trivial) (k := Act.push) (S := S) ?_
    fun _ _ => rfl
  rw [hperform]
  rfl

theorem runs_negate (h : (im.code spot)[n]? = some ⟨.negate, .null⟩) (v : Value) :
    Runs (im.state spot w (v :: S) n) (im.state spot w (.bool (!v.truth w.store) :: S) (n + 1)) :=
  .perform hv h rfl

theorem reaches_getItem (hg : Good im names w)
    (h : (im.code spot)[n]? = some ⟨.getItem, .null⟩) (v index : Value) :
    Reaches (Good im names) (im.state spot w (index :: v :: S) n)
      (fun v w' => im.state spot w' (v :: S) (n + 1)) none (act (itemOf v index) w) :=
  Reaches.perform hv h hg (confined_itemOf v index) (k := Act.push) (S := S) rfl fun _ _ => rfl

theorem reaches_getIter (hg : Good im names w)
    (h : (im.code spot)[n]? = some ⟨.getIter, .null⟩) (v : Value) :
    Reaches (Good im names) (im.state spot w (v :: S) n)
      (fun it w' => im.state spot w' (it :: S) (n + 1)) none (act (iteratorOf v) w) :=
  Reaches.perform hv h hg (confined_iteratorOf trivial) (k := Act.push) (S := S) rfl fun _ _ => rfl

/-- The next item goes on top of the iterator; at the end the iterator goes. -/
theorem reaches_forIter (hg : Good im names w)
    (h : (im.code spot)[n]? = some (.to .forIter m)) (it : Value) :
    Reaches (Good im names) (im.state spot w (it :: S) n)
      (fun item w' => match item with
        | some v => im.state spot w' (v :: it :: S) (n + 1)
        | none => im.state spot w' S m) none (act (Act.op it.next) w) := by
  refine Reaches.perform hv h hg (.op (Value.keeps_next it)) (S := it :: S) (k := fun
    | some v => Act.push v
    | none => do
      modify fun s => { s with stack := S }
      Act.jump (.at m)) rfl fun item w' => ?_
  cases item with
  | some v => rfl
  | none => cases spot <;> rfl

theorem reaches_listAppend (hg : Good im names w) {ref : Nat}
    (hne : ref ≠ im.ref) (h : (im.code spot)[n]? = some ⟨.listAppend, .null⟩) (v it : Value) :
    Reaches (Good im names) (im.state spot w (v :: it :: .list ref :: S) n)
      (fun _ w' => im.state spot w' (it :: .list ref :: S) (n + 1)) none
      (act (appendTo (.list ref) v) w) := by
  refine ⟨⟨?_, hg.named, hg.unbound⟩, .perform hv h rfl⟩
  show (w.store.lists.modify ref (·.push v))[im.ref]? = some im.pool
  rw [Array.getElem?_modify, if_neg hne]
  exact hg.intact

omit hv in
/-- A call by name takes the arguments and the name from the stack. -/
theorem perform_call (name : String) (vs : List Value) :
    Act.perform (.to .call vs.length) (im.state spot w (vs.reverse ++ .str name :: S) n) =
      (match plainFunction? name with
      | some f => f vs >>= Act.push
      | none =>
        match im.routines.lookup name with
        | some routine => Act.enter routine vs
        | none => Act.fail (.unknownRoutine name)) (im.state spot w S n) := by
  show (Act.popMany vs.length >>= fun arguments => _) _ = _
  rw [bind_of_ok (popMany_state vs)]
  rfl

/-- A call of one of the functions that every program can call. -/
theorem reaches_callPlain (hg : Good im names w)
    {f : Function} (hf : plainFunction? name = some f) (vs : List Value)
    (h : (im.code spot)[n]? = some (.to .call vs.length)) :
    Reaches (Good im names) (im.state spot w (vs.reverse ++ .str name :: S) n)
      (fun v w' => im.state spot w' (v :: S) (n + 1)) none (act (f vs) w) := by
  refine Reaches.perform hv h hg (confined_plainFunction hf vs) (k := Act.push) (S := S) ?_
    fun _ _ => rfl
  rw [perform_call, hf]

end Step

/-! ## Routines -/

theorem bound_of_not_mem {name : String}
    (h : name ∉ parameters) : bound parameters vs name = .none := by
  induction parameters generalizing vs with
  | nil => rfl
  | cons parameter parameters ih =>
    cases vs with
    | nil => rfl
    | cons v vs =>
      simp only [List.mem_cons, not_or] at h
      have hne : (name == parameter) = false := by simpa using h.1
      simpa [bound, List.lookup_cons, hne] using @ih vs h.2

theorem map_bound (hnodup : parameters.Nodup)
    (hlength : vs.length = parameters.length) : parameters.map (bound parameters vs) = vs := by
  induction parameters generalizing vs with
  | nil => simpa using (List.length_eq_zero_iff.1 hlength).symm
  | cons parameter parameters ih =>
    cases vs with
    | nil => simp at hlength
    | cons v vs =>
      obtain ⟨hnew, hrest⟩ := List.nodup_cons.1 hnodup
      have hmap : parameters.map (bound (parameter :: parameters) (v :: vs)) =
          parameters.map (bound parameters vs) := by
        refine List.map_congr_left fun name hname => ?_
        have hne : (name == parameter) = false := by
          simpa using fun heq : name = parameter => hnew (heq ▸ hname)
        simp [bound, List.lookup_cons, hne]
      rw [List.map_cons, hmap, ih hrest (by simpa using hlength)]
      simp [bound]

/-- The first slots of a call hold the arguments, and the others nothing. -/
theorem slotValues_bound {more : List String} {slots : Slots}
    (hnames : slots.names = parameters ++ more) (hnodup : slots.names.Nodup)
    (hlength : vs.length = parameters.length) : slotValues slots (bound parameters vs) =
      (vs ++ List.replicate (slots.length - vs.length) Value.none).toArray := by
  have hmap : slots.map (fun entry => bound parameters vs entry.1) =
      (parameters ++ more).map (bound parameters vs) := by
    rw [← hnames, Slots.names, List.map_map]
    rfl
  have hcount : slots.length - vs.length = more.length := by
    have := congrArg List.length hnames
    simp only [Slots.names, List.length_map, List.length_append] at this
    omega
  rw [hnames] at hnodup
  rw [slotValues, hmap, hcount, List.map_append]
  obtain ⟨hparameters, -, hdisjoint⟩ := List.nodup_append.1 hnodup
  congr 2
  · exact map_bound hparameters hlength
  · refine List.eq_replicate_iff.2 ⟨by simp, fun v hv => ?_⟩
    obtain ⟨name, hname, rfl⟩ := List.mem_map.1 hv
    exact bound_of_not_mem fun hmem => hdisjoint name hmem name hname rfl

section Routine

variable {im : Image} {spot : Spot} {w : Memory} {S : List Value} {n : Nat} {r : Routine}
  {slots : Slots} {outer : List (Frame Routine)} {back : Nat}

variable {code : StackScript.Routine} {name : String} {k : Nat}

theorem runs_loadLocal (hv : im.Valid (.routine r slots outer back))
    (hk : slots.slot? name = some k) (h : r.code[n]? = some (.to .loadLocal k)) :
    Runs (im.state (.routine r slots outer back) w S n)
      (im.state (.routine r slots outer back) w (w.locals name :: S) (n + 1)) := by
  refine .perform hv h ?_
  show (Act.ofExcept (Value.arrayItem (slotValues slots w.locals) (.int k)) >>= Act.push) _ = _
  rw [arrayItem_of_lt (slotValues_getElem? hv.2.2.1 hk w.locals)
    (by rw [size_slotValues]; exact hv.2.2.2.1)]
  rfl

theorem runs_storeLocal (hv : im.Valid (.routine r slots outer back))
    (hk : slots.slot? name = some k) (h : r.code[n]? = some (.to .storeLocal k)) (v : Value) :
    Runs (im.state (.routine r slots outer back) w (v :: S) n)
      (im.state (.routine r slots outer back) { w with locals := put w.locals name v } S
        (n + 1)) := by
  refine .perform hv h ?_
  show (Act.ofExcept (Value.arrayPut (slotValues slots w.locals) (.int k) v) >>=
    fun locals => modify fun s => { s with
      frames := ⟨r, .at back, .at (n + 1 : Nat), locals⟩ :: s.frames.tail })
    (im.state (.routine r slots outer back) w S (n + 1)) = _
  rw [arrayPut_of_lt (by rw [size_slotValues]; exact hv.2.2.1.lt_length hk)
    (by rw [size_slotValues]; exact hv.2.2.2.1), ← slotValues_put hv.2.2.1 hk]
  rfl

theorem lengthOf_parameters :
    Act.lengthOf (Routine.ofCode code).parameters = pure code.parameters.length := by
  simp [Act.lengthOf, Routine.ofCode, Listing.ofDatum?, Listing.size]

/-- A call of a routine goes to its first instruction, with the arguments as its parameters. -/
theorem runs_enter {more : List String} (hv : im.Valid spot) (hf : plainFunction? code.name = none)
    (hr : im.routines.lookup code.name = some (.ofCode code))
    (hnames : code.slots.names = code.parameters ++ more) (hnodup : code.slots.names.Nodup)
    (vs : List Value) (hlength : vs.length = code.parameters.length)
    (h : (im.code spot)[n]? = some (.to .call vs.length)) :
    Runs (im.state spot w (vs.reverse ++ .str code.name :: S) n)
      (im.state (.routine (.ofCode code) code.slots (spot.frames w.locals (n + 1))
        (spot.back (n + 1))) { w with locals := bound code.parameters vs } S 0) := by
  have hsize : Act.lengthOf (Routine.ofCode code).slots = pure code.slots.length := by
    simp [Act.lengthOf, Routine.ofCode, Slots.datum, Listing.ofDatum?, Listing.size]
  have hle : ¬ code.slots.length < vs.length := by
    have := congrArg List.length hnames
    simp only [Slots.names, List.length_map, List.length_append] at this
    omega
  refine .perform hv h ?_
  rw [perform_call, hf, hr]
  show Act.enter (.ofCode code) vs (im.state spot w S (n + 1)) = _
  rw [Act.enter, lengthOf_parameters, hsize]
  show (if vs.length ≠ code.parameters.length then _ else
    if code.slots.length < vs.length then _ else modify fun s => { s with
      frames := ⟨.ofCode code, s.pc, .at 0,
        (vs ++ List.replicate (code.slots.length - vs.length) Value.none).toArray⟩ :: s.frames } :
    Act Unit) _ = _
  rw [if_neg (by simpa using hlength), if_neg hle, ← slotValues_bound hnames hnodup hlength]
  rfl

theorem crashes_enter (hv : im.Valid spot) (hf : plainFunction? code.name = none)
    (hr : im.routines.lookup code.name = some (.ofCode code)) (vs : List Value)
    (hlength : vs.length ≠ code.parameters.length)
    (h : (im.code spot)[n]? = some (.to .call vs.length)) :
    Crashes (im.state spot w (vs.reverse ++ .str code.name :: S) n)
      (.failed (.routineArguments code.name code.parameters.length vs.length)) w := by
  refine Crashes.perform hv h (u := im.state spot w S (n + 1)) ?_ rfl rfl
  rw [perform_call, hf, hr]
  show Act.enter (.ofCode code) vs (im.state spot w S (n + 1)) = _
  rw [Act.enter, lengthOf_parameters]
  show (if vs.length ≠ code.parameters.length then _ else _ : Act Unit) _ = _
  rw [if_pos hlength]
  rfl

/-- A return leads back to where the call was made, with the value on top of the stack. -/
theorem runs_ret {locals : String → Value} {m : Nat}
    (hv : im.Valid (.routine r slots (spot.frames locals m) (spot.back m)))
    (h : r.code[n]? = some ⟨.ret, .null⟩) (v : Value) :
    Runs (im.state (.routine r slots (spot.frames locals m) (spot.back m)) w (v :: S) n)
      (im.state spot { w with locals } (v :: S) m) :=
  .perform hv h rfl

end Routine

end StackScript.Wide
