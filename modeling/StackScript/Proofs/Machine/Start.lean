import StackScript.Machine.Fast.Load
import StackScript.Proofs.Code.Truncated
import StackScript.Proofs.Machine.Balance
import StackScript.Proofs.Machine.Lockstep
import StackScript.Proofs.Machine.Steps

/-!
# Rows that are performed twice

When the fast machine loads a file, it performs the first rows of the main program as long as they
only load constants and store variables, and its run performs them again. They put the same values
into the same variables both times and read none, so that a run does not show that it is the second.

* `Fast.run_load`: a run does not depend on what was done at the start.
-/

namespace StackScript

namespace Value

/-- A value is put into a slot, if there is one to be put. -/
def put (slots : Array Value) : Option (Nat × Value) → Array Value
  | Option.none => slots
  | some (i, v) => slots.setIfInBounds i v

/-- Each slot holds what it holds in another array, or already what it holds in the end. -/
def Catches (last a b : Array Value) : Prop :=
  a.size = b.size ∧ ∀ i : Nat, a[i]? = b[i]? ∨ a[i]? = last[i]?

variable {last a b : Array Value}

theorem size_put (entry : Option (Nat × Value)) : (put a entry).size = a.size := by
  cases entry with
  | none => rfl
  | some => exact Array.size_setIfInBounds

theorem Catches.put (h : Catches last a b) (entry : Option (Nat × Value)) :
    Catches last (Value.put a entry) (Value.put b entry) := by
  cases entry with
  | none => exact h
  | some entry =>
    refine ⟨by simpa [Value.put] using h.1, fun i => ?_⟩
    simp only [Value.put, Array.getElem?_setIfInBounds, h.1]
    split
    · exact .inl rfl
    · exact h.2 i

theorem Catches.eq (h : Catches b a b) : a = b :=
  Array.ext_getElem? fun i => (h.2 i).elim id id

mutual

/-- Data that become a key leave the store as it was. -/
theorem store_of_key : ∀ (d : Datum) {s t : Store} {v : Value}, ofDatum d s = .ok v t →
    v.unhashable? = Option.none → t = s
  | .null, _, _, _, h, _ | .bool _, _, _, _, h, _ | .int _, _, _, _, h, _ | .float _, _, _, _, h, _
  | .str _, _, _, _, h, _ => by
    cases h
    rfl
  | .list _, _, _, _, h, hkey | .dict _, _, _, _, h, hkey => by
    rw [ofDatum] at h
    obtain ⟨_, _, -, h⟩ := bind_eq_ok h
    cases h
    cases hkey
  | .tuple items, _, _, _, h, hkey => by
    rw [ofDatum] at h
    obtain ⟨_, _, hitems, h⟩ := bind_eq_ok h
    cases h
    exact store_of_keys items hitems hkey

theorem store_of_keys : ∀ (items : List Datum) {s t : Store} {vs : List Value},
    ofItems items s = .ok vs t → unhashableItem? vs = Option.none → t = s
  | [], _, _, _, h, _ => by
    cases h
    rfl
  | d :: rest, _, _, _, h, hkey => by
    rw [ofItems] at h
    obtain ⟨v, s₁, hd, h⟩ := bind_eq_ok h
    obtain ⟨vs, s₂, hrest, h⟩ := bind_eq_ok h
    cases h
    simp only [unhashableItem?, Option.orElse_eq_orElse, Option.orElse_eq_or,
      Option.or_eq_none_iff] at hkey
    rw [store_of_keys rest hrest hkey.2, store_of_key d hd hkey.1]

end

theorem hashable_of_arrayPut {slots slots' : Array Value} {index v : Value}
    (h : arrayPut slots index v = .ok slots') : index.unhashable? = Option.none := by
  cases index with
  | list | dict | tuple => cases h
  | _ => rfl

theorem ofExcept_eq_ok {α : Type} {x : Except Fault α} {s t : Store} {a : α}
    (h : Op.ofExcept x s = .ok a t) : t = s ∧ x = .ok a := by
  cases x <;> cases h
  exact ⟨rfl, rfl⟩

/-- Items are read by keys only, and the store stays as it is. -/
theorem item_eq_ok {v index found : Value} {s t : Store} (h : item v index s = .ok found t) :
    t = s ∧ index.unhashable? = Option.none := by
  have hstore : t = s := by
    cases v with
    | list | dict => exact (ofExcept_eq_ok h).1
    | tuple =>
      obtain ⟨_, _, hplace, h⟩ := bind_eq_ok (show (Op.ofExcept _ >>= _) s = _ from h)
      cases h
      exact (ofExcept_eq_ok hplace).1
    | str text =>
      rw [item, bind_of_ok (show (get : Op Store) s = .ok s s from rfl)] at h
      cases hindex : index.int? with
      | none =>
        simp only [hindex] at h
        cases h
      | some i =>
        cases hplace : place? text.toList.length i <;> simp only [hindex, hplace] at h <;>
          split at h <;> cases h
        rfl
    | _ => cases h
  refine ⟨hstore, ?_⟩
  cases index with
  | list | dict => cases v <;> cases h
  | tuple items =>
    cases v with
    | dict ref =>
      have hitem := (ofExcept_eq_ok h).2
      unfold tableItem asKey at hitem
      split at hitem
      · cases hitem
      · assumption
    | _ => cases h
  | _ => rfl
end Value

namespace Fast

/-- The instructions that a machine performs when it loads a program. -/
def startOps : List Opcode := [.loadConst, .loadFunc, .storeVar, .typeCheck]

/-- How many of some rows from an index on are performed when the program is loaded. -/
def startLength (main : Listing) : Nat → Nat → Nat
  | 0, _ => 0
  | rows + 1, k =>
    match Act.rowAt main (.at k) with
    | .ok (code, _) =>
      if (Opcode.ofDatum? Opcode.fastSet code).any (· ∈ startOps) then
        startLength main rows (k + 1) + 1
      else 0
    | .error _ => 0

/-- The row at an index checks the type of a value. -/
def checksAt (main : Listing) (k : Nat) : Bool :=
  match Act.rowAt main (.at k) with
  | .ok (_, .null) | .error _ => false
  | .ok (code, _) => Opcode.ofDatum? Opcode.fastSet code == some .typeCheck

/-- The machine is put back to the first row, and its stack is emptied. -/
def State.rewound (f : State) : State := { f with pc := .at 0, stack := [] }

/-- An action leaves a stack and may put a value into a global, whatever the globals held before. -/
def Puts (x : Act Unit) (f : State) (stack : List Value) (entry : Option (Nat × Value)) : Prop :=
  ∀ stats globals, globals.size = f.globals.size → x { f with stats, globals } =
    .ok () { f with stats, stack, globals := Value.put globals entry }

/-- What has been done at the start has changed nothing but globals. The first turns of a run do
it again, unless a type is checked, and then nothing is left of what the globals held. -/
def Repeats (turns : Nat) (f f' : State) : Prop :=
  f'.rewound = { f with globals := f'.globals }.rewound ∧ f'.globals.size = f.globals.size ∧
    ((∀ k < f.main.size, checksAt f.main k = false) → ∀ stats globals more,
      Value.Catches f'.globals globals f.globals →
        loop (more + turns) { f with stats, globals } = loop (more + turns) { f with stats })

theorem Repeats.refl (f : State) (pc : Counter) : Repeats 0 f { f with pc } :=
  ⟨rfl, rfl, fun _ _ _ _ h => by rw [h.eq]⟩

namespace Act

variable {f f' : State} {v : Value} {operand : Datum}

theorem op_eq_ok {α : Type} {x : Op α} {a : α} (h : op x f = .ok a f') :
    ∃ store, x f.store = .ok a store ∧ f' = { f with store } := by
  simp only [op, opOr] at h
  split at h
  · cases h
    exact ⟨_, ‹_›, rfl⟩
  · cases h

theorem ofExcept_eq_ok {α : Type} {x : Except Fault α} {a : α} (h : ofExcept x f = .ok a f') :
    f = f' ∧ x = .ok a := by
  cases x <;> cases h
  exact ⟨rfl, rfl⟩

theorem puts_constant (h : constant operand f = .ok v f') :
    f' = f ∧ Puts (constant operand >>= push) f (v :: f.stack) none := by
  obtain ⟨index, f₁, hoperand, h⟩ := bind_eq_ok h
  obtain ⟨store, hindex, rfl⟩ := op_eq_ok hoperand
  obtain ⟨store', hitem, rfl⟩ := op_eq_ok h
  obtain ⟨rfl, hkey⟩ := Value.item_eq_ok hitem
  obtain rfl := Value.store_of_key operand hindex hkey
  refine ⟨rfl, fun stats globals _ => ?_⟩
  have hconstant : constant operand { f with stats, globals } = .ok v { f with stats, globals } := by
    have hoperand : operandValue operand { f with stats, globals } = _ := op_ok hindex
    rw [constant, bind_of_ok hoperand]
    exact op_ok hitem
  rw [bind_of_ok hconstant]
  rfl

/-- A variable of the main program gets the same value whatever it held before. -/
theorem puts_storeVar (hframes : f.frames = []) (h : storeVar operand f = .ok () f') :
    ∃ rest entry, f' = { f with stack := rest, globals := Value.put f.globals entry } ∧
      Puts (storeVar operand) f rest entry := by
  obtain ⟨_, _, _, _, _, _, _, _, stack, _, _, globals, _⟩ := f
  cases hframes
  cases stack with
  | nil => cases h
  | cons v rest =>
    obtain ⟨index, f₁, hoperand, h⟩ := bind_eq_ok (show (operandValue operand >>= _) _ = _ from h)
    obtain ⟨store, hindex, rfl⟩ := op_eq_ok hoperand
    obtain ⟨globals', f₂, hwrite, h⟩ :=
      bind_eq_ok (show (ofExcept (Value.arrayPut globals index v) >>= _) _ = _ from h)
    obtain ⟨rfl, hput⟩ := ofExcept_eq_ok hwrite
    cases h
    obtain rfl := Value.store_of_key operand hindex (Value.hashable_of_arrayPut hput)
    obtain ⟨j, hplace, rfl⟩ := Value.arrayPut_eq_ok hput
    refine ⟨rest, some (j, v), rfl, fun stats globals₁ hsize => ?_⟩
    refine storeVar_main rfl rfl hindex ?_
    show Value.arrayPut globals₁ index v = .ok (globals₁.setIfInBounds j v)
    rw [Value.arrayPut, show globals₁.size = globals.size from hsize, hplace]
    rfl

theorem next?_main {code : Datum} (hframes : f.frames = []) (hsilent : f.debug = false)
    (hcompare : f.pc.compare .ge f.main.size = .ok false)
    (hrow : rowAt f.main f.pc = .ok (code, operand))
    (stats : Stats) : ∃ stats', ∀ globals, next? { f with stats, globals } =
      .ok (some (code, operand)) { f with stats := stats', globals, pc := f.pc.next } := by
  obtain ⟨stats', hcount⟩ : ∃ stats', ∀ globals, countStep { f with stats, globals, pc := f.pc.next } =
      .ok () { f with stats := stats', globals, pc := f.pc.next } := by
    cases f.counting with
    | false => exact ⟨stats, fun _ => rfl⟩
    | true => exact ⟨⟨stats.instructions + 1, stats.calls, max stats.peakStack f.stack.length,
        max stats.peakDepth f.frames.length⟩, fun _ => rfl⟩
  refine ⟨stats', fun globals => ?_⟩
  rw [next?, bind_of_ok (fetch_main (f := { f with stats, globals }) hframes hcompare hrow)]
  dsimp only
  rw [bind_of_ok (hcount globals), bind_of_ok (get_run _), if_neg (by simp [hsilent])]
  rfl

/-- A row that is performed at the start is a turn of a run. -/
theorem repeats_row {op : Opcode} {code : Datum} {stack : List Value} {entry : Option (Nat × Value)}
    {k turns : Nat} (hframes : f.frames = []) (hsilent : f.debug = false) (hpc : f.pc = .at k)
    (hlt : k < f.main.size) (hrow : rowAt f.main (.at k) = .ok (code, operand))
    (hop : Opcode.ofDatum? Opcode.fastSet code = some op)
    (hputs : checksAt f.main k = false → Puts (perform op operand)
      { f with pc := f.pc.next } stack entry)
    (h : Repeats turns { f with pc := f.pc.next, stack, globals := Value.put f.globals entry } f') :
    Repeats (turns + 1) f f' := by
  obtain ⟨hlater, hsize, hrun⟩ := h
  refine ⟨hlater, hsize.trans (Value.size_put entry), fun hcheck stats globals more hcatches => ?_⟩
  obtain ⟨stats', hnext⟩ := next?_main hframes hsilent (hpc ▸ Wide.compare_ge_at hlt)
    (hpc ▸ hrow) stats
  have hturn (globals : Array Value) (hglobals : globals.size = f.globals.size) :
      Turn { f with stats, globals } { f with
        pc := f.pc.next, stats := stats', stack, globals := Value.put globals entry } := by
    refine ⟨code, operand, _, hnext globals, ?_⟩
    rw [performRow_eq hop]
    exact hputs (hcheck k hlt) stats' globals hglobals
  calc loop (more + turns + 1) { f with stats, globals }
      = _ := (hturn globals hcatches.1).loop (more + turns)
    _ = _ := hrun hcheck stats' _ more (hcatches.put entry)
    _ = loop (more + turns + 1) { f with stats } := ((hturn f.globals rfl).loop (more + turns)).symm

/-- The rows from an index on that are performed at the start are performed again. -/
theorem prepare_repeats {fuel k : Nat} (hframes : f.frames = []) (hsilent : f.debug = false)
    (hk : k + fuel ≤ f.main.size) (hpc : f.pc = .at k) (h : prepare fuel f = .ok () f') :
    Repeats (startLength f.main fuel k) f f' := by
  induction fuel generalizing f k with
  | zero =>
    cases h
    exact .refl _ _
  | succ fuel ih =>
    have hlt : k < f.main.size := by omega
    rw [prepare, bind_of_ok (get_run f),
      bind_of_ok (ofExcept_ok (hpc ▸ Wide.compare_lt_at hlt) f), if_pos rfl] at h
    obtain ⟨⟨code, operand⟩, f₁, hread, h⟩ := bind_eq_ok h
    obtain ⟨rfl, hrow⟩ := ofExcept_eq_ok hread
    rw [hpc] at hrow
    dsimp only at h
    rw [bind_of_ok (show (modify _ : Act Unit) f = .ok () { f with pc := f.pc.next } from rfl)] at h
    by_cases hstart : (Opcode.ofDatum? Opcode.fastSet code).any (· ∈ startOps) = true
    · obtain ⟨op, hop, hmem⟩ := (Option.any_eq_true _ _).1 hstart
      have hrest (stack : List Value) (entry : Option (Nat × Value)) (hprepare : prepare fuel
            { f with pc := f.pc.next, stack, globals := Value.put f.globals entry } = .ok () f')
          (hputs : checksAt f.main k = false →
            Puts (perform op operand) { f with pc := f.pc.next } stack entry) :
          Repeats (startLength f.main (fuel + 1) k) f f' := by
        simp only [startLength, hrow, hstart, if_true]
        refine repeats_row hframes hsilent hpc hlt hrow hop hputs (ih hframes hsilent ?_ ?_ hprepare)
        · simpa [Nat.add_assoc, Nat.add_comm 1] using hk
        · simp [hpc]
      rw [hop] at h
      simp only [startOps, List.mem_cons, List.not_mem_nil, or_false, decide_eq_true_eq] at hmem
      rcases hmem with rfl | rfl | rfl | rfl
      iterate 2
        · obtain ⟨v, f₁, hv, h⟩ := bind_eq_ok h
          obtain ⟨rfl, hputs⟩ := puts_constant hv
          exact hrest (v :: f.stack) none h fun _ => hputs
      · obtain ⟨_, f₁, hstore, h⟩ := bind_eq_ok h
        obtain ⟨rest, entry, rfl, hputs⟩ :=
          puts_storeVar (f := { f with pc := f.pc.next }) hframes hstore
        rw [bind_of_ok (show listStart operand _ = .ok () _ by
          rw [listStart, bind_of_ok (get_run _), if_neg (by simp [hsilent])]; rfl)] at h
        exact hrest rest entry h fun _ => hputs
      · refine hrest f.stack none h fun hcheck _ _ _ => ?_
        cases operand with
        | null => rfl
        | _ => simp [checksAt, hrow, hop] at hcheck
    · have hend : f' = { f with pc := f.pc.next } := by
        cases hop : Opcode.ofDatum? Opcode.fastSet code with
        | none =>
          rw [hop] at h
          cases h
          rfl
        | some op =>
          rw [hop] at h hstart
          cases op <;> first | exact absurd rfl hstart | (cases h; rfl)
      rw [hend, show startLength f.main (fuel + 1) k = 0 by
        simp only [startLength, hrow, if_neg hstart]]
      exact .refl _ _

/-- An action that does not end the run. -/
def Unhalting {α : Type} (x : Act α) : Prop := ∀ f f', x f ≠ .error .halted f'

theorem Unhalting.op {α : Type} (x : Op α) : Unhalting (op x) := by
  intro f f' h
  simp only [Act.op, opOr] at h
  split at h <;> cases h

theorem Unhalting.bind {α β : Type} {x : Act α} {g : α → Act β} (hx : Unhalting x)
    (hg : ∀ a, Unhalting (g a)) : Unhalting (x >>= g) := by
  intro f f' h
  cases hrun : x f with
  | ok a f₁ => exact hg a f₁ f' ((bind_of_ok hrun).symm.trans h)
  | error stop f₁ =>
    rw [bind_of_error hrun] at h
    cases h
    exact hx f f' hrun

theorem unhalting_prepare : ∀ fuel : Nat, Unhalting (prepare fuel)
  | 0 => fun _ _ => nofun
  | fuel + 1 => by
    have ih := unhalting_prepare fuel
    dsimp only [prepare, constant, constantAt, storeVar, listStart, operandValue, ofExcept, textOf,
      ask, pop, fault, fail]
    repeat' first
      | exact ih
      | with_reducible exact .op _
      | with_reducible refine .bind ?_ fun _ => ?_
      | (intro _ _ h; cases h)
      | split

/-- A silent machine goes through the rows and forgets its stack. -/
theorem start_silent (hsilent : f.debug = false) : start f = (do
    prepare f.main.size
    modify State.rewound
    listEmpty : Act Unit) { f with pc := .at 0 } := by
  rw [start, bind_of_ok (get_run f), if_neg (by simp [hsilent])]
  rfl

theorem listEmpty_silent (hsilent : f.debug = false) : listEmpty f = .ok () f := by
  rw [listEmpty, bind_of_ok (get_run f), if_neg (by simp [hsilent])]
  rfl

end Act

variable {s f₀ f f' : State} {bytes : List UInt8} {limit : Nat}

theorem withRoutines_eq_ok {entries : List (Datum × Datum)} (h : f.withRoutines entries = .ok f') :
    ∃ routines store, f' = { f with routines, store } := by
  induction entries generalizing f with
  | nil =>
    cases h
    exact ⟨_, _, rfl⟩
  | cons entry rest ih =>
    obtain ⟨key, d⟩ := entry
    unfold State.withRoutines at h
    simp only [bind, Except.bind] at h
    split at h
    · cases h
    · obtain ⟨routines, store, rfl⟩ := ih h
      exact ⟨routines, store, rfl⟩

theorem withConstants_eq (s : State) (d : Datum) :
    ∃ constants store, s.withConstants d = { s with constants, store } := by
  unfold State.withConstants
  split <;> exact ⟨_, _, rfl⟩

/-- A file that is read gives a machine its tables and its program. -/
theorem read_eq_ok (h : s.read bytes = .ok f) : ∃ constants store routines globalSlots globals main,
    f = { s with constants, store, routines, globalSlots, globals, main } := by
  unfold State.read at h
  simp only [bind, Except.bind] at h
  repeat' split at h
  all_goals cases h
  rename_i htables _ _ _ _ _ _
  obtain ⟨constants, store, hconstants⟩ := withConstants_eq s _
  rw [hconstants] at htables
  split at htables
  · cases htables
  · obtain ⟨routines, store, rfl⟩ := withRoutines_eq_ok (ok_of_mapError htables)
    exact ⟨_, _, _, _, _, _, rfl⟩

/-- What is done at the start of a silent machine only gives variables values, and a run repeats it. -/
theorem load_repeats (hread : s.read bytes = .ok f₀) (hframes : f₀.frames = [])
    (hsilent : f₀.debug = false) (h : s.load bytes = .ok f) :
    f = f.rewound ∧ Repeats (startLength f₀.main f₀.main.size 0) { f₀ with pc := .at 0 } f := by
  obtain ⟨_, hmade, h⟩ := ok_of_bind_eq_ok h
  cases hread.symm.trans (ok_of_mapError hmade)
  rw [Act.start_silent hsilent] at h
  cases hrun : Act.prepare f₀.main.size { f₀ with pc := .at 0 } with
  | error stop f₁ =>
    rw [bind_of_error hrun] at h
    cases stop with
    | halted => exact absurd hrun (Act.unhalting_prepare _ _ _)
    | failed e => cases h
  | ok _ f₁ =>
    have hrepeats := Act.prepare_repeats (f := { f₀ with pc := .at 0 }) (k := 0) hframes hsilent
      (Nat.zero_add _).le rfl hrun
    have hdebug := congrArg State.debug hrepeats.1
    have hrewind : (modify State.rewound : Act Unit) f₁ = .ok () f₁.rewound := rfl
    have hempty : Act.listEmpty f₁.rewound = .ok () f₁.rewound :=
      Act.listEmpty_silent (hdebug.trans hsilent)
    rw [bind_of_ok hrun, bind_of_ok hrewind, hempty] at h
    cases h
    exact ⟨rfl, hrepeats⟩

/-- A run of a file does not show that its first rows were performed when it was loaded, unless it is
cut off among them. -/
theorem run_load {counting : Bool} (hread : State.read { counting } bytes = .ok f₀)
    (hload : State.load { counting } bytes = .ok f)
    (hcheck : ∀ k < f₀.main.size, checksAt f₀.main k = false)
    (hlimit : startLength f₀.main f₀.main.size 0 ≤ limit) : run limit f = run limit f₀ := by
  obtain ⟨hframes, hsilent, hstack⟩ : f₀.frames = [] ∧ f₀.debug = false ∧ f₀.stack = [] := by
    obtain ⟨_, _, _, _, _, _, rfl⟩ := read_eq_ok hread
    exact ⟨rfl, rfl, rfl⟩
  obtain ⟨hf, heq, hsize, hagain⟩ := load_repeats hread hframes hsilent hload
  obtain ⟨more, rfl⟩ := Nat.exists_eq_add_of_le' hlimit
  calc run _ f = loop _ { f₀ with pc := .at 0, globals := f.globals } := by
        rw [run, hf, heq, State.rewound, ← hstack]
    _ = run _ f₀ := hagain hcheck f₀.stats f.globals more ⟨hsize, fun _ => .inr rfl⟩

theorem run_load_overwritten :
    let bytes := CodeFile.ofUnit ⟨[.int 5, .int 7], [("x", 0)], [], [⟨.loadConst, .int 0⟩,
      ⟨.storeVar, .int 0⟩, ⟨.loadConst, .int 1⟩, ⟨.storeVar, .int 0⟩, ⟨.loadVar, .int 0⟩,
      ⟨.halt, .null⟩]⟩
    ∃ f₀ f, State.read {} bytes = .ok f₀ ∧ State.load {} bytes = .ok f ∧
      f₀.globals.toList.map Value.int? = [none] ∧ f.globals.toList.map Value.int? = [some 7] ∧
      run 6 f = run 6 f₀ := by
  intro bytes
  have hread : (State.read {} bytes).toOption.any (fun f =>
      (∀ k < f.main.size, checksAt f.main k = false) ∧ startLength f.main f.main.size 0 ≤ 6 ∧
        f.globals.toList.map Value.int? = [none]) := by
    decide +kernel
  have hload : (State.load {} bytes).toOption.any
      (·.globals.toList.map Value.int? = [some 7]) := by decide +kernel
  simp only [Option.any_eq_true, decide_eq_true_eq] at hread hload
  obtain ⟨f₀, hf₀, hcheck, hlimit, hglobals⟩ := hread
  obtain ⟨f, hf, hstored⟩ := hload
  have hf₀ := eq_ok_of_toOption hf₀
  have hf := eq_ok_of_toOption hf
  exact ⟨f₀, f, hf₀, hf, hglobals, hstored, run_load hf₀ hf hcheck hlimit⟩

end Fast

end StackScript
