import StackScript.Proofs.Code.Height
import StackScript.Proofs.Machine.Effect

/-!
# Steps through paced code

Where code is paced, the number of values that a call has on the stack follows from its counter. One
step keeps it so: it goes on in the same code, enters a routine, or returns.
-/

namespace StackScript.Wide

/-! ## Places with a height -/

theorem getElem?_of_pick_at {α : Type} {items : Array α} {k : Nat} {a : α}
    (h : (Counter.at k).pick items = .ok a) : items[k]? = some a := by
  unfold Counter.pick at h
  simp only [Counter.index?] at h
  split at h
  · cases h
  · have hplace : Value.place? items.size (k : Int) = if k < items.size then some k else none := by
      simp [Value.place?, show ¬ (k : Int) < 0 by omega]
    rw [hplace] at h
    by_cases hk : k < items.size
    · rw [if_pos hk] at h
      cases hitem : items[k]? with
      | none => simp [hitem] at h
      | some b =>
        simp only [Option.bind_some, hitem] at h
        cases h
        rfl
    · simp [hk] at h

/-- The heights of code obey the rules. -/
def Obeys (rules : Rules) (code : Array Instruction) (height : Nat → Nat) : Prop :=
  ∀ k i, code.toList[k]? = some i →
    Climbs rules none 0 code.toList.length height (instructionBefore code.toList k) k i

/-- Code at a counter where so many values are on the stack. -/
def Stands (rules : Rules) (code : Array Instruction) (c : Counter) (values : Nat) : Prop :=
  ∃ (height : Nat → Nat) (k : Nat), Obeys rules code height ∧ c = .at k ∧ height k = values

variable {i : Instruction} {rules : Rules} {before : Option Instruction}

theorem Stands.start {code : Array Instruction} (h : Paced rules none code.toList) :
    Stands rules code (.at 0) 0 := by
  obtain ⟨height, h₀, hobeys⟩ := h
  exact ⟨height, 0, hobeys, rfl, h₀⟩

/-- The instruction that is fetched obeys, and the counter moves on by one. -/
theorem Stands.fetched {w w₁ : State} {values : Nat}
    (h : Stands rules w.outline.code w.outline.counter values)
    (hfetch : Act.fetch w = .ok (some i) w₁) :
    ∃ (height : Nat → Nat) (k : Nat), Obeys rules w.outline.code height ∧
      w.outline.counter = .at k ∧ height k = values ∧
      ∃ before, Climbs rules none 0 w.outline.code.toList.length height before k i := by
  obtain ⟨height, k, hobeys, hcounter, hheight⟩ := h
  have hpick := Act.pick_of_fetch hfetch
  rw [hcounter] at hpick
  refine ⟨height, k, hobeys, hcounter, hheight, _, hobeys k i ?_⟩
  simpa using getElem?_of_pick_at hpick

/-! ## One step -/

/-- What a step through paced code does with the code that runs, whose values were so many and are
now so many. `At` tells how many there are at each counter. -/
inductive Stride (rules : Rules) (At : Counter → Nat → Prop) (w w' : State) (i : Instruction)
    (values values' : Nat) : Prop
  /-- The same code goes on. -/
  | goes (c : Counter) (houtline : w'.outline = w.outline.jump c) (hat : At c values')
  /-- A routine is entered, whose result will be one value more. -/
  | enters (n : Nat) (name : String) (routine : Routine) (hinstruction : i = .to .call n)
      (hrule : (rules.of .call).Holds (n + 1) values) (hvalues : values = values' + (n + 1))
      (hlookup : w.routines.lookup name = some routine)
      (houtline : w'.outline = (w.outline.jump w.outline.counter.next).enter routine)
      (hat : At w.outline.counter.next (values' + 1))
  /-- The innermost call returns. -/
  | returns (c : Counter) (hinstruction : i = ⟨.ret, .null⟩)
      (hrule : (rules.of .ret).Holds 1 values) (hstack : w'.stack = w.stack)
      (houtline : w'.outline = (w.outline.jump c).leave)

theorem Act.stack_ret {operand : Datum} {w w' : State}
    (h : Act.perform ⟨.ret, operand⟩ w = .ok () w') : w'.stack = w.stack := by
  obtain ⟨v, w₁, hpop, hrest⟩ := bind_eq_ok h
  obtain ⟨_, w₂, hmove, hpush⟩ := bind_eq_ok hrest
  cases hmove
  cases hpush
  obtain ⟨rest, hstack, rfl⟩ := Act.pop_eq_ok hpop
  rw [hstack]
  show v :: _ = _
  cases w.frames <;> rfl

/-- An instruction that moves on takes and leaves what it is said to. -/
theorem Act.needs_of_moves {count leaves : Nat}
    (h : i.Moves none before count leaves) (hcall : i.op ≠ .call) {w w' : State} (hrun : Act.perform i w = .ok () w') :
    needs i = count ∧ (∀ k, Leaves i w.rest k w'.rest → k = leaves) ∧ w'.outline = w.outline := by
  have heffect := Act.effect_perform hrun
  have hsame (h : w'.rest = w.rest) : w'.outline = w.rest.outline := State.outline_of_rest h
  have hwrites : ((∃ globals, w'.rest = { w.rest with globals }) ∨ ∃ frame rest locals,
      w.rest.frames = frame :: rest ∧
        w'.rest = { w.rest with frames := { frame with locals } :: rest }) →
      w'.outline = w.outline := by
    show _ → w'.rest.outline = w.rest.outline
    rintro (⟨globals, heq⟩ | ⟨frame, rest, locals, hframes, heq⟩) <;> rw [heq]
    · rfl
    · simp [State.outline, hframes, bareFrame]
  cases h with
  | load h | convert h =>
    simp only [Opcode.loads, Opcode.converts, List.mem_cons, List.not_mem_nil, or_false] at h
    rcases h with rfl | rfl | rfl | rfl <;> exact ⟨rfl, fun _ => id, hsame heffect⟩
  | join h =>
    simp only [Opcode.joins, List.mem_cons, List.not_mem_nil, or_false] at h
    rcases h with rfl | rfl | rfl | rfl | rfl | rfl | rfl | rfl | rfl | rfl | rfl | rfl | rfl |
      rfl | rfl | rfl <;> exact ⟨rfl, fun _ => id, hsame heffect⟩
  | storeGlobal | storeLocal => exact ⟨rfl, fun _ => id, hwrites heffect⟩
  | call => exact absurd rfl hcall
  | callMethod | getAttr | setAttr | createClass => cases hrun
  | importFrom hlimits => cases hlimits
  | buildList | buildTuple | buildDict | pop | setItem | listAppend =>
    exact ⟨rfl, fun _ => id, hsame heffect⟩

/-- Where code is paced, an instruction that is performed finds its operands. -/
theorem needs_le_of_climbs {lo hi place : Nat} {height : Nat → Nat}
    (h : Climbs rules none lo hi height before place i) {w w' : State} (hrun : Act.perform i w = .ok () w') :
    needs i ≤ height place := by
  cases h with
  | step hmoves _ hcount =>
    by_cases hcall : i.op = .call
    · obtain ⟨n, rfl, rfl, -⟩ := hmoves.of_call hcall
      exact hcount
    · exact (Act.needs_of_moves hmoves hcall hrun).1 ▸ hcount
  | branch hop _ _ hcount =>
    rcases hop with rfl | rfl <;> exact hcount
  | forIter _ _ _ hcount | ret _ hcount => exact hcount
  | jump | halt => exact Nat.zero_le _

section Step

variable {rules : Rules} {w w₁ w' : State} {i : Instruction} {segment below : List Value}
  (hstack : w.stack = segment ++ below) (hfetch : Act.fetch w = .ok (some i) w₁)
include hstack hfetch

/-- One instruction that obeys: the values below those of the code that runs stay, and do not
matter. -/
theorem step_climbs {At : Counter → Nat → Prop} {height : Nat → Nat} {lo hi k : Nat}
    (hcounter : w.outline.counter = .at k) (hheight : height k = segment.length)
    (hclimbs : Climbs rules none lo hi height before k i)
    (hat : ∀ (c : Nat) values, height c = values → At (.at c) values)
    (hrun : Act.perform i w₁ = .ok () w') : ∃ segment', w'.stack = segment' ++ below ∧
      Stride rules At w w' i segment.length segment'.length ∧
      ∀ other, Act.step { w with stack := segment ++ other } =
        .ok () { w' with stack := segment' ++ other } := by
  obtain ⟨houtline, hstack₁⟩ := Act.outline_fetch hfetch
  have hnext : w.outline.counter.next = .at (k + 1 : Nat) := by rw [hcounter]; rfl
  have hneeds : needs i ≤ segment.length := hheight ▸ needs_le_of_climbs hclimbs hrun
  obtain ⟨leaves, segment', ⟨heffect, hleaves⟩, hstack', hlength, hother⟩ :=
    Act.step_slides hfetch hrun hstack hneeds
  refine ⟨segment', hstack', ?_, hother⟩
  have hgoes (hrest : w'.rest = w₁.rest) (h : height (k + 1) = segment'.length) :
      Stride rules At w w' i segment.length segment'.length :=
    .goes _ ((State.outline_of_rest hrest).trans (hnext ▸ houtline)) (hat _ _ h)
  have hjumps {c : Nat} (hrest : w'.rest = w₁.rest.jump (.at c))
      (h : height c = segment'.length) : Stride rules At w w' i segment.length segment'.length := by
    refine .goes (.at c) ?_ (hat _ _ h)
    rw [State.outline_of_rest hrest, State.outline_jump]
    exact (congrArg (·.jump (.at c)) houtline).trans (Outline.jump_jump _ _ _)
  cases hclimbs with
  | @step _ count leaves hmoves hrule hcount hafter =>
    rw [hheight] at hcount hafter
    by_cases hcall : i.op = .call
    · obtain ⟨n, rfl, rfl, rfl⟩ := hmoves.of_call hcall
      rw [hheight] at hrule
      rcases hleaves with ⟨rfl, hrest⟩ | ⟨rfl, name, routine, locals, hlookup, hrest⟩
      · exact hgoes hrest (hafter.trans hlength.symm)
      · have hlookup : w.routines.lookup name = some routine :=
          (Act.program_of_fetch hfetch).2.1 ▸ hlookup
        refine .enters n name routine rfl hrule ?_ hlookup ?_ ?_
        · rw [hlength]
          exact (Nat.sub_add_cancel hcount).symm
        · exact (State.outline_of_rest hrest).trans (congrArg (Outline.enter · routine) houtline)
        · rw [hnext]
          exact hat _ _ (hafter.trans (congrArg (· + 1) hlength.symm))
    · obtain ⟨rfl, hk, ho⟩ := Act.needs_of_moves hmoves hcall hrun
      cases hk _ hleaves
      exact .goes _ (ho.trans (hnext ▸ houtline)) (hat _ _ (hafter.trans hlength.symm))
  | @jump target _ _ htarget =>
    cases hleaves
    exact hjumps heffect (htarget.trans (hheight.trans hlength.symm))
  | @branch op target hop _ _ hcount hafter htarget =>
    rw [hheight] at hafter htarget
    rcases hop with rfl | rfl <;> cases hleaves <;> rcases heffect with hrest | hrest
    · exact hgoes hrest (hafter.trans hlength.symm)
    · exact hjumps hrest (htarget.trans hlength.symm)
    · exact hgoes hrest (hafter.trans hlength.symm)
    · exact hjumps hrest (htarget.trans hlength.symm)
  | @forIter target _ _ _ hcount hafter htarget =>
    rw [hheight] at hcount hafter htarget
    rcases hleaves with ⟨rfl, hrest⟩ | ⟨rfl, hrest⟩
    · have hone : needs (.to .forIter target) = 1 := rfl
      exact hgoes hrest (by omega)
    · exact hjumps hrest (htarget.trans hlength.symm)
  | ret hrule hcount =>
    refine .returns w.outline.counter.next rfl (hheight ▸ hrule) ?_ ?_
    · rw [Act.stack_ret hrun, hstack₁]
    · rw [← houtline]
      exact (State.outline_of_rest heffect).trans (State.outline_leave _)
  | halt => cases hrun

theorem step_stands (hstands : Stands rules w.outline.code w.outline.counter segment.length)
    (hrun : Act.perform i w₁ = .ok () w') : ∃ segment', w'.stack = segment' ++ below ∧
      Stride rules (Stands rules w.outline.code) w w' i segment.length segment'.length ∧
      ∀ other, Act.step { w with stack := segment ++ other } =
        .ok () { w' with stack := segment' ++ other } := by
  obtain ⟨height, k, hobeys, hcounter, hheight, before, hclimbs⟩ := hstands.fetched hfetch
  exact step_climbs hstack hfetch hcounter hheight hclimbs
    (fun c values h => ⟨height, c, hobeys, rfl, h⟩) hrun

end Step

end StackScript.Wide
