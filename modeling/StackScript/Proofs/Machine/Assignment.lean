import StackScript.Proofs.Code.Reference
import StackScript.Proofs.Machine.Balance

/-!
# Reading what was assigned

A variable keeps its value until an instruction stores to it: other instructions leave all variables
alone, a call adds variables and a return drops those of the call that ends. So a read in a routine
yields what was assigned there last, if assignment and read come to one variable.

* `read_after_assignment`: when a read yields the value assigned;
* `assignment_not_read`: a parameter with the name of a global variable is not assigned.
-/

namespace StackScript

namespace Wide

/-! ## Values of variables -/

/-- The slots of the call at a depth; the innermost call comes first and is the deepest. -/
def slotsAt (locals : List (Array Value)) (depth : Nat) : Option (Array Value) :=
  (locals.drop (locals.length - depth)).head?

variable {x : Variable} {i : Instruction} {depth : Nat} {op : Opcode}

theorem slotsAt_cons {locals : List (Array Value)} (h : depth ≤ locals.length)
    (inner : Array Value) : slotsAt (inner :: locals) depth = slotsAt locals depth := by
  unfold slotsAt
  rw [List.length_cons, show locals.length + 1 - depth = locals.length - depth + 1 by omega,
    List.drop_succ_cons]

theorem slotsAt_innermost (locals : List (Array Value)) (inner : Array Value) :
    slotsAt (inner :: locals) (locals.length + 1) = some inner := by
  simp [slotsAt]

/-- The value of a variable. Variables of calls are those of the call at the given depth. -/
def State.value? (w : State) (depth : Nat) : Variable → Option Value
  | .main slot => w.bindings.1[slot]?
  | .call slot => (slotsAt w.bindings.2 depth).bind (·[slot]?)

/-- The next instruction is no store to a variable of the call at the given depth. -/
def State.Spares (w : State) (depth : Nat) : Variable → Prop
  | .main slot => ∀ i, w.next? = some i → i.op = .storeGlobal ∨ i.op = .storeVar →
      ∃ n : Nat, i.operand = .int n ∧ n ≠ slot
  | .call slot => w.frames.length = depth → ∀ i, w.next? = some i →
      i.op = .storeLocal ∨ i.op = .storeVar → ∃ n : Nat, i.operand = .int n ∧ n ≠ slot

theorem length_locals (w : State) : w.bindings.2.length = w.frames.length := by
  simp [State.bindings]

theorem State.bindings_jump (w : State) (target : Counter) :
    (w.jump target).bindings = w.bindings := by
  cases hframes : w.frames <;> simp [State.jump, State.bindings, hframes]

variable {w w' : State} {operand : Datum} {v : Value}

/-! ## What instructions do to variables -/

/-- Slots in which the top of the stack was put where an operand says. -/
def Stored (w : State) (operand : Datum) (old new : Array Value) : Prop :=
  ∀ n : Nat, operand = .int n →
    n < old.size ∧ ∃ v, w.stack.head? = some v ∧ new = old.setIfInBounds n v

/-- The variables after an instruction. -/
inductive Rebinds (w : State) (i : Instruction) : Array Value × List (Array Value) → Prop
  | keeps (hop : i.op ∉ Act.storing) : Rebinds w i w.bindings
  | writesGlobal {globals : Array Value} (hop : i.op = .storeGlobal ∨ i.op = .storeVar)
      (h : Stored w i.operand w.globals globals) : Rebinds w i (globals, w.bindings.2)
  | writesLocal {old locals : Array Value} {others : List (Array Value)}
      (hop : i.op = .storeLocal ∨ i.op = .storeVar) (hold : w.bindings.2 = old :: others)
      (h : Stored w i.operand old locals) : Rebinds w i (w.globals, locals :: others)
  | enters (hop : i.op ∉ Act.storing) {locals : Array Value} :
      Rebinds w i (w.globals, locals :: w.bindings.2)
  | leaves (hop : i.op ∉ Act.storing) : Rebinds w i (w.globals, w.bindings.2.tail)

theorem operandValue_eq_ok {index : Value} (h : Act.operandValue operand w = .ok index w') :
    w'.bindings = w.bindings ∧ ∀ n : Int, operand = .int n → index = .int n := by
  obtain ⟨-, -, -, -, hrest, -⟩ :=
    (Act.deals_operandValue operand w (Custody.guards_free w)).done index w' h
  have hbindings : w'.rest.bindings = w.rest.bindings := by rw [hrest]
  refine ⟨hbindings, ?_⟩
  rintro n rfl
  cases h
  rfl

/-- The top of the stack is put into slots that follow from the variables. -/
theorem write_eq_ok (items : State → Array Value) {change : Array Value → State → State}
    (hitems : ∀ s t : State, s.bindings = t.bindings → items s = items t)
    (h : (do
      let v ← Act.pop
      let index ← Act.operandValue operand
      let new ← Act.ofExcept (Value.arrayPut (items (← get)) index v)
      modify (change new)) w = .ok () w') :
    ∃ w₁ new, w₁.bindings = w.bindings ∧ w' = change new w₁ ∧ Stored w operand (items w) new := by
  obtain ⟨v, w₀, hpop, h⟩ := bind_eq_ok h
  obtain ⟨rest, hstack, rfl⟩ := Act.pop_eq_ok hpop
  obtain ⟨index, w₁, hindex, h⟩ := bind_eq_ok h
  have h : (Act.ofExcept (Value.arrayPut (items w₁) index v) >>= fun new =>
      modify (change new)) w₁ = .ok () w' := h
  obtain ⟨new, w₂, hput, hlast⟩ := bind_eq_ok h
  obtain ⟨hitem, hsame⟩ := Act.ofExcept_eq_ok hput
  cases hsame
  obtain ⟨hbindings, hnumber⟩ := operandValue_eq_ok hindex
  have hbindings : w₁.bindings = w.bindings := hbindings
  cases hlast
  refine ⟨w₁, new, hbindings, rfl, fun n hn => ?_⟩
  rw [hnumber n hn] at hitem
  obtain ⟨-, hlt, hnew⟩ := Value.arrayPut_natCast.1 hitem
  rw [hitems w₁ w hbindings] at hlt hnew
  exact ⟨hlt, v, by rw [hstack]; rfl, hnew.symm⟩

theorem rebinds_storeGlobal (hop : op = .storeGlobal ∨ op = .storeVar)
    (h : (Act.pop >>= Act.storeGlobal operand) w = .ok () w') :
    Rebinds w ⟨op, operand⟩ w'.bindings := by
  obtain ⟨w₁, globals, hsame, rfl, hstored⟩ :=
    write_eq_ok (·.globals) (fun _ _ h => congrArg Prod.fst h) h
  have hbindings : State.bindings { w₁ with globals } = (globals, w.bindings.2) := by
    rw [← hsame]
    rfl
  rw [hbindings]
  exact .writesGlobal hop hstored

theorem rebinds_storeLocal (hop : op = .storeLocal ∨ op = .storeVar)
    {frame : Frame Routine} {frames : List (Frame Routine)} (hframes : w.frames = frame :: frames)
    (h : (Act.pop >>= Act.storeLocal frame operand) w = .ok () w') :
    Rebinds w ⟨op, operand⟩ w'.bindings := by
  obtain ⟨w₁, locals, hsame, rfl, hstored⟩ :=
    write_eq_ok (fun _ => frame.locals) (fun _ _ _ => rfl) h
  have hold : w.bindings.2 = frame.locals :: w.bindings.2.tail := by
    simp [State.bindings, hframes]
  have hbindings : State.bindings { w₁ with frames := { frame with locals } :: w₁.frames.tail } =
      (w.bindings.1, locals :: w.bindings.2.tail) := by
    rw [← hsame]
    show (w₁.globals, locals :: w₁.frames.tail.map (·.locals)) = (w₁.globals, _)
    rw [List.map_tail]
    rfl
  rw [hbindings]
  exact .writesLocal hop hold hstored

/-- What does not write variables keeps them, but a call adds some, and a return drops them. -/
theorem Moves.bindings (h : Moves i w w') (hstores : i.op ∉ Act.storing) :
    w'.bindings = w.bindings ∨ (∃ locals, w'.bindings = (w.globals, locals :: w.bindings.2)) ∨
      w'.bindings = (w.globals, w.bindings.2.tail) := by
  cases h with
  | stays | main => exact .inl rfl
  | jumps target => exact .inl (w.bindings_jump target)
  | writesGlobal hwrites | writesLocal hwrites => exact absurd hwrites hstores
  | enters _ _ locals => exact .inr (.inl ⟨locals, rfl⟩)
  | leaves =>
    refine .inr (.inr ?_)
    cases hframes : w.frames <;> simp [State.leave, State.bindings, hframes]

theorem rebinds_perform (h : Act.perform i w = .ok () w') : Rebinds w i w'.bindings := by
  by_cases hop : i.op ∈ Act.storing
  · obtain ⟨op, operand⟩ := i
    have hcases : op = .storeGlobal ∨ op = .storeVar ∨ op = .storeLocal := by
      simpa [Act.storing] using hop
    rcases hcases with rfl | rfl | rfl
    · exact rebinds_storeGlobal (.inl rfl) h
    · obtain ⟨v, w₁, hpop, h₁⟩ := bind_eq_ok h
      obtain ⟨_, _, ⟨⟩, h₁⟩ := bind_eq_ok h₁
      have hsame : w₁.frames = w.frames := by
        obtain ⟨_, -, rfl⟩ := Act.pop_eq_ok hpop
        rfl
      rw [hsame] at h₁
      cases hframes : w.frames with
      | nil =>
        rw [hframes] at h₁
        exact rebinds_storeGlobal (.inr rfl) ((bind_of_ok hpop).trans h₁)
      | cons frame frames =>
        rw [hframes] at h₁
        exact rebinds_storeLocal (.inr rfl) hframes ((bind_of_ok hpop).trans h₁)
    · obtain ⟨_, _, ⟨⟩, h⟩ := bind_eq_ok h
      cases hframes : w.frames with
      | nil =>
        rw [hframes] at h
        cases h
      | cons frame frames =>
        rw [hframes] at h
        exact rebinds_storeLocal (.inl rfl) hframes h
  · have hbindings : w'.bindings = w.bindings ∨
        (∃ locals, w'.bindings = (w.globals, locals :: w.bindings.2)) ∨
        w'.bindings = (w.globals, w.bindings.2.tail) :=
      (Act.effect_perform h).moves.bindings hop
    rcases hbindings with heq | ⟨locals, heq⟩ | heq <;> rw [heq]
    · exact .keeps hop
    · exact .enters hop
    · exact .leaves hop

/-! ## Runs that spare a variable -/

theorem bindings_fetch {w₁ : State} (h : Act.fetch w = .ok (some i) w₁) :
    w₁.bindings = w.bindings := by
  rw [Act.eq_fetched h]
  exact w.bindings_jump _

/-- A variable keeps its value while its call goes on, unless there is a store to it. -/
theorem value_step (hdepth : depth ≤ w.frames.length)
    (hspares : w.Spares depth x) (h : Act.step w = .ok () w') (hdepth' : depth ≤ w'.frames.length) :
    w'.value? depth x = w.value? depth x := by
  rcases Act.step_eq_ok h with rfl | ⟨i, w₁, hfetch, hrun⟩
  · rfl
  have hbindings := bindings_fetch hfetch
  have hnext := State.next?_of_fetch hfetch
  have hvalue : w.value? depth x = w₁.value? depth x := by
    unfold State.value?
    rw [hbindings]
  have hdepth₁ : depth ≤ w₁.bindings.2.length := by rwa [hbindings, length_locals]
  rw [← length_locals] at hdepth'
  rw [hvalue]
  unfold State.value?
  generalize hafter : w'.bindings = after at hdepth' ⊢
  have hrebinds := rebinds_perform hrun
  rw [hafter] at hrebinds
  cases hrebinds with
  | keeps => rfl
  | writesGlobal hop hstored =>
    cases x with
    | call slot => rfl
    | main slot =>
      obtain ⟨n, hn, hne⟩ := hspares i hnext hop
      obtain ⟨-, v, -, rfl⟩ := hstored n hn
      exact Array.getElem?_setIfInBounds_ne hne
  | writesLocal hop hold hstored =>
    cases x with
    | main slot => rfl
    | call slot =>
      rename_i old locals others
      simp only [hold]
      rw [hold] at hdepth₁
      by_cases hinner : depth ≤ others.length
      · rw [slotsAt_cons hinner, slotsAt_cons hinner]
      · have hlast : depth = others.length + 1 := by
          rw [List.length_cons] at hdepth₁
          omega
        have hlength : w.frames.length = depth := by
          rw [← length_locals, ← hbindings, hold, List.length_cons, hlast]
        obtain ⟨n, hn, hne⟩ := hspares hlength i hnext hop
        obtain ⟨-, v, -, rfl⟩ := hstored n hn
        rw [hlast, slotsAt_innermost, slotsAt_innermost]
        exact Array.getElem?_setIfInBounds_ne hne
  | enters =>
    cases x with
    | main slot => rfl
    | call slot => simp only [slotsAt_cons hdepth₁]
  | leaves =>
    cases x with
    | main slot => rfl
    | call slot =>
      cases hlocals : w₁.bindings.2 with
      | nil => rfl
      | cons inner others =>
        rw [hlocals, List.tail_cons] at hdepth'
        simp only [List.tail_cons, slotsAt_cons hdepth']

/-- A run during which a call goes on and a variable of it, or of the main program, is not stored
to. -/
inductive Kept (depth : Nat) (x : Variable) (s : State) : State → Prop
  | refl : Kept depth x s s
  | step {t u : State} : Kept depth x s t → t.Spares depth x → Act.step t = .ok () u →
      depth ≤ u.frames.length → Kept depth x s u

theorem Kept.value {s t : State} (hdepth : depth ≤ s.frames.length) (h : Kept depth x s t) :
    t.value? depth x = s.value? depth x := by
  have hinvariant : t.value? depth x = s.value? depth x ∧ depth ≤ t.frames.length := by
    induction h with
    | refl => exact ⟨rfl, hdepth⟩
    | step _ hspares hstep hdeep ih =>
      obtain ⟨hvalue, hdepth⟩ := ih
      exact ⟨(value_step hdepth hspares hstep hdeep).trans hvalue, hdeep⟩
  exact hinvariant.1

/-! ## Stores and loads -/

theorem perform_of_next? (hnext : w.next? = some i) (h : Act.step w = .ok () w') :
    ∃ w₁, Act.perform i w₁ = .ok () w' ∧ w₁.bindings = w.bindings ∧ w₁.stack = w.stack := by
  obtain ⟨w₁, hfetch⟩ := State.fetch_of_next? hnext
  obtain ⟨-, hstack⟩ := Act.outline_fetch hfetch
  rw [Act.step, bind_of_ok hfetch] at h
  exact ⟨w₁, h, bindings_fetch hfetch, hstack⟩

/-- A store gives its variable the value on top of the stack. -/
theorem value_stored (hnext : w.next? = some x.store) (h : Act.step w = .ok () w') :
    ∃ v, w.stack.head? = some v ∧ w'.value? w.frames.length x = some v ∧
      w'.frames.length = w.frames.length := by
  obtain ⟨w₁, hrun, hbindings, hstack⟩ := perform_of_next? hnext h
  rw [← hstack, ← length_locals, ← length_locals w', ← hbindings]
  have hstores : x.store.op ∈ Act.storing := by
    cases x <;> simp [Variable.store, Instruction.to, Act.storing]
  have hrebinds := rebinds_perform hrun
  unfold State.value?
  generalize w'.bindings = after at hrebinds ⊢
  cases hrebinds with
  | keeps hop | enters hop | leaves hop => exact absurd hstores hop
  | writesGlobal hop hstored =>
    cases x with
    | call slot => rcases hop with hop | hop <;> cases hop
    | main slot =>
      obtain ⟨hlt, v, hv, rfl⟩ := hstored slot rfl
      exact ⟨v, hv, Array.getElem?_setIfInBounds_self_of_lt hlt, rfl⟩
  | writesLocal hop hold hstored =>
    cases x with
    | main slot => rcases hop with hop | hop <;> cases hop
    | call slot =>
      obtain ⟨hlt, v, hv, rfl⟩ := hstored slot rfl
      rw [hold]
      refine ⟨v, hv, ?_, rfl⟩
      show (slotsAt (_ :: _) (List.length _ + 1)).bind _ = _
      rw [slotsAt_innermost]
      exact Array.getElem?_setIfInBounds_self_of_lt hlt

theorem load_eq_ok {items : Array Value} {slot : Nat}
    (h : (Act.ofExcept (Value.arrayItem items (.int slot)) >>= Act.push) w = .ok () w') :
    ∃ v, w'.stack.head? = some v ∧ items[slot]? = some v := by
  obtain ⟨v, w₁, hitem, hpush⟩ := bind_eq_ok h
  obtain ⟨hitem, -⟩ := Act.ofExcept_eq_ok hitem
  cases hpush
  exact ⟨v, rfl, (Value.arrayItem_natCast.1 hitem).2⟩

theorem value_loaded (hnext : w.next? = some x.load) (h : Act.step w = .ok () w') :
    ∃ v, w'.stack.head? = some v ∧ w.value? w.frames.length x = some v := by
  obtain ⟨w₁, hrun, hbindings, hstack⟩ := perform_of_next? hnext h
  unfold State.value?
  rw [← length_locals, ← hbindings]
  cases x with
  | main slot => exact load_eq_ok hrun
  | call slot =>
    obtain ⟨_, _, ⟨⟩, hrun⟩ := bind_eq_ok hrun
    cases hframes : w₁.frames with
    | nil =>
      rw [hframes] at hrun
      cases hrun
    | cons frame frames =>
      rw [hframes] at hrun
      have hlocals : w₁.bindings.2 = frame.locals :: frames.map (·.locals) := by
        simp [State.bindings, hframes]
      rw [hlocals]
      show ∃ v, _ ∧ (slotsAt _ (List.length _ + 1)).bind _ = _
      rw [slotsAt_innermost]
      exact load_eq_ok hrun

theorem spares_of_ne {y : Variable} (hnext : w.next? = some x.store) (hne : x ≠ y)
    (depth : Nat) : w.Spares depth y := by
  have hother : ∀ i, w.next? = some i → i = x.store := fun i hi =>
    Option.some.inj (hi.symm.trans hnext)
  cases y with
  | main slot =>
    intro i hi hop
    cases hother i hi
    cases x with
    | main n => exact ⟨n, rfl, fun heq => hne (congrArg Variable.main heq)⟩
    | call n => rcases hop with hop | hop <;> cases hop
  | call slot =>
    intro _ i hi hop
    cases hother i hi
    cases x with
    | main n => rcases hop with hop | hop <;> cases hop
    | call n => exact ⟨n, rfl, fun heq => hne (congrArg Variable.call heq)⟩

/-- An assignment to a name and a read of it at two places of one routine come to variables that are
the same unless the name is a global one where it is assigned and one of the routine where it is
read. When the routine assigns a value and later, in the same call and with no other store to the
variable in between, reads the name, it gets that value in the first case. In the second it gets the
value that its own variable had before. -/
theorem read_after_assignment {name : String} {e : Expr} {a a' r r' : Generator}
    (hassign : Gen.statement (.assign name e) a = .ok () a')
    (hread : Gen.expression (.name name) r = .ok () r') (hplaces : a'.Later r' ∨ r'.Later a') :
    ∃ stored loaded : Variable, a'.code.back? = some stored.store ∧
      r'.code.back? = some loaded.load ∧
      (stored = loaded ↔ ¬ ((a'.global? name).isSome ∧ (r'.local? name).isSome)) ∧
      ∀ s s' t t' : State, s.next? = some stored.store → Act.step s = .ok () s' →
        Kept s.frames.length loaded s' t → t.frames.length = s.frames.length →
        t.next? = some loaded.load → Act.step t = .ok () t' →
        ∃ v, t'.stack.head? = some v ∧
          if (a'.global? name).isSome ∧ (r'.local? name).isSome then
            s.value? s.frames.length loaded = some v
          else s.stack.head? = some v := by
  have hin : a'.current.isSome := by
    rcases hplaces with h | h
    · exact h.isSome_left
    · exact h.isSome_right
  obtain ⟨stored, hstore, hstored⟩ := assign_stores hin hassign
  obtain ⟨loaded, hload, hloaded⟩ := name_loads hread
  have hiff := Generator.assigned?_eq_read? hplaces hstored hloaded
  refine ⟨stored, loaded, hstore, hload, hiff, ?_⟩
  intro s s' t t' hnext hstep hkept hdepth hnext' hstep'
  obtain ⟨v, htop, hvalue, hsame⟩ := value_stored hnext hstep
  obtain ⟨u, htop', hvalue'⟩ := value_loaded hnext' hstep'
  rw [hdepth, hkept.value (Nat.le_of_eq hsame.symm)] at hvalue'
  refine ⟨u, htop', ?_⟩
  split
  · rename_i hclash
    have hne : stored ≠ loaded := fun heq => hiff.1 heq hclash
    rwa [value_step (Nat.le_refl _) (spares_of_ne hnext hne _) hstep
      (Nat.le_of_eq hsame.symm)] at hvalue'
  · rename_i hclear
    cases hiff.2 hclear
    rw [htop, ← hvalue, hvalue']

/-- The variable that the next instruction writes. -/
def State.writes? (w : State) : Option Variable :=
  match w.next? with
  | some ⟨.storeGlobal, .int (.ofNat n)⟩ => some (.main n)
  | some ⟨.storeLocal, .int (.ofNat n)⟩ => some (.call n)
  | _ => none

theorem State.next?_of_writes? (h : w.writes? = some x) : w.next? = some x.store := by
  unfold State.writes? at h
  split at h
  · rename_i hnext
    cases h
    exact hnext
  · rename_i hnext
    cases h
    exact hnext
  · cases h

/-- The variable that the next instruction reads. -/
def State.reads? (w : State) : Option Variable :=
  match w.next? with
  | some ⟨.loadGlobal, .int (.ofNat n)⟩ => some (.main n)
  | some ⟨.loadLocal, .int (.ofNat n)⟩ => some (.call n)
  | _ => none

theorem State.next?_of_reads? (h : w.reads? = some x) : w.next? = some x.load := by
  unfold State.reads? at h
  split at h
  · rename_i hnext
    cases h
    exact hnext
  · rename_i hnext
    cases h
    exact hnext
  · cases h

theorem spares_of_reads {y : Variable} (h : w.reads? = some x) (depth : Nat) :
    w.Spares depth y := by
  have hother : ∀ i, w.next? = some i → i = x.load := fun i hi =>
    Option.some.inj (hi.symm.trans (State.next?_of_reads? h))
  cases y with
  | main slot =>
    intro i hi hop
    cases hother i hi
    cases x <;> rcases hop with hop | hop <;> cases hop
  | call slot =>
    intro _ i hi hop
    cases hother i hi
    cases x <;> rcases hop with hop | hop <;> cases hop

/-- Inside a routine with one parameter, in a program that has a global variable. -/
def relayPlace : Generator where
  globals := [("x", 0)]
  current := some ⟨"relay", ["y"], [("y", 0)], #[]⟩

/-- A call that is about to assign its argument to the global variable. -/
def relayCall (code : Array Instruction) : State where
  frames := [⟨⟨"relay", .list [.str "y"], .dict [], code⟩, .at 0, .at 1, #[.int 7, .none]⟩]
  globals := #[.int 1]
  stack := [.int 7]

theorem read_after_assignment_relay : ∃ a r r' s s' t t' v,
    Gen.statement (.assign "x" (.name "y")) relayPlace = .ok () a ∧
    Gen.statement (.declare "z" (some (.name "y")) none) a = .ok () r ∧
    Gen.expression (.name "x") r = .ok () r' ∧ a.Later r' ∧ s = relayCall r'.code ∧
    s.next? = some (Variable.main 0).store ∧ Act.step s = .ok () s' ∧
    Kept s.frames.length (.main 0) s' t ∧ t.next? = some (Variable.main 0).load ∧
    Act.step t = .ok () t' ∧ s.stack.head? = some v ∧ t'.stack.head? = some v := by
  obtain ⟨a, r, r', hassign, hbetween, hread, hstored, hloaded, hglobal, hlocal, hcode⟩ : ∃ a r r',
      Gen.statement (.assign "x" (.name "y")) relayPlace = .ok () a ∧
      Gen.statement (.declare "z" (some (.name "y")) none) a = .ok () r ∧
      Gen.expression (.name "x") r = .ok () r' ∧
      a.code.back? = some (Variable.main 0).store ∧ r'.code.back? = some (Variable.main 0).load ∧
      a.global? "x" = some 0 ∧ r'.local? "x" = none ∧
      r'.code = #[.to .loadLocal 0, .to .storeGlobal 0, .to .loadLocal 0, .to .storeLocal 1,
        .to .loadGlobal 0] :=
    ⟨_, _, _, rfl, rfl, rfl, rfl, rfl, rfl, rfl, rfl⟩
  have hentered : relayPlace.Later a := later_statement rfl hassign
  have hmiddle := later_statement hentered.isSome_right hbetween
  have hlater : a.Later r' := hmiddle.trans (later_expression hmiddle.isSome_right hread)
  have hruns : (stepsWithin 1 1 (relayCall r'.code)).any (fun s' =>
      (relayCall r'.code).writes? = some (.main 0) ∧ s'.reads? = some (.call 0) ∧
        (stepsWithin 1 1 s').any fun s₂ => s₂.writes? = some (.call 1) ∧
          (stepsWithin 1 1 s₂).any fun t => t.reads? = some (.main 0) ∧ t.frames.length = 1 ∧
            (stepsWithin 1 1 t).isSome) = true := by
    rw [hcode]
    decide +kernel
  generalize hs : relayCall r'.code = s at hruns
  simp only [Option.any_eq_true, decide_eq_true_eq, Option.isSome_iff_exists] at hruns
  obtain ⟨s', hs', hw, hr₁, s₂, hs₂, hw₂, t, ht, hr, hback, t', ht'⟩ := hruns
  obtain ⟨_, ⟨⟩, hstore, -⟩ := stepsWithin_succ hs'
  obtain ⟨_, ⟨⟩, hstep₁, hdepth₁⟩ := stepsWithin_succ hs₂
  obtain ⟨_, ⟨⟩, hstep₂, hdepth₂⟩ := stepsWithin_succ ht
  obtain ⟨_, ⟨⟩, hload, -⟩ := stepsWithin_succ ht'
  have hlength : s.frames.length = 1 := by
    rw [← hs]
    rfl
  have hkept : Kept s.frames.length (.main 0) s' t := by
    rw [hlength]
    refine .step (.step .refl (spares_of_reads hr₁ _) hstep₁ hdepth₁) ?_ hstep₂ hdepth₂
    exact spares_of_ne (State.next?_of_writes? hw₂) (by decide) _
  obtain ⟨stored, loaded, hstored', hloaded', -, hvalue⟩ :=
    read_after_assignment hassign hread (.inl hlater)
  cases Variable.store_inj (Option.some.inj (hstored'.symm.trans hstored))
  cases Variable.load_inj (Option.some.inj (hloaded'.symm.trans hloaded))
  have hnext := State.next?_of_writes? hw
  have hnext' := State.next?_of_reads? hr
  obtain ⟨v, htop, hassigned⟩ := hvalue s s' t t' hnext hstore hkept
    (hback.trans hlength.symm) hnext' hload
  rw [if_neg (by simp [hlocal])] at hassigned
  exact ⟨a, r, r', s, s', t, t', v, hassign, hbetween, hread, hlater, hs.symm, hnext, hstore, hkept,
    hnext', hload, hassigned, htop⟩

end Wide

/-- A function that assigns to its parameter, which has the name of a global variable, and returns
it. -/
def Program.shadowing : Program :=
  [.declare "x" (some (.literal (.int 1))) none,
   .function "f" ["x"] [.assign "x" (.literal (.int 5)), .returnValue (some (.name "x"))],
   .declare "y" (some (.call (.name "f") [.literal (.int 2)])) none]

open Wide in
/-- The assignment goes to the global variable, and what is returned is the argument. -/
theorem assignment_not_read : ∃ c s₀ t, Program.shadowing.compile = .ok c ∧
    State.load {} c.bytes = .ok s₀ ∧ Reached s₀ t ∧ t.next?.map (·.op) = some .halt ∧
    t.globals.toList.map Value.int? = [some 5, none, some 2] := by
  exact exists_of_runOf 12 (by decide +kernel) (by decide +kernel)

end StackScript
