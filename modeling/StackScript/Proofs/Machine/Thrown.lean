import StackScript.Proofs.Machine.Guarded

/-!
# Where a throw leads

A throw inside a try statement leads to the first clause of the statement, and the clauses are tried
one after the other until one is for the exception. That holds in the body of the statement, and in
its clauses as well, whose handler is still there. No throw ends a call.

* `throw_caught`: a throw inside a try statement comes to the first clause that is for it;
* `call_survives_throw`: a call that throws goes on behind the throw.
-/

namespace StackScript

namespace Wide

/-! ## Clauses -/

/-- Is the clause that begins at an index for exceptions of a type? It is if it names no type. -/
def State.catches? (w : State) (type : String) (n : Nat) : Option Bool :=
  match w.outline.code[n]?, w.constants with
  | some ⟨.catchBegin, .null⟩, _ => some true
  | some ⟨.catchBegin, .int k⟩, .list ref =>
    match Value.arrayItem (w.store.list ref) (.int k) with
    | .ok (.str name) => some (type == name)
    | _ => none
  | _, _ => none

variable {w : State}

theorem State.jump_jump (w : State) (c d : Counter) : (w.jump c).jump d = w.jump d := by
  unfold State.jump
  cases w.frames <;> rfl

theorem State.store_jump (w : State) (c : Counter) : (w.jump c).store = w.store := by
  unfold State.jump
  split <;> rfl

theorem State.routines_jump (w : State) (c : Counter) :
    (w.jump c).frames.map (·.routine) = w.frames.map (·.routine) := by
  unfold State.jump
  split
  · rename_i hframes
    rw [hframes, List.map_cons, List.map_cons]
  · rfl

theorem State.catches?_jump (w : State) (c : Counter) (type : String) (n : Nat) :
    (w.jump c).catches? type n = w.catches? type n := by
  rw [State.catches?, State.catches?, w.code_jump, w.constants_jump, w.store_jump]

variable {i : Instruction} {n : Nat}

/-- A clause that is asked about an exception pushes it or is passed. -/
theorem Act.catchBegin_eq {operand : Datum} {ref : Nat} {found : Bool} {type : String}
    (hcode : w.outline.code[n]? = some ⟨.catchBegin, operand⟩) (hcurrent : w.current = some ref)
    (htype : (w.store.exceptions.getD ref default).type = .str type)
    (hfound : w.catches? type n = some found) : Act.catchBegin operand w =
      (if found then Act.push (.exception ref) else Act.leaveCatch) w := by
  rw [Act.catchBegin, bind_of_ok (show (get : Act State) w = .ok w w from rfl), hcurrent]
  unfold State.catches? at hfound
  rw [hcode] at hfound
  split at hfound
  · rename_i hnull
    cases hnull
    cases hfound
    rfl
  · rename_i k list hint hconstants
    cases hint
    split at hfound
    · rename_i name hitem
      cases hfound
      have hfetch : Value.item (.list list) (.int k) w.store = .ok (.str name) w.store := by
        show Op.ofExcept (Value.arrayItem (w.store.list list) (.int k)) w.store = _
        rw [hitem]
        rfl
      have hconstant : Act.constant (.int k) w = .ok (.str name) w := by
        show Act.op (Value.item w.constants (.int k)) w = _
        rw [hconstants, Act.op, hfetch]
      show (Act.constant (.int k) >>= fun type => do
        let s ← get
        if Value.same s.store (s.store.exceptions.getD ref default).type type then
          Act.push (.exception ref)
        else Act.leaveCatch) w = _
      rw [bind_of_ok hconstant]
      show (if Value.same w.store (w.store.exceptions.getD ref default).type (.str name) = true then
        Act.push (.exception ref) else Act.leaveCatch) w = _
      rw [htype]
      rfl
    · cases hfound
  · cases hfound

/-! ## Steps -/

theorem stepsWithin_of_step {depth : Nat} {s t : State} (h : Act.step s = .ok () t)
    (hdeep : depth ≤ t.frames.length) :
    ∀ count, stepsWithin depth (count + 1) s = stepsWithin depth count t
  | 0 => by simp [stepsWithin, h, hdeep]
  | count + 1 => by
    rw [stepsWithin, stepsWithin_of_step h hdeep count]
    rfl

theorem State.fetched_at (hn : w.outline.counter = .at n) :
    w.fetched = w.jump (.at (n + 1 : Nat)) := by
  rw [State.fetched, hn, Counter.next_at]
  rfl

/-- An exception of a type is under way. -/
structure Facing (w : State) (type : String) (ref : Nat) : Prop where
  current : w.current = some ref
  type : (w.store.exceptions.getD ref default).type = .str type
  small : w.outline.code.size ≤ Value.sizeLimit

namespace Facing

variable {type : String} {ref n last : Nat} {found : Bool}

theorem jump (h : Facing w type ref) (c : Counter) : Facing (w.jump c) type ref where
  current := (w.current_jump _).trans h.current
  type := by
    rw [w.store_jump]
    exact h.type
  small := by
    rw [w.code_jump]
    exact h.small

/-- What the first instruction of a clause makes of the exception. -/
theorem step (h : Facing w type ref) (hn : w.outline.counter = .at n)
    (hclause : ClauseAt w.outline.code n last) (hfound : w.catches? type n = some found) :
    Act.step w = .ok () (if found then
      { w.jump (.at (n + 1 : Nat)) with stack := .exception ref :: w.stack }
      else w.jump (.at (last + 1 : Nat))) := by
  obtain ⟨⟨_, operand⟩, hi, rfl⟩ := hclause.begins
  have hnext := h.jump (.at (n + 1 : Nat))
  rw [Act.step_at hn hi h.small, State.fetched_at hn]
  show Act.catchBegin operand _ = _
  rw [Act.catchBegin_eq (n := n) (by rwa [w.code_jump]) hnext.current hnext.type
    (by rwa [w.catches?_jump])]
  cases found with
  | true =>
    rw [← w.stack_jump (.at (n + 1 : Nat))]
    rfl
  | false =>
    have hleave : Act.leaveCatch (w.jump (.at (n + 1 : Nat))) = _ :=
      (bind_of_ok (Act.run_code _)).trans (bind_of_ok (Act.run_counter _))
    show Act.leaveCatch _ = _
    rw [hleave, State.counter_jump, w.code_jump, hclause.skipCatch_eq h.small]
    exact congrArg (EStateM.Result.ok ()) (w.jump_jump _ _)

/-- The exception comes to the first clause that is for it. -/
theorem caught (h : Facing w type ref) {before after : List (Nat × Nat)} {clause : Nat × Nat}
    {exit : Nat} (hn : w.outline.counter = .at n)
    (hchain : CatchChain w.outline.code n (before ++ clause :: after) exit)
    (hbefore : ∀ other ∈ before, w.catches? type other.1 = some false)
    (hclause : w.catches? type clause.1 = some true) :
    stepsWithin w.frames.length (before.length + 1) w =
      some { w.jump (.at (clause.1 + 1 : Nat)) with stack := .exception ref :: w.stack } := by
  induction before generalizing w n with
  | nil =>
    obtain ⟨rfl, hat, -⟩ := hchain
    exact stepsWithin_of_step (h.step hn hat hclause) (Nat.le_of_eq (w.length_jump _).symm) 0
  | cons other before ih =>
    obtain ⟨rfl, hat, hrest⟩ := hchain
    have hstep := h.step hn hat (hbefore other List.mem_cons_self)
    have hlevel := w.length_jump (.at (other.2 + 1 : Nat))
    rw [List.length_cons, stepsWithin_of_step hstep (Nat.le_of_eq hlevel.symm), ← hlevel]
    rw [← w.code_jump (.at (other.2 + 1 : Nat))] at hrest
    have hcaught := ih (h.jump _) (State.counter_jump _ _) hrest (fun c hc => ?_) ?_
    · rw [w.jump_jump, w.stack_jump] at hcaught
      exact hcaught
    · rw [w.catches?_jump]
      exact hbefore c (List.mem_cons_of_mem _ hc)
    · rwa [w.catches?_jump]

end Facing

/-! ## Throws -/

/-- The top of the stack is taken, and an exception with its text is under way. -/
def State.thrown (w : State) (rest : List Value) (message : String) : State :=
  let cell := { arguments := [.str message], message := .str message, type := .str "Exception" }
  { w with
    stack := rest
    store := { w.store with exceptions := w.store.exceptions.push cell }
    current := some w.store.exceptions.size }

theorem State.thrown_jump (w : State) (c : Counter) (rest : List Value) (message : String) :
    (w.jump c).thrown rest message = (w.thrown rest message).jump c := by
  unfold State.jump State.thrown
  cases w.frames <;> rfl

theorem Act.throwTop_eq {v : Value} {rest : List Value} {message : String}
    (hstack : w.stack = v :: rest) (htext : Value.text w.store v = .ok message) :
    Act.throwTop w = Act.raise w.store.exceptions.size (w.thrown rest message) := by
  have hread : Op.ask (Value.text · v) w.store = .ok message w.store := by
    show Op.ofExcept (Value.text w.store v) w.store = _
    rw [htext]
    rfl
  have hask : Act.ask (Value.text · v) { w with stack := rest } =
      .ok message { w with stack := rest } := by
    simp only [Act.ask, Act.op, hread]
  rw [Act.throwTop, bind_of_ok (Act.pop_cons hstack), bind_of_ok hask]
  rfl

section Block

variable {b : TrySpan} {n : Nat} {v : Value} {rest : List Value} {message : String}
  {below : List Handler} {operand : Datum} (hb : b.In w.outline.code)
  (hn : w.outline.counter = .at n) (hi : w.outline.code[n]? = some ⟨.throwTop, operand⟩)
  (hhandlers : w.handlers = b.handler w.frames.length :: below) (hstack : w.stack = v :: rest)
  (htext : Value.text w.store v = .ok message)

include hb hn hi hhandlers hstack htext

/-- A throw in reach of the handler of a try block leads to the first clause of the block. -/
theorem Act.step_throw :
    Act.step w = .ok () ((w.thrown rest message).jump (.at (b.stop + 1 : Nat))) := by
  have hraised := State.raised_own (w := (w.thrown rest message).jump (.at (n + 1 : Nat)))
    w.store.exceptions.size (State.length_jump _ _) ((State.handlers_jump _ _).trans hhandlers)
  rw [State.jump_jump] at hraised
  rw [Act.step_at hn hi hb.small, State.fetched_at hn]
  show Act.throwTop _ = _
  rw [Act.throwTop_eq ((w.stack_jump _).trans hstack) ((w.store_jump _).symm ▸ htext),
    w.thrown_jump, w.store_jump, Act.run_raise, hraised]
  unfold State.jump
  cases (w.thrown rest message).frames <;> rfl

theorem stepsWithin_throw {before after : List (Nat × Nat)} {clause : Nat × Nat}
    (hclauses : b.clauses = before ++ clause :: after)
    (hbefore : ∀ other ∈ before, w.catches? "Exception" other.1 = some false)
    (hclause : w.catches? "Exception" clause.1 = some true) :
    stepsWithin w.frames.length (before.length + 2) w =
      some { (w.thrown rest message).jump (.at (clause.1 + 1 : Nat)) with
        stack := .exception w.store.exceptions.size :: rest } := by
  have hstep := Act.step_throw hb hn hi hhandlers hstack htext
  have hfacing : Facing (w.thrown rest message) "Exception" w.store.exceptions.size :=
    ⟨rfl, by simp [State.thrown], hb.small⟩
  have hlevel : ((w.thrown rest message).jump (.at (b.stop + 1 : Nat))).frames.length =
      w.frames.length := State.length_jump _ _
  rw [stepsWithin_of_step hstep (Nat.le_of_eq hlevel.symm)]
  have hchain := hclauses ▸ hb.chain
  have hcaught := (hfacing.jump (.at (b.stop + 1 : Nat))).caught (State.counter_jump _ _)
    (by rwa [State.code_jump]) (fun other hother => ?_) ?_
  · rw [State.jump_jump, State.stack_jump, hlevel] at hcaught
    exact hcaught
  · rw [State.catches?_jump]
    exact hbefore other hother
  · rw [State.catches?_jump]
    exact hclause

end Block

theorem Act.routines_throw {z : State} (hnext : w.next? = some i)
    (hop : i.op = .throwTop) (hstep : Act.step w = .ok () z) :
    z.frames.map (·.routine) = w.frames.map (·.routine) := by
  have heffect := Act.effect_of_next hnext hstep
  simp only [Wide.Effect, hop] at heffect
  obtain ⟨ref, hraised⟩ := heffect
  have hframes : z.rest.frames.map (·.routine) = w.rest.fetched.frames.map (·.routine) := by
    unfold State.raised at hraised
    split at hraised
    · rename_i handler below _
      rw [← Option.some.inj hraised]
      show (State.lead _ _).frames.map _ = _
      unfold State.lead
      split
      · rename_i hframes
        rw [hframes, List.map_cons, List.map_cons]
      · rfl
    · cases hraised
  exact hframes.trans (State.routines_jump _ _)

/-- While a try block is open, its handler is the latest one. -/
theorem Stage.handlers_of_throw {b : TrySpan} {own : Handler} {below : List Handler} {trace : Trace}
    (h : Stage b own below trace w) (hb : b.In w.outline.code)
    (hcounter : w.outline.counter = .at n) (hn : n < b.exit) (hi : w.outline.code[n]? = some i)
    (hop : i.op = .throwTop) : w.handlers = own :: below := by
  cases h with
  | «open» _ _ _ hhandlers | ended _ _ hhandlers => exact hhandlers
  | handled hm hborder =>
    rw [hcounter] at hm
    injection hm with hm
    obtain rfl : n = _ := Int.ofNat.inj hm
    rcases hborder with rfl | ⟨last, hmem⟩
    · exact absurd hn (Nat.lt_irrefl _)
    · cases (holds_at (hb.chain.clause hmem).1.begins hi).symm.trans hop
  | left hz hneg =>
    rw [hcounter] at hz
    injection hz with hz
    omega

/-- A throw ends no call. In a try statement, of whatever program, it comes to the first clause that
is for its exception, through the clauses before: also if it is one of the clauses that throws. -/
theorem throw_caught {body : List Stmt} {catches : List CatchClause} {last : Option (List Stmt)}
    (hflat : FlatTry body catches) {s s₁ : State} {start stop : Nat}
    (hstands : (Stmt.tryBlock body catches last).StandsIn s.outline.code start stop)
    (hsize : s.outline.code.size ≤ Value.sizeLimit)
    (hstart : s.outline.counter = .at start) (hbegin : Act.step s = .ok () s₁) :
    (∀ y z i, y.next? = some i → i.op = .throwTop → Act.step y = .ok () z →
      z.frames.map (·.routine) = y.frames.map (·.routine)) ∧
    ∃ b : TrySpan, b.Covers s.outline.code start stop catches last ∧
      ∀ trace y (n : Nat) i v rest message, Along (start + 1) b.exit s₁ trace y →
        y.outline.counter = .at n → n < b.exit → y.next? = some i → i.op = .throwTop →
        y.stack = v :: rest → Value.text y.store v = .ok message →
        ∀ before clause after, b.clauses = before ++ clause :: after →
          (∀ other ∈ before, y.catches? "Exception" other.1 = some false) →
          y.catches? "Exception" clause.1 = some true →
          ∃ u, stepsWithin s.frames.length (before.length + 2) y = some u ∧
            u.outline.code = s.outline.code ∧ u.outline.counter = .at (clause.1 + 1 : Nat) ∧
            u.frames.length = s.frames.length ∧
            u.handlers = b.handler s.frames.length :: s.handlers ∧
            u.stack = .exception y.store.exceptions.size :: rest ∧
            u.store = (y.thrown rest message).store := by
  refine ⟨fun _ _ _ => Act.routines_throw, ?_⟩
  obtain ⟨b, hb⟩ := hflat.covers hstands hsize
  obtain rfl := hb.starts
  refine ⟨b, hb, fun trace y n i v rest message hrun hn hlt hnext hop hstack htext before clause
    after hclauses hbefore hclause => ?_⟩
  obtain ⟨hstage, hcode, hlength⟩ := hrun.inside hb.toIn hstart hbegin
  have hi := State.code_of_next hn hnext
  have hown := hstage.handlers_of_throw (hcode.symm ▸ hb.toIn) hn hlt hi hop
  obtain ⟨_, operand⟩ := i
  cases hop
  rw [← hlength] at hown ⊢
  have hcaught := stepsWithin_throw (hcode.symm ▸ hb.toIn) hn hi hown hstack htext hclauses hbefore
    hclause
  exact ⟨_, hcaught, (State.code_jump _ _).trans hcode, State.counter_jump _ _,
    State.length_jump _ _, (State.handlers_jump _ _).trans hown, rfl, State.store_jump _ _⟩

end Wide

open Wide in
theorem throw_caught_choosy : ∃ (b : TrySpan) (s s₁ y u : State) (trace : Trace)
    (i : Instruction) (v : Value), FlatTry throwing choosy ∧
    (Stmt.tryBlock throwing choosy none).StandsIn s.outline.code 0 10 ∧
    s.outline.code.size ≤ Value.sizeLimit ∧ s.outline.counter = .at 0 ∧
    Act.step s = .ok () s₁ ∧ b.Covers s.outline.code 0 10 choosy none ∧ Along 1 10 s₁ trace y ∧
    y.outline.counter = .at 2 ∧ y.next? = some i ∧ i.op = .throwTop ∧ y.stack = [v] ∧
    Value.text y.store v = .ok "no" ∧ y.catches? "Exception" 4 = some false ∧
    y.catches? "Exception" 7 = some true ∧ stepsWithin s.frames.length 3 y = some u ∧
    u.outline.counter = .at 8 := by
  have hrun : (attempt (.tryBlock throwing choosy none) 1).any (fun (stop, s, _, _, y) =>
      stop = 10 ∧ y.place? = some 2 ∧ y.next?.map (·.op) = some .throwTop ∧
      y.stack.map (fun v => (Value.text y.store v).toOption) = [some "no"] ∧
      (List.range 10).filter (fun n => s.outline.code[n]?.any (·.op = .catchBegin)) = [4, 7] ∧
      y.catches? "Exception" 4 = some false ∧ y.catches? "Exception" 7 = some true) = true := by
    decide +kernel
  simp only [Option.any_eq_true, decide_eq_true_eq] at hrun
  obtain ⟨⟨_, s, s₁, trace, y⟩, hrun, rfl, hplace, hnext, hstack, hbegins, hfirst, hsecond⟩ := hrun
  obtain ⟨hstands, hstart, hsize, hbegin, halong⟩ := attempt_eq_some hrun
  have hsmall : s.outline.code.size ≤ Value.sizeLimit := hsize.trans_le (by decide)
  obtain ⟨i, hi, hop⟩ := Option.map_eq_some_iff.1 hnext
  obtain ⟨v, hv, htext⟩ := List.map_eq_singleton_iff.1 hstack
  have htext := eq_ok_of_toOption htext
  have hn := State.counter_of_place? hplace
  obtain ⟨-, b, hb, hall⟩ := throw_caught flatTry_choosy hstands hsmall hstart hbegin
  have hexit := hb.exit_eq rfl
  -- The clauses of the block are at the two places where one begins.
  have hat : ∀ clause ∈ b.clauses, clause.1 = 4 ∨ clause.1 = 7 := by
    intro clause hmem
    obtain ⟨hclause, -, hlast, -⟩ := hb.chain.clause hmem
    obtain ⟨j, hj, hcatch⟩ := hclause.begins
    have hle := hclause.lt
    have hplace : clause.1 ∈ [4, 7] := by
      rw [← hbegins, List.mem_filter, List.mem_range, hj]
      exact ⟨by omega, by simp [hcatch]⟩
    simpa using hplace
  obtain ⟨first, second, hclauses⟩ := List.length_eq_two.1 hb.count
  have hchain := hb.chain
  rw [hclauses] at hchain hat
  obtain ⟨-, hclause, hbehind, -⟩ := hchain
  have hle := hclause.lt
  have hfirst' := hat first List.mem_cons_self
  have hsecond' := hat second (List.mem_cons_of_mem _ List.mem_cons_self)
  have hplaces : first.1 = 4 ∧ second.1 = 7 := by omega
  obtain ⟨u, hu, -, hcounter, -⟩ := hall trace y 2 i v [] "no" (hexit ▸ halong) hn (by omega) hi hop
    hv htext [first] second [] hclauses (by simpa [hplaces.1] using hfirst) (by rwa [hplaces.2])
  exact ⟨b, s, s₁, y, u, trace, i, v, flatTry_choosy, hstands, hsmall, hstart, hbegin, hb,
    halong, hn, hi, hop, hv, htext, hfirst, hsecond, hu, by rw [hcounter, hplaces.2]; rfl⟩

/-- A function throws, and the call of it is in a try statement. -/
def Program.escape : Program :=
  [.function "f" [] throwing,
   .tryBlock [.expression (.call (.name "f") [])] [(none, none, [.pass])] none]

open Wide in
/-- The call of the function is not over after the throw: it goes on with its next instruction. -/
theorem call_survives_throw : ∃ c s₀ s t, Program.escape.compile = .ok c ∧
    State.load {} c.bytes = .ok s₀ ∧ Reached s₀ s ∧ s.next?.map (·.op) = some .throwTop ∧
    s.handlers.length = 1 ∧ s.frames.length = 1 ∧ Act.step s = .ok () t ∧ t.frames.length = 1 ∧
    s.place? = some 1 ∧ t.place? = some 2 := by
  have hrun : (callOf Program.escape 6 0).any (fun (s, t, _) =>
      s.next?.map (·.op) = some .throwTop ∧ s.handlers.length = 1 ∧ s.frames.length = 1 ∧
      t.frames.length = 1 ∧ s.place? = some 1 ∧ t.place? = some 2) = true := by
    decide +kernel
  simp only [Option.any_eq_true, decide_eq_true_eq] at hrun
  obtain ⟨⟨s, t, _⟩, hcall, hnext, hhandlers, hs, ht, hplaces⟩ := hrun
  obtain ⟨c, s₀, hc, hload, hreached, hstep, -⟩ := callOf_eq_some (by decide +kernel) hcall
  exact ⟨c, s₀, s, t, hc, hload, hreached, hnext, hhandlers, hs, hstep, ht, hplaces⟩

end StackScript
