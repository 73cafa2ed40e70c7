import StackScript.Proofs.Code.TryBlock
import StackScript.Proofs.Machine.Turn

/-!
# The handler of a try block

The first instruction of a try block sets up a handler, and only the end of a catch clause takes one
away. A try block whose body comes to its end jumps behind the first of its clauses, so its handler
stays; if a clause has caught an exception, the handler is gone behind it.

* `handlers_after_try`: behind a try block the handlers are what they were before exactly if a clause
  has come to its end;
* `handler_left_by_try`: after a try block that throws nothing they are not.
-/

namespace StackScript

theorem holds_at {code : Array Instruction} {n : Nat} {i : Instruction} {P : Instruction → Prop}
    (h : ∃ j ∈ code[n]?, P j) (hi : code[n]? = some i) : P i := by
  obtain ⟨j, hj, hP⟩ := h
  cases hi.symm.trans hj
  exact hP

/-- The handler of a try block in the code of a call, or in the main program. -/
def TrySpan.handler (b : TrySpan) (depth : Nat) : Wide.Handler :=
  { catchAt := (b.stop + 1 : Nat), inCall := decide (0 < depth) }

namespace Wide

/-! ## Runs in a stretch of code -/

/-- What a call has performed, the last instruction first, each with the exception that was under
way before it. -/
abbrev Trace : Type := List (Opcode × Option Nat)

/-- The turns of a call from one state to another, each from an index of a stretch of its code. -/
inductive Along (lo hi : Nat) (s : State) : Trace → State → Prop
  | refl : Along lo hi s [] s
  | turn {trace : Trace} {t u : State} {n : Nat} {i : Instruction} : Along lo hi s trace t →
      t.outline.counter = .at n → lo ≤ n → n < hi → t.next? = some i → Turn t u →
      Along lo hi s ((i.op, t.current) :: trace) u

/-! ## Effects inside a try block -/

section Inside

variable {b : TrySpan} {depth : Nat} {below : List Handler} {w w' : State} {i : Instruction}
  {n : Nat}

theorem State.counter_jump (w : State) (target : Counter) :
    (w.jump target).outline.counter = target := by
  rw [w.outline_jump, Outline.counter_jump]

theorem State.counter_fetched (h : w.outline.counter = .at n) :
    w.fetched.outline.counter = .at (n + 1 : Nat) := by
  rw [State.fetched, State.counter_jump, h, Counter.next_at]
  rfl

/-- The handler that the first instruction of a try block sets up. -/
theorem newHandler_of_try (hb : b.In w.outline.code)
    (hcounter : w.outline.counter = .at (b.start + 1 : Nat)) :
    w.newHandler = b.handler w.frames.length := by
  have hstart : w.outline.counter.indexD + 1 = (b.start + 2 : Nat) := by
    rw [hcounter]
    rfl
  have hfuel : (w.outline.code.size - (b.start + 2 : Nat) : Int).toNat =
      w.outline.code.size - (b.start + 2) := by omega
  have hcall : (!w.frames.isEmpty) = decide (0 < w.frames.length) := by
    cases w.frames <;> rfl
  rw [State.newHandler, hstart, hfuel, hb.findCatch_eq, hcall]
  rfl

/-- The handler of a block is the next one, wherever its last block is. -/
def State.Armed (b : TrySpan) (depth : Nat) (below : List Handler) (w : State) : Prop :=
  ∃ finallyAt, w.handlers = { b.handler depth with finallyAt } :: below

/-- An exception in reach of the handler leads to the first clause of the block. -/
theorem State.Armed.raised (h : w.Armed b depth below) (ref : Nat) (hdepth : w.frames.length = depth) :
    w.raised ref = some { w.jump (.at (b.stop + 1 : Nat)) with current := some ref } := by
  obtain ⟨finallyAt, hhandlers⟩ := h
  have husable : Act.usable w.handlers = { b.handler depth with finallyAt } :: below := by
    rw [hhandlers, Act.usable, List.dropWhile_cons_of_neg]
    simp [TrySpan.handler]
    omega
  rw [State.raised, husable]
  unfold State.lead State.jump
  cases hframes : w.frames <;> simp [TrySpan.handler, ← hdepth, hframes, hhandlers]

theorem State.raised_own (ref : Nat) (hdepth : w.frames.length = depth)
    (hhandlers : w.handlers = b.handler depth :: below) :
    w.raised ref = some { w.jump (.at (b.stop + 1 : Nat)) with current := some ref } :=
  State.Armed.raised ⟨none, hhandlers⟩ ref hdepth

/-- An instruction that belongs to no try block leaves the handlers, moves the counter or throws. -/
theorem Effect.unguarded (h : Effect i w w') (hop : i.op ∉ Opcode.guarding)
    (hlength : w'.frames.length = w.frames.length) :
    w'.outline = w.outline ∧ w'.handlers = w.handlers ∨
      (i.op ∈ Shape.jumps ∧ w' = w.jump (.ofOperand i.operand)) ∨
      ∃ ref, w.raised ref = some w' := by
  have storing (h : (∃ globals, w' = { w with globals }) ∨ ∃ frame rest locals,
      w.frames = frame :: rest ∧ w' = { w with frames := { frame with locals } :: rest }) :
      w'.outline = w.outline ∧ w'.handlers = w.handlers := by
    rcases h with ⟨globals, rfl⟩ | ⟨frame, rest, locals, hframes, rfl⟩
    · exact ⟨rfl, rfl⟩
    · exact ⟨by simp [State.outline, hframes, bareFrame], rfl⟩
  have same (h : w' = w) : w'.outline = w.outline ∧ w'.handlers = w.handlers := by
    rw [h]
    exact ⟨rfl, rfl⟩
  unfold Effect at h
  split at h
  case h_1 hjump => exact .inr (.inl ⟨by rw [hjump]; decide, h⟩)
  case h_2 hjump | h_3 hjump | h_4 hjump =>
    exact h.imp same fun h => .inl ⟨by rw [hjump]; decide, h⟩
  case h_5 | h_6 | h_7 => exact .inl (storing h)
  case h_8 =>
    rcases h with rfl | ⟨name, routine, locals, -, rfl⟩
    · exact .inl ⟨rfl, rfl⟩
    · simp [State.enter] at hlength
  case h_9 =>
    subst h
    unfold State.leave at hlength ⊢
    split
    · rename_i hframes
      simp [hframes] at hlength
    · exact .inl ⟨rfl, rfl⟩
  case h_10 => exact h.elim
  case h_17 => exact .inr (.inr h)
  case h_19 => exact .inl (same h)
  all_goals simp_all [Opcode.guarding]

/-- In a stretch without try blocks control stays inside, leaves everything, or an exception is
raised. -/
theorem TurnEffect.wanders {lo hi : Nat} (hroams : i.Roams lo hi)
    (hcounter : w.outline.counter = .at (n + 1 : Nat)) (hlo : lo ≤ n) (hhi : n < hi)
    (h : TurnEffect i w w') (hlength : w'.frames.length = w.frames.length) :
    (∃ z < 0, w'.outline.counter = .at z) ∨
      (w'.handlers = w.handlers ∧ ∃ m : Nat, w'.outline.counter = .at m ∧ lo ≤ m ∧ m ≤ hi) ∨
      ∃ ref, w.raised ref = some w' := by
  have hstays : w'.outline = w.outline ∧ w'.handlers = w.handlers →
      w'.handlers = w.handlers ∧ ∃ m : Nat, w'.outline.counter = .at m ∧ lo ≤ m ∧ m ≤ hi := by
    rintro ⟨houtline, hsame⟩
    exact ⟨hsame, n + 1, houtline ▸ hcounter, by omega, hhi⟩
  obtain ⟨hop, hjumps⟩ := hroams
  rcases h with heffect | ⟨-, hcall⟩
  · rcases heffect.unguarded hop hlength with hsame | ⟨hjump, rfl⟩ | hraised
    · exact .inr (.inl (hstays hsame))
    · obtain ⟨target, htarget, hbounds⟩ := hjumps hjump
      have hcounter' : (w.jump (.ofOperand i.operand)).outline.counter = .at target := by
        rw [htarget, State.counter_jump, Counter.ofOperand_int]
      rcases hbounds with hneg | ⟨hlow, hhigh⟩
      · exact .inl ⟨target, hneg, hcounter'⟩
      · obtain ⟨m, rfl⟩ := Int.eq_ofNat_of_zero_le (show 0 ≤ target by omega)
        exact .inr (.inl ⟨w.handlers_jump _, m, hcounter', by omega, by omega⟩)
    · exact .inr (.inr hraised)
  · exact .inr (.inl (hstays hcall))

/-- If the handler of a block is there, the exception goes to its first clause. -/
theorem TurnEffect.roams {lo hi : Nat} (hroams : i.Roams lo hi) (hdepth : w.frames.length = depth)
    (hcounter : w.outline.counter = .at (n + 1 : Nat)) (hlo : lo ≤ n) (hhi : n < hi)
    (hhandlers : w.handlers = b.handler depth :: below) (h : TurnEffect i w w')
    (hlength : w'.frames.length = depth) :
    (∃ z < 0, w'.outline.counter = .at z) ∨ w'.handlers = b.handler depth :: below ∧
      ∃ m : Nat, w'.outline.counter = .at m ∧ (lo ≤ m ∧ m ≤ hi ∨ m = b.stop + 1) := by
  rcases h.wanders hroams hcounter hlo hhi (hlength.trans hdepth.symm) with
    hleft | ⟨hsame, m, hm, hbounds⟩ | ⟨ref, hraised⟩
  · exact .inl hleft
  · exact .inr ⟨hsame.trans hhandlers, m, hm, .inl hbounds⟩
  · rw [State.raised_own ref hdepth hhandlers] at hraised
    cases hraised
    exact .inr ⟨(w.handlers_jump _).trans hhandlers, b.stop + 1, State.counter_jump _ _, .inr rfl⟩

/-- A clause that is not for the exception, if there is one, is passed. -/
theorem State.counter_declined {first last : Nat} (hclause : ClauseAt w.outline.code first last)
    (hsize : w.outline.code.size ≤ Value.sizeLimit)
    (hcounter : w.outline.counter = .at (first + 1 : Nat)) :
    w.declined.outline.counter = .at (last + 1 : Nat) := by
  rw [State.declined, State.counter_jump, hcounter]
  exact hclause.skipCatch_eq hsize

/-- Without an exception the clauses are passed one after the other. -/
theorem TurnEffect.passes_clause (hb : b.In w.outline.code)
    (hcounter : w.outline.counter = .at (n + 1 : Nat)) (hborder : b.Border n) (hlt : n < b.exit)
    (hi : w.outline.code[n]? = some i) (hcurrent : w.current = none) (h : TurnEffect i w w') :
    i.op = .catchBegin ∧ w'.handlers = w.handlers ∧ w'.current = none ∧
      ∃ m : Nat, w'.outline.counter = .at m ∧ b.Border m := by
  rcases hborder with rfl | ⟨last, hmem⟩
  · omega
  · obtain ⟨hclause, -, -, hnext⟩ := hb.chain.clause hmem
    have hop := holds_at hclause.begins hi
    have heffect := h.effect (by rw [hop]; decide)
    simp only [Effect, hop] at heffect
    rcases heffect with ⟨hne, -⟩ | rfl
    · exact absurd hcurrent hne
    · exact ⟨hop, w.handlers_jump _, (w.current_jump _).trans hcurrent, last + 1,
        State.counter_declined hclause hb.small hcounter, hnext⟩

end Inside

/-! ## Stages -/

/-- No clause has come to its end. -/
def Trace.Unhandled (trace : Trace) : Prop := ∀ e, (.catchEnd, e) ∉ trace

/-- How far a call is with a try block, and which handlers there are. -/
inductive Stage (b : TrySpan) (own : Handler) (below : List Handler) (trace : Trace)
    (w : State) : Prop
  /-- The call is in the body or in the clauses. -/
  | open {n : Nat} (hcounter : w.outline.counter = .at n) (hlo : b.start < n) (hhi : n ≤ b.exit)
      (hhandlers : w.handlers = own :: below) (hunhandled : trace.Unhandled)
      (hunended : (.tryEnd, none) ∉ trace)
  /-- A clause has come to its end. -/
  | handled {n : Nat} (hcounter : w.outline.counter = .at n) (hborder : b.Border n)
      (hhandlers : w.handlers = below) (hcurrent : w.current = none)
      (hhandled : ∃ e, (.catchEnd, e) ∈ trace) (hunended : (.tryEnd, none) ∉ trace)
  /-- The body has come to its end, and there was no exception. -/
  | ended {n : Nat} (hcounter : w.outline.counter = .at n) (hborder : b.Border n)
      (hhandlers : w.handlers = own :: below) (hcurrent : w.current = none)
      (hunhandled : trace.Unhandled) (hended : (.tryEnd, none) ∈ trace)
  | left {z : Int} (hcounter : w.outline.counter = .at z) (hz : z < 0)

namespace Stage

variable {b : TrySpan} {depth : Nat} {below : List Handler} {trace : Trace} {w w' : State}
  {i : Instruction} {n : Nat}

theorem of_roams {lo hi : Nat} (hroams : i.Roams lo hi) (hlo : b.start < lo) (hhi : hi ≤ b.exit)
    (hstart : b.start ≤ b.stop) (hstop : b.stop < b.exit) (hunhandled : trace.Unhandled)
    (hunended : (.tryEnd, none) ∉ trace)
    (h : (∃ z < 0, w'.outline.counter = .at z) ∨ w'.handlers = b.handler depth :: below ∧
      ∃ m : Nat, w'.outline.counter = .at m ∧ (lo ≤ m ∧ m ≤ hi ∨ m = b.stop + 1)) :
    Stage b (b.handler depth) below ((i.op, w.current) :: trace) w' := by
  have hother : ∀ {op : Opcode} {e : Option Nat}, op ∈ Opcode.guarding → (op, e) ∉ trace →
      (op, e) ∉ (i.op, w.current) :: trace := by
    intro op e hop hmem he
    rcases List.mem_cons.1 he with heq | he
    · cases heq
      exact hroams.1 hop
    · exact hmem he
  obtain ⟨z, hz, hcounter'⟩ | ⟨hhandlers', m, hcounter', hm⟩ := h
  · exact .left hcounter' hz
  · exact .open hcounter' (by omega) (by omega) hhandlers'
      (fun e => hother (by decide) (hunhandled e)) (hother (by decide) hunended)

section Open

variable (hb : b.In w.outline.code) (hdepth : w.frames.length = depth)
  (hcounter : w.outline.counter = .at (n + 1 : Nat))
  (hhandlers : w.handlers = b.handler depth :: below) (hunhandled : trace.Unhandled)
  (hunended : (.tryEnd, none) ∉ trace) (hi : w.outline.code[n]? = some i)
  (h : TurnEffect i w w') (hlength : w'.frames.length = depth)

include hb hdepth hcounter hhandlers hunhandled hunended hi h hlength

/-- In the body an exception is thrown, or the end of the body is reached, or neither. -/
theorem turn_body (hlo : b.start < n) (hhi : n ≤ b.stop) :
    Stage b (b.handler depth) below ((i.op, w.current) :: trace) w' := by
  obtain ⟨last, hmem⟩ := hb.chain.exists_first hb.caught
  obtain ⟨hclause, -, hexit, hnext⟩ := hb.chain.clause hmem
  have hlt := hclause.lt
  rcases Nat.eq_or_lt_of_le hhi with rfl | hstop
  · have hop := holds_at hb.ends hi
    have heffect := h.effect (by rw [hop]; decide)
    simp only [Effect, hop] at heffect
    have hunhandled' : Trace.Unhandled ((i.op, w.current) :: trace) := by
      simpa [Trace.Unhandled, hop] using hunhandled
    rcases heffect with ⟨hcurrent, rfl⟩ | ⟨hcurrent, rfl⟩
    · refine .ended (n := last + 1) ?_ hnext ((w.handlers_jump _).trans hhandlers)
        ((w.current_jump _).trans hcurrent) hunhandled' ?_
      · rw [State.passed, State.counter_jump, hcounter]
        exact hclause.skipCatches_eq hb.small
      · rw [hop, hcurrent]
        exact List.mem_cons_self
    · refine .open hcounter (by omega) (by omega) hhandlers hunhandled' ?_
      intro he
      rcases List.mem_cons.1 he with heq | he
      · exact hcurrent (congrArg Prod.snd heq).symm
      · exact hunended he
  · have hroams := holds_at (hb.body n hstop hlo) hi
    exact of_roams hroams (Nat.lt_succ_self _) (by omega) (by omega) (by omega) hunhandled hunended
      (h.roams hroams hdepth hcounter hlo hstop hhandlers hlength)

/-- In the clauses an exception is passed on, or comes to the end of its clause, or neither. -/
theorem turn_clause (hlo : b.stop < n) (hhi : n < b.exit) :
    Stage b (b.handler depth) below ((i.op, w.current) :: trace) w' := by
  obtain ⟨first, last, hmem, hfirst, hlast⟩ := hb.chain.locate hlo hhi
  obtain ⟨hclause, hle, hexit, hnext⟩ := hb.chain.clause hmem
  have hlt := hclause.lt
  have hstart := hb.lt
  rcases Nat.eq_or_lt_of_le hfirst with rfl | hfirst
  · have hop := holds_at hclause.begins hi
    have heffect := h.effect (by rw [hop]; decide)
    simp only [Effect, hop] at heffect
    have hunhandled' : Trace.Unhandled ((i.op, w.current) :: trace) := by
      simpa [Trace.Unhandled, hop] using hunhandled
    have hunended' : (.tryEnd, none) ∉ (i.op, w.current) :: trace := by simp [hop, hunended]
    rcases heffect with ⟨-, rfl⟩ | rfl
    · exact .open hcounter (by omega) (by omega) hhandlers hunhandled' hunended'
    · exact .open (State.counter_declined hclause hb.small hcounter) (by omega) (by omega)
        ((w.handlers_jump _).trans hhandlers) hunhandled' hunended'
  rcases Nat.eq_or_lt_of_le hlast with rfl | hlast
  · have hop := holds_at hclause.ends hi
    have heffect := h.effect (by rw [hop]; decide)
    simp only [Effect, hop] at heffect
    subst heffect
    exact .handled hcounter hnext (congrArg List.tail hhandlers) rfl ⟨w.current, by simp [hop]⟩
      (by simp [hop, hunended])
  · have hroams := holds_at (hclause.body n hlast hfirst) hi
    exact of_roams hroams (by omega) (by omega) (by omega) (by omega) hunhandled hunended
      (h.roams hroams hdepth hcounter hfirst hlast hhandlers hlength)

end Open

theorem turn (h : Stage b (b.handler depth) below trace w) (hb : b.In w.outline.code)
    (hdepth : w.frames.length = depth) (hcounter : w.outline.counter = .at n) (hhi : n < b.exit)
    (hi : w.outline.code[n]? = some i) (heffect : TurnEffect i w.fetched w')
    (hlength : w'.frames.length = depth) :
    Stage b (b.handler depth) below ((i.op, w.current) :: trace) w' := by
  have hsame : ∀ {m : Nat}, w.outline.counter = .at m → n = m := by
    intro m hm
    rw [hcounter] at hm
    injection hm with hm
    omega
  -- The instruction finds the counter moved on, and everything else as it was.
  rw [← w.code_fetched] at hb hi
  rw [← w.length_jump w.outline.counter.next] at hdepth
  have hcounter' := State.counter_fetched hcounter
  have hhandlers' : w.fetched.handlers = w.handlers := w.handlers_jump _
  have hcurrent' : w.fetched.current = w.current := w.current_jump _
  rw [← hcurrent']
  cases h with
  | «open» hm hlo _ hhandlers hunhandled hunended =>
    obtain rfl := hsame hm
    have hhandlers := hhandlers'.trans hhandlers
    rcases Nat.lt_or_ge b.stop n with hstop | hstop
    · exact turn_clause hb hdepth hcounter' hhandlers hunhandled hunended hi heffect hlength hstop hhi
    · exact turn_body hb hdepth hcounter' hhandlers hunhandled hunended hi heffect hlength hlo hstop
  | handled hm hborder hhandlers hcurrent hhandled hunended =>
    obtain rfl := hsame hm
    obtain ⟨hop, hsame', hnone, m, hm', hborder'⟩ :=
      heffect.passes_clause hb hcounter' hborder hhi hi (hcurrent'.trans hcurrent)
    obtain ⟨e, he⟩ := hhandled
    exact .handled hm' hborder' (hsame'.trans (hhandlers'.trans hhandlers)) hnone
      ⟨e, List.mem_cons_of_mem _ he⟩ (by simp [hop, hunended])
  | ended hm hborder hhandlers hcurrent hunhandled hended =>
    obtain rfl := hsame hm
    obtain ⟨hop, hsame', hnone, m, hm', hborder'⟩ :=
      heffect.passes_clause hb hcounter' hborder hhi hi (hcurrent'.trans hcurrent)
    exact .ended hm' hborder' (hsame'.trans (hhandlers'.trans hhandlers)) hnone
      (by simpa [Trace.Unhandled, hop] using hunhandled) (List.mem_cons_of_mem _ hended)
  | left hz hneg =>
    rw [hcounter] at hz
    injection hz with hz
    omega

end Stage

variable {w : State} {n : Nat} {i : Instruction} {trace : Trace}

theorem State.code_of_next (hcounter : w.outline.counter = .at n) (h : w.next? = some i) :
    w.outline.code[n]? = some i := by
  obtain ⟨w₁, hfetch⟩ := State.fetch_of_next? h
  have hpick := Act.pick_of_fetch hfetch
  rw [hcounter] at hpick
  exact getElem?_of_pick_at hpick

theorem Along.stage {b : TrySpan} {lo : Nat} {below : List Handler} {s t : State}
    (h : Along lo b.exit s trace t) (hb : b.In s.outline.code)
    (hs : Stage b (b.handler s.frames.length) below [] s.rest) :
    Stage b (b.handler s.frames.length) below trace t.rest ∧
      t.outline.code = s.outline.code ∧ t.frames.length = s.frames.length := by
  induction h with
  | refl => exact ⟨hs, rfl, rfl⟩
  | @turn trace t u n i _ hcounter _ hlt hnext hturn ih =>
    obtain ⟨hstage, hcode, hlength⟩ := ih
    obtain ⟨heffect, hlength'⟩ := hturn.effect hnext
    have hbt : b.In t.rest.outline.code := hcode.symm ▸ hb
    refine ⟨?_, (hturn.code hnext).trans hcode, hlength'.trans hlength⟩
    have hi := State.code_of_next hcounter hnext
    exact hstage.turn hbt hlength hcounter hlt hi heffect (hlength'.trans hlength)

section Block

variable {b : TrySpan} {s s₁ t : State} {trace : Trace}
  (hb : b.In s.outline.code) (hstart : s.outline.counter = .at b.start)
  (hbegin : Act.step s = .ok () s₁)

include hb hstart hbegin

theorem Stage.begin : Stage b (b.handler s.frames.length) s.handlers [] s₁.rest ∧
    s₁.outline.code = s.outline.code ∧ s₁.frames.length = s.frames.length := by
  obtain ⟨i, hi, hop⟩ := hb.begins
  have hnext := State.next?_of_fetch (State.fetch_at hstart hi hb.small)
  have heffect := Act.effect_of_next hnext hbegin
  simp only [Effect, hop] at heffect
  have hcode : s.rest.fetched.outline.code = s.outline.code := s.rest.code_fetched
  have hlength : s.rest.fetched.frames.length = s.frames.length := s.rest.length_jump _
  have hcounter : s.rest.fetched.outline.counter = .at (b.start + 1 : Nat) :=
    State.counter_fetched hstart
  have hown : s.rest.fetched.newHandler = b.handler s.frames.length := by
    rw [newHandler_of_try (hcode.symm ▸ hb) hcounter, hlength]
  have hle := hb.lt
  have hchain := hb.chain.le
  refine ⟨?_, ?_, ?_⟩
  · refine .open (n := b.start + 1) ?_ (Nat.lt_succ_self _) (by omega) ?_ nofun nofun
    · rw [heffect]
      exact hcounter
    · rw [heffect, ← hown]
      exact congrArg _ (s.rest.handlers_jump _)
  · have houtline : s₁.rest.outline = s.rest.fetched.outline := by
      rw [heffect]
      rfl
    exact (congrArg Outline.code houtline).trans hcode
  · have hframes : s₁.rest.frames = s.rest.fetched.frames := by rw [heffect]
    exact (congrArg List.length hframes).trans hlength

theorem Along.inside (hrun : Along (b.start + 1) b.exit s₁ trace t) :
    Stage b (b.handler s.frames.length) s.handlers trace t.rest ∧
      t.outline.code = s.outline.code ∧ t.frames.length = s.frames.length := by
  obtain ⟨hstage, hcode₁, hlength₁⟩ := Stage.begin hb hstart hbegin
  rw [← hlength₁] at hstage ⊢
  rw [← hcode₁] at hb ⊢
  exact hrun.stage hb hstage

/-- What a run that comes to the end of the block leaves. -/
theorem Along.behind (hrun : Along (b.start + 1) b.exit s₁ trace t)
    (hexit : t.outline.counter = .at b.exit) :
    t.frames.length = s.frames.length ∧
      ((∃ e, (.catchEnd, e) ∈ trace) → t.handlers = s.handlers ∧ t.current = none) ∧
      ((.tryEnd, none) ∈ trace →
        t.handlers = b.handler s.frames.length :: s.handlers ∧ t.current = none) ∧
      (trace.Unhandled → t.handlers = b.handler s.frames.length :: s.handlers) := by
  obtain ⟨hstage, -, hlength⟩ := hrun.inside hb hstart hbegin
  refine ⟨hlength, ?_⟩
  cases hstage with
  | «open» _ _ _ hhandlers hunhandled hunended =>
    exact ⟨fun ⟨e, he⟩ => absurd he (hunhandled e), fun he => absurd he hunended, fun _ => hhandlers⟩
  | handled _ _ hhandlers hcurrent hhandled hunended =>
    obtain ⟨e, he⟩ := hhandled
    exact ⟨fun _ => ⟨hhandlers, hcurrent⟩, fun he => absurd he hunended, fun h => absurd he (h e)⟩
  | ended _ _ hhandlers hcurrent hunhandled _ =>
    exact ⟨fun ⟨e, he⟩ => absurd he (hunhandled e), fun _ => ⟨hhandlers, hcurrent⟩, fun _ => hhandlers⟩
  | left hz hneg =>
    rw [show t.rest.outline.counter = .at b.exit from hexit] at hz
    injection hz with hz
    omega

end Block

/-! ## Try statements -/

/-- The index at which the counter is. -/
def State.place? (w : State) : Option Nat :=
  match w.outline.counter with
  | .at (.ofNat n) => some n
  | _ => none

theorem State.counter_of_place? (h : w.place? = some n) : w.outline.counter = .at n := by
  unfold State.place? at h
  split at h
  · rename_i hcounter
    cases h
    exact hcounter
  · cases h

/-- So many turns in a stretch of code, each of one instruction, and what they have performed. -/
def turnsAlong (lo hi : Nat) : Nat → State → Option (Trace × State)
  | 0, s => some ([], s)
  | count + 1, s => do
    let (trace, t) ← turnsAlong lo hi count s
    let n ← t.place?
    let i ← t.next?
    let u ← stepsWithin 0 1 t
    if lo ≤ n ∧ n < hi ∧ u.frames.length = t.frames.length then
      some ((i.op, t.current) :: trace, u)
    else none

theorem Along.of_turns {lo hi : Nat} {s : State} : ∀ {count : Nat} {trace : Trace} {t : State},
    turnsAlong lo hi count s = some (trace, t) → Along lo hi s trace t
  | 0, _, _, h => by
    cases h
    exact .refl
  | count + 1, _, _, h => by
    simp only [turnsAlong, bind, Option.bind_eq_some_iff] at h
    obtain ⟨⟨trace, t⟩, ht, n, hn, i, hi, u, hu, h⟩ := h
    obtain ⟨⟨hlo, hhi, hlength⟩, h⟩ := Option.ite_none_right_eq_some.1 h
    cases h
    exact .turn (of_turns ht) (State.counter_of_place? hn) hlo hhi hi
      (.step (step_of_steps hu) hlength)

/-- The code of a statement in a machine that has loaded nothing else, the state behind the first
instruction, and the state after so many turns. -/
def attempt (stmt : Stmt) (count : Nat) : Option (Nat × State × State × Trace × State) :=
  match Gen.statement stmt {} with
  | .ok _ g => do
    let s := State.loaded g.unit (.list g.constants.toList)
    let s₁ ← stepsWithin 0 1 s
    let (trace, t) ← turnsAlong 1 g.code.size count s₁
    return (g.code.size, s, s₁, trace, t)
  | .error _ _ => none

theorem attempt_eq_some {stmt : Stmt} {count stop : Nat} {s s₁ t : State}
    (h : attempt stmt count = some (stop, s, s₁, trace, t)) :
    stmt.StandsIn s.outline.code 0 stop ∧ s.outline.counter = .at 0 ∧
      s.outline.code.size = stop ∧ Act.step s = .ok () s₁ ∧ Along 1 stop s₁ trace t := by
  unfold attempt at h
  split at h
  · rename_i g hgen
    simp only [bind, Option.bind_eq_some_iff, pure, Option.some.injEq, Prod.mk.injEq] at h
    obtain ⟨_, hs₁, ⟨_, _⟩, ht, rfl, rfl, rfl, rfl, rfl⟩ := h
    obtain ⟨_, _, -, hemits⟩ := (follows_statement _).of_ok hgen
    have hmain : g.code = g.main := by
      rw [Generator.code, Option.map_eq_none_iff.1 hemits.heading]
    obtain ⟨hframes, -, hpc, -⟩ := State.loaded_start g.unit (.list g.constants.toList)
    have hcode : (State.loaded g.unit (.list g.constants.toList)).outline.code = g.code := by
      rw [State.outline, Outline.code, hframes, hmain]
      exact Array.toArray_toList
    have hcounter : (State.loaded g.unit (.list g.constants.toList)).outline.counter = .at 0 := by
      simp [State.outline, Outline.counter, hframes, hpc]
    refine ⟨⟨{}, g, hgen, rfl, rfl, ?_⟩, hcounter, by rw [hcode], step_of_steps hs₁, .of_turns ht⟩
    intro k i hi
    rw [hcode, Nat.zero_add, ← Array.getElem?_toList]
    exact hi
  · cases h

/-- Behind a try statement, of whatever program, there is no exception under way if one of its
clauses has come to its end or if its body has without one; and the handlers are what they were
before the statement in the first case, but not in the second: then that of the statement is left. -/
theorem handlers_after_try {body : List Stmt} {catches : List CatchClause}
    {last : Option (List Stmt)} (hflat : FlatTry body catches) {s s₁ : State} {start stop : Nat}
    (hstands : (Stmt.tryBlock body catches last).StandsIn s.outline.code start stop)
    (hsize : s.outline.code.size ≤ Value.sizeLimit)
    (hstart : s.outline.counter = .at start) (hbegin : Act.step s = .ok () s₁) :
    ∃ b : TrySpan, b.Covers s.outline.code start stop catches last ∧
      ∀ trace t, Along (start + 1) b.exit s₁ trace t → t.outline.counter = .at b.exit →
        t.frames.length = s.frames.length ∧
        ((∃ e, (.catchEnd, e) ∈ trace) → t.handlers = s.handlers ∧ t.current = none) ∧
        ((.tryEnd, none) ∈ trace →
          t.handlers = b.handler s.frames.length :: s.handlers ∧ t.current = none) ∧
        (trace.Unhandled → t.handlers = b.handler s.frames.length :: s.handlers) := by
  obtain ⟨b, hb⟩ := hflat.covers hstands hsize
  obtain rfl := hb.starts
  exact ⟨b, hb, fun trace t hrun hexit => hrun.behind hb.toIn hstart hbegin hexit⟩

end Wide

/-- A text is thrown. -/
def throwing : List Stmt := [.throwValue (.literal (.str "no"))]

/-- Of the two clauses the first one is for exceptions of another type. -/
def choosy : List CatchClause := [(some "Missing", none, [.pass]), (none, none, [.pass])]

theorem flatTry_choosy : FlatTry throwing choosy := by
  refine ⟨nofun, ?_, ?_⟩
  · rintro s (_ | ⟨_, ⟨⟩⟩)
    exact .of nofun nofun
  · rintro s (_ | ⟨_, _ | ⟨_, ⟨⟩⟩⟩) <;> exact .of nofun nofun

open Wide in
theorem handlers_after_try_choosy : ∃ s s₁ t trace stop, FlatTry throwing choosy ∧
    (Stmt.tryBlock throwing choosy none).StandsIn s.outline.code 0 stop ∧
    s.outline.code.size ≤ Value.sizeLimit ∧ s.outline.counter = .at 0 ∧
    Act.step s = .ok () s₁ ∧ Along 1 stop s₁ trace t ∧ t.outline.counter = .at stop ∧
    (∃ e, (.catchEnd, e) ∈ trace) ∧ t.handlers = s.handlers ∧ t.current = none := by
  have hrun : (attempt (.tryBlock throwing choosy none) 6).any (fun (stop, _, _, trace, t) =>
      stop = 10 ∧ t.place? = some 10 ∧ ∃ entry ∈ trace, entry.1 = .catchEnd) = true := by
    decide +kernel
  simp only [Option.any_eq_true, decide_eq_true_eq] at hrun
  obtain ⟨⟨_, s, s₁, trace, t⟩, hrun, rfl, hplace, ⟨_, e⟩, he, rfl⟩ := hrun
  obtain ⟨hstands, hstart, hsize, hbegin, halong⟩ := attempt_eq_some hrun
  have hsmall : s.outline.code.size ≤ Value.sizeLimit := hsize.trans_le (by decide)
  have hexit := State.counter_of_place? hplace
  obtain ⟨b, hb, hall⟩ := handlers_after_try flatTry_choosy hstands hsmall hstart hbegin
  have hstop := hb.exit_eq rfl
  obtain ⟨-, hcaught, -, -⟩ := hall trace t (hstop ▸ halong) (hstop ▸ hexit)
  exact ⟨s, s₁, t, trace, 10, flatTry_choosy, hstands, hsmall, hstart, hbegin, halong, hexit,
    ⟨e, he⟩, hcaught ⟨e, he⟩⟩

/-- A try statement that throws nothing. -/
def Program.calm : Program := [.tryBlock [.pass] [(none, none, [.pass])] none]

open Wide in
/-- The handler of a try statement that throws nothing is still there at the end of the program. -/
theorem handler_left_by_try : ∃ c s₀ s t u v, Program.calm.compile = .ok c ∧
    State.load {} c.bytes = .ok s₀ ∧ Reached s₀ s ∧ s.next?.map (·.op) = some .tryBegin ∧
    Act.step s = .ok () t ∧ Within t.frames.length t u ∧ Act.step u = .ok () v ∧
    v.next?.map (·.op) = some .halt ∧ s.handlers.length = 0 ∧ v.handlers.length = 1 := by
  have hrun : (callOf Program.calm 0 0).any (fun (s, _, _, v) =>
      s.next?.map (·.op) = some .tryBegin ∧ v.next?.map (·.op) = some .halt ∧
        s.handlers.length = 0 ∧ v.handlers.length = 1) = true := by
    decide +kernel
  simp only [Option.any_eq_true, decide_eq_true_eq] at hrun
  obtain ⟨⟨s, t, u, v⟩, hcall, hbegin, hend, hs, hv⟩ := hrun
  obtain ⟨c, s₀, hc, hload, hreached, hstep, hwithin, hlast⟩ :=
    callOf_eq_some (by decide +kernel) hcall
  exact ⟨c, s₀, s, t, u, v, hc, hload, hreached, hbegin, hstep, hwithin, hlast, hend, hs, hv⟩

end StackScript
