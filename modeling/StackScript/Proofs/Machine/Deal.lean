import StackScript.Proofs.Machine.Confined
import StackScript.Proofs.Machine.Outline

/-!
# What instructions do with their operands

An instruction takes a number of operands from the stack and leaves others there. It does not look at
what is below them, nor at routines that it does not call: above any other operands, and with more
routines in its table, a machine does the same. With what becomes of the values and of the rest of the
state this is `Act.Deals`, and each action of a machine is gone through once.
-/

namespace StackScript

/-- The number that the operand of an instruction counts. -/
def Instruction.count (i : Instruction) : Nat := (i.operand.integral?.getD 0).toNat

/-- All values that a machine has are as demanded. The constants themselves can be a list that is not,
since only their items are given out. -/
structure Custody.Guards (C : Custody) (w : Wide.State) : Prop where
  strict : ∀ v, C.Loose v → C.Fit v
  writes : ∀ ref, C.Fit (.list ref) → C.Writes ref
  functions : w.functions = .plain ∨ C.Free
  constants : C.Opens w.constants
  store : C.Holds w.store
  stack : ∀ v ∈ w.stack, C.Fit v
  globals : ∀ v ∈ w.globals, C.Fit v
  locals : ∀ frame ∈ w.frames, ∀ v ∈ frame.locals, C.Fit v

theorem Custody.free_free : free.Free := ⟨fun _ => trivial, holds_free⟩

theorem Custody.guards_free (w : Wide.State) : free.Guards w where
  strict _ := id
  writes _ _ _ _ _ := trivial
  functions := .inr free_free
  constants := .inl trivial
  store := holds_free _
  stack _ _ := trivial
  globals _ _ := trivial
  locals _ _ _ _ := trivial

namespace Wide

/-- A machine above other operands, with another table of routines. -/
def State.above (w : State) (base : List Value) (table : List (String × Routine)) : State :=
  { w with stack := w.stack ++ base, routines := table }

/-- The result of an action above other operands. -/
def resultAbove {α : Type} (base : List Value) (table : List (String × Routine)) :
    EStateM.Result Stop State α → EStateM.Result Stop State α
  | .ok a t => .ok a (t.above base table)
  | .error e t => .error e (t.above base table)

/-- A table that has all routines of another. -/
def Covers (table routines : List (String × Routine)) : Prop :=
  ∀ name routine, routines.lookup name = some routine → table.lookup name = some routine

namespace Act

variable {C : Custody} {α β : Type} {P : α → Prop} {Q : β → Prop} {w : State} {n m : Nat}
  {R : State → Nat → State → Prop}

/-! ## Actions and their operands -/

theorem pop_cons {v : Value} {rest : List Value} (h : w.stack = v :: rest) :
    pop w = .ok v { w with stack := rest } := by
  cases w
  cases h
  rfl

/-- The rest of a state stays, and so many operands are left. -/
def Same (count : Nat) (w : State) (k : Nat) (w' : State) : Prop := w' = w ∧ k = count

/-- What an action does in a state. It fails on fewer operands than it takes. `R` is what becomes of
the rest of the state, and how many operands are left. Where it fails, the calls stay as they are. -/
structure DealsAt (C : Custody) (takes : Nat) (R : State → Nat → State → Prop) (P : α → Prop)
    (x : Act α) (w : State) : Prop where
  short : w.stack.length < takes → ∃ e w', x w = .error e w'
  done : ∀ a w', x w = .ok a w' → P a ∧ C.Guards w' ∧
    ∃ given, w'.stack = given ++ w.stack.drop takes ∧ R w.rest given.length w'.rest
  broken : ∀ e w', x w = .error e w' → w'.control = w.control
  above : takes ≤ w.stack.length → ∀ base table, Covers table w.routines →
    (∀ name w', w.routines.lookup name = none →
      x w = .error (.failed (.unknownRoutine name)) w' → table.lookup name = none) →
    x (w.above base table) = resultAbove base table (x w)

/-- What an action does in all states whose values are as demanded. -/
def Deals (C : Custody) (takes : Nat) (R : State → Nat → State → Prop) (P : α → Prop)
    (x : Act α) : Prop := ∀ w, C.Guards w → DealsAt C takes R P x w

namespace DealsAt

variable {x : Act α} {R' : State → Nat → State → Prop} {f : α → Act β} {e : Stop}

theorem of_error {w' : State} (hrun : x w = .error e w')
    (hcontrol : w'.control = w.control) (habove : n ≤ w.stack.length → ∀ base table,
      (∀ name u, w.routines.lookup name = none →
        x w = .error (.failed (.unknownRoutine name)) u → table.lookup name = none) →
      x (w.above base table) = .error e (w'.above base table)) : DealsAt C n R P x w where
  short _ := ⟨e, w', hrun⟩
  done a u hx := nomatch hrun.symm.trans hx
  broken e' u hx := by
    rw [hrun] at hx
    cases hx
    exact hcontrol
  above hn base table _ hknown := by
    rw [hrun]
    exact habove hn base table hknown

theorem fail (cause : Failure) : DealsAt C n R P (Act.fail cause) w :=
  .of_error rfl rfl fun _ _ _ _ => rfl

theorem failThen (cause : Failure) (f : α → Act β) : DealsAt C n R Q (Act.fail cause >>= f) w :=
  .of_error rfl rfl fun _ _ _ _ => rfl

theorem imp (h : DealsAt C n R P x w)
    (hR : ∀ k w', R w.rest k w' → R' w.rest k w') : DealsAt C n R' P x w where
  short := h.short
  done a w' hx := by
    obtain ⟨ha, hw', given, hstack, hrest⟩ := h.done a w' hx
    exact ⟨ha, hw', given, hstack, hR _ _ hrest⟩
  broken := h.broken
  above := h.above

theorem get {f : State → Act β} (hf : n ≤ w.stack.length → ∀ base table, Covers table w.routines →
      f (w.above base table) = f w) (h : DealsAt C n R Q (f w) w) :
    DealsAt C n R Q (get >>= f) w where
  short := h.short
  done := h.done
  broken := h.broken
  above hn base table htable hknown := by
    show f (w.above base table) (w.above base table) = _
    rw [hf hn base table htable]
    exact h.above hn base table htable hknown

/-- An action that fails when it finds fewer operands than it takes. -/
theorem getShort {f : State → Act β} {cause : Failure} (hn : w.stack.length < n)
    (hf : f w = Act.fail cause) : DealsAt C n R Q (MonadState.get >>= f) w :=
  .get (fun hle => absurd hn (Nat.not_lt.2 hle)) (hf ▸ .fail cause)

theorem failed {w₁ : State} (hx : DealsAt C n R P x w) (hrun : x w = .error e w₁) (hm : n ≤ m) :
    DealsAt C m R' Q (x >>= f) w where
  short _ := ⟨e, w₁, bind_of_error hrun⟩
  done b w' hb := by
    rw [bind_of_error hrun] at hb
    cases hb
  broken e' w' he := by
    rw [bind_of_error hrun] at he
    cases he
    exact hx.broken e w₁ hrun
  above hlong base table htable hknown := by
    rw [bind_of_error hrun] at hknown ⊢
    have habove := hx.above (Nat.le_trans hm hlong) base table htable fun name w' hnone h => by
      rw [hrun] at h
      cases h
      exact hknown name w₁ hnone rfl
    rw [hrun] at habove
    exact bind_of_error habove

theorem bind (hx : DealsAt C n (Same 0) P x w)
    (hf : ∀ a w₁, P a → C.Guards w₁ → w₁.rest = w.rest → w₁.stack = w.stack.drop n →
      DealsAt C m R Q (f a) w₁) : DealsAt C (n + m) R Q (x >>= f) w := by
  cases hrun : x w with
  | error e w₁ => exact hx.failed hrun (Nat.le_add_right n m)
  | ok a w₁ =>
    obtain ⟨ha, hw₁, given, hstack, hrest, hgiven⟩ := hx.done a w₁ hrun
    cases List.length_eq_zero_iff.1 hgiven
    have h := hf a w₁ ha hw₁ hrest hstack
    have hlength : w₁.stack.length = w.stack.length - n := by simp [hstack]
    have hn : n ≤ w.stack.length := Nat.le_of_not_lt fun hlt => by
      obtain ⟨e, w', herror⟩ := hx.short hlt
      rw [hrun] at herror
      cases herror
    refine ⟨fun hshort => ?_, fun b w' hb => ?_, fun e w' he => ?_,
      fun hlong base table htable hknown => ?_⟩
    · rw [bind_of_ok hrun]
      exact h.short (by omega)
    · rw [bind_of_ok hrun] at hb
      obtain ⟨hb, hw', given', hstack', hrest'⟩ := h.done b w' hb
      refine ⟨hb, hw', given', ?_, hrest ▸ hrest'⟩
      rw [hstack', hstack, List.nil_append, List.drop_drop]
    · rw [bind_of_ok hrun] at he
      exact (h.broken e w' he).trans (State.control_of_rest hrest)
    · have habove := hx.above hn base table htable fun _ _ _ h => nomatch hrun.symm.trans h
      rw [hrun] at habove
      rw [bind_of_ok habove, bind_of_ok hrun]
      rw [bind_of_ok hrun] at hknown
      rw [← State.routines_of_rest hrest] at htable hknown
      exact h.above (by omega) base table htable hknown

/-- An action that takes some operands and leaves some of them, in some order. -/
theorem replace (a : α) (old new : List Value) (hw : C.Guards w) {below : List Value}
    (hstack : w.stack = old ++ below) (hnew : ∀ v ∈ new, v ∈ old) (ha : P a)
    (hx : ∀ (u : State) (below : List Value), u.stack = old ++ below →
      x u = .ok a { u with stack := new ++ below }) :
    DealsAt C old.length (Same new.length) P x w := by
  refine ⟨fun hlt => ?_, fun a w' hrun => ?_, fun e w' hrun => ?_, fun _ base table _ _ => ?_⟩
  · have hlength : w.stack.length = old.length + below.length := by rw [hstack, List.length_append]
    omega
  · rw [hx w below hstack] at hrun
    cases hrun
    refine ⟨ha, { hw with stack := fun v hv => hw.stack v ?_ }, new, by simp [hstack], rfl, rfl⟩
    rw [hstack]
    exact List.mem_append.2 ((List.mem_append.1 hv).imp_left (hnew v))
  · exact nomatch (hx w below hstack).symm.trans hrun
  · rw [hx w below hstack, hx (w.above base table) (below ++ base) (by simp [State.above, hstack])]
    simp [resultAbove, State.above]

/-- Before an action, another one that takes no operands. -/
theorem first (hx : DealsAt C 0 (Same 0) P x w)
    (hf : ∀ a w₁, P a → C.Guards w₁ → w₁.rest = w.rest → DealsAt C m R Q (f a) w₁) :
    DealsAt C m R Q (x >>= f) w := by
  have h := hx.bind (m := m) fun a w₁ ha hw₁ hrest _ => hf a w₁ ha hw₁ hrest
  rwa [Nat.zero_add] at h

/-- After an action that may leave operands, another one that takes none. -/
theorem andThen (hx : DealsAt C n R P x w) (hR : ∀ k w', R w.rest k w' → w'.routines = w.routines)
    (hf : ∀ a, P a → Deals C 0 R' Q (f a))
    (hlate : ∀ a w₁ e w', x w = .ok a w₁ → f a w₁ = .error e w' → w₁.control = w.control) :
    DealsAt C n (fun w k w' => ∃ i j w₁, k = j + i ∧ R w i w₁ ∧ R' w₁ j w') Q (x >>= f) w := by
  cases hrun : x w with
  | error e w₁ => exact hx.failed hrun (Nat.le_refl n)
  | ok a w₁ =>
    obtain ⟨ha, hw₁, given, hstack, hrest⟩ := hx.done a w₁ hrun
    have h := hf a ha w₁ hw₁
    refine ⟨fun hshort => ?_, fun b w' hb => ?_, fun e w' he => ?_,
      fun hn base table htable hknown => ?_⟩
    · obtain ⟨e, w', herror⟩ := hx.short hshort
      rw [hrun] at herror
      cases herror
    · rw [bind_of_ok hrun] at hb
      obtain ⟨hb, hw', given', hstack', hrest'⟩ := h.done b w' hb
      refine ⟨hb, hw', given' ++ given, ?_, _, _, _, List.length_append, hrest, hrest'⟩
      rw [hstack', hstack, List.drop_zero, List.append_assoc]
    · rw [bind_of_ok hrun] at he
      exact (h.broken e w' he).trans (hlate a w₁ e w' hrun he)
    · have habove := hx.above hn base table htable fun _ _ _ h => nomatch hrun.symm.trans h
      rw [hrun] at habove
      rw [bind_of_ok habove, bind_of_ok hrun]
      rw [bind_of_ok hrun] at hknown
      have hroutines : w₁.routines = w.routines := hR _ w₁.rest hrest
      rw [← hroutines] at htable hknown
      exact h.above (Nat.zero_le _) base table htable hknown

/-- An action that leaves some operands as they are takes them and leaves them. -/
theorem deeper (h : DealsAt C n (Same m) P x w) {k : Nat}
    (hk : n + k ≤ w.stack.length) : DealsAt C (n + k) (Same (m + k)) P x w where
  short hlt := absurd hlt (Nat.not_lt.2 hk)
  done a w' hx := by
    obtain ⟨ha, hw', given, hstack, hrest, hgiven⟩ := h.done a w' hx
    refine ⟨ha, hw', given ++ (w.stack.drop n).take k, ?_, hrest, ?_⟩
    · rw [hstack, List.append_assoc, ← List.drop_drop, List.take_append_drop]
    · rw [List.length_append, hgiven, List.length_take, List.length_drop]
      omega
  broken := h.broken
  above _ := h.above (by omega)

/-- A change of the state that leaves the operands and the routines alone. -/
theorem change {x : Act Unit} {f : State → State} (hx : ∀ u, x u = .ok () (f u))
    (hguards : C.Guards (f w)) (hstack : (f w).stack = w.stack) (hrest : R w.rest 0 (f w).rest)
    (habove : ∀ base table, f (w.above base table) = (f w).above base table) :
    DealsAt C 0 R (fun _ => True) x w where
  short := nofun
  done a w' hrun := by
    rw [hx] at hrun
    cases hrun
    exact ⟨trivial, hguards, [], hstack, hrest⟩
  broken e w' hrun := nomatch (hx w).symm.trans hrun
  above _ base table _ _ := by
    rw [hx, hx, habove]
    rfl

theorem confined (h : Confined C P x) (hw : C.Guards w) : DealsAt C 0 (Same 0) P x w where
  short := nofun
  done a w' hx := by
    obtain ⟨hholds, hP⟩ := h.keeps w hw.store
    have ha := hP a w' hx
    rw [hx] at hholds
    rw [h.isLocal w] at hx
    cases hbare : x w.bare with
    | error e t =>
      rw [hbare] at hx
      cases hx
    | ok b t =>
      rw [hbare] at hx
      cases hx
      exact ⟨ha, { hw with store := hholds }, [], rfl, rfl, rfl⟩
  broken e w' hx := by
    rw [h.isLocal w] at hx
    cases hbare : x w.bare with
    | error e t =>
      rw [hbare] at hx
      cases hx
      rfl
    | ok b t =>
      rw [hbare] at hx
      cases hx
  above _ base table _ _ := by
    have hbare : (w.above base table).bare = w.bare := rfl
    rw [h.isLocal (w.above base table), h.isLocal w, hbare]
    cases x w.bare <;> rfl

end DealsAt

namespace Deals

theorem fail (cause : Failure) : Deals C n R P (Act.fail cause) := fun _ _ => .fail cause

theorem fault (cause : Fault) : Deals C n R P (Act.fault cause) := fail _

variable {x : Act α} {f : α → Act β}

theorem bind (hx : Deals C n (Same 0) P x)
    (hf : ∀ a, P a → Deals C m R Q (f a)) : Deals C (n + m) R Q (x >>= f) :=
  fun w hw => (hx w hw).bind fun a w₁ ha hw₁ _ _ => hf a ha w₁ hw₁

theorem first (hx : Deals C 0 (Same 0) P x)
    (hf : ∀ a, P a → Deals C m R Q (f a)) : Deals C m R Q (x >>= f) :=
  fun w hw => (hx w hw).first fun a w₁ ha hw₁ _ => hf a ha w₁ hw₁

theorem imp {R' : State → Nat → State → Prop} (h : Deals C n R P x)
    (hR : ∀ w k w', R w k w' → R' w k w') : Deals C n R' P x :=
  fun w hw => (h w hw).imp (hR w.rest)

/-- An action that looks at a part of the state other than the operands and the routines. -/
theorem get {f : State → Act β} (hf : ∀ w base table, f (w.above base table) = f w)
    (h : ∀ w, C.Guards w → DealsAt C n R Q (f w) w) : Deals C n R Q (get >>= f) :=
  fun w hw => .get (fun _ base table _ => hf w base table) (h w hw)

theorem confined (h : Confined C P x) : Deals C 0 (Same 0) P x :=
  fun _ hw => .confined h hw

theorem pure {a : α} (h : P a) : Deals C 0 (Same 0) P (Pure.pure a : Act α) := confined (.pure h)

theorem op {x : Op α} (h : Op.Keeps C P x) : Deals C 0 (Same 0) P (Act.op x) := confined (.op h)

theorem opOr (rename : Fault → Failure) {x : Op α} (h : Op.Keeps C P x) :
    Deals C 0 (Same 0) P (Act.opOr rename x) := confined (.opOr rename h)

theorem ofExcept {x : Except Fault α} (h : ∀ a, x = .ok a → P a) :
    Deals C 0 (Same 0) P (Act.ofExcept x) := confined (.ofExcept h)

theorem ask (f : Store → Except Fault α) : Deals C 0 (Same 0) (fun _ => True) (Act.ask f) :=
  confined (.ask f)

theorem check {c : Prop} [Decidable c] {cause : Failure} {k : PUnit → Act β}
    (hk : Deals C n R Q (k ⟨⟩)) : Deals C n R Q (if c then Act.fail cause >>= k else k ⟨⟩) := by
  split
  · exact fun _ _ => .failThen cause k
  · exact hk

theorem push {v : Value} (hv : C.Fit v) : Deals C 0 (Same 1) (fun _ => True) (Act.push v) := by
  refine fun w hw => ⟨nofun, fun a w' hx => ?_, fun _ _ h => (by cases h), fun _ _ _ _ _ => rfl⟩
  cases hx
  exact ⟨trivial, { hw with stack := List.forall_mem_cons.2 ⟨hv, hw.stack⟩ }, [v], rfl, rfl, rfl⟩

theorem pop : Deals C 1 (Same 0) C.Fit Act.pop := by
  intro w hw
  cases hstack : w.stack with
  | nil => exact .getShort (by simp [hstack]) (by rw [hstack]; rfl)
  | cons v rest =>
    exact .replace v [v] [] hw hstack (by simp) (hw.stack v (by simp [hstack])) fun _ _ => pop_cons

theorem popThen {f : Value → Act β} (hf : ∀ v, C.Fit v → Deals C n R Q (f v)) :
    Deals C (n + 1) R Q (Act.pop >>= f) := by
  rw [Nat.add_comm]
  exact bind pop hf

theorem popMany (count : Nat) :
    Deals C count (Same 0) (fun vs => ∀ v ∈ vs, C.Fit v) (Act.popMany count) := by
  have hpop : ∀ u : State, Act.popMany count u =
      if u.stack.length < count then Act.fault .popEmpty { u with stack := [] }
      else .ok (u.stack.take count).reverse { u with stack := u.stack.drop count } := by
    intro u
    show (if u.stack.length < count then
      (do set { u with stack := [] }; Act.fault .popEmpty : Act (List Value)) else
      (do set { u with stack := u.stack.drop count }
          return (u.stack.take count).reverse)) u = _
    split <;> rfl
  intro w hw
  refine ⟨fun hlt => ⟨_, _, by rw [hpop, if_pos hlt]; rfl⟩, fun a w' hx => ?_, fun e w' hx => ?_, ?_⟩
  · rw [hpop] at hx
    split at hx <;> cases hx
    refine ⟨fun v hv => hw.stack v ?_, { hw with stack := fun v hv => hw.stack v ?_ }, [], rfl, rfl, rfl⟩
    · exact List.mem_of_mem_take (List.mem_reverse.1 hv)
    · exact List.mem_of_mem_drop hv
  · rw [hpop] at hx
    split at hx <;> cases hx
    rfl
  · intro hn base table _ _
    have hlong : ¬ (w.above base table).stack.length < count := by
      simp only [State.above, List.length_append]
      omega
    rw [hpop, hpop, if_neg hlong, if_neg (Nat.not_lt.2 hn)]
    simp only [resultAbove, State.above, List.take_append_of_le_length hn,
      List.drop_append_of_le_length hn]

end Deals

/-! ## Constants and variables -/

theorem deals_operandValue (operand : Datum) : Deals C 0 (Same 0) C.Fit (operandValue operand) :=
  .op (Value.keeps_ofDatum operand)

theorem deals_constant (operand : Datum) : Deals C 0 (Same 0) C.Fit (constant operand) :=
  .first (deals_operandValue operand) fun index _ => .get (fun _ _ _ => rfl) fun _ hw =>
    .confined (.op ((Value.keeps_item _ index).imp fun _ h => h hw.constants)) hw

theorem deals_loadGlobal (operand : Datum) :
    Deals C 0 (Same 1) (fun _ => True) (loadGlobal operand) :=
  .first (deals_operandValue operand) fun _ _ => .get (fun _ _ _ => rfl) fun w hw =>
    Deals.first (.ofExcept fun _ hv => Custody.fit_arrayItem hw.globals hv) (fun _ => .push) w hw

theorem deals_loadLocal {frame : Frame Routine} (hframe : ∀ v ∈ frame.locals, C.Fit v)
    (operand : Datum) : Deals C 0 (Same 1) (fun _ => True) (loadLocal frame operand) :=
  .first (deals_operandValue operand) fun _ _ =>
    .first (.ofExcept fun _ hv => Custody.fit_arrayItem hframe hv) fun _ => .push

/-- What is done with the innermost call, if there is one. -/
theorem Deals.innermost {x : Frame Routine → Act β} {y : Act β}
    (hx : ∀ w frame rest, w.frames = frame :: rest → C.Guards w → DealsAt C n R Q (x frame) w)
    (hy : ∀ w, w.frames = [] → C.Guards w → DealsAt C n R Q y w) :
    Deals C n R Q (do
      match (← MonadState.get).frames with
      | frame :: _ => x frame
      | [] => y) := by
  refine .get (fun _ _ _ => rfl) fun w hw => ?_
  cases hframes : w.frames with
  | nil => exact hy w hframes hw
  | cons frame rest => exact hx w frame rest hframes hw

end Act

namespace State

variable {C : Custody} {w : State}

theorem guards_jump (hw : C.Guards w) (target : Counter) : C.Guards (w.jump target) := by
  unfold jump
  split
  · rename_i frame rest hframes
    have hall := hw.locals
    rw [hframes] at hall
    exact { hw with locals := List.forall_mem_cons.2 (List.forall_mem_cons.1 hall) }
  · exact { hw with }

theorem stack_jump (w : State) (target : Counter) : (w.jump target).stack = w.stack := by
  unfold jump
  split <;> rfl

theorem above_jump (w : State) (target : Counter) (base : List Value)
    (table : List (String × Routine)) :
    (w.above base table).jump target = (w.jump target).above base table := by
  show jump { w with stack := w.stack ++ base, routines := table } target = _
  cases hframes : w.frames <;> simp [jump, above, hframes]

theorem raised_above (w : State) (ref : Nat) (base : List Value) (table : List (String × Routine)) :
    (w.above base table).raised ref = (w.raised ref).map (·.above base table) := by
  simp only [raised, above]
  cases Act.usable w.handlers with
  | nil => rfl
  | cons handler rest =>
    cases hcall : handler.inCall <;> cases hframes : w.frames <;>
      simp [lead, hcall, hframes]

theorem raised_rest (w : State) (ref : Nat) : w.rest.raised ref = (w.raised ref).map State.rest := by
  simp only [raised, State.rest]
  cases Act.usable w.handlers with
  | nil => rfl
  | cons handler rest =>
    cases hcall : handler.inCall <;> cases hframes : w.frames <;>
      simp [lead, State.rest, hcall, hframes]

theorem guards_raised (hw : C.Guards w) {ref : Nat} {w' : State} (h : w.raised ref = some w') :
    C.Guards w' ∧ w'.stack = w.stack := by
  unfold raised at h
  split at h <;> cases h
  unfold lead
  split
  · rename_i frame rest _ hframes
    have hall := hw.locals
    rw [hframes] at hall
    exact ⟨{ hw with locals := List.forall_mem_cons.2 (List.forall_mem_cons.1 hall) }, rfl⟩
  · exact ⟨{ hw with }, rfl⟩

end State

namespace Act

variable {C : Custody} {α β : Type} {P : α → Prop} {Q : β → Prop} {w : State} {n m : Nat}
  {R : State → Nat → State → Prop}

/-! ## Variables -/

variable {rest : List (Frame Routine)} {arguments : List Value} {frame : Frame Routine} {v : Value}

theorem frame_fit (hw : C.Guards w)
    (hframes : w.frames = frame :: rest) : ∀ v ∈ frame.locals, C.Fit v :=
  hw.locals frame (by simp [hframes])

/-- A variable of the main program or of the innermost call is written. -/
def Writes (w : State) (k : Nat) (w' : State) : Prop :=
  k = 0 ∧ ((∃ globals, w' = { w with globals }) ∨ ∃ frame rest locals, w.frames = frame :: rest ∧
    w' = { w with frames := { frame with locals } :: rest })

theorem deals_storeGlobal (operand : Datum) (hv : C.Fit v) :
    Deals C 0 Writes (fun _ => True) (storeGlobal operand v) :=
  .first (deals_operandValue operand) fun _ _ => .get (fun _ _ _ => rfl) fun w hw =>
    Deals.first (.ofExcept fun _ h => Custody.fit_arrayPut hw.globals hv h)
      (fun globals hglobals _ hw => .change (f := fun s => { s with globals }) (fun _ => rfl)
        { hw with globals := hglobals } rfl ⟨rfl, .inl ⟨globals, rfl⟩⟩ fun _ _ => rfl) w hw

theorem deals_storeLocal (hw : C.Guards w)
    (hframes : w.frames = frame :: rest) (operand : Datum) (hv : C.Fit v) :
    DealsAt C 0 Writes (fun _ => True) (storeLocal frame operand v) w := by
  refine (deals_operandValue operand w hw).first fun index w₁ _ hw₁ hrest₁ => ?_
  refine (Deals.ofExcept (fun _ h => Custody.fit_arrayPut (frame_fit hw hframes) hv h) w₁ hw₁).first ?_
  intro locals w₂ hlocals hw₂ hrest₂
  have hframes₂ : w₂.frames = frame :: rest :=
    (State.frames_of_rest (hrest₂.trans hrest₁)).trans hframes
  refine .change (f := fun s => { s with frames := { frame with locals } :: s.frames.tail })
    (fun _ => rfl) { hw₂ with locals := List.forall_mem_cons.2 ⟨hlocals, ?_⟩ } rfl
    ⟨rfl, .inr ⟨frame, rest, locals, hframes₂, ?_⟩⟩ fun _ _ => rfl
  · exact fun frame hframe => hw₂.locals frame (List.mem_of_mem_tail hframe)
  · simp [State.rest, hframes₂]

/-! ## Jumps, calls and returns -/

theorem deals_jump (target : Counter) :
    Deals C 0 (fun w k w' => k = 0 ∧ w' = w.jump target) (fun _ => True) (jump target) :=
  fun w hw => .change (f := (·.jump target)) (fun _ => rfl) (State.guards_jump hw target)
    (w.stack_jump target) ⟨rfl, w.rest_jump target⟩ (w.above_jump target)

theorem deals_jumpIf (wanted : Bool) (operand : Datum) :
    Deals C 1 (fun w k w' => k = 0 ∧ (w' = w ∨ w' = w.jump (.ofOperand operand))) (fun _ => True)
      (jumpIf wanted operand) := by
  refine .popThen fun v _ => .first (.confined (confined_truth v)) fun b _ => ?_
  show Deals C 0 _ _ (if (b == wanted) = true then _ else _)
  split
  · exact (deals_jump _).imp fun _ _ _ h => ⟨h.1, .inr h.2⟩
  · exact (Deals.pure trivial).imp fun _ _ _ h => ⟨h.2, .inl h.1⟩

theorem confined_lengthOf (d : Datum) : Confined C (fun _ => True) (lengthOf d) := by
  unfold lengthOf
  cases Listing.ofDatum? d
  · exact .fault _
  · exact .pure trivial

theorem deals_enter (routine : Routine) (harguments : ∀ v ∈ arguments, C.Fit v) :
    Deals C 0 (fun w k w' => k = 0 ∧ ∃ locals, w' = w.enter routine locals) (fun _ => True)
      (enter routine arguments) := by
  refine .first (.confined (confined_lengthOf _)) fun wanted _ => ?_
  refine .check (.first (.confined (confined_lengthOf _)) fun size _ => .check fun w hw => ?_)
  refine .change (fun _ => rfl) { hw with locals := List.forall_mem_cons.2 ⟨fun v hv => ?_, hw.locals⟩ }
    rfl ⟨rfl, _, rfl⟩ fun _ _ => rfl
  rcases List.mem_append.1 (List.mem_toArray.1 hv) with hv | hv
  · exact harguments v hv
  · rw [List.eq_of_mem_replicate hv]
    exact C.atom rfl

/-- What a call does once it is known what is called. -/
def calling (functions : Functions) (routines : List (String × Routine)) (callee : Value)
    (arguments : List Value) : Act Unit :=
  match callee with
  | .str name =>
    match function? functions name with
    | some f => f arguments >>= push
    | none =>
      match routines.lookup name with
      | some routine => enter routine arguments
      | none => fail (.unknownRoutine name)
  | other => fault (.notCallable other.kind)

/-- A function answers, or a routine is entered. -/
def Answers (w : State) (k : Nat) (w' : State) : Prop :=
  k = 1 ∧ w' = w ∨ k = 0 ∧ ∃ name routine locals, w.routines.lookup name = some routine ∧
    w' = w.enter routine locals

theorem deals_calling (callee : Value) (harguments : ∀ v ∈ arguments, C.Fit v) :
    Deals C 0 Answers (fun _ => True)
      (get >>= fun s => calling s.functions s.routines callee arguments) := by
  intro w hw
  cases callee with
  | str name =>
    cases hfunction : function? w.functions name with
    | some f =>
      have hcalling : ∀ routines, calling w.functions routines (.str name) arguments =
          f arguments >>= push := fun routines => by simp only [calling, hfunction]
      refine .get (fun _ _ table _ => (hcalling table).trans (hcalling _).symm) ?_
      rw [hcalling]
      have hdeals : DealsAt C 0 (Same 1) (fun _ => True) (f arguments >>= push) w :=
        Deals.first (.confined (confined_function hw.functions hfunction arguments))
          (fun _ => .push) w hw
      exact hdeals.imp fun _ _ h => .inl ⟨h.2, h.1⟩
    | none =>
      cases hlookup : w.routines.lookup name with
      | some routine =>
        have hcalling : ∀ routines, routines.lookup name = some routine →
            calling w.functions routines (.str name) arguments = enter routine arguments :=
          fun routines h => by simp only [calling, hfunction, h]
        refine .get (fun _ _ table htable => ?_) ?_
        · exact (hcalling table (htable name routine hlookup)).trans (hcalling _ hlookup).symm
        · rw [hcalling _ hlookup]
          refine (deals_enter routine harguments w hw).imp ?_
          rintro k w' ⟨hk, locals, rfl⟩
          exact .inr ⟨hk, name, routine, locals, hlookup, rfl⟩
      | none =>
        have hcalling : ∀ routines, routines.lookup name = none →
            calling w.functions routines (.str name) arguments = fail (.unknownRoutine name) :=
          fun routines h => by simp only [calling, hfunction, h]
        have hrun : ∀ u : State, u.functions = w.functions → u.routines.lookup name = none →
            (get >>= fun s => calling s.functions s.routines (.str name) arguments : Act Unit) u =
              .error (.failed (.unknownRoutine name)) u := by
          intro u hu hnone
          show calling u.functions u.routines (.str name) arguments u = _
          rw [hu, hcalling _ hnone]
          rfl
        have hfails := hrun w rfl hlookup
        exact .of_error hfails rfl fun _ base table hknown =>
          hrun (w.above base table) rfl (hknown name w hlookup hfails)
  | _ => exact .get (fun _ _ _ _ => rfl) (.fail _)

theorem call_eq (operand : Datum) : call operand = operandCount operand >>= fun n =>
    popMany n >>= fun arguments => pop >>= fun callee => get >>= fun s =>
      calling s.functions s.routines callee arguments := by
  funext w
  unfold call calling
  rfl

theorem Deals.counted {i : Instruction} {f : Nat → Act β} (hf : Deals C n R Q (f i.count)) :
    Deals C n R Q (operandCount i.operand >>= f) := by
  unfold operandCount
  unfold Instruction.count at hf
  cases h : i.operand.integral? with
  | none => exact fun w _ => .failThen _ f
  | some k =>
    rw [h] at hf
    exact hf

theorem deals_call (i : Instruction) :
    Deals C (i.count + 1) Answers (fun _ => True) (call i.operand) := by
  rw [call_eq]
  exact .counted (.bind (.popMany _) fun _ harguments => .popThen fun callee _ =>
    deals_calling callee harguments)

theorem deals_ret : Deals C 1 (fun w k w' => k = 1 ∧ w' = w.leave) (fun _ => True) ret := by
  refine .popThen fun v hv w hw => ?_
  have hleave : DealsAt C 0 (fun w k w' => k = 0 ∧ w' = w.leave) (fun _ => True)
      (modify State.leave : Act Unit) w := by
    refine .change (fun _ => rfl) ?_ ?_ ⟨rfl, ?_⟩ fun base table => ?_
    · unfold State.leave
      split
      · rename_i frame rest hframes
        exact { hw with locals := fun f hf => hw.locals f (by simp [hframes, hf]) }
      · exact hw
    · unfold State.leave
      split <;> rfl
    · cases hframes : w.frames <;> simp [State.leave, State.rest, hframes]
    · cases hframes : w.frames <;> simp [State.leave, State.above, hframes]
  refine (hleave.andThen (fun k w' h => ?_) (fun _ _ => .push hv) ?_).imp ?_
  · rw [h.2]
    cases hframes : w.frames <;> simp [State.leave, State.rest, hframes]
  · intro a w₁ e w' _ hpush
    cases hpush
  · rintro k w' ⟨i, j, w₁, rfl, ⟨rfl, rfl⟩, rfl, rfl⟩
    exact ⟨rfl, rfl⟩

/-! ## Containers and iterators -/

variable {operand : Datum}

theorem deals_binary {f : Value → Value → Act Value}
    (hf : ∀ a b, C.Fit a → C.Fit b → Confined C C.Fit (f a b)) :
    Deals C 2 (Same 1) (fun _ => True) (binary f) :=
  .popThen fun b hb => .popThen fun a ha => .first (.confined (hf a b ha hb)) fun _ => .push

theorem deals_dup : Deals C 1 (Same 2) (fun _ => True) (perform ⟨.dup, operand⟩) := by
  intro w hw
  cases hstack : w.stack with
  | nil => exact .getShort (by simp [hstack]) (by rw [hstack]; rfl)
  | cons v rest =>
    refine .replace () [v] [v, v] hw hstack (by simp) trivial ?_
    intro u below hu
    cases u
    cases hu
    rfl

theorem deals_rotTwo : Deals C 2 (Same 2) (fun _ => True) (perform ⟨.rotTwo, operand⟩) := by
  intro w hw
  rcases hstack : w.stack with _ | ⟨a, _ | ⟨b, rest⟩⟩
  iterate 2 exact .getShort (by simp [hstack]) (by rw [hstack])
  · refine .replace () [a, b] [b, a] hw hstack (by grind) trivial ?_
    intro u below hu
    cases u
    cases hu
    rfl

theorem deals_rotThree : Deals C 3 (Same 3) (fun _ => True) (perform ⟨.rotThree, operand⟩) := by
  intro w hw
  rcases hstack : w.stack with _ | ⟨c, _ | ⟨b, _ | ⟨a, rest⟩⟩⟩
  iterate 3 exact .getShort (by simp [hstack]) (by rw [hstack])
  · refine .replace () [c, b, a] [b, a, c] hw hstack (by grind) trivial ?_
    intro u below hu
    cases u
    cases hu
    rfl

theorem deals_popPairs : ∀ (count : Nat) {t : Table}, C.Entries t →
    Deals C (2 * count) (Same 0) C.Entries (popPairs count t)
  | 0, _, ht => .pure ht
  | _ + 1, _, ht => .popThen fun _ hv => .popThen fun _ hk =>
    .first (.ofExcept fun _ hkey => Custody.loose_asKey (C.loose hk) hkey) fun _ hkey =>
      deals_popPairs _ (ht.put hkey hv)

/-- What a loop does with the next item of its iterator. -/
def proceed (operand : Datum) (rest : List Value) : Option Value → Act Unit
  | some v => push v
  | none => do
    modify fun s => { s with stack := rest }
    jump (.ofOperand operand)

theorem forIter_cons {it : Value} {rest : List Value}
    (h : w.stack = it :: rest) : forIter operand w = (op it.next >>= proceed operand rest) w := by
  rw [forIter, bind_of_ok (show (get : Act State) w = .ok w w from rfl), h]
  refine congrArg (fun k => (op it.next >>= k) w) (funext fun found => ?_)
  cases found <;> rfl

/-- The next item comes on top of the iterator, or the iterator goes and there is a jump. -/
def Iterates (operand : Datum) (w : State) (k : Nat) (w' : State) : Prop :=
  k = 2 ∧ w' = w ∨ k = 0 ∧ w' = w.jump (.ofOperand operand)

theorem deals_forIter (operand : Datum) :
    Deals C 1 (Iterates operand) (fun _ => True) (forIter operand) := by
  intro w hw
  cases hstack : w.stack with
  | nil => exact .getShort (by simp [hstack]) (by rw [hstack]; rfl)
  | cons it rest =>
    have hnext := Deals.op (C := C) (Value.keeps_next it) w hw
    have habove : ∀ base table, forIter operand (w.above base table) =
        (op it.next >>= proceed operand (rest ++ base)) (w.above base table) :=
      fun base table => forIter_cons (by rw [State.above, hstack, List.cons_append])
    refine ⟨fun hlt => ?_, fun a w' hx => ?_, fun e w' hx => ?_, fun _ base table htable _ => ?_⟩
    · rw [hstack] at hlt
      simp at hlt
    · rw [forIter_cons hstack] at hx
      obtain ⟨found, w₁, hrun, hx⟩ := bind_eq_ok hx
      obtain ⟨hfound, hw₁, given, hstack₁, hrest₁, hgiven⟩ := hnext.done found w₁ hrun
      cases List.length_eq_zero_iff.1 hgiven
      rw [List.nil_append, List.drop_zero, hstack] at hstack₁
      cases found with
      | some v =>
        cases hx
        refine ⟨trivial, { hw₁ with stack := ?_ }, [v, it], ?_, .inl ⟨rfl, hrest₁⟩⟩
        · exact List.forall_mem_cons.2 ⟨hw₁.strict v (hfound v rfl), hw₁.stack⟩
        · rw [hstack]
          exact congrArg (v :: ·) hstack₁
      | none =>
        have hw₂ : C.Guards { w₁ with stack := rest } :=
          { hw₁ with stack := (List.forall_mem_cons.1 (hstack₁ ▸ hw₁.stack)).2 }
        obtain ⟨-, hw', given, hstack', hk, hrest'⟩ := (deals_jump _ _ hw₂).done () w' hx
        refine ⟨trivial, hw', given, by rw [hstack', hstack]; rfl, .inr ⟨hk, ?_⟩⟩
        exact hrest'.trans (congrArg (State.jump · _) hrest₁)
    · rw [forIter_cons hstack] at hx
      cases hrun : op it.next w with
      | error e₁ w₁ =>
        rw [bind_of_error hrun] at hx
        cases hx
        exact hnext.broken _ _ hrun
      | ok found w₁ =>
        rw [bind_of_ok hrun] at hx
        cases found <;> cases hx
    · rw [habove, forIter_cons hstack]
      have hop := hnext.above (Nat.zero_le _) base table htable
      cases hrun : op it.next w with
      | error e w₁ =>
        rw [hrun] at hop
        rw [bind_of_error hrun]
        refine bind_of_error (hop fun name w' _ h => ?_)
        unfold op at hrun
        dsimp only at hrun
        split at hrun <;> cases hrun
        cases h
      | ok found w₁ =>
        rw [hrun] at hop
        rw [bind_of_ok (hop fun _ _ _ h => nomatch h), bind_of_ok hrun]
        cases found with
        | some v => rfl
        | none =>
          exact congrArg (EStateM.Result.ok ())
            (State.above_jump { w₁ with stack := rest } _ base table)

theorem deals_listAppend : Deals C 3 (Same 2) (fun _ => True) listAppend := by
  refine .popThen fun v hv w hw => ?_
  rcases hstack : w.stack with _ | ⟨it, _ | ⟨target, rest⟩⟩
  iterate 2 exact .getShort (by simp [hstack]) (by rw [hstack])
  · have hlength : 0 + 2 ≤ w.stack.length := by simp [hstack]
    refine .get (fun _ base table _ => ?_) ?_
    · simp only [State.above, hstack, List.cons_append]
      cases target <;> rfl
    · rw [hstack]
      cases target with
      | list ref =>
        have href : C.Fit (.list ref) := hw.stack _ (by simp [hstack])
        exact (Deals.op (Value.keeps_append (hw.writes ref href) hv) w hw).deeper hlength
      | _ => exact .fail _

/-! ## Libraries -/

theorem deals_importModule : Deals C 1 (Same 1) (fun _ => True) importModule := by
  intro w hw
  refine .get (fun hn base table _ => ?_) ?_
  · cases hstack : w.stack with
    | nil =>
      rw [hstack] at hn
      cases hn
    | cons v rest => simp only [State.above, hstack, List.cons_append, List.isEmpty_cons]
  · refine Deals.check (.popThen fun name _ => ?_) w hw
    split
    · rename_i found hfound
      rw [Library.find_eq_ok hfound]
      exact .push (C.atom rfl)
    · split
      · exact .first (.ask _) fun _ _ => .fail _
      · exact .fault _

theorem deals_reversed (hv : C.Fit v) :
    Deals C 0 (Same 0) (fun found : List Value => ∀ v ∈ found, C.Loose v) (reversed v) := by
  have hitems : (∀ kind ref, v ≠ .iterator kind ref) →
      Deals C 0 (Same 0) (fun found : List Value => ∀ v ∈ found, C.Loose v)
        (do return (← op v.items).reverse) := by
    intro hkind
    exact .first (.op (Value.keeps_items hv hkind)) fun found hfound =>
      .pure fun u hu => hfound u (List.mem_reverse.1 hu)
  unfold reversed
  split
  · exact hitems nofun
  · exact hitems nofun
  · exact hitems nofun
  · exact hitems nofun
  · exact .fault _

theorem deals_pushMembers (library name : String) : ∀ items : List Value,
    Deals C 0 (fun w _ w' => w' = w) (fun _ => True) (pushMembers .standard (.library library) name items)
  | [] => (Deals.pure trivial).imp fun _ _ _ h => h.1
  | item :: rest => by
    refine .first (.op (Value.keeps_knows library item)) fun known _ => ?_
    cases known with
    | true =>
      refine .first (.op (Value.keeps_member library item)) fun v hv w hw => ?_
      refine (DealsAt.andThen (Deals.push (hw.strict v hv) w hw) (fun k w' h => ?_)
        (fun _ _ => deals_pushMembers library name rest) ?_).imp ?_
      · rw [h.1]
        rfl
      · intro a w₁ e w' hpush _
        cases hpush
        rfl
      · rintro k w' ⟨i, j, w₁, rfl, ⟨rfl, rfl⟩, rfl⟩
        rfl
    | false => exact .first (.ask _) fun _ _ _ _ => .failThen _ _

theorem deals_importFrom : Deals C 2 (fun w _ w' => w' = w) (fun _ => True) importFrom := by
  intro w hw
  rcases hstack : w.stack with _ | ⟨v, _ | ⟨u, rest⟩⟩
  iterate 2 exact .getShort (by simp [hstack]) (by rw [hstack])
  · refine .get (fun _ base table _ => ?_) ?_
    · simp only [State.above, hstack, List.cons_append]
    · rw [hstack]
      refine Deals.popThen (fun items hitems => Deals.popThen fun name _ => ?_) w hw
      split
      · rename_i found hfound
        rw [Library.find_eq_ok hfound]
        exact .first (.ask _) fun _ _ => .first (deals_reversed hitems) fun _ _ =>
          deals_pushMembers _ _ _
      · split
        · exact .first (.ask _) fun _ _ => .fail _
        · exact .fault _

/-! ## Handlers -/

theorem run_raise (ref : Nat) (w : State) : raise ref w = match w.raised ref with
    | some w' => .ok () w'
    | none => .error (.failed (unhandled w.store ref))
        { w with current := some ref, handlers := usable w.handlers } := by
  let thrown : State := { w with current := some ref, handlers := usable w.handlers }
  have hthrown : (modify fun s => { s with
      current := some ref, handlers := usable s.handlers } : Act Unit) w = .ok () thrown := rfl
  rw [raise, bind_of_ok hthrown,
    bind_of_ok (show (get : Act State) thrown = .ok thrown thrown from rfl)]
  unfold State.raised
  simp only [thrown]
  cases hhandlers : usable w.handlers with
  | nil => rfl
  | cons handler rest =>
    cases hcall : handler.inCall <;> cases hframes : w.frames <;>
      simp [State.lead, hcall, hframes] <;> rfl

theorem deals_raise (ref : Nat) :
    Deals C 0 (fun w k w' => k = 0 ∧ w.raised ref = some w') (fun _ => True) (raise ref) := by
  intro w hw
  cases hraised : w.raised ref with
  | none =>
    have hrun := run_raise ref w
    rw [hraised] at hrun
    refine .of_error hrun rfl fun _ base table _ => ?_
    rw [run_raise, State.raised_above, hraised]
    rfl
  | some u =>
    have hrun := run_raise ref w
    rw [hraised] at hrun
    refine ⟨nofun, fun a w' hx => ?_, fun e w' hx => (nomatch hrun.symm.trans hx),
      fun _ base table _ _ => ?_⟩
    · rw [hrun] at hx
      cases hx
      obtain ⟨hguards, hstack⟩ := State.guards_raised hw hraised
      exact ⟨trivial, hguards, [], hstack, rfl, by rw [State.raised_rest, hraised]; rfl⟩
    · rw [hrun, run_raise, State.raised_above, hraised]
      rfl

theorem DealsAt.withStore {x y : Act α} {store : Store} (hrun : y w = x { w with store })
    (habove : ∀ base table, y (w.above base table) = x (State.above { w with store } base table))
    (h : DealsAt C n R P x { w with store }) : DealsAt C n R P y w where
  short hlt := by rw [hrun]; exact h.short hlt
  done a w' hx := h.done a w' (hrun ▸ hx)
  broken e w' hx := h.broken e w' (hrun ▸ hx)
  above hn base table htable hknown := by
    rw [hrun] at hknown ⊢
    rw [habove]
    exact h.above hn base table htable hknown

theorem deals_throwTop : Deals C 1 (fun w k w' => k = 0 ∧ ∃ ref, w.raised ref = some w')
    (fun _ => True) throwTop := by
  refine .popThen fun v _ => .first (.ask _) fun message _ w hw => ?_
  refine .withStore (x := raise w.store.exceptions.size) rfl (fun _ _ => rfl) ?_
  refine DealsAt.imp (deals_raise w.store.exceptions.size _ ?_) fun k w' h => ⟨h.1, _, h.2⟩
  exact { hw with store := { hw.store with } }

theorem deals_again {y : Act Unit} (hR : ∀ w ref w', w.raised ref = some w' → R w 0 w')
    (hy : ∀ w, w.current = none → C.Guards w → DealsAt C 0 R (fun _ => True) y w) :
    Deals C 0 R (fun _ => True) (do
      match (← MonadState.get).current with
      | some ref => raise ref
      | none => y) := by
  refine .get (fun _ _ _ => rfl) fun w hw => ?_
  cases hcurrent : w.current with
  | some ref => exact (deals_raise ref w hw).imp fun k w' h => h.1 ▸ hR _ _ _ h.2
  | none => exact hy w hcurrent hw

theorem deals_tryBegin : Deals C 0
    (fun w k w' => k = 0 ∧ w' = { w with handlers := w.newHandler :: w.handlers })
    (fun _ => True) tryBegin :=
  fun _ hw => .change (f := fun w => { w with handlers := w.newHandler :: w.handlers })
    (fun u => (bind_of_ok (run_code u)).trans (bind_of_ok (run_counter u))) { hw with } rfl
    ⟨rfl, rfl⟩ fun _ _ => rfl

theorem deals_leaveCatch :
    Deals C 0 (fun w k w' => k = 0 ∧ w' = w.declined) (fun _ => True) leaveCatch :=
  fun w hw => .change (f := State.declined)
    (fun u => (bind_of_ok (run_code u)).trans (bind_of_ok (run_counter u))) (State.guards_jump hw _)
    (w.stack_jump _) ⟨rfl, w.rest_jump _⟩ fun base table => w.above_jump _ base table

theorem deals_tryEnd : Deals C 0 (fun w k w' => k = 0 ∧
    (w.current = none ∧ w' = w.passed ∨ w.current ≠ none ∧ w' = w)) (fun _ => True) tryEnd := by
  refine .get (fun _ _ _ => rfl) fun w hw => ?_
  cases hcurrent : w.current with
  | none =>
    exact .change (f := State.passed)
      (fun u => (bind_of_ok (run_code u)).trans (bind_of_ok (run_counter u)))
      (State.guards_jump hw _) (w.stack_jump _) ⟨rfl, .inl ⟨hcurrent, w.rest_jump _⟩⟩
      fun base table => w.above_jump _ base table
  | some ref =>
    refine DealsAt.imp (Deals.pure trivial w hw) fun k w' h => ⟨h.2, .inr ⟨?_, h.1⟩⟩
    exact fun hnone => nomatch hcurrent.symm.trans hnone

theorem deals_catchBegin (operand : Datum) : Deals C 0
    (fun w _ w' => w.current ≠ none ∧ w' = w ∨ w' = w.declined) (fun _ => True)
    (catchBegin operand) := by
  have hleave : Deals C 0 (fun w _ w' => w.current ≠ none ∧ w' = w ∨ w' = w.declined)
      (fun _ => True) leaveCatch := deals_leaveCatch.imp fun _ _ _ h => .inr h.2
  have hthen : ∀ (ref : Nat) (suits : Bool) (w : State), w.current ≠ none → C.Guards w →
      DealsAt C 0 (fun w _ w' => w.current ≠ none ∧ w' = w ∨ w' = w.declined) (fun _ => True)
        (if suits then push (.exception ref) else leaveCatch) w := by
    intro ref suits w hcurrent hw
    split
    · exact (Deals.push (C.atom rfl) w hw).imp fun _ _ h => .inl ⟨hcurrent, h.1⟩
    · exact hleave w hw
  refine .get (fun _ _ _ => rfl) fun w hw => ?_
  cases hcurrent : w.current with
  | none => exact hleave w hw
  | some ref =>
    have hne : w.current ≠ none := fun hnone => nomatch hcurrent.symm.trans hnone
    cases operand with
    | null => exact hthen ref true w hne hw
    | _ =>
      refine (deals_constant _ w hw).first fun type w₁ _ hw₁ hrest₁ => ?_
      have hne₁ : w₁.current ≠ none := by
        have hsame : w₁.rest.current = w.rest.current := by rw [hrest₁]
        exact fun hnone => hne (hsame.symm.trans hnone)
      exact .get (fun _ _ _ _ => rfl) (hthen ref _ w₁ hne₁ hw₁)

theorem noted_nil (h : w.handlers = []) : w.noted = w := by
  rw [State.noted, h]

theorem noted_cons {handler : Handler} {rest : List Handler}
    (h : w.handlers = handler :: rest) : w.noted =
      { w with handlers := { handler with finallyAt := some w.outline.counter } :: rest } := by
  rw [State.noted, h]

theorem deals_finallyBegin :
    Deals C 0 (fun w k w' => k = 0 ∧ w' = w.noted) (fun _ => True) finallyBegin := by
  intro w hw
  refine .change (f := State.noted) (fun u => bind_of_ok (run_counter u)) ?_ ?_ ⟨rfl, ?_⟩ ?_
  · unfold State.noted
    split
    · exact { hw with }
    · exact hw
  · unfold State.noted
    split <;> rfl
  · cases h : w.handlers with
    | nil => rw [noted_nil h, noted_nil (w := w.rest) h]
    | cons handler rest =>
      rw [noted_cons h, noted_cons (w := w.rest) h]
      rfl
  · intro base table
    cases h : w.handlers with
    | nil => rw [noted_nil h, noted_nil (w := w.above base table) h]
    | cons handler rest =>
      rw [noted_cons h, noted_cons (w := w.above base table) h]
      rfl

end Act

/-! ## Instructions -/

/-- How many operands an instruction takes. -/
def needs (i : Instruction) : Nat :=
  match i.op with
  | .storeVar | .storeGlobal | .storeLocal | .negate | .jumpIfFalse | .jumpIfTrue | .ret | .pop
  | .dup | .throwTop | .formatValue | .getIter | .forIter | .len | .importModule => 1
  | .add | .sub | .mul | .div | .mod | .pow | .eq | .ne | .lt | .gt | .le | .ge | .isIn | .both
  | .either | .getItem | .rotTwo | .importFrom => 2
  | .setItem | .listAppend | .rotThree => 3
  | .call => i.count + 1
  | .buildList | .buildTuple => i.count
  | .buildDict => 2 * i.count
  | _ => 0

/-- How many operands an instruction leaves that takes the rest of a state to another. -/
def Leaves (i : Instruction) (w : State) (k : Nat) (w' : State) : Prop :=
  match i.op with
  | .storeVar | .storeGlobal | .storeLocal | .jump | .jumpIfFalse | .jumpIfTrue | .pop | .setItem
  | .tryBegin | .tryEnd | .catchEnd | .finallyBegin | .finallyEnd | .throwTop | .reraise => k = 0
  | .dup | .rotTwo | .listAppend => k = 2
  | .rotThree => k = 3
  | .forIter => Act.Iterates i.operand w k w'
  | .call => Act.Answers w k w'
  | .catchBegin | .importFrom => True
  | _ => k = 1

namespace Act

variable {C : Custody}

/-- Every instruction does with its operands and with the rest of the state what it is said to. -/
theorem deals_perform (i : Instruction) :
    Deals C (needs i) (fun w k w' => Effect i w w' ∧ Leaves i w k w') (fun _ => True)
      (perform i) := by
  obtain ⟨op, operand⟩ := i
  cases op with
  | loadConst | loadFunc => exact .first (deals_constant operand) fun _ => .push
  | loadVar =>
    exact .innermost (fun w _ _ hframes hw => deals_loadLocal (frame_fit hw hframes) operand w hw)
      fun w _ hw => deals_loadGlobal operand w hw
  | storeVar =>
    refine Deals.imp (.popThen fun v hv => .innermost
      (fun w _ _ hframes hw => deals_storeLocal hw hframes operand hv)
      fun w _ hw => deals_storeGlobal operand hv w hw) fun _ _ _ h => ⟨h.2, h.1⟩
  | loadGlobal => exact deals_loadGlobal operand
  | storeGlobal =>
    exact Deals.imp (.popThen fun v hv => deals_storeGlobal operand hv) fun _ _ _ h => ⟨h.2, h.1⟩
  | loadLocal =>
    exact .innermost (fun w _ _ hframes hw => deals_loadLocal (frame_fit hw hframes) operand w hw)
      fun _ _ _ => .fail _
  | storeLocal =>
    refine Deals.imp (R := Writes) (.innermost (fun w _ _ hframes hw => ?_) fun _ _ _ => .fail _)
      fun _ _ _ h => ⟨h.2, h.1⟩
    exact (Deals.pop w hw).bind fun v w₁ hv hw₁ hrest₁ _ =>
      deals_storeLocal hw₁ ((State.frames_of_rest hrest₁).trans hframes) operand hv
  | add | sub | mul | div | mod | pow => exact deals_binary fun a b ha hb => confined_arith _ ha hb
  | eq | ne =>
    exact deals_binary fun a b _ _ => .bind (confined_same a b) fun _ => .pure (C.atom rfl)
  | lt | gt | le | ge => exact deals_binary fun a b _ _ => confined_order _ a b
  | isIn => exact deals_binary fun a b _ _ => confined_member a b
  | both => exact deals_binary fun a b ha hb => confined_pick a hb ha
  | either => exact deals_binary fun a b ha hb => confined_pick a ha hb
  | negate =>
    exact .popThen fun v _ => .first (.confined (confined_truth v)) fun _ _ => .push (C.atom rfl)
  | jump => exact (deals_jump _).imp fun _ _ _ h => ⟨h.2, h.1⟩
  | jumpIfFalse => exact (deals_jumpIf false operand).imp fun _ _ _ h => ⟨h.2, h.1⟩
  | jumpIfTrue => exact (deals_jumpIf true operand).imp fun _ _ _ h => ⟨h.2, h.1⟩
  | call =>
    refine (deals_call ⟨.call, operand⟩).imp fun w k w' h => ⟨?_, h⟩
    exact h.imp And.right And.right
  | ret => exact deals_ret.imp fun _ _ _ h => ⟨h.2, h.1⟩
  | pop => exact .popThen fun _ _ => .pure trivial
  | dup => exact deals_dup
  | halt =>
    exact fun _ _ => .of_error rfl rfl fun _ _ _ _ => rfl
  | tryBegin => exact deals_tryBegin.imp fun _ _ _ h => ⟨h.2, h.1⟩
  | tryEnd => exact deals_tryEnd.imp fun _ _ _ h => ⟨h.2, h.1⟩
  | catchBegin => exact (deals_catchBegin operand).imp fun _ _ _ h => ⟨h, trivial⟩
  | catchEnd =>
    exact fun _ hw => .change (f := fun w => { w with handlers := w.handlers.tail, current := none })
      (fun _ => rfl) { hw with } rfl ⟨rfl, rfl⟩ fun _ _ => rfl
  | finallyBegin => exact deals_finallyBegin.imp fun _ _ _ h => ⟨h.2, h.1⟩
  | finallyEnd =>
    refine deals_again (fun _ ref _ h => ⟨.inr ⟨ref, h⟩, rfl⟩) fun w hcurrent hw => ?_
    exact DealsAt.imp (Deals.pure trivial w hw) fun _ _ h => ⟨.inl ⟨hcurrent, h.1⟩, h.2⟩
  | throwTop => exact deals_throwTop.imp fun _ _ _ h => ⟨h.2, h.1⟩
  | reraise => exact deals_again (fun _ ref _ h => ⟨⟨ref, h⟩, rfl⟩) fun _ _ _ => .fail _
  | buildList =>
    exact .counted (i := ⟨.buildList, operand⟩) (.bind (.popMany _) fun items hitems => .first
      (.op (.newList fun v hv => hitems v (List.mem_toArray.1 hv))) fun _ => .push)
  | buildTuple =>
    exact .counted (i := ⟨.buildTuple, operand⟩) (.bind (.popMany _) fun items hitems =>
      .push (C.tuple.2 hitems))
  | buildDict =>
    exact .counted (i := ⟨.buildDict, operand⟩) (.bind (deals_popPairs _ (by simp [Custody.Entries]))
      fun _ hentries => .first (.op (.newDict hentries)) fun _ => .push)
  | formatValue =>
    exact .popThen fun v _ => .first (.ask _) fun _ _ => .push (C.atom rfl)
  | getItem =>
    exact deals_binary fun v index hv _ =>
      .opOr _ ((Value.keeps_item v index).imp fun _ h => h (.inl hv))
  | setItem =>
    exact .popThen fun value hvalue => .popThen fun index hindex => .popThen fun v hv w hw =>
      Deals.opOr _ (Value.keeps_setItem (fun ref h => hw.writes ref (h ▸ hv)) (C.loose hindex) hvalue)
        w hw
  | getIter => exact .popThen fun v hv => .first (.opOr _ (Value.keeps_iterate hv)) fun _ => .push
  | forIter => exact (deals_forIter operand).imp fun _ _ _ h => ⟨h.imp And.right And.right, h⟩
  | listAppend => exact deals_listAppend
  | len =>
    exact .popThen fun v _ => .first
      (.opOr _ (.ask fun s cells => Value.length_withRoutines s cells v)) fun _ _ => .push (C.atom rfl)
  | rotTwo => exact deals_rotTwo
  | rotThree => exact deals_rotThree
  | importModule => exact deals_importModule
  | importFrom => exact deals_importFrom.imp fun _ _ _ h => ⟨h, trivial⟩
  | typeConvert | setAttr | getAttr | hasAttr | createClass | createObject | callMethod | print
  | typeCheck => exact .fail _

theorem deals_fetch : Deals C 0 (fun w k w' => k = 0 ∧ (w' = w ∨ ∃ target, w' = w.jump target))
    (fun _ => True) fetch := by
  have hcode : Deals C 0 (Same 0) (fun _ => True) code := by
    refine .get (fun _ _ _ => rfl) fun w hw => ?_
    cases w.frames <;> exact Deals.pure trivial w hw
  have hcounter : Deals C 0 (Same 0) (fun _ => True) counter := by
    refine .get (fun _ _ _ => rfl) fun w hw => ?_
    cases w.frames <;> exact Deals.pure trivial w hw
  have hok {α : Type} (x : Except Fault α) : Deals C 0 (Same 0) (fun _ => True) (ofExcept x) :=
    .ofExcept fun _ _ => trivial
  refine .first hcode fun code _ => .first hcounter fun c _ => .first (hok _) fun past _ => ?_
  cases past with
  | true => exact (Deals.pure trivial).imp fun _ _ _ h => ⟨h.2, .inl h.1⟩
  | false =>
    refine .first (hok _) fun i _ w hw => ?_
    refine ((deals_jump c.next w hw).andThen (fun k w' h => ?_) (fun _ _ => .pure trivial)
      ?_).imp ?_
    · rw [h.2]
      exact congrArg (·.2.1) (w.rest.program_jump _)
    · intro a w₁ e w' _ hpure
      cases hpure
    · rintro k w' ⟨_, _, w₁, rfl, ⟨rfl, rfl⟩, rfl, rfl⟩
      exact ⟨rfl, .inr ⟨c.next, rfl⟩⟩

/-- An action that finds its operands does the same above any others. -/
theorem Deals.slides {α : Type} {n : Nat} {R : State → Nat → State → Prop} {P : α → Prop} {x : Act α}
    (h : Deals .free n R P x) {w w' : State} {a : α} {segment below : List Value}
    (hstack : w.stack = segment ++ below) (hn : n ≤ segment.length) (hx : x w = .ok a w') :
    ∃ k segment', R w.rest k w'.rest ∧ w'.stack = segment' ++ below ∧
      segment'.length = segment.length - n + k ∧ ∀ other, x { w with stack := segment ++ other } =
        .ok a { w' with stack := segment' ++ other } := by
  obtain ⟨-, -, given, hgiven, hR⟩ := (h w (Custody.guards_free w)).done a w' hx
  rw [hstack, List.drop_append_of_le_length hn, ← List.append_assoc] at hgiven
  refine ⟨given.length, given ++ segment.drop n, hR, hgiven, by simp; omega, fun other => ?_⟩
  -- The values of the segment alone: any others can come below them.
  have habove : ∀ other, x { w with stack := segment ++ other } =
      resultAbove other w.routines (x { w with stack := segment }) := fun other =>
    (h _ (Custody.guards_free { w with stack := segment })).above hn other w.routines
      (fun _ _ => id) fun _ _ hnone _ => hnone
  have hwhole := habove below
  rw [← hstack, hx] at hwhole
  rw [habove]
  cases hrun : x { w with stack := segment } with
  | error e t =>
    rw [hrun] at hwhole
    cases hwhole
  | ok b t =>
    rw [hrun] at hwhole
    cases hwhole
    have hsegment : t.stack = given ++ segment.drop n := List.append_cancel_right hgiven
    simp only [resultAbove, State.above, hsegment]

end Act

end Wide

end StackScript
