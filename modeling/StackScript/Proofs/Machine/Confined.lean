import StackScript.Proofs.Machine.Custody
import StackScript.Proofs.Meaning.Interpreter

/-!
# Actions on values

The operations of a machine on values see nothing of its state but the store and the output, and
keep the rest (`Act.Local`). So such an operation does in a machine what it does by itself. With what
becomes of the values in the store this is `Act.Confined`.
-/

namespace StackScript.Wide

/-- The part of a state that operations on values see. -/
def State.bare (s : State) : State := { store := s.store, output := s.output }

/-- A state with the store and the output of another. -/
def State.over (s t : State) : State := { s with store := t.store, output := t.output }

/-- A result in the state of a machine. -/
def resultOver {α : Type} (s : State) :
    EStateM.Result Stop State α → EStateM.Result Stop State α
  | .ok a t => .ok a (s.over t)
  | .error e t => .error e (s.over t)

@[simp] theorem State.bare_bare (s : State) : s.bare.bare = s.bare := rfl

@[simp] theorem State.bare_over (s t : State) : (s.over t).bare = t.bare := rfl

namespace Act

/-- An action that sees and changes nothing but the store and the output. -/
def Local {α : Type} (x : Act α) : Prop := ∀ s, x s = resultOver s (x s.bare)

/-- An action on values that keeps the store as demanded, with a result as demanded. -/
structure Confined {α : Type} (C : Custody) (P : α → Prop) (x : Act α) : Prop where
  isLocal : Local x
  keeps : ∀ w : State, C.Holds w.store → C.Holds (stateAfter (x w)).store ∧
    ∀ a w', x w = .ok a w' → P a

variable {α β : Type}

namespace Local

theorem op (x : Op α) : Local (Act.op x) := by
  intro s
  simp only [Act.op, State.bare]
  cases x s.store <;> rfl

theorem opOr (rename : Fault → Failure) (x : Op α) : Local (Act.opOr rename x) := by
  intro s
  simp only [Act.opOr, State.bare]
  cases x s.store <;> rfl

variable {x : Act α}

theorem bare_ok (h : Local x) {s t : State} {a : α} (hx : x s.bare = .ok a t) : t.bare = t := by
  have := h s.bare
  rw [State.bare_bare, hx] at this
  have heq : t = s.bare.over t := by simpa [resultOver] using this
  rw [heq]
  rfl

theorem bind {f : α → Act β} (hx : Local x) (hf : ∀ a, Local (f a)) : Local (x >>= f) := by
  intro s
  cases h : x s.bare with
  | ok a t =>
    have hs : x s = .ok a (s.over t) := by rw [hx s, h, resultOver]
    rw [bind_of_ok hs, bind_of_ok h, hf a (s.over t), State.bare_over, hx.bare_ok h]
    cases f a t <;> rfl
  | error e t =>
    have hs : x s = .error e (s.over t) := by rw [hx s, h, resultOver]
    rw [bind_of_error hs, bind_of_error h]
    rfl

end Local

namespace Confined

variable {C : Custody} {P : α → Prop} {Q : β → Prop}

theorem pure {a : α} (h : P a) : Confined C P (Pure.pure a : Act α) := by
  refine ⟨fun _ => rfl, fun w hw => ⟨hw, fun b w' hx => ?_⟩⟩
  cases hx
  exact h

theorem fail (cause : Failure) : Confined C P (Act.fail cause : Act α) :=
  ⟨fun _ => rfl, fun _ hw => ⟨hw, nofun⟩⟩

theorem fault (cause : Fault) : Confined C P (Act.fault cause : Act α) := fail _

theorem opOr (rename : Fault → Failure) {x : Op α} (h : Op.Keeps C P x) :
    Confined C P (Act.opOr rename x) := by
  refine ⟨.opOr rename x, fun w hw => ?_⟩
  obtain ⟨hs, hresult⟩ := h w.store hw
  simp only [Act.opOr]
  cases hx : x w.store with
  | error e t =>
    rw [hx] at hs
    exact ⟨hs, nofun⟩
  | ok a t =>
    rw [hx] at hs
    refine ⟨hs, fun b w' hb => ?_⟩
    cases hb
    exact (hresult a t hx).1

theorem op {x : Op α} (h : Op.Keeps C P x) : Confined C P (Act.op x) := opOr .value h

theorem ofExcept {x : Except Fault α} (h : ∀ a, x = .ok a → P a) : Confined C P (Act.ofExcept x) :=
  op (.ofExcept h)

theorem ask (f : Store → Except Fault α) : Confined C (fun _ => True) (Act.ask f) := by
  refine ⟨.op _, fun w hw => ⟨?_, fun _ _ _ => trivial⟩⟩
  simp only [Act.ask, Act.op]
  rw [show Op.ask f w.store = Op.ofExcept (f w.store) w.store from rfl]
  cases f w.store <;> exact hw

/-- Where nothing is demanded, every action on values will do. -/
theorem ofLocal (hC : C.Free) {x : Act Value} (h : Local x) : Confined C C.Fit x :=
  ⟨h, fun _ _ => ⟨hC.2 _, fun _ _ _ => hC.1 _⟩⟩

theorem bind {x : Act α} {f : α → Act β} (hx : Confined C P x) (hf : ∀ a, Confined C Q (f a)) :
    Confined C Q (x >>= f) := by
  refine ⟨hx.isLocal.bind fun a => (hf a).isLocal, fun w hw => ?_⟩
  obtain ⟨hs, -⟩ := hx.keeps w hw
  cases h : x w with
  | ok a t =>
    rw [h] at hs
    rw [bind_of_ok h]
    exact (hf a).keeps t hs
  | error e t =>
    rw [h] at hs
    rw [bind_of_error h]
    exact ⟨hs, nofun⟩

theorem storeThen {f : Store → Act β} (hf : ∀ s, Confined C Q (f s)) :
    Confined C Q (get >>= fun s => f s.store) :=
  ⟨fun w => (hf w.store).isLocal w, fun w => (hf w.store).keeps w⟩

theorem print (line : String) : Confined C (fun _ => True) (Act.print line) :=
  ⟨fun _ => rfl, fun _ hw => ⟨hw, fun _ _ _ => trivial⟩⟩

theorem mapM {f : α → Act β} (hf : ∀ a, Confined C (fun _ => True) (f a)) (as : List α) :
    Confined C (fun _ => True) (as.mapM f) := by
  induction as with
  | nil => exact pure trivial
  | cons a as ih =>
    rw [List.mapM_cons]
    exact bind (hf a) fun b => bind ih fun bs => pure trivial

end Confined

variable {C : Custody} {a b : Value}

theorem confined_arith (o : ArithOp) (ha : C.Fit a) (hb : C.Fit b) :
    Confined C C.Fit (arith o a b) := by
  refine Confined.storeThen (f := fun store => do
    if o = .div && Value.same store b (.int 0) then fault .divisionByZero
    op (Value.arith o a b)) fun s => ?_
  split
  · exact .bind (P := fun _ => True) (.fault _) fun _ => .op (Value.keeps_arith o ha hb)
  · exact .op (Value.keeps_arith o ha hb)

theorem confined_order (o : OrderOp) (a b : Value) : Confined C C.Fit (order o a b) :=
  .bind (.ask _) fun _ => .pure (C.atom rfl)

theorem confined_same (a b : Value) : Confined C (fun _ => True) (same a b) :=
  Confined.storeThen (f := fun store => return Value.same store a b) fun _ => .pure trivial

theorem confined_truth (v : Value) : Confined C (fun _ => True) (truth v) :=
  Confined.storeThen (f := fun store => return v.truth store) fun _ => .pure trivial

theorem confined_pick (v : Value) (ha : C.Fit a) (hb : C.Fit b) :
    Confined C C.Fit (do return if ← truth v then a else b) := by
  refine .bind (confined_truth v) fun t => .pure ?_
  cases t with
  | true => exact ha
  | false => exact hb

theorem confined_member (a b : Value) : Confined C C.Fit (member a b) :=
  .bind (.opOr _ (Value.keeps_contains b a)) fun _ => .pure (C.atom rfl)

end Act

section Functions

variable {C : Custody}

theorem confined_printAll (vs : List Value) : Act.Confined C C.Fit (printAll vs) :=
  .bind (.mapM (fun _ => .ask _) vs) fun _ => .bind (.print _) fun _ => .pure (C.atom rfl)

variable {name : String} {f : Function}

theorem confined_unary {P : Value → Prop} {owner : String} {f : Value → Act Value}
    (hf : ∀ v, Act.Confined C P (f v)) (vs : List Value) :
    Act.Confined C P (unary owner name f vs) := by
  unfold unary
  split
  · exact hf _
  · exact .fault _
  · exact .fault _

/-- The functions that every program can call are actions on values. -/
theorem confined_plainFunction (h : plainFunction? name = some f)
    (vs : List Value) : Act.Confined C C.Fit (f vs) := by
  unfold plainFunction? at h
  split at h <;> cases h
  · exact confined_printAll vs
  · exact confined_unary (fun v => .bind (.ask _) fun _ => .pure (C.atom rfl)) vs
  · exact confined_unary (fun v => .bind (P := fun _ => True) (.ofExcept fun _ _ => trivial) fun _ =>
      .pure (C.atom rfl)) vs
  · exact confined_unary (fun v => .op (Value.keeps_toFloat v)) vs
  · exact confined_unary (fun v => .bind (.ask _) fun _ => .pure (C.atom rfl)) vs
  · exact .op (Value.keeps_range _ vs)

/-- The functions of the extended machine see nothing but values. -/
theorem local_extendedFunction (h : extendedFunction? name = some f)
    (vs : List Value) : Act.Local (f vs) := by
  have hpure : ∀ v : Value, Act.Local (pure v : Act Value) := fun _ _ => rfl
  have hfault : ∀ cause, Act.Local (Act.fault cause : Act Value) := fun _ _ => rfl
  have hnamed : ∀ {owner name : String} {names : List String} {g : Function},
      Act.Local (g vs) → Act.Local (named owner name names g vs) := by
    intro owner name names g hg
    unfold named
    split
    · exact hg
    · split <;> exact hfault _
  unfold extendedFunction? at h
  split at h
  case h_12 =>
    unfold mathFunction? at h
    split at h <;> cases h
    case h_5 | h_6 => exact hfault _
    all_goals exact .op _
  all_goals cases h
  · exact (confined_unary (C := .free) (P := fun _ => True) (fun _ => .pure trivial) vs).isLocal
  · refine hnamed ?_
    split
    · exact .bind (.op _) fun _ => hpure _
    · exact hpure _
  · refine hnamed ?_
    split
    · exact .bind (.op _) fun _ => hpure _
    · exact .bind (.op _) fun _ => hpure _
    · exact hpure _
  · refine hnamed ?_
    split
    · exact .op _
    · exact .op _
    · exact hpure _
  · refine hnamed ?_
    split
    · exact .bind (.op _) fun _ => hpure _
    · exact .bind (.op _) fun _ => hpure _
    · exact hpure _
  · dsimp only
    split
    · unfold readJson
      split
      · split
        · exact .op _
        · exact hfault _
      · exact hfault _
    · exact hfault _
    · exact hfault _
  · dsimp only
    split
    · exact .bind (.op _) fun _ => hpure _
    · exact hfault _
    · exact hfault _
  · unfold exit
    split <;> exact fun _ => rfl
  all_goals exact hfault _

/-- All functions are actions on values, and those of the plain machine keep what is demanded. -/
theorem confined_function {functions : Functions} (hC : functions = .plain ∨ C.Free)
    (h : function? functions name = some f) (vs : List Value) : Act.Confined C C.Fit (f vs) := by
  cases functions with
  | plain => exact confined_plainFunction h vs
  | extended =>
    obtain hplain | hfree := hC
    · cases hplain
    · cases hfound : extendedFunction? name with
      | some g =>
        rw [function?, hfound] at h
        cases h
        exact .ofLocal hfree (local_extendedFunction hfound vs)
      | none =>
        rw [function?, hfound] at h
        exact confined_plainFunction h vs

end Functions

end StackScript.Wide

namespace StackScript.Meaning

open Wide

variable {C : Custody}

theorem confined_itemOf (v index : Value) :
    Act.Confined C (fun found => C.Opens v → C.Fit found) (itemOf v index) :=
  .opOr _ (Value.keeps_item v index)

theorem confined_iteratorOf {v : Value} (hv : C.Fit v) : Act.Confined C C.Fit (iteratorOf v) :=
  .opOr _ (Value.keeps_iterate hv)

theorem confined_binary {operator : String} {f : Value → Value → Act Value}
    (h : binary? operator = some f) {a b : Value} (ha : C.Fit a) (hb : C.Fit b) :
    Act.Confined C C.Fit (f a b) := by
  unfold binary? at h
  split at h <;> cases h
  case h_7 | h_8 => exact .bind (Act.confined_same a b) fun _ => .pure (C.atom rfl)
  case h_13 => exact Act.confined_member a b
  case h_14 => exact Act.confined_pick a hb ha
  case h_15 => exact Act.confined_pick a ha hb
  all_goals first | exact Act.confined_arith _ ha hb | exact Act.confined_order _ a b

end StackScript.Meaning
