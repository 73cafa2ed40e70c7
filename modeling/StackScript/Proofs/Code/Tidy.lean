import StackScript.Proofs.Code.Growth

/-!
# Trees whose code is paced

A statement is tidy when its code leaves the stack as it was and obeys rules about what may stand
above other values. The first operand of an expression starts where the expression does; all others
have it below them, and so has the body of a counted loop its iterator.
-/

namespace StackScript

open Scanner (Piece)

/-! ## Tidy trees -/

section

variable (rules : Rules)

/-- An expression whose code obeys the rules and leaves one value. `atBottom` tells whether nothing
is below it. -/
inductive Expr.Tidy : Bool → Expr → Prop
  | literal {b : Bool} {d : Datum} : Tidy b (.literal d)
  | formatted {b : Bool} {pieces : List Piece} : pieces ≠ [] →
      (∀ source, .hole source ∈ pieces → ∀ e, Gen.expressionOf source = .ok e →
        Tidy false e) → Tidy b (.formatted (.list (pieces.map Piece.datum)))
  | name {b : Bool} {word : String} : Tidy b (.name word)
  | binary {b : Bool} {left right : Expr} {operator : String} : Tidy b left →
      Tidy false right → Tidy b (.binary left operator right)
  | unary {b : Bool} {operand : Expr} {operator : String} :
      Tidy (b && operator != "-") operand → Tidy b (.unary operator operand)
  | call {b : Bool} {function : Expr} {arguments : List Expr} : (rules.of .call).Allows b →
      (∀ object word, function = .member object word → (rules.of .callMethod).Allows b) →
      Tidy b function → (∀ a ∈ arguments, Tidy false a) →
      Tidy b (.call function arguments)
  | member {b : Bool} {object : Expr} {word : String} : (rules.of .getAttr).Allows b →
      Tidy b object → Tidy b (.member object word)
  | index {b : Bool} {object index : Expr} : Tidy b object → Tidy false index →
      Tidy b (.index object index)
  | list {b : Bool} {elements : List Expr} : (∀ e ∈ elements, Tidy false e) →
      Tidy b (.list elements)
  | tuple {b : Bool} {elements : List Expr} : (∀ e ∈ elements, Tidy false e) →
      Tidy b (.tuple elements)
  | dict {b : Bool} {pairs : List (Expr × Expr)} : (∀ entry ∈ pairs, Tidy false entry.1) →
      (∀ entry ∈ pairs, Tidy false entry.2) → Tidy b (.dict pairs)
  | comprehension {b : Bool} {element iterable : Expr} {target : String}
      {condition : Option Expr} : (rules.of .getIter).Allows false → Tidy false element →
      Tidy false iterable → (∀ c ∈ condition, Tidy false c) →
      Tidy b (.comprehension element target iterable condition)

end

mutual

/-- A statement whose code obeys the rules and leaves the stack as it was, with functions that obey
the inner rules. `inWhile` tells whether a conditional loop encloses it without a counted one
between, `atBottom` whether nothing is below it on the stack. -/
def Stmt.Tidy (inner rules : Rules) (inWhile atBottom : Bool) : Stmt → Prop
  | .expression e => e.Tidy rules atBottom ∧ (rules.of .pop).Allows atBottom
  | .declare _ value _ => ∀ e ∈ value, e.Tidy rules atBottom
  | .assign _ value => value.Tidy rules atBottom
  | .assignMember object _ value =>
    (rules.of .setAttr).Allows atBottom ∧ object.Tidy rules atBottom ∧ value.Tidy rules false
  | .assignIndex object index value =>
    object.Tidy rules atBottom ∧ index.Tidy rules false ∧ value.Tidy rules false
  | .function _ _ body => Stmt.AllTidy inner inner inWhile true body
  | .classDef _ body =>
    (rules.of .createClass).Allows atBottom ∧ Stmt.MethodsTidy inner inWhile body
  | .branch condition thenBody elifs elseBody =>
    condition.Tidy rules atBottom ∧ Stmt.AllTidy inner rules inWhile atBottom thenBody ∧
      Stmt.ElifsTidy inner rules inWhile atBottom elifs ∧
      (match elseBody with
      | some body => Stmt.AllTidy inner rules inWhile atBottom body
      | none => True)
  | .forLoop _ iterable body =>
    (rules.of .getIter).Allows atBottom ∧ iterable.Tidy rules atBottom ∧
      Stmt.AllTidy inner rules false false body
  | .whileLoop condition body =>
    condition.Tidy rules atBottom ∧ Stmt.AllTidy inner rules true atBottom body
  | .repeatLoop condition body =>
    condition.Tidy rules atBottom ∧ Stmt.AllTidy inner rules inWhile atBottom body
  | .importModule _ items =>
    (rules.of .importModule).Allows atBottom ∧ items.getD [] = []
  | .returnValue value => (rules.of .ret).Allows atBottom ∧ ∀ e ∈ value, e.Tidy rules atBottom
  | .breakLoop | .continueLoop => inWhile = false
  | .switch _ _ _ | .tryBlock _ _ _ | .throwValue _ => False
  | .asyncFunction _ _ _ | .decorated _ _ _ _ | .withBlock _ _ _ | .globals _ | .nonlocals _
  | .assertion _ _ | .deletion _ | .pass | .inert => True

/-- All statements are tidy. -/
def Stmt.AllTidy (inner rules : Rules) (inWhile atBottom : Bool) : List Stmt → Prop
  | [] => True
  | s :: rest =>
    s.Tidy inner rules inWhile atBottom ∧ Stmt.AllTidy inner rules inWhile atBottom rest

/-- The functions of a class are tidy. -/
def Stmt.MethodsTidy (inner : Rules) (inWhile : Bool) : List Stmt → Prop
  | [] => True
  | .function _ _ body :: rest =>
    Stmt.AllTidy inner inner inWhile true body ∧ Stmt.MethodsTidy inner inWhile rest
  | _ :: rest => Stmt.MethodsTidy inner inWhile rest

/-- Further alternatives are tidy. -/
def Stmt.ElifsTidy (inner rules : Rules) (inWhile atBottom : Bool) :
    List (Expr × List Stmt) → Prop
  | [] => True
  | (condition, body) :: rest =>
    condition.Tidy rules atBottom ∧ Stmt.AllTidy inner rules inWhile atBottom body ∧
      Stmt.ElifsTidy inner rules inWhile atBottom rest

end

/-! ## Proper tables -/

/-- The limits that the tables set to the code of a routine, in a strict plan. -/
def Scope.limits (strict : Bool) (sc : Scope) (slots : Slots) : Option Limits :=
  if strict then some ⟨sc.constants.toList, sc.globals.length, some slots.length⟩ else none

/-- Tables with paced routines, if there are rules for them, and in a strict plan with a slot for each
name. -/
structure Scope.Proper (strict : Bool) (inner : Option Rules) (sc : Scope) : Prop where
  globals : strict = true → sc.globals.Proper
  locals : strict = true → ∀ slots, sc.locals = some slots → slots.Proper
  routines : ∀ rules ∈ inner, ∀ r ∈ sc.routines,
    Paced rules (sc.limits strict r.slots) r.code.toList

/-- There are limits if the plan is strict, and they leave room for what is in the tables. -/
structure Scope.Under (strict : Bool) (limits : Option Limits) (sc : Scope) : Prop where
  strict : limits.isSome = strict
  covers : ∀ l ∈ limits, l.Covers sc

section Tables

variable {strict : Bool} {inner : Option Rules} {limits : Option Limits} {sc sc' : Scope}

theorem Scope.Under.of_grows (h : sc'.Under strict limits) (hg : sc.Grows sc') :
    sc.Under strict limits :=
  ⟨h.strict, fun l hl => hg.covers (h.covers l hl)⟩

theorem Scope.Under.strict_of_mem (h : sc.Under strict limits) {l : Limits} (hl : l ∈ limits) :
    strict = true := by
  rw [← h.strict, Option.isSome_iff_exists]
  exact ⟨l, hl⟩

variable {name : String} {k : Nat}

theorem Scope.Under.global (h : sc.Under strict limits) (hsc : sc.Proper strict inner)
    (hk : sc.globals.slot? name = some k) : ∀ l ∈ limits, k < l.globals :=
  fun l hl => Nat.lt_of_lt_of_le ((hsc.globals (h.strict_of_mem hl)).lt_length hk)
    (h.covers l hl).globals

theorem Scope.Under.local (h : sc.Under strict limits) (hsc : sc.Proper strict inner)
    {slots : Slots} (hs : sc.locals = some slots)
    (hk : slots.slot? name = some k) : ∀ l ∈ limits, ∃ n, l.locals = some n ∧ k < n := by
  intro l hl
  obtain ⟨n, hn, hle⟩ := (h.covers l hl).locals slots hs
  exact ⟨n, hn, Nat.lt_of_lt_of_le ((hsc.locals (h.strict_of_mem hl) slots hs).lt_length hk) hle⟩

/-- Tables that grow without a new routine stay proper if their slots do. -/
theorem Scope.Proper.of_grows (h : sc.Proper strict inner) (hg : sc.Grows sc')
    (hglobals : strict = true → sc'.globals.Proper)
    (hlocals : strict = true → ∀ slots, sc'.locals = some slots → slots.Proper)
    (hroutines : sc'.routines = sc.routines) : sc'.Proper strict inner := by
  refine ⟨hglobals, hlocals, fun rules hrules r hr => ?_⟩
  have hpaced := h.routines rules hrules r (hroutines ▸ hr)
  cases strict with
  | false => exact hpaced
  | true =>
    have hwithin : Limits.Within ⟨sc.constants.toList, sc.globals.length, some r.slots.length⟩
        ⟨sc'.constants.toList, sc'.globals.length, some r.slots.length⟩ :=
      ⟨hg.constants, hg.globals.length_le, rfl⟩
    exact Paced.mono hwithin hpaced

end Tables

/-! ## What plans keep -/

/-- From these tables the plan makes them grow and keeps them proper, and its result satisfies `P`
under any limits for the tables that it ends with. -/
def YieldsAt {α : Type} (strict : Bool) (inner : Option Rules) (sc : Scope) (x : Plan α)
    (P : Option Limits → α → Prop) : Prop :=
  ∀ a sc', x sc = .ok (a, sc') → sc.Grows sc' ∧ (sc.Proper strict inner →
    sc'.Proper strict inner ∧ ∀ limits, sc'.Under strict limits → P limits a)

/-- The same from all tables with the mark `w` for conditional loops. -/
def Yields {α : Type} (strict : Bool) (inner : Option Rules) (w : Bool) (x : Plan α)
    (P : Option Limits → α → Prop) : Prop :=
  ∀ sc, sc.inWhile = w → YieldsAt strict inner sc x P

namespace Yields

variable {α β : Type} {strict : Bool} {inner : Option Rules} {w : Bool} {P : Option Limits → α → Prop}
  {Q : Option Limits → β → Prop}

variable {x : Plan α} {f : α → Plan β} {a : α}

theorem known {sc : Scope}
    (h : sc.Proper strict inner → ∀ limits, sc.Under strict limits → P limits a) :
    YieldsAt strict inner sc (pure a) P := by
  intro b sc' hrun
  cases hrun
  exact ⟨.refl sc, fun hsc => ⟨hsc, h hsc⟩⟩

theorem value (h : ∀ limits, P limits a) : Yields strict inner w (pure a) P :=
  fun _ _ => known fun _ limits _ => h limits

theorem failing (e : CompileError) : Yields strict inner w (throw e) P := by
  intro sc hw a sc' hrun
  cases hrun

theorem bind (hx : Yields strict inner w x P)
    (hf : ∀ a, Yields strict inner w (f a) fun limits b => P limits a → Q limits b) :
    Yields strict inner w (x >>= f) Q := by
  intro sc hw b sc' hrun
  obtain ⟨a, sc₁, hx', hrun⟩ := Plan.bind_ok.1 hrun
  obtain ⟨hg₁, h₁⟩ := hx sc hw a sc₁ hx'
  obtain ⟨hg₂, h₂⟩ := hf a sc₁ (hg₁.inWhile.trans hw) b sc' hrun
  refine ⟨hg₁.trans hg₂, fun hsc => ?_⟩
  obtain ⟨hsc₁, ha⟩ := h₁ hsc
  obtain ⟨hsc₂, hb⟩ := h₂ hsc₁
  exact ⟨hsc₂, fun limits hl => hb limits hl (ha limits (hl.of_grows hg₂))⟩

theorem weaken {R : Option Limits → α → Prop} (h : Yields strict inner w x P)
    (hPR : ∀ limits a, P limits a → R limits a) : Yields strict inner w x R := by
  intro sc hw a sc' hrun
  obtain ⟨hg, hrest⟩ := h sc hw a sc' hrun
  exact ⟨hg, fun hsc => (hrest hsc).imp_right fun ha limits hl => hPR limits a (ha limits hl)⟩

theorem ofStrict (h : Yields strict inner w x fun limits a => limits.isSome = strict → P limits a) :
    Yields strict inner w x P := by
  intro sc hw a sc' hrun
  obtain ⟨hg, hrest⟩ := h sc hw a sc' hrun
  exact ⟨hg, fun hsc => (hrest hsc).imp_right fun ha limits hl => ha limits hl hl.strict⟩

theorem afterLift {x : Except CompileError α} (h : ∀ a, x = .ok a → Yields strict inner w (f a) Q) :
    Yields strict inner w (Plan.lift x >>= f) Q := by
  intro sc hw b sc' hrun
  cases x with
  | error e => cases hrun
  | ok a => exact h a rfl sc hw b sc' hrun

theorem inspect {f : Scope → Plan α} (hf : ∀ sc, sc.inWhile = w → YieldsAt strict inner sc (f sc) P) :
    Yields strict inner w (get >>= f) P :=
  hf

/-- The index of a constant leads to it or to an equal one. -/
theorem constant (d : Datum) : Yields strict inner w (Plan.constant d) fun limits k =>
    ∀ l ∈ limits, ∃ c, l.constants[k]? = some c ∧ (c = d ∨ c.same d) := by
  intro sc hw k sc' hrun
  have hfound {sc' : Scope} {c : Datum} (hk : sc'.constants.toList[k]? = some c)
      (hc : c = d ∨ c.same d) : ∀ limits, sc'.Under strict limits →
        ∀ l ∈ limits, ∃ c, l.constants[k]? = some c ∧ (c = d ∨ c.same d) :=
    fun limits hl l hmem => ⟨c, getElem?_mono (hl.covers l hmem).constants hk, hc⟩
  unfold Plan.constant at hrun
  split at hrun
  · rename_i j hj
    cases hrun
    obtain ⟨hlt, hsame, -⟩ := Array.findIdx?_eq_some_iff_getElem.1 hj
    exact ⟨.refl sc, fun hsc => ⟨hsc, hfound (by simp [hlt]) (.inr hsame)⟩⟩
  · cases hrun
    have hg := Scope.Grows.pushConstant sc d
    exact ⟨hg, fun hsc => ⟨hsc.of_grows hg hsc.globals hsc.locals rfl,
      hfound (by simp) (.inl rfl)⟩⟩

theorem globalSlot (name : String) : Yields strict inner w (Plan.globalSlot name) fun limits k =>
    ∀ l ∈ limits, k < l.globals := by
  intro sc hw k sc' hrun
  unfold Plan.globalSlot at hrun
  split at hrun
  · rename_i j hj
    cases hrun
    exact ⟨.refl sc, fun hsc => ⟨hsc, fun limits hl => hl.global hsc hj⟩⟩
  · rename_i hnew
    cases hrun
    have hg := Scope.Grows.putGlobal hnew
    refine ⟨hg, fun hsc => ?_⟩
    have hsc' := hsc.of_grows hg (fun hs => (hsc.globals hs).put_new hnew) hsc.locals rfl
    exact ⟨hsc', fun limits hl => hl.global hsc' (Slots.slot?_put hnew _)⟩

theorem localSlot (name : String) : Yields strict inner w (Plan.localSlot name) fun limits k =>
    ∀ l ∈ limits, ∃ n, l.locals = some n ∧ k < n := by
  intro sc hw k sc' hrun
  unfold Plan.localSlot at hrun
  split at hrun
  · cases hrun
  · rename_i slots hslots
    split at hrun
    · rename_i j hj
      cases hrun
      exact ⟨.refl sc, fun hsc => ⟨hsc, fun limits hl => hl.local hsc hslots hj⟩⟩
    · rename_i hnew
      cases hrun
      have hg := Scope.Grows.putLocal hslots hnew
      refine ⟨hg, fun hsc => ?_⟩
      have hsc' := hsc.of_grows hg hsc.globals ?_ rfl
      · exact ⟨hsc', fun limits hl => hl.local hsc' rfl (Slots.slot?_put hnew _)⟩
      · rintro hs slots' ⟨⟩
        exact (hsc.locals hs slots hslots).put_new hnew

theorem withLoop {w' : Bool} {body : Plan Shape} {P : Option Limits → Shape → Prop}
    (h : Yields strict inner w' body P) : Yields strict inner w (Plan.withLoop w' body) P := by
  intro sc hw shape sc' hrun
  obtain ⟨sc₁, hs, rfl⟩ := Plan.withLoop_ok hrun
  obtain ⟨hg, hrest⟩ := h { sc with inWhile := w' } rfl shape sc₁ hs
  refine ⟨⟨hg.constants, hg.globals, hg.locals, rfl⟩, fun hsc => ?_⟩
  obtain ⟨hsc₁, hP⟩ := hrest ⟨hsc.globals, hsc.locals, hsc.routines⟩
  refine ⟨⟨hsc₁.globals, hsc₁.locals, hsc₁.routines⟩, fun limits hl => hP limits ⟨hl.strict, ?_⟩⟩
  exact fun l hmem => ⟨(hl.covers l hmem).constants, (hl.covers l hmem).globals,
    (hl.covers l hmem).locals⟩

end Yields

/-- Plans of code that obeys the rules, takes some values from the stack and leaves others. What is
below those values is nothing, if `atBottom` says so. -/
def Rises (strict : Bool) (inner : Option Rules) (rules : Rules) (w atBottom : Bool)
    (p : Plan Shape) (needs leaves : Nat) : Prop :=
  Yields strict inner w p fun limits shape => ∀ d, (atBottom = true → d = 0) →
    shape.Places rules limits (d + needs) (d + leaves)

variable {strict w atBottom b : Bool} {inner : Option Rules} {rules : Rules}
  {limits : Option Limits} {d : Nat}

theorem Instruction.Moves.places {i : Instruction}
    {needs leaves : Nat} (h : i.Moves limits none needs leaves)
    (hrule : (rules.of i.op.ruler).Allows atBottom) (hd : atBottom = true → d = 0) :
    (Shape.one i).Places rules limits (d + needs) (d + leaves) := by
  refine .one fun n height h₀ h₁ => ?_
  have hrule : (rules.of i.op.ruler).Holds needs (height n) := by
    rw [h₀]
    exact hrule.holds hd needs
  exact .step h hrule (by omega) (by omega)

theorem places_ret (hrule : (rules.of .ret).Allows atBottom) (hd : atBottom = true → d = 0) :
    (Shape.one ⟨.ret, .null⟩).Places rules limits (d + 1) (d + 0) := by
  refine .one fun n height h₀ _ => ?_
  have hrule : (rules.of .ret).Holds 1 (height n) := by
    rw [h₀]
    exact hrule.holds hd 1
  exact .ret hrule (by omega)

namespace Rises

variable {w b : Bool} {p q : Plan Shape} {needs middle leaves : Nat}

theorem nothing : Rises strict inner rules w b (pure .nothing) needs needs :=
  .value fun _ _ _ => .nothing

theorem failing (e : CompileError) : Rises strict inner rules w b (throw e) needs leaves :=
  Yields.failing e

theorem andThen (hp : Rises strict inner rules w b p needs middle)
    (hq : Rises strict inner rules w b q middle leaves) :
    Rises strict inner rules w b (p.andThen q) needs leaves :=
  .bind hp fun _ => .bind hq fun _ => .value fun _ h₂ h₁ d hd => (h₁ d hd).seq (h₂ d hd)

theorem deeper (hp : Rises strict inner rules w false p needs leaves) (k : Nat) :
    Rises strict inner rules w b p (k + needs) (k + leaves) := by
  refine hp.weaken fun limits shape h d _ => ?_
  rw [← Nat.add_assoc, ← Nat.add_assoc]
  exact h (d + k) nofun

theorem anywhere (hp : Rises strict inner rules w false p needs leaves) :
    Rises strict inner rules w b p needs leaves :=
  hp.weaken fun _ _ h d _ => h d nofun

theorem into {frame : Shape → Shape} {c e : Nat} (hp : Rises strict inner rules w b p needs leaves)
    (h : ∀ limits shape d, (b = true → d = 0) →
      shape.Places rules limits (d + needs) (d + leaves) →
      (frame shape).Places rules limits (d + c) (d + e)) :
    Rises strict inner rules w b (Plan.into frame p) c e :=
  .bind hp fun shape => .value fun limits hshape d hd => h limits shape d hd (hshape d hd)

theorem op (opcode : Opcode) (h : ∀ limits, Instruction.Moves limits none ⟨opcode, .null⟩ needs leaves)
    (hrule : (rules.of opcode.ruler).Allows b) :
    Rises strict inner rules w b (Plan.op opcode) needs leaves :=
  .value fun limits _ hd => (h limits).places hrule hd

theorem opAt (opcode : Opcode) (n : Nat)
    (h : ∀ limits, (Instruction.to opcode n).Moves limits none needs leaves)
    (hrule : (rules.of opcode.ruler).Allows b) :
    Rises strict inner rules w b (Plan.opAt opcode n) needs leaves :=
  .value fun limits _ hd => (h limits).places hrule hd

theorem opFound {x : Plan Nat} {P : Option Limits → Nat → Prop} (hx : Yields strict inner w x P)
    (opcode : Opcode) (g : Nat → Nat)
    (h : ∀ limits k, P limits k → (Instruction.to opcode (g k)).Moves limits none needs leaves)
    (hrule : (rules.of opcode.ruler).Allows b) :
    Rises strict inner rules w b (do Plan.opAt opcode (g (← x))) needs leaves :=
  .bind hx fun k => .value fun limits hk _ hd => (h limits k hk).places hrule hd

theorem ret (hrule : (rules.of .ret).Allows b) : Rises strict inner rules w b (Plan.op .ret) 1 0 :=
  .value fun _ _ hd => places_ret hrule hd

/-! ## Names and constants -/

theorem constantAt (d : Datum) (opcode : Opcode) (g : Nat → Nat)
    (h : ∀ limits k, (∀ l ∈ limits, k < l.constants.length) →
      (Instruction.to opcode (g k)).Moves limits none needs leaves)
    (hrule : (rules.of opcode.ruler).Allows b) :
    Rises strict inner rules w b (do Plan.opAt opcode (g (← Plan.constant d))) needs leaves :=
  opFound (.constant d) opcode g (fun limits k hk => h limits k fun l hl => by
    obtain ⟨c, hc, -⟩ := hk l hl
    exact (List.getElem?_eq_some_iff.1 hc).1) hrule

theorem loadConst (d : Datum) : Rises strict inner rules w b (Plan.loadConst d) 0 1 :=
  constantAt d .loadConst id (fun _ _ hk => .load (by decide) hk) (rules.allows_free (by decide) b)

theorem storeGlobal (name : String) :
    Rises strict inner rules w b (do Plan.opAt .storeGlobal (← Plan.globalSlot name)) 1 0 :=
  opFound (.globalSlot name) _ id (fun _ _ => .storeGlobal) (rules.allows_free (by decide) b)

theorem storeLocal (name : String) :
    Rises strict inner rules w b (do Plan.opAt .storeLocal (← Plan.localSlot name)) 1 0 :=
  opFound (.localSlot name) _ id (fun _ _ => .storeLocal) (rules.allows_free (by decide) b)

theorem storeName (name : String) : Rises strict inner rules w b (Plan.storeName name) 1 0 := by
  refine Yields.inspect fun sc hw => ?_
  split
  · exact storeLocal name sc hw
  · exact storeGlobal name sc hw

variable {sc : Scope}

theorem opKnown (opcode : Opcode) (k : Nat)
    (h : sc.Proper strict inner → ∀ limits, sc.Under strict limits →
      (Instruction.to opcode k).Moves limits none needs leaves)
    (hrule : (rules.of opcode.ruler).Allows b) :
    YieldsAt strict inner sc (Plan.opAt opcode k) fun limits shape => ∀ d, (b = true → d = 0) →
      shape.Places rules limits (d + needs) (d + leaves) :=
  Yields.known fun hsc limits hl _ hd => (h hsc limits hl).places hrule hd

theorem loadKnown {name : String} {k : Nat} (hk : sc.locals.bind (·.slot? name) = some k) :
    YieldsAt strict inner sc (Plan.opAt .loadLocal k) fun limits shape => ∀ d, (b = true → d = 0) →
      shape.Places rules limits (d + 0) (d + 1) := by
  obtain ⟨slots, hs, hk⟩ := Option.bind_eq_some_iff.1 hk
  exact opKnown _ k (fun hsc limits hl => .load (by decide) (hl.local hsc hs hk))
    (rules.allows_free (by decide) b)

theorem loadName (name : String) : Rises strict inner rules w b (Plan.loadName name) 0 1 := by
  refine Yields.inspect fun sc hw => ?_
  split
  · rename_i k hk
    exact loadKnown hk
  · exact opFound (.globalSlot name) .loadGlobal id (fun _ _ hk => .load (by decide) hk)
      (rules.allows_free (by decide) b) sc hw

theorem loadCallee (name : String) : Rises strict inner rules w b (Plan.loadCallee name) 0 1 := by
  refine Yields.inspect fun sc hw => ?_
  split
  · rename_i k hk
    exact loadKnown hk
  · refine (Yields.inspect fun sc hw => ?_ : Yields strict inner w _ _) sc hw
    split
    · rename_i k hk
      exact opKnown _ k (fun hsc limits hl => .load (by decide) (hl.global hsc hk))
        (rules.allows_free (by decide) b)
    · exact loadConst _ sc hw

theorem assignName (name : String) : Rises strict inner rules w b (Plan.assignName name) 1 0 := by
  refine Yields.inspect fun sc hw => ?_
  split
  · refine (Yields.inspect fun sc hw => ?_ : Yields strict inner w _ _) sc hw
    split
    · rename_i k hk
      exact opKnown _ k (fun hsc limits hl => .storeGlobal (hl.global hsc hk))
        (rules.allows_free (by decide) b)
    · exact storeLocal name sc hw
  · exact storeGlobal name sc hw

/-! ## Expressions -/

theorem join (opcode : Opcode) (h : opcode ∈ Opcode.joins) :
    Rises strict inner rules w b (Plan.op opcode) 2 1 := by
  refine op _ (fun _ => .join h) (rules.allows_free ?_ b)
  revert opcode
  decide

theorem binaryOp (operator : String) :
    Rises strict inner rules w b (Plan.binaryOp operator) 2 1 := by
  unfold Plan.binaryOp
  cases h : binaryOpcode? operator with
  | some op => exact join op (joins_of_binaryOpcode? h)
  | none => exact failing _

theorem convert (opcode : Opcode) (h : opcode ∈ Opcode.converts)
    (hrule : (rules.of opcode.ruler).Allows b) : Rises strict inner rules w b (Plan.op opcode) 1 1 :=
  op _ (fun _ => .convert h) hrule

theorem each {α : Type} {f : α → Plan Shape} : ∀ items : List α,
    (∀ x ∈ items, Rises strict inner rules w false (f x) 0 1) →
      Rises strict inner rules w false (Plan.each f items) 0 items.length
  | [], _ => nothing
  | x :: rest, h => by
    have hrest := (each rest fun y hy => h y (by simp [hy])).deeper (b := false) 1
    rw [Nat.add_comm 1 rest.length] at hrest
    exact (h x (by simp)).andThen hrest

theorem additions : ∀ items : List Nat,
    Rises strict inner rules w b (Plan.each (fun _ => Plan.op .add) items) (items.length + 1) 1
  | [] => nothing
  | _ :: rest => by
    have hadd : Rises strict inner rules w b (Plan.op .add) (rest.length + 2) (rest.length + 1) :=
      (join .add (by decide)).deeper rest.length
    exact hadd.andThen (additions rest)

/-- A list under construction and an iterator stay below the body of a comprehension. -/
theorem comprehension {iterable body : Plan Shape} (hrule : (rules.of .getIter).Allows false)
    (hi : Rises strict inner rules w false iterable 0 1) (target : String)
    (hb : Rises strict inner rules w b body 2 2) :
    Rises strict inner rules w b ((Plan.opAt .buildList 0).andThen (iterable.andThen
      ((Plan.op .getIter).andThen
        (Plan.into .forLoop ((Plan.storeName target).andThen body))))) 0 1 := by
  have hbody : Rises strict inner rules w b ((Plan.storeName target).andThen body) 3 2 :=
    ((storeName target).deeper 2).andThen hb
  have hlist : Rises strict inner rules w b (Plan.opAt .buildList 0) 0 1 :=
    opAt _ _ (fun _ => .buildList) (rules.allows_free (by decide) b)
  refine hlist.andThen ((hi.deeper 1).andThen
    (((convert .getIter (by decide) hrule).deeper 1).andThen ?_))
  exact hbody.into fun _ _ d _ h => .forLoop (hrule.holds (d := d + 1) nofun 1) h

end Rises

/-- The texts inside formatted literals are planned as values. -/
def RisesEmbedded (strict : Bool) (inner : Option Rules) (rules : Rules)
    (embedded : String → Plan Shape) : Prop :=
  ∀ source, (∀ e, Gen.expressionOf source = .ok e → e.Tidy rules false) →
    ∀ w, Rises strict inner rules w false (embedded source) 0 1

section Expressions

variable {embedded : String → Plan Shape} {w b : Bool}

theorem rises_formatted (hemb : RisesEmbedded strict inner rules embedded)
    {pieces : List Piece} (hne : pieces ≠ [])
    (hholes : ∀ source, .hole source ∈ pieces → ∀ e, Gen.expressionOf source = .ok e →
      e.Tidy rules false) :
    Rises strict inner rules w b (Plan.formatted embedded (.list (pieces.map Piece.datum))) 0 1 := by
  have hpieces : Rises strict inner rules w false
      (Plan.each (Plan.piece embedded) (pieces.map Piece.datum)) 0
      (pieces.map Piece.datum).length := by
    refine .each _ fun d hd => ?_
    obtain ⟨piece, hpiece, rfl⟩ := List.mem_map.1 hd
    cases piece with
    | text s => exact Rises.loadConst (.str s)
    | hole s =>
      exact (hemb s (hholes s hpiece) w).andThen
        (.convert .formatValue (by decide) (rules.allows_free (by decide) _))
  have hlen : (pieces.map Piece.datum).length - 1 + 1 = (pieces.map Piece.datum).length := by
    have := List.length_pos_iff.2 hne
    rw [List.length_map]
    omega
  have hjoin : Rises strict inner rules w b _ _ 1 :=
    Rises.additions (List.range ((pieces.map Piece.datum).length - 1))
  rw [List.length_range, hlen] at hjoin
  exact hpieces.anywhere.andThen hjoin

mutual

theorem rises_expr (hemb : RisesEmbedded strict inner rules embedded) :
    ∀ (b : Bool) (e : Expr), e.Tidy rules b →
    Rises strict inner rules w b (Plan.expr embedded e) 0 1
  | b, .literal d, _ => .loadConst d
  | b, .formatted _, .formatted hne hholes => rises_formatted hemb hne hholes
  | b, .name word, _ => .loadName word
  | b, .binary left operator right, .binary hl hr =>
    (rises_expr hemb b left hl).andThen
      (((rises_expr hemb false right hr).deeper 1).andThen (.binaryOp operator))
  | b, .unary operator operand, .unary h => by
    show Rises strict inner rules w b (if operator == "not" then _ else if operator == "-" then _
      else if operator == "+" then _ else _) 0 1
    by_cases hminus : operator = "-"
    · subst hminus
      have ih := rises_expr hemb (b && false) operand h
      rw [Bool.and_false] at ih
      exact (Rises.loadConst _).andThen ((ih.deeper 1).andThen (.join _ (by decide)))
    · rw [show (b && operator != "-") = b by simp [hminus]] at h
      have ih := rises_expr hemb b operand h
      split
      · exact ih.andThen (.convert .negate (by decide) (rules.allows_free (by decide) _))
      · split
        · rename_i h
          exact absurd (beq_iff_eq.1 h) hminus
        · split
          · exact ih
          · exact .failing _
  | b, .call function arguments, .call hrule hmethod hf ha => by
    have hargs := (rises_exprs hemb arguments ha).deeper (b := b) 1
    rw [Nat.add_comm 1 arguments.length] at hargs
    have hcall := hargs.andThen (.opAt .call _ (fun _ => .call) hrule)
    cases function with
    | member object word =>
      cases hf with
      | member _ ho =>
        exact (rises_expr hemb b object ho).andThen (hargs.andThen
          (.constantAt _ .callMethod _ (fun _ _ => .callMethod) (hmethod object word rfl)))
    | name word => exact (Rises.loadCallee word).andThen hcall
    | _ => exact (rises_expr hemb b _ hf).andThen hcall
  | b, .member object word, .member hrule h =>
    (rises_expr hemb b object h).andThen
      (.constantAt _ .getAttr id (fun _ _ => .getAttr) hrule)
  | b, .index object index, .index ho hi =>
    (rises_expr hemb b object ho).andThen
      (((rises_expr hemb false index hi).deeper 1).andThen (.join _ (by decide)))
  | b, .list elements, .list h =>
    (rises_exprs hemb elements h).anywhere.andThen
      (.opAt _ _ (fun _ => .buildList) (rules.allows_free (by decide) b))
  | b, .tuple elements, .tuple h =>
    (rises_exprs hemb elements h).anywhere.andThen
      (.opAt _ _ (fun _ => .buildTuple) (rules.allows_free (by decide) b))
  | b, .dict pairs, .dict hk hv =>
    (rises_exprPairs hemb pairs hk hv).anywhere.andThen
      (.opAt _ _ (fun _ => .buildDict) (rules.allows_free (by decide) b))
  | b, .comprehension element target iterable none, .comprehension hrule he hi _ =>
    .comprehension hrule (rises_expr hemb false iterable hi) target
      (((rises_expr hemb false element he).deeper 2).andThen
        (.op _ (fun _ => .listAppend) (hrule.anywhere b)))
  | b, .comprehension element target iterable (some c), .comprehension hrule he hi hc =>
    .comprehension hrule (rises_expr hemb false iterable hi) target
      (((rises_expr hemb false c (hc c rfl)).deeper 2).andThen
        ((((rises_expr hemb false element he).deeper 2).andThen
          (.op _ (fun _ => .listAppend) (hrule.anywhere b))).into
            fun _ _ _ _ h => .guarded h))

theorem rises_exprs (hemb : RisesEmbedded strict inner rules embedded) :
    ∀ es : List Expr, (∀ e ∈ es, e.Tidy rules false) →
    Rises strict inner rules w false (Plan.exprs embedded es) 0 es.length
  | [], _ => .nothing
  | e :: rest, h => by
    obtain ⟨he, h⟩ := List.forall_mem_cons.1 h
    have hrest := (rises_exprs hemb rest h).deeper (b := false) 1
    rw [Nat.add_comm 1 rest.length] at hrest
    exact (rises_expr hemb false e he).andThen hrest

theorem rises_exprPairs (hemb : RisesEmbedded strict inner rules embedded) :
    ∀ pairs : List (Expr × Expr),
    (∀ entry ∈ pairs, entry.1.Tidy rules false) → (∀ entry ∈ pairs, entry.2.Tidy rules false) →
    Rises strict inner rules w false (Plan.exprPairs embedded pairs) 0 (2 * pairs.length)
  | [], _, _ => .nothing
  | (key, value) :: rest, hk, hv => by
    obtain ⟨hkey, hk⟩ := List.forall_mem_cons.1 hk
    obtain ⟨hvalue, hv⟩ := List.forall_mem_cons.1 hv
    have hrest := (rises_exprPairs hemb rest hk hv).deeper (b := false) 2
    rw [show 2 + 2 * rest.length = 2 * ((key, value) :: rest).length by simp; omega] at hrest
    exact (rises_expr hemb false key hkey).andThen
      (((rises_expr hemb false value hvalue).deeper 1).andThen hrest)

end

end Expressions

theorem risesEmbedded_embeddedN : ∀ fuel, RisesEmbedded strict inner rules (Plan.embeddedN fuel)
  | 0 => fun _ _ _ => .failing _
  | fuel + 1 => fun _ htidy _ =>
    .afterLift fun e he => rises_expr (risesEmbedded_embeddedN fuel) false e (htidy e he)

theorem rises_expression {e : Expr}
    (h : e.Tidy rules b) : Rises strict inner rules w b (Plan.expression e) 0 1 :=
  rises_expr (fun source => risesEmbedded_embeddedN _ source) b e h

/-! ## Statements -/

theorem Yields.withReturn {inner : Rules} (hret : (inner.of .ret).Allows true) {shape : Shape} :
    Yields strict inner w (Plan.withReturn (shape.layout 0)) fun limits code =>
      shape.Places inner limits 0 0 → Paced inner limits code := by
  unfold Plan.withReturn
  split
  · exact .value fun _ h => h.paced
  · refine .bind (.constant .null) fun k => .value fun limits hk h => ?_
    have hload : (Shape.one (.to .loadConst k)).Places inner limits (0 + 0) (0 + 1) := by
      have hfree : (inner.of .loadConst).Allows true := inner.allows_free (by decide) true
      refine Instruction.Moves.places (.load (by decide) fun l hl => ?_) hfree fun _ => rfl
      obtain ⟨c, hc, -⟩ := hk l hl
      exact (List.getElem?_eq_some_iff.1 hc).1
    exact (h.seq (hload.seq (places_ret hret fun _ => rfl))).paced

theorem Yields.routine {inner : Rules}
    (hret : (inner.of .ret).Allows true) {name : String} {parameters : List String}
    (hparameters : strict = true → parameters.Nodup) {body : Plan Shape}
    (hb : Rises strict inner inner w true body 0 0) :
    Yields strict inner w (Plan.routine name parameters body) fun _ _ => True := by
  intro sc hw a sc' hrun
  let sc₀ : Scope := { sc with locals := some (Slots.ofParameters parameters) }
  obtain ⟨shape, sc₁, code, sc₂, hshape, hcode, rfl⟩ := Plan.routine_ok hrun
  obtain ⟨hg₁, hrest₁⟩ := hb sc₀ hw shape sc₁ hshape
  obtain ⟨hg₂, hrest₂⟩ := Yields.withReturn hret sc₁ (hg₁.inWhile.trans hw) code sc₂ hcode
  have hg := hg₁.trans hg₂
  refine ⟨⟨hg.constants, hg.globals, (Scope.Grows.refl sc).locals, hg.inWhile⟩, fun hsc => ?_⟩
  have hsc₀ : sc₀.Proper strict inner := by
    refine ⟨hsc.globals, ?_, hsc.routines⟩
    rintro hs slots ⟨⟩
    exact Slots.proper_ofParameters (hparameters hs)
  obtain ⟨hsc₁, hplaces⟩ := hrest₁ hsc₀
  obtain ⟨hsc₂, hpaced⟩ := hrest₂ hsc₁
  refine ⟨⟨hsc₂.globals, hsc.locals, fun rules hrules r hr => ?_⟩, fun _ _ => trivial⟩
  rcases mem_putRoutine hr with rfl | hr
  · obtain ⟨slots, hslots⟩ : ∃ slots, sc₂.locals = some slots := by
      rcases hg.locals with ⟨h, -⟩ | ⟨_, slots, -, h, -⟩
      · cases h
      · exact ⟨slots, h⟩
    have hunder : sc₂.Under strict (sc₂.limits strict slots) := by
      cases strict with
      | false => exact ⟨rfl, nofun⟩
      | true =>
        refine ⟨rfl, ?_⟩
        rintro _ ⟨⟩
        refine ⟨List.prefix_refl _, Nat.le_refl _, fun slots' hslots' => ?_⟩
        rw [hslots] at hslots'
        cases hslots'
        exact ⟨_, rfl, Nat.le_refl _⟩
    cases hrules
    simp only [hslots, Option.getD_some]
    exact hpaced _ hunder (hplaces _ (hunder.of_grows hg₂) 0 fun _ => rfl)
  · exact hsc₂.routines rules hrules r hr

theorem Rises.stayIn (h : w = false) :
    Rises strict inner rules w b
      (do if (← get).inWhile then return .one ⟨.jump, .int (-1)⟩ else return .nothing) 0 0 := by
  refine Yields.inspect fun sc hw => ?_
  rw [hw, h]
  exact Rises.nothing sc hw

/-- Clauses whose conditions leave a value and whose bodies leave the stack. -/
def ClausesPlaced (rules : Rules) (atBottom : Bool) (limits : Option Limits)
    (clauses : List (Shape × Shape)) : Prop :=
  ∀ d, (atBottom = true → d = 0) → ∀ clause ∈ clauses,
    clause.1.Places rules limits d (d + 1) ∧ clause.2.Places rules limits d d

theorem ClausesPlaced.chain {last : Shape}
    (hlast : last.Places rules limits d d) : ∀ clauses : List (Shape × Shape),
    (∀ clause ∈ clauses, clause.1.Places rules limits d (d + 1) ∧
      clause.2.Places rules limits d d) →
    (Shape.chain clauses last).Places rules limits d d
  | [], _ => hlast
  | (c, b) :: rest, h => by
    obtain ⟨hc, hb⟩ := h (c, b) (by simp)
    exact .seq hc (.choice hb (chain hlast rest fun clause hmem => h clause (by simp [hmem])))

theorem Rises.branch {test : Bool} {c t last : Plan Shape}
    {m : Plan (List (Shape × Shape))} (hc : Rises strict inner rules w b c 0 1)
    (ht : Rises strict inner rules w b t 0 0)
    (hm : Yields strict inner w m (ClausesPlaced rules b))
    (hl : Rises strict inner rules w b last 0 0) :
    Rises strict inner rules w b
      (do
        let c ← c
        let b ← t
        let more ← m
        let last ← last
        if test then return c.seq (.guarded b) else return .chain ((c, b) :: more) last) 0 0 := by
  refine .bind hc fun c => .bind ht fun t => .bind hm fun more => .bind hl fun last => ?_
  cases test with
  | true => exact .value fun _ _ _ ht hc d hd => .seq (hc d hd) (.guarded (ht d hd))
  | false =>
    refine .value fun _ hl hm ht hc d hd => ClausesPlaced.chain (hl d hd) _ fun clause hmem => ?_
    rcases List.mem_cons.1 hmem with rfl | hmem
    · exact ⟨hc d hd, ht d hd⟩
    · exact hm d hd clause hmem

theorem Rises.eachStored : ∀ names : List String,
      Rises strict inner rules w b (Plan.each Plan.storeName names) names.length 0
  | [] => .nothing
  | name :: rest => ((Rises.storeName name).deeper rest.length).andThen (eachStored rest)

/-- The names of an import are fetched and stored: the constant tells how many. -/
theorem Rises.importing (names : List String) :
    Rises true inner rules w b ((Plan.loadConst (.list (names.map .str))).andThen
      ((Plan.op .importFrom).andThen (Plan.each Plan.storeName names))) 1 0 := by
  -- The parts are looked at together, since the fetch depends on the constant before it.
  have htogether : (Plan.loadConst (.list (names.map .str))).andThen
      ((Plan.op .importFrom).andThen (Plan.each Plan.storeName names)) = (do
        let k ← Plan.constant (.list (names.map .str))
        let stores ← Plan.each Plan.storeName names
        return .seq (.one (.to .loadConst k)) (.seq (.one ⟨.importFrom, .null⟩) stores)) := by
    simp only [Plan.andThen, Plan.loadConst, Plan.opAt, Plan.op, bind_assoc, pure_bind]
  rw [htogether]
  refine .ofStrict (.bind (.constant _) fun k => .bind (Rises.eachStored names) fun stores =>
    .value fun limits hstores hk hstrict d hd => .importing hstrict (fun l hl => ?_) (hstores d hd))
  obtain ⟨c, hc, rfl | hsame⟩ := hk l hl
  · exact ⟨_, hc, by simp⟩
  · obtain ⟨items, rfl, hlength⟩ := Datum.same_list hsame
    exact ⟨items, hc, by simpa using hlength⟩

/-- What is asked of statements, in functions and outside of them, so that their plans rise. The
statements may stand in conditional loops or at the bottom of the stack; the rules are different
in functions. -/
structure Stmt.Level (strict : Bool) (rules : Bool → Rules)
    (T : (inFunction inWhile atBottom : Bool) → Stmt → Prop) : Prop where
  expression : ∀ {f w b e}, T f w b (.expression e) →
    e.Tidy (rules f) b ∧ ((rules f).of .pop).Allows b
  declare : ∀ {f w b name value hint}, T f w b (.declare name value hint) →
    ∀ e ∈ value, e.Tidy (rules f) b
  assign : ∀ {f w b name value}, T f w b (.assign name value) → value.Tidy (rules f) b
  assignMember : ∀ {f w b object word value}, T f w b (.assignMember object word value) →
    ((rules f).of .setAttr).Allows b ∧ object.Tidy (rules f) b ∧ value.Tidy (rules f) false
  assignIndex : ∀ {f w b object index value}, T f w b (.assignIndex object index value) →
    object.Tidy (rules f) b ∧ index.Tidy (rules f) false ∧ value.Tidy (rules f) false
  function : ∀ {f w b name parameters body}, T f w b (.function name parameters body) →
    (strict = true → parameters.Nodup) ∧ ∀ s ∈ body, T true w true s
  classDef : ∀ {f w b name body}, T f w b (.classDef name body) →
    ((rules f).of .createClass).Allows b ∧ ∀ method parameters inside,
      .function method parameters inside ∈ body →
        (strict = true → parameters.Nodup) ∧ ∀ s ∈ inside, T true w true s
  branch : ∀ {f w b condition body elifs last}, T f w b (.branch condition body elifs last) →
    condition.Tidy (rules f) b ∧ (∀ s ∈ body, T f w b s) ∧
      (∀ clause ∈ elifs, clause.1.Tidy (rules f) b ∧ ∀ s ∈ clause.2, T f w b s) ∧
      ∀ s ∈ last.getD [], T f w b s
  forLoop : ∀ {f w b target iterable body}, T f w b (.forLoop target iterable body) →
    ((rules f).of .getIter).Allows b ∧ iterable.Tidy (rules f) b ∧ ∀ s ∈ body, T f false false s
  whileLoop : ∀ {f w b condition body}, T f w b (.whileLoop condition body) →
    condition.Tidy (rules f) b ∧ ∀ s ∈ body, T f true b s
  repeatLoop : ∀ {f w b condition body}, T f w b (.repeatLoop condition body) →
    condition.Tidy (rules f) b ∧ ∀ s ∈ body, T f w b s
  importModule : ∀ {f w b source items}, T f w b (.importModule source items) →
    ((rules f).of .importModule).Allows b ∧ (items.getD [] = [] ∨ strict = true)
  returnValue : ∀ {f w b value}, T f w b (.returnValue value) →
    ((rules f).of .ret).Allows b ∧ ∀ e ∈ value, e.Tidy (rules f) b
  leaving : ∀ {f w b}, T f w b .breakLoop ∨ T f w b .continueLoop → w = false
  flat : ∀ {f w b s}, T f w b s → (∀ subject cases last, s ≠ .switch subject cases last) ∧
    (∀ body catches last, s ≠ .tryBlock body catches last) ∧ ∀ e, s ≠ .throwValue e

namespace Stmt.Level

variable {strict : Bool} {rules : Bool → Rules}
  {T : (inFunction inWhile atBottom : Bool) → Stmt → Prop}

mutual

theorem rises (hT : Stmt.Level strict rules T)
    (hret : ((rules true).of .ret).Allows true) {f w b : Bool} : ∀ s : Stmt, T f w b s →
    Rises strict (rules true) (rules f) w b (Plan.statement s) 0 0
  | .expression e, h =>
    (rises_expression (hT.expression h).1).andThen (.op _ (fun _ => .pop) (hT.expression h).2)
  | .assign target value, h => (rises_expression (hT.assign h)).andThen (.assignName target)
  | .assignMember object word value, h =>
    (rises_expression (hT.assignMember h).2.1).andThen
      (((rises_expression (hT.assignMember h).2.2).deeper 1).andThen
        (((Rises.loadConst _).deeper 2).andThen (.op _ (fun _ => .setAttr) (hT.assignMember h).1)))
  | .assignIndex object index value, h =>
    (rises_expression (hT.assignIndex h).1).andThen
      (((rises_expression (hT.assignIndex h).2.1).deeper 1).andThen
        (((rises_expression (hT.assignIndex h).2.2).deeper 2).andThen
          (.op _ (fun _ => .setItem) ((rules f).allows_free (by decide) b))))
  | .declare name (some e) _, h =>
    (rises_expression (hT.declare h e rfl)).andThen (.storeName name)
  | .declare name none _, _ => (Rises.loadConst _).andThen (.storeName name)
  | .function name parameters body, h =>
    .bind (.routine hret (hT.function h).1 (rises_all hT hret body (hT.function h).2)) fun _ =>
      ((Rises.constantAt _ .loadFunc id (fun _ _ hk => .load (by decide) hk)
        ((rules f).allows_free (by decide) b)).andThen (.storeName name)).weaken fun _ _ h _ => h
  | .classDef name body, h =>
    .bind (yields_methods hT hret name [] body (hT.classDef h).2) fun _ =>
      ((Rises.loadConst _).andThen
        ((Rises.constantAt _ .createClass id (fun _ _ => .createClass) (hT.classDef h).1).andThen
          (.storeName name))).weaken fun _ _ h _ => h
  | .branch condition thenBody elifs none, h =>
    .branch (rises_expression (hT.branch h).1) (rises_all hT hret thenBody (hT.branch h).2.1)
      (yields_elifClauses hT hret elifs (hT.branch h).2.2.1) .nothing
  | .branch condition thenBody elifs (some body), h =>
    .branch (rises_expression (hT.branch h).1) (rises_all hT hret thenBody (hT.branch h).2.1)
      (yields_elifClauses hT hret elifs (hT.branch h).2.2.1)
      (rises_all hT hret body (hT.branch h).2.2.2)
  | .forLoop target iterable body, h => by
    have hbody : Rises strict (rules true) (rules f) w false _ 0 0 :=
      Yields.withLoop (rises_all hT hret body (hT.forLoop h).2.2)
    exact (rises_expression (hT.forLoop h).2.1).andThen
      ((Rises.convert _ (by decide) (hT.forLoop h).1).andThen
        ((((Rises.storeName target).deeper 1).andThen (hbody.deeper 1)).into
          fun _ _ _ hd body => .forLoop ((hT.forLoop h).1.holds hd 1) body))
  | .whileLoop condition body, h =>
    .bind (rises_expression (hT.whileLoop h).1) fun _ =>
      .bind (.withLoop (rises_all hT hret body (hT.whileLoop h).2)) fun _ =>
        .value fun _ hb hc d hd => .whileLoop (hc d hd) (hb d hd)
  | .repeatLoop condition body, h =>
    ((rises_all hT hret body (hT.repeatLoop h).2).andThen
      (rises_expression (hT.repeatLoop h).1)).into fun _ _ _ _ h => .repeatLoop h
  | .importModule source (some (first :: rest)), h => by
    obtain rfl : strict = true := (hT.importModule h).2.resolve_left nofun
    exact (Rises.loadConst _).andThen (.importing (first :: rest))
  | .importModule source (some []), h | .importModule source none, h =>
    (Rises.loadConst _).andThen
      ((Rises.convert _ (by decide) (hT.importModule h).1).andThen (.storeName source))
  | .returnValue (some e), h =>
    (rises_expression ((hT.returnValue h).2 e rfl)).andThen (.ret (hT.returnValue h).1)
  | .returnValue none, h => (Rises.loadConst _).andThen (.ret (hT.returnValue h).1)
  | .breakLoop, h => .stayIn (hT.leaving (.inl h))
  | .continueLoop, h => .stayIn (hT.leaving (.inr h))
  | .switch _ _ _, h => ((hT.flat h).1 _ _ _ rfl).elim
  | .tryBlock _ _ _, h => ((hT.flat h).2.1 _ _ _ rfl).elim
  | .throwValue _, h => ((hT.flat h).2.2 _ rfl).elim
  | .asyncFunction _ _ _, _ | .decorated _ _ _ _, _ | .withBlock _ _ _, _ | .globals _, _
  | .nonlocals _, _ | .assertion _ _, _ | .deletion _, _ | .pass, _ | .inert, _ => .nothing

theorem rises_all (hT : Stmt.Level strict rules T)
    (hret : ((rules true).of .ret).Allows true) {f w b : Bool} : ∀ body : List Stmt, (∀ s ∈ body, T f w b s) →
    Rises strict (rules true) (rules f) w b (Plan.statements body) 0 0
  | [], _ => .nothing
  | s :: rest, h => by
    obtain ⟨hs, hrest⟩ := List.forall_mem_cons.1 h
    exact (rises hT hret s hs).andThen (rises_all hT hret rest hrest)

theorem yields_methods (hT : Stmt.Level strict rules T)
    (hret : ((rules true).of .ret).Allows true) {w : Bool} (name : String) : ∀ (table : List (Datum × Datum))
    (body : List Stmt), (∀ method parameters inside, .function method parameters inside ∈ body →
      (strict = true → parameters.Nodup) ∧ ∀ s ∈ inside, T true w true s) →
    Yields strict (rules true) w (Plan.methods name table body) fun _ _ => True
  | table, [], _ => .value fun _ => trivial
  | table, s :: rest, h => by
    have hrest := fun method parameters inside hmem =>
      h method parameters inside (List.mem_cons_of_mem s hmem)
    cases s with
    | function method parameters body =>
      obtain ⟨hparameters, hbody⟩ := h method parameters body List.mem_cons_self
      exact .bind (.routine hret hparameters (rises_all hT hret body hbody)) fun _ =>
        (yields_methods hT hret name _ rest hrest).weaken fun _ _ h _ => h
    | _ => exact yields_methods hT hret name table rest hrest

theorem yields_elifClauses (hT : Stmt.Level strict rules T)
    (hret : ((rules true).of .ret).Allows true) {f w b : Bool} : ∀ elifs : List (Expr × List Stmt),
    (∀ clause ∈ elifs, clause.1.Tidy (rules f) b ∧ ∀ s ∈ clause.2, T f w b s) →
    Yields strict (rules true) w (Plan.elifClauses elifs) (ClausesPlaced (rules f) b)
  | [], _ => .value fun _ _ _ => by simp
  | (condition, body) :: rest, h => by
    obtain ⟨⟨hcondition, hbody⟩, hrest⟩ := List.forall_mem_cons.1 h
    refine .bind (rises_expression hcondition) fun c => .bind (rises_all hT hret body hbody) fun t =>
      .bind (yields_elifClauses hT hret rest hrest) fun more => .value ?_
    intro _ hm ht hc d hd clause hmem
    rcases List.mem_cons.1 hmem with rfl | hmem
    · exact ⟨hc d hd, ht d hd⟩
    · exact hm d hd clause hmem

end

end Stmt.Level

/-! ## Tidy statements -/

theorem Stmt.AllTidy.mem {inner rules : Rules} : ∀ {body : List Stmt},
    Stmt.AllTidy inner rules w b body → ∀ s ∈ body, s.Tidy inner rules w b
  | [], _ => nofun
  | _ :: _, h => List.forall_mem_cons.2 ⟨h.1, h.2.mem⟩

theorem Stmt.ElifsTidy.mem {inner rules : Rules} :
    ∀ {elifs : List (Expr × List Stmt)}, Stmt.ElifsTidy inner rules w b elifs →
      ∀ clause ∈ elifs, clause.1.Tidy rules b ∧ Stmt.AllTidy inner rules w b clause.2
  | [], _ => nofun
  | _ :: _, h => List.forall_mem_cons.2 ⟨⟨h.1, h.2.1⟩, h.2.2.mem⟩

theorem Stmt.MethodsTidy.function {inner : Rules} {w : Bool} {name : String}
    {parameters : List String} {inside : List Stmt} : ∀ {body : List Stmt},
    Stmt.MethodsTidy inner w body → .function name parameters inside ∈ body →
      Stmt.AllTidy inner inner w true inside
  | s :: rest, h, hmem => by
    rcases List.mem_cons.1 hmem with rfl | hrest
    · exact h.1
    · cases s with
      | function _ _ _ => exact MethodsTidy.function h.2 hrest
      | _ => exact @MethodsTidy.function _ _ _ _ _ rest h hrest

/-- The plans of tidy statements rise, whatever is in the tables. -/
theorem Stmt.level_tidy (inner rules : Rules) :
    Stmt.Level false (fun inFunction => bif inFunction then inner else rules)
      fun inFunction => Stmt.Tidy inner (bif inFunction then inner else rules) where
  expression := id
  declare := id
  assign := id
  assignMember := id
  assignIndex := id
  function h := ⟨nofun, AllTidy.mem h⟩
  classDef h := ⟨h.1, fun _ _ _ hmem => ⟨nofun, (h.2.function hmem).mem⟩⟩
  branch {_ w b _ _ _ last} h := by
    obtain ⟨hcondition, hbody, helifs, hlast⟩ := Stmt.Tidy.eq_def .. ▸ h
    refine ⟨hcondition, hbody.mem, fun clause hmem => (helifs.mem clause hmem).imp_right (·.mem), ?_⟩
    cases last with
    | none => exact nofun
    | some body => exact AllTidy.mem hlast
  forLoop h := ⟨h.1, h.2.1, h.2.2.mem⟩
  whileLoop h := ⟨h.1, h.2.mem⟩
  repeatLoop h := ⟨h.1, h.2.mem⟩
  importModule h := h.imp_right .inl
  returnValue := id
  leaving := Or.rec id id
  flat h := ⟨fun _ _ _ hs => (hs ▸ h).elim, fun _ _ _ hs => (hs ▸ h).elim, fun _ hs => (hs ▸ h).elim⟩

end StackScript
