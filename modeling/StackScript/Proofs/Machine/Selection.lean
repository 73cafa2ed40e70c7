import StackScript.Proofs.Machine.Thrown

/-!
# Switches

The code of a switch puts the value of its subject on the stack, and each of its cases compares a
copy of it with its own value. The first case for which they are equal runs its body and jumps behind
the code of the whole statement, where nothing takes the value of the subject away. Only if no case
is left, the value is dropped; the default body has no code at all.

* `switch_selects`: a switch runs the body of the first case whose value is that of its subject;
* `default_left_out`: no default body runs, and the subject of a switch may stay on the stack.
-/

namespace StackScript

/-! ## Code of switches -/

/-- What is planned stands in the code, from an index up to another. -/
def Plan.StandsIn (p : Plan Shape) (code : Array Instruction) (start stop : Nat) : Prop :=
  ∃ sc shape sc', p sc = .ok (shape, sc') ∧ Placed code start shape ∧ start + shape.size = stop

/-- The place of a case: its first instruction, its comparison and its last instruction. -/
structure CaseSpan where
  first : Nat
  compare : Nat
  last : Nat

/-- The indices of the body of a case. -/
def CaseSpan.Body (c : CaseSpan) (n : Nat) : Prop := c.compare + 2 ≤ n ∧ n < c.last

/-- There is a case of a switch whose code ends before `stop`. -/
structure CaseSpan.In (code : Array Instruction) (stop : Nat) (c : CaseSpan) (value : Expr)
    (body : List Stmt) : Prop where
  copies : code[c.first]? = some ⟨.dup, .null⟩
  value : (Plan.expression value).StandsIn code (c.first + 1) c.compare
  compares : code[c.compare]? = some ⟨.eq, .null⟩
  skips : code[c.compare + 1]? = some (.to .jumpIfFalse (c.last + 1))
  body : (Plan.statements body).StandsIn code (c.compare + 2) c.last
  joins : code[c.last]? = some (.to .jump stop)

/-- The place of a switch: its first instruction, that of its cases, their places, the instruction
behind them, and the index behind the switch. -/
structure SwitchSpan where
  start : Nat
  first : Nat
  cases : List CaseSpan
  exit : Nat
  stop : Nat

/-- Cases one right behind the other, from an index up to another. -/
def CaseChain (code : Array Instruction) (stop : Nat) :
    Nat → List (Expr × List Stmt) → List CaseSpan → Nat → Prop
  | n, [], [], exit => n = exit
  | n, (value, body) :: rest, c :: more, exit =>
    n = c.first ∧ c.In code stop value body ∧ CaseChain code stop (c.last + 1) rest more exit
  | _, _, _, _ => False

/-- There is a switch with its subject and its cases, and nothing else but an instruction that drops
the value of the subject. -/
structure SwitchSpan.In (code : Array Instruction) (b : SwitchSpan) (subject : Expr)
    (cases : List (Expr × List Stmt)) : Prop where
  subject : (Plan.expression subject).StandsIn code b.start b.first
  cases : CaseChain code b.stop b.first cases b.cases b.exit
  drops : code[b.exit]? = some ⟨.pop, .null⟩
  ends : b.exit + 1 = b.stop

/-- The indices of a switch that are in no body, but for that of one case. -/
def SwitchSpan.Spares (b : SwitchSpan) (picked : Option CaseSpan) (n : Nat) : Prop :=
  b.start ≤ n ∧ n < b.stop ∧ ∀ c ∈ b.cases, c.Body n → picked = some c

/-- What a generator emits stands in the code, from an index up to another. -/
def Gen.StandsIn (m : Gen Unit) (code : Array Instruction) (start stop : Nat) : Prop :=
  ∃ g g' : Generator, m g = .ok () g' ∧ g.code.size = start ∧ g'.code.size = stop ∧
    Stretch code start (g'.code.toList.drop start)

variable {n start stop : Nat}

theorem Follows.standsIn {m : Gen Unit} {p : Plan Shape} (hfollows : Follows m p)
    {code : Array Instruction} (h : m.StandsIn code start stop) : p.StandsIn code start stop := by
  obtain ⟨g, g', hgen, rfl, rfl, hcode⟩ := h
  obtain ⟨shape, sc, hplan, hemits⟩ := hfollows.of_ok hgen
  refine ⟨_, shape, sc, hplan, by simpa [Placed, hemits.code] using hcode, ?_⟩
  simpa using (congrArg List.length hemits.code).symm

theorem SwitchSpan.Spares.weaken {b : SwitchSpan} {picked : Option CaseSpan}
    (h : b.Spares none n) : b.Spares picked n :=
  ⟨h.1, h.2.1, fun c hc hn => nomatch h.2.2 c hc hn⟩

theorem Plan.StandsIn.le {p : Plan Shape} {code : Array Instruction}
    (h : p.StandsIn code start stop) : start ≤ stop := by
  obtain ⟨_, _, _, -, -, rfl⟩ := h
  exact Nat.le_add_right _ _

section Places

variable {code : Array Instruction} {stop : Nat} {c : CaseSpan} {value : Expr} {body : List Stmt}

theorem CaseSpan.In.lt (h : c.In code stop value body) :
    c.first < c.compare ∧ c.compare + 2 ≤ c.last := ⟨h.value.le, h.body.le⟩

namespace CaseChain

variable {n exit : Nat} {cases : List (Expr × List Stmt)} {places before after : List CaseSpan}

theorem le (h : CaseChain code stop n cases places exit) : n ≤ exit := by
  fun_induction CaseChain with
  | case1 n exit => exact Nat.le_of_eq h
  | case2 n value body rest c more exit ih =>
    obtain ⟨rfl, hc, hrest⟩ := h
    have hlt := hc.lt
    have hle := ih hrest
    omega
  | case3 => exact h.elim

theorem uncons {rest : List (Expr × List Stmt)}
    (h : CaseChain code stop n ((value, body) :: rest) places exit) :
    ∃ c more, places = c :: more ∧ n = c.first ∧ c.In code stop value body ∧
      CaseChain code stop (c.last + 1) rest more exit := by
  match places, h with
  | c :: more, h => exact ⟨c, more, rfl, h⟩

theorem split (h : CaseChain code stop n cases (before ++ after) exit) :
    ∃ m early late, CaseChain code stop n early before m ∧ CaseChain code stop m late after exit := by
  induction before generalizing n cases with
  | nil => exact ⟨n, [], cases, rfl, h⟩
  | cons c before ih =>
    match cases, h with
    | (value, body) :: rest, ⟨hn, hc, hrest⟩ =>
      obtain ⟨m, early, late, hearly, hlate⟩ := ih hrest
      exact ⟨m, (value, body) :: early, late, ⟨hn, hc, hearly⟩, hlate⟩

theorem bounds (h : CaseChain code stop n cases places exit) (hmem : c ∈ places) :
    n ≤ c.first ∧ c.first < c.compare ∧ c.compare + 2 ≤ c.last ∧ c.last < exit := by
  obtain ⟨before, after, rfl⟩ := List.append_of_mem hmem
  obtain ⟨m, early, late, hearly, hlate⟩ := h.split
  match late, hlate with
  | _ :: _, ⟨hm, hc, hrest⟩ =>
    have hlow := hearly.le
    have hlt := hc.lt
    have hhigh := hrest.le
    omega

/-- What is neither before a case nor behind it is in the body of no other case. -/
theorem body_eq (h : CaseChain code stop n cases (before ++ c :: after) exit) {d : CaseSpan}
    (hd : d ∈ before ++ c :: after) {k : Nat} (hlow : c.first ≤ k) (hhigh : k ≤ c.last)
    (hk : d.Body k) : d = c := by
  obtain ⟨m, early, late, hearly, hlate⟩ := h.split
  match late, hlate with
  | _ :: _, ⟨hm, hc, hrest⟩ =>
    obtain ⟨hk, hk'⟩ := hk
    rcases List.mem_append.1 hd with hd | hd
    · have hbounds := hearly.bounds hd
      omega
    · rcases List.mem_cons.1 hd with rfl | hd
      · rfl
      · have hbounds := hrest.bounds hd
        omega

end CaseChain

theorem SwitchSpan.In.spares {b : SwitchSpan} {subject : Expr} {cases : List (Expr × List Stmt)}
    (hb : b.In code subject cases) (hc : c ∈ b.cases) {k : Nat} (hlow : c.first ≤ k)
    (hhigh : k ≤ c.last) : b.Spares (some c) k ∧ (¬ c.Body k → b.Spares none k) := by
  obtain ⟨before, after, heq⟩ := List.append_of_mem hc
  have hbounds := hb.cases.bounds hc
  have hbegin := hb.subject.le
  have hend := hb.ends
  have hbody : ∀ d ∈ b.cases, d.Body k → d = c := fun d hd =>
    (heq ▸ hb.cases).body_eq (heq ▸ hd) hlow hhigh
  refine ⟨⟨by omega, by omega, fun d hd hk => by rw [hbody d hd hk]⟩, fun hfree => ?_⟩
  exact ⟨by omega, by omega, fun d hd hk => absurd (hbody d hd hk ▸ hk) hfree⟩

end Places

/-- Cases that have values stand one right behind the other. -/
theorem chain_of_plan {code : Array Instruction} {last : Shape} :
    ∀ {cases : List (Expr × List Stmt)} {sc sc' : Scope} {clauses : List (Shape × Shape)} {n : Nat},
      Plan.caseClauses (cases.map fun c => (some c.1, c.2)) sc = .ok (clauses, sc') →
      Placed code n (.chain clauses last) → n + (Shape.chain clauses last).size = stop →
      ∃ places exit, CaseChain code stop n cases places exit ∧ Placed code exit last ∧
        exit + last.size = stop
  | [], _, _, _, n, h, hplaced, hstop => by
    cases h
    exact ⟨[], n, rfl, hplaced, hstop⟩
  | (value, body) :: rest, _, _, _, n, h, hplaced, hstop => by
    obtain ⟨_, _, htest, h⟩ := Plan.bind_ok.1 h
    obtain ⟨b, _, hbody, h⟩ := Plan.bind_ok.1 h
    obtain ⟨more, _, hmore, h⟩ := Plan.bind_ok.1 h
    cases h
    obtain ⟨_, _, _, ⟨⟩, hcompare, rfl⟩ := Plan.andThen_ok htest
    obtain ⟨v, _, _, hvalue, ⟨⟩, rfl⟩ := Plan.andThen_ok hcompare
    have hvalueAt : Placed code (n + 1) (v.seq (.one ⟨.eq, .null⟩)) := hplaced.first.rest
    have hchoice := hplaced.rest
    simp only [Shape.chain, Shape.size] at hchoice hstop
    rw [show n + (1 + (v.size + 1)) = n + 1 + v.size + 1 by omega] at hchoice
    obtain ⟨hskip, hinside, hjoin, hbehind⟩ := hchoice.choice
    have hrest : n + 1 + v.size + 1 + b.size + 2 + (Shape.chain more last).size = stop := by omega
    obtain ⟨places, exit, hchain, hlast, hend⟩ := chain_of_plan hmore hbehind hrest
    refine ⟨⟨n, n + 1 + v.size, n + 1 + v.size + 2 + b.size⟩ :: places, exit, ⟨rfl, ?_, ?_⟩, hlast, hend⟩
    · refine ⟨hplaced.first.first.one, ⟨_, v, _, hvalue, hvalueAt.first, rfl⟩, hvalueAt.rest.one, ?_,
        ⟨_, b, _, hbody, hinside, rfl⟩, ?_⟩
      · rw [hskip]
        exact congrArg (fun target => some (Instruction.to .jumpIfFalse target)) (by simp only; omega)
      · rwa [hrest] at hjoin
    · rwa [show n + 1 + v.size + 1 + b.size + 2 = n + 1 + v.size + 2 + b.size + 1 by omega] at hchain

theorem defaultClause_of_valued : ∀ cases : List (Expr × List Stmt),
    Plan.defaultClause (cases.map fun c => (some c.1, c.2)) = pure .nothing
  | [] => rfl
  | _ :: rest => defaultClause_of_valued rest

/-- Where the code of a switch stands, there are its subject and its cases, but no default body. -/
theorem exists_switchSpan {subject : Expr} {cases : List (Expr × List Stmt)}
    {fallback : Option (List Stmt)} {code : Array Instruction}
    (hstands : (Stmt.switch subject (cases.map fun c => (some c.1, c.2)) fallback).StandsIn code
      start stop) :
    ∃ b : SwitchSpan, b.In code subject cases ∧ b.start = start ∧ b.stop = stop := by
  obtain ⟨_, shape, _, hplan, hplaced, hlength⟩ := (follows_statement _).standsIn hstands
  obtain ⟨s, _, hsubject, hplan⟩ := Plan.bind_ok.1 hplan
  obtain ⟨clauses, _, hclauses, hplan⟩ := Plan.bind_ok.1 hplan
  obtain ⟨last, _, hlast, ⟨⟩⟩ := Plan.bind_ok.1 hplan
  rw [defaultClause_of_valued] at hlast
  cases hlast
  rw [Shape.size, ← Nat.add_assoc] at hlength
  obtain ⟨places, exit, hchain, hpop, hend⟩ := chain_of_plan hclauses hplaced.rest hlength
  refine ⟨⟨start, start + s.size, places, exit, stop⟩, ⟨?_, hchain, ?_, hend⟩, rfl, rfl⟩
  · exact ⟨_, s, _, hsubject, hplaced.first, rfl⟩
  · exact hpop.rest.one

namespace Wide

/-! ## Tours -/

/-- One instruction of the code that runs, or a call up to its return. -/
inductive Lap (s t : State) : Prop
  | step (hstep : Act.step s = .ok () t) (hlength : t.frames.length = s.frames.length)
  | call {s₁ u : State} (henter : Act.step s = .ok () s₁)
      (hdeep : s.frames.length < s₁.frames.length) (hwithin : Within s₁.frames.length s₁ u)
      (hreturn : Act.step u = .ok () t) (hlength : t.frames.length ≤ s.frames.length)

/-- The run of a call from one state to another, at indices with a property. -/
inductive Tour (P : Nat → Prop) (s : State) : State → Prop
  | refl : Tour P s s
  | lap {t u : State} {n : Nat} : Tour P s t → t.outline.counter = .at n → P n → Lap t u → Tour P s u

variable {P Q : Nat → Prop} {s t u : State}

theorem Lap.code (h : Lap s t) : t.outline.code = s.outline.code := by
  cases h with
  | step hstep hlength =>
    rcases Act.effect_step hstep with rfl | ⟨i, -, heffect⟩
    · rfl
    · have hlevel : t.rest.frames.length = s.rest.fetched.frames.length :=
        hlength.trans (s.rest.length_jump _).symm
      exact (heffect.moves.code hlevel).trans s.rest.code_fetched
  | call henter hdeep hwithin hreturn hlength =>
    rw [outline_of_return henter hdeep hwithin hreturn hlength, s.code_fetched]

namespace Tour

theorem code (h : Tour P s t) : t.outline.code = s.outline.code := by
  induction h with
  | refl => rfl
  | lap _ _ _ hlap ih => exact hlap.code.trans ih

theorem mono (h : Tour P s t) (himp : ∀ n, P n → Q n) : Tour Q s t := by
  induction h with
  | refl => exact .refl
  | lap _ hcounter hn hlap ih => exact .lap ih hcounter (himp _ hn) hlap

theorem trans (h : Tour P s t) (h' : Tour P t u) : Tour P s u := by
  induction h' with
  | refl => exact h
  | lap _ hcounter hn hlap ih => exact .lap ih hcounter hn hlap

end Tour

/-! ## Steps of a switch -/

/-- The counter is moved, and the stack is another one. -/
def State.moved (w : State) (n : Nat) (stack : List Value) : State :=
  { w.jump (.at n) with stack }

namespace State

theorem moved_moved (w : State) (m n : Nat) (a b : List Value) :
    (w.moved m a).moved n b = w.moved n b := by
  unfold moved jump
  cases w.frames <;> rfl

theorem counter_moved (w : State) (n : Nat) (stack : List Value) :
    (w.moved n stack).outline.counter = .at n := w.counter_jump _

theorem code_moved (w : State) (n : Nat) (stack : List Value) :
    (w.moved n stack).outline.code = w.outline.code := w.code_jump _

theorem jump_eq_moved (w : State) (n : Nat) : w.jump (.at n) = w.moved n w.stack := by
  unfold moved
  rw [← w.stack_jump (.at n)]

end State

theorem Tour.moved {n m : Nat} {stack : List Value} (h : Tour P s t)
    (hcounter : t.outline.counter = .at n) (hn : P n)
    (hstep : Act.step t = .ok () (t.moved m stack)) : Tour P s (t.moved m stack) :=
  h.lap hcounter hn (.step hstep (t.length_jump _))

section Steps

variable {w : State} {n m : Nat} {a b : Value} {rest : List Value}
  (hn : w.outline.counter = .at n) (hsize : w.outline.code.size ≤ Value.sizeLimit)

include hn hsize

theorem Act.step_dup (hi : w.outline.code[n]? = some ⟨.dup, .null⟩) (hstack : w.stack = a :: rest) :
    Act.step w = .ok () (w.moved (n + 1) (a :: w.stack)) := by
  rw [Act.step_at hn hi hsize, State.fetched_at hn, State.jump_eq_moved, hstack]
  rfl

theorem Act.step_pop (hi : w.outline.code[n]? = some ⟨.pop, .null⟩) (hstack : w.stack = a :: rest) :
    Act.step w = .ok () (w.moved (n + 1) rest) := by
  rw [Act.step_at hn hi hsize, State.fetched_at hn, State.jump_eq_moved, hstack]
  rfl

theorem Act.step_eq (hi : w.outline.code[n]? = some ⟨.eq, .null⟩)
    (hstack : w.stack = b :: a :: rest) :
    Act.step w = .ok () (w.moved (n + 1) (.bool (Value.same w.store a b) :: rest)) := by
  rw [Act.step_at hn hi hsize, State.fetched_at hn, State.jump_eq_moved, hstack,
    ← w.store_jump (.at (n + 1 : Nat))]
  rfl

theorem Act.step_jump (hi : w.outline.code[n]? = some (.to .jump m)) :
    Act.step w = .ok () (w.moved m w.stack) := by
  rw [Act.step_at hn hi hsize, State.fetched_at hn, ← State.jump_eq_moved]
  exact congrArg (EStateM.Result.ok ()) (w.jump_jump _ _)

theorem Act.step_jumpIfFalse {found : Bool} (hi : w.outline.code[n]? = some (.to .jumpIfFalse m))
    (hstack : w.stack = .bool found :: rest) :
    Act.step w = .ok () (w.moved (if found then n + 1 else m) rest) := by
  rw [Act.step_at hn hi hsize, State.fetched_at hn, State.jump_eq_moved, hstack]
  cases found with
  | true => rfl
  | false =>
    rw [← w.moved_moved (n + 1) _ rest rest]
    exact congrArg (EStateM.Result.ok ()) (State.jump_eq_moved _ _)

end Steps

/-! ## Runs of a switch -/

/-- The code between two indices is run to its end, and leaves one value more. -/
structure Evaluates (lo hi : Nat) (s : State) (v : Value) (t : State) : Prop where
  tour : Tour (fun n => lo ≤ n ∧ n < hi) s t
  counter : t.outline.counter = .at hi
  stack : t.stack = v :: s.stack

/-- The values of the cases are evaluated one after the other, and none is the value of the
subject. -/
inductive Declines (x : Value) : List CaseSpan → State → State → Prop
  | nil {s : State} : Declines x [] s s
  | cons {c : CaseSpan} {rest : List CaseSpan} {s t u : State} {v : Value} :
      Evaluates (c.first + 1) c.compare (s.moved (c.first + 1) (x :: s.stack)) v t →
      Value.same t.store x v = false → Declines x rest (t.moved (c.last + 1) s.stack) u →
      Declines x (c :: rest) s u

section Runs

variable {code : Array Instruction} {stop : Nat} {x v : Value} {below : List Value}
  (hsize : code.size ≤ Value.sizeLimit)

include hsize

/-- A case compares its value with that of the subject, and goes on to its body or behind it. -/
theorem CaseSpan.In.tries {c : CaseSpan} {value : Expr} {body : List Stmt}
    (hc : c.In code stop value body) (hcode : s.outline.code = code)
    (hcounter : s.outline.counter = .at c.first) (hstack : s.stack = x :: below)
    (hvalue : Evaluates (c.first + 1) c.compare (s.moved (c.first + 1) (x :: s.stack)) v t) :
    Tour (fun n => c.first ≤ n ∧ n < c.compare + 2) s
      (t.moved (if Value.same t.store x v then c.compare + 2 else c.last + 1) s.stack) := by
  obtain ⟨hlt, -⟩ := hc.lt
  have hsame : t.outline.code = code := (hvalue.tour.code.trans (s.code_moved _ _)).trans hcode
  have hstack' : t.stack = v :: x :: s.stack := hvalue.stack
  subst hcode
  have hcopy := Act.step_dup hcounter hsize hc.copies hstack
  have hcopied : Tour (fun n => c.first ≤ n ∧ n < c.compare + 2) s _ :=
    Tour.refl.moved hcounter ⟨Nat.le_refl _, by omega⟩ hcopy
  have hevaluated := hcopied.trans (hvalue.tour.mono fun n hn => ⟨by omega, by omega⟩)
  rw [← hsame] at hsize hc
  have hcompare := Act.step_eq hvalue.counter hsize hc.compares hstack'
  have hcompared := hevaluated.moved hvalue.counter ⟨by omega, by omega⟩ hcompare
  rw [← t.code_moved (c.compare + 1) (.bool (Value.same t.store x v) :: s.stack)] at hsize hc
  have hjump := Act.step_jumpIfFalse (t.counter_moved _ _) hsize hc.skips rfl
  have hall := hcompared.moved (t.counter_moved _ _) ⟨by omega, by omega⟩ hjump
  rwa [t.moved_moved] at hall

theorem Declines.tour {places : List CaseSpan} (h : Declines x places s u) :
    ∀ {n exit : Nat} {cases : List (Expr × List Stmt)}, CaseChain code stop n cases places exit →
      s.outline.code = code → s.outline.counter = .at n → s.stack = x :: below →
      Tour (fun k => ∃ c ∈ places, c.first ≤ k ∧ k < c.compare + 2) s u ∧
        u.outline.counter = .at exit ∧ u.stack = s.stack := by
  induction h with
  | nil =>
    intro n exit cases hchain _ hcounter _
    match cases, hchain with
    | [], hn => exact ⟨.refl, hn ▸ hcounter, rfl⟩
  | @cons c rest s t u v hvalue hsame hrest ih =>
    intro n exit cases hchain hcode hcounter hstack
    match cases, hchain with
    | (value, body) :: cases, ⟨hn, hc, hmore⟩ =>
      have htry := CaseSpan.In.tries hsize hc hcode (hn ▸ hcounter) hstack hvalue
      rw [hsame] at htry
      obtain ⟨htour, hexit, hkept⟩ := ih hmore (htry.code.trans hcode) (t.counter_moved _ _) hstack
      refine ⟨(htry.mono fun k hk => ?_).trans (htour.mono ?_), hexit, hkept⟩
      · exact ⟨c, List.mem_cons_self, hk⟩
      · rintro k ⟨d, hd, hk⟩
        exact ⟨d, List.mem_cons_of_mem _ hd, hk⟩

end Runs

/-- A switch, of whatever program, whose subject and whose cases have values, runs the body of the
first case whose value is that of the subject, and no other one; then the value of the subject is
still on the stack. If there is no such case it runs no body, whether or not there is a default one,
and the stack is what it was before. -/
theorem switch_selects {subject : Expr} {cases : List (Expr × List Stmt)}
    {fallback : Option (List Stmt)} {s : State} {start stop : Nat}
    (hstands : (Stmt.switch subject (cases.map fun c => (some c.1, c.2)) fallback).StandsIn
      s.outline.code start stop)
    (hsize : s.outline.code.size ≤ Value.sizeLimit) (hstart : s.outline.counter = .at start) :
    ∃ b : SwitchSpan, b.In s.outline.code subject cases ∧ b.start = start ∧ b.stop = stop ∧
      ∀ x s₁, Evaluates start b.first s x s₁ →
        (∀ s₂, Declines x b.cases s₁ s₂ →
          ∃ t, Tour (b.Spares none) s t ∧ t.outline.counter = .at stop ∧ t.stack = s.stack) ∧
        ∀ before c after s₂ v s₃, b.cases = before ++ c :: after → Declines x before s₁ s₂ →
          Evaluates (c.first + 1) c.compare (s₂.moved (c.first + 1) (x :: s₂.stack)) v s₃ →
          Value.same s₃.store x v = true →
          ∃ u, Tour (b.Spares none) s u ∧ u.outline.counter = .at (c.compare + 2 : Nat) ∧
            u.stack = x :: s.stack ∧
            ∀ w, Tour c.Body u w → w.outline.counter = .at c.last →
              ∃ t, Tour (b.Spares (some c)) s t ∧ t.outline.counter = .at stop ∧
                t.stack = w.stack := by
  obtain ⟨b, hb, rfl, rfl⟩ := exists_switchSpan hstands
  have hchain := hb.cases
  have hcases := hchain.le
  have hends := hb.ends
  refine ⟨b, hb, rfl, rfl, fun x s₁ hsubject => ?_⟩
  have hcode := hsubject.tour.code
  have hfirst : Tour (b.Spares none) s s₁ := hsubject.tour.mono fun n hn =>
    ⟨hn.1, by omega, fun d hd hk => by
      have hbounds := hchain.bounds hd
      have hbody := hk.1
      omega⟩
  -- The tests of the cases are in no body.
  have htests : ∀ {places : List CaseSpan} {s₂ : State}, (∀ c ∈ places, c ∈ b.cases) →
      Tour (fun k => ∃ c ∈ places, c.first ≤ k ∧ k < c.compare + 2) s₁ s₂ →
      Tour (b.Spares none) s s₂ := by
    intro places s₂ hmem htour
    refine hfirst.trans (htour.mono fun k ⟨c, hc, hk⟩ => ?_)
    have hbounds := hchain.bounds (hmem c hc)
    exact (hb.spares (hmem c hc) hk.1 (by omega)).2 fun hbody => by
      have hlow := hbody.1
      omega
  constructor
  · intro s₂ hall
    obtain ⟨htour, hcounter, hstack⟩ := hall.tour hsize hchain hcode hsubject.counter hsubject.stack
    have hs₂ := htests (fun _ hc => hc) htour
    rw [← hs₂.code] at hsize hb
    have hpop := Act.step_pop hcounter hsize hb.drops (hstack.trans hsubject.stack)
    have hbegin := hb.subject.le
    refine ⟨_, hs₂.moved hcounter ⟨by omega, by omega, fun d hd hk => ?_⟩ hpop,
      hends ▸ s₂.counter_moved _ _, rfl⟩
    have hbounds := hchain.bounds hd
    have hbody := hk.2
    omega
  · intro before c after s₂ v s₃ heq hbefore hvalue hsame
    have hc : c ∈ b.cases := heq ▸ List.mem_append_right _ List.mem_cons_self
    have hbounds := hchain.bounds hc
    obtain ⟨m, early, late, hearly, hlate⟩ := (heq ▸ hchain).split
    obtain ⟨htour, hcounter, hstack⟩ := hbefore.tour hsize hearly hcode hsubject.counter
      hsubject.stack
    have hs₂ := htests (fun d hd => heq ▸ List.mem_append_left _ hd) htour
    match late, hlate with
    | (value, body) :: late, ⟨hm, hin, _⟩ =>
      have htry := CaseSpan.In.tries hsize hin hs₂.code (hm ▸ hcounter)
        (hstack.trans hsubject.stack) hvalue
      rw [hsame] at htry
      have hu : Tour (b.Spares none) s _ := hs₂.trans (htry.mono fun k hk =>
        (hb.spares hc hk.1 (by omega)).2 fun hbody => by
          have hlow := hbody.1
          omega)
      refine ⟨_, hu, s₃.counter_moved _ _, hstack.trans hsubject.stack, fun w hbody hlast => ?_⟩
      have hw : Tour (b.Spares (some c)) s w :=
        (hu.mono fun _ => SwitchSpan.Spares.weaken).trans (hbody.mono fun k ⟨hlow, hhigh⟩ =>
          (hb.spares hc (by omega) (Nat.le_of_lt hhigh)).1)
      rw [← hw.code] at hsize hin
      exact ⟨_, hw.moved hlast (hb.spares hc (by omega) (Nat.le_refl _)).1
        (Act.step_jump hlast hsize hin.joins), w.counter_moved _ _, rfl⟩

end Wide

theorem Plan.StandsIn.literal {d : Datum} {code : Array Instruction}
    (h : (Plan.expression (.literal d)).StandsIn code start stop) : stop = start + 1 := by
  obtain ⟨sc, shape, sc', hplan, -, rfl⟩ := h
  obtain ⟨_, _, -, ⟨⟩⟩ := Plan.bind_ok.1 hplan
  rfl

theorem Wide.Evaluates.of_step {s t : Wide.State} {v : Value}
    (hstep : Wide.Act.step s = .ok () t) (hs : s.outline.counter = .at n)
    (ht : t.place? = some (n + 1)) (hlength : t.frames.length = s.frames.length)
    (hstack : t.stack = v :: s.stack) : Wide.Evaluates n (n + 1) s v t where
  tour := Tour.refl.lap hs ⟨Nat.le_refl _, Nat.lt_succ_self _⟩ (.step hstep hlength)
  counter := Wide.State.counter_of_place? ht
  stack := hstack

/-- The numbers on the stack, if there is nothing else. -/
def Wide.State.counts? (w : Wide.State) : Option (List Int) :=
  w.stack.mapM fun | .int i => some i | _ => none

theorem Wide.State.stack_of_counts? {w : Wide.State} {is : List Int} (h : w.counts? = some is) :
    w.stack = is.map .int := by
  unfold counts? at h
  generalize w.stack = stack at h
  induction stack generalizing is with
  | nil =>
    cases h
    rfl
  | cons v rest ih =>
    simp only [List.mapM_cons, bind, Option.bind_eq_some_iff] at h
    obtain ⟨i, hi, more, hmore, h⟩ := h
    cases h
    rw [ih hmore]
    split at hi <;> cases hi
    rfl

/-- A switch on 2 with cases for 1 and for 2. -/
def Stmt.parity : Stmt :=
  .switch (.literal (.int 2)) [(some (.literal (.int 1)), []), (some (.literal (.int 2)), [])] none

open Wide in
theorem runs_parity : ∃ s s₁ s₂ s₃ : State, Stmt.parity.StandsIn s.outline.code 0 12 ∧
    s.outline.code.size = 12 ∧ s.outline.counter = .at 0 ∧ Evaluates 0 1 s (.int 2) s₁ ∧
    Evaluates 2 3 (s₁.moved 2 (.int 2 :: s₁.stack)) (.int 1) s₂ ∧
    Evaluates 7 8 ((s₂.moved 6 s₁.stack).moved 7 (.int 2 :: s₁.stack)) (.int 2) s₃ := by
  have hrun : (attempt Stmt.parity 0).any (fun (stop, s, s₁, _, _) => stop = 12 ∧
      s.counts? = some [] ∧ s₁.place? = some 1 ∧ s₁.frames.length = s.frames.length ∧
      s₁.counts? = some [2] ∧
      (stepsWithin 0 1 (s₁.moved 2 [.int 2, .int 2])).any fun s₂ => s₂.place? = some 3 ∧
        s₂.frames.length = s₁.frames.length ∧ s₂.counts? = some [1, 2, 2] ∧
        (stepsWithin 0 1 (s₂.moved 7 [.int 2, .int 2])).any fun s₃ => s₃.place? = some 8 ∧
          s₃.frames.length = s₂.frames.length ∧ s₃.counts? = some [2, 2, 2]) = true := by
    decide +kernel
  simp only [Option.any_eq_true, decide_eq_true_eq] at hrun
  obtain ⟨⟨_, s, s₁, _, _⟩, hrun, rfl, hcount, hplace₁, hlength₁, hcount₁, s₂, hstep₂, hplace₂,
    hlength₂, hcount₂, s₃, hstep₃, hplace₃, hlength₃, hcount₃⟩ := hrun
  obtain ⟨hstands, hstart, hsize, hbegin, -⟩ := attempt_eq_some hrun
  have hstack₁ := State.stack_of_counts? hcount₁
  have hone := Evaluates.of_step hbegin hstart hplace₁ hlength₁
    (hstack₁.trans (congrArg _ (State.stack_of_counts? hcount).symm))
  have htwo := Evaluates.of_step (step_of_steps hstep₂) (s₁.counter_moved _ _) hplace₂
    (hlength₂.trans (s₁.length_jump _).symm) (State.stack_of_counts? hcount₂)
  have hthree := Evaluates.of_step (step_of_steps hstep₃) (s₂.counter_moved _ _) hplace₃
    (hlength₃.trans (s₂.length_jump _).symm) (State.stack_of_counts? hcount₃)
  refine ⟨s, s₁, s₂, s₃, hstands, hsize, hstart, hone, ?_, ?_⟩
  · rwa [hstack₁]
  · rwa [State.moved_moved, hstack₁]

open Wide in
theorem switch_selects_parity : ∃ (b : SwitchSpan) (s u : State) (c d : CaseSpan)
    (more : List CaseSpan), Stmt.parity.StandsIn s.outline.code 0 12 ∧
    s.outline.code.size ≤ Value.sizeLimit ∧ s.outline.counter = .at 0 ∧ b.cases = c :: d :: more ∧
    Tour (b.Spares none) s u ∧
    u.outline.counter = .at (d.compare + 2 : Nat) ∧ u.stack = .int 2 :: s.stack := by
  obtain ⟨s, s₁, s₂, s₃, hstands, hsize, hstart, hone, htwo, hthree⟩ := runs_parity
  have hsmall : s.outline.code.size ≤ Value.sizeLimit := hsize.trans_le (by decide)
  obtain ⟨⟨start, first, places, exit, stop⟩, hb, rfl, -, hall⟩ := @switch_selects
    (.literal (.int 2)) [(.literal (.int 1), []), (.literal (.int 2), [])] none s 0 12 hstands
    hsmall hstart
  obtain rfl : first = 1 := hb.subject.literal
  -- The places of the cases follow from the code of their values.
  obtain ⟨⟨n, m, l⟩, places, rfl, hn, hin, hrest⟩ := hb.cases.uncons
  obtain rfl : 1 = n := hn
  obtain rfl : m = 3 := hin.value.literal
  obtain ⟨_, _, _, ⟨⟩, -, hl⟩ := hin.body
  obtain rfl : 5 = l := hl
  obtain ⟨⟨n', m', l'⟩, places, rfl, hn', hin', -⟩ := hrest.uncons
  obtain rfl : 6 = n' := hn'
  obtain rfl : m' = 8 := hin'.value.literal
  obtain ⟨u, htour, hcounter, hstack, -⟩ := (hall (.int 2) s₁ hone).2 [_] _ _ _ _ s₃ rfl
    (.cons htwo rfl .nil) hthree rfl
  exact ⟨_, s, u, _, _, _, hstands, hsmall, hstart, rfl, htour, hcounter, hstack⟩

/-- A switch none of whose cases is for its subject, and one with a case for it. -/
def Program.choices : Program :=
  [.switch (.literal (.int 1)) [(some (.literal (.int 2)), [.pass])]
    (some [.expression (.call (.name "print") [.literal (.str "d")])]),
   .switch (.literal (.int 1)) [(some (.literal (.int 1)), [.pass])] none]

open Wide in
/-- The first switch leaves its default body out, and the second one leaves its subject on the
stack. -/
theorem default_left_out : ∃ c s₀ t, Program.choices.compile = .ok c ∧
    State.load {} c.bytes = .ok s₀ ∧ Reached s₀ t ∧ t.next?.map (·.op) = some .halt ∧
    t.output = "" ∧ t.stack.length = 1 := by
  exact exists_of_runOf 12 (by decide +kernel) (by decide +kernel)

end StackScript
