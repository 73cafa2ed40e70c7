import StackScript.Proofs.Machine.Selection

/-!
# Values of expressions

The code of an expression leaves one value on the stack, above what was there before. A few forms
have no code at all: a formatted literal without pieces, a function without a name and an awaited
value. The words `and` and `or` are operators like any other: both operands are evaluated, and only
then one of the two values is chosen.

* `leaves_one_value`: a tidy expression leaves one value;
* `evaluates_both`: the second operand of `and` and of `or` is always evaluated.
-/

namespace StackScript

variable {code : Array Instruction} {start stop : Nat}

/-! ## Code of operands -/

theorem Gen.StandsIn.split {m k : Gen Unit} {p q : Plan Shape} (hm : Follows m p) (hk : Follows k q)
    (h : Gen.StandsIn (do m; k) code start stop) :
    ∃ middle, m.StandsIn code start middle ∧ k.StandsIn code middle stop := by
  obtain ⟨g, g', hgen, rfl, rfl, hcode⟩ := h
  obtain ⟨_, g₁, hfirst, hrest⟩ := bind_eq_ok hgen
  obtain ⟨_, _, -, hemits⟩ := hm.of_ok hfirst
  obtain ⟨_, _, -, hmore⟩ := hk.of_ok hrest
  have hsize : g₁.code.toList.length = g₁.code.size := Array.length_toList
  have hle : g.code.size ≤ g₁.code.toList.length := by simp [hemits.code]
  have hblock : g'.code.toList.drop g.code.size =
      g₁.code.toList.drop g.code.size ++ g'.code.toList.drop g₁.code.size := by
    rw [hmore.code, ← hsize, List.drop_left, List.drop_append_of_le_length hle]
  rw [hblock] at hcode
  refine ⟨_, ⟨g, g₁, hfirst, rfl, rfl, hcode.left⟩, g₁, g', hrest, rfl, rfl, ?_⟩
  have hright := hcode.right
  rwa [List.length_drop, Nat.add_sub_cancel' hle, hsize] at hright

theorem Gen.StandsIn.op {op : Opcode} (h : (Gen.emit' op).StandsIn code start stop) :
    code[start]? = some ⟨op, .null⟩ ∧ start + 1 = stop := by
  obtain ⟨_, _, _, ⟨⟩, hcode, hstop⟩ := (Follows.op op).standsIn h
  exact ⟨hcode.one, hstop⟩

/-! ## Heights along a tour -/

/-- Returns stand nowhere. -/
def Rules.onward : Rules where
  of op := if op = .ret then .never else .any
  free := by
    intro op h
    refine if_neg fun hret => h ?_
    rw [hret]
    decide

namespace Wide

variable {s t u : State} {lo hi : Nat} {height : Nat → Nat}

/-- Each routine that is called between two indices leaves one value above what it finds. -/
def Answers (lo hi : Nat) (s : State) : Prop :=
  ∀ (n : Nat) t t₁ w u, Tour (fun n => lo ≤ n ∧ n < hi) s t → t.outline.counter = .at n → lo ≤ n → n < hi →
    Act.step t = .ok () t₁ → t.frames.length < t₁.frames.length → Within t₁.frames.length t₁ w →
    Act.step w = .ok () u → u.frames.length ≤ t.frames.length → ∃ v, u.stack = v :: t₁.stack

/-- A counter at an index of this height. -/
def HeightAt (height : Nat → Nat) (c : Counter) (values : Nat) : Prop :=
  ∃ j : Nat, c = .at j ∧ height j = values

/-- At each index that is reached there are as many values above those of the start as its height
says. -/
theorem Tour.climbs (hstart : s.outline.counter = .at lo) (hzero : height lo = 0)
    (hclimbs : ∀ k i, lo ≤ k → k < hi → s.outline.code[k]? = some i →
      ∃ before, Climbs .onward none lo hi height before k i)
    (hanswers : Answers lo hi s) (h : Tour (fun n => lo ≤ n ∧ n < hi) s t) :
    ∃ segment, t.stack = segment ++ s.stack ∧ HeightAt height t.outline.counter segment.length := by
  induction h with
  | refl => exact ⟨[], rfl, lo, hstart, hzero⟩
  | @lap t u n htour hcounter hn hlap ih =>
    obtain ⟨segment, hstack, j, hj, hheight⟩ := ih
    cases hj.symm.trans hcounter
    have hstep : ∀ {t₁ : State}, Act.step t = .ok () t₁ → t₁ = t ∨
        ∃ i segment', t₁.stack = segment' ++ s.stack ∧
          Stride .onward (HeightAt height) t t₁ i segment.length segment'.length := by
      intro t₁ hstep
      rcases Act.step_eq_ok hstep with rfl | ⟨i, w₁, hfetch, hrun⟩
      · exact .inl rfl
      · have hpick := Act.pick_of_fetch hfetch
        rw [hcounter, htour.code] at hpick
        obtain ⟨before, hi⟩ := hclimbs n i hn.1 hn.2 (getElem?_of_pick_at hpick)
        have hat : ∀ (c : Nat) values, height c = values → HeightAt height (.at c) values :=
          fun c _ h => ⟨c, rfl, h⟩
        obtain ⟨segment', hs, hstride, -⟩ := step_climbs hstack hfetch hcounter hheight hi hat hrun
        exact .inr ⟨i, segment', hs, hstride⟩
    have hlevel : ∀ {t₁ : State} {c : Counter}, t₁.outline = t.outline.jump c →
        t₁.frames.length = t.frames.length := by
      intro t₁ c houtline
      rw [← length_frames, houtline, ← t.outline_jump, length_frames, t.length_jump]
    cases hlap with
    | step hgoes hlength =>
      rcases hstep hgoes with rfl | ⟨i, segment', hs, hstride⟩
      · exact ⟨segment, hstack, n, hcounter, hheight⟩
      · cases hstride with
        | goes c houtline hat =>
          refine ⟨segment', hs, ?_⟩
          rwa [houtline, ← t.outline_jump, t.counter_jump]
        | enters _ _ routine _ _ _ _ houtline _ =>
          have hmore := congrArg (·.frames.length) houtline
          rw [← t.outline_jump] at hmore
          simp only [Outline.enter, List.length_cons, length_frames, t.length_jump] at hmore
          omega
        | returns _ _ hrule => exact hrule.elim
    | call henter hdeep hwithin hreturn hlength =>
      rcases hstep henter with rfl | ⟨i, segment', hs, hstride⟩
      · exact absurd hdeep (Nat.lt_irrefl _)
      · cases hstride with
        | goes c houtline _ => exact absurd (hlevel houtline) (by omega)
        | enters _ _ _ _ _ _ _ _ hat =>
          obtain ⟨v, hv⟩ := hanswers _ _ _ _ _ htour hcounter hn.1 hn.2 henter hdeep hwithin hreturn
            hlength
          refine ⟨v :: segment', by rw [hv, hs]; rfl, ?_⟩
          rw [outline_of_return henter hdeep hwithin hreturn hlength]
          exact (t.counter_jump _).symm ▸ hat
        | returns _ _ hrule => exact hrule.elim

/-- The code of a tidy expression, in whatever program, is not empty and leaves one value, above what
was on the stack before it: whenever its run comes to the end of that code, if each routine that is
called on the way leaves one value as well. -/
theorem leaves_one_value {e : Expr} (he : e.Tidy .onward true) {s t : State} {start stop : Nat}
    (hstands : (Gen.expression e).StandsIn s.outline.code start stop)
    (hstart : s.outline.counter = .at start) (hanswers : Answers start stop s)
    (htour : Tour (fun n => start ≤ n ∧ n < stop) s t) (hstop : t.outline.counter = .at stop) :
    start < stop ∧ ∃ v, t.stack = v :: s.stack := by
  obtain ⟨sc, shape, sc', hplan, hplaced, rfl⟩ := (follows_expression e).standsIn hstands
  have hrises : Rises false none .onward sc.inWhile true (Plan.expression e) 0 1 :=
    rises_expression he
  obtain ⟨-, hplaces⟩ := (hrises sc rfl shape sc' hplan).2 ⟨nofun, nofun, nofun⟩
  obtain ⟨height, hzero, hone, hblock⟩ := hplaces none ⟨rfl, nofun⟩ 0 (fun _ => rfl) start
  refine ⟨Nat.lt_add_of_pos_right (Nat.pos_of_ne_zero fun hsize => ?_), ?_⟩
  · rw [hsize, Nat.add_zero, hzero] at hone
    cases hone
  · have hclimbs : ∀ k i, start ≤ k → k < start + shape.size → s.outline.code[k]? = some i →
        ∃ before, Climbs .onward none start (start + shape.size) height before k i := by
      intro k i hlo hhi hi
      obtain ⟨m, rfl⟩ := Nat.exists_eq_add_of_le hlo
      have hm : m < (shape.layout start).length := by
        rw [Shape.length_layout]
        omega
      have hsame := hplaced m _ (List.getElem?_eq_getElem hm)
      rw [hi] at hsame
      cases hsame
      exact ⟨_, hblock m _ (List.getElem?_eq_getElem hm)⟩
    obtain ⟨segment, hstack, j, hj, hheight⟩ := htour.climbs hstart hzero hclimbs hanswers
    cases hj.symm.trans hstop
    rw [hone] at hheight
    obtain ⟨v, rfl⟩ := List.length_eq_one_iff.1 hheight.symm
    exact ⟨v, hstack⟩

/-! ## Choosing between two values -/

/-- The value of `and` or `or`: that of the second operand, if the first one does not decide. -/
def Value.joined (store : Store) (operator : String) (x y : Value) : Value :=
  if operator = "and" then (if x.truth store then y else x) else if x.truth store then x else y

theorem Act.step_joined {w : State} {n : Nat} {operator : String} {op : Opcode} {x y : Value}
    {rest : List Value} (hn : w.outline.counter = .at n)
    (hsize : w.outline.code.size ≤ Value.sizeLimit)
    (hop : operator = "and" ∧ op = .both ∨ operator = "or" ∧ op = .either)
    (hi : w.outline.code[n]? = some ⟨op, .null⟩) (hstack : w.stack = y :: x :: rest) :
    Act.step w = .ok () (w.moved (n + 1) (Value.joined w.store operator x y :: rest)) := by
  rw [Act.step_at hn hi hsize, State.fetched_at hn, State.jump_eq_moved, hstack,
    ← w.store_jump (.at (n + 1 : Nat))]
  rcases hop with ⟨rfl, rfl⟩ | ⟨rfl, rfl⟩
  · rw [Value.joined, if_pos rfl]
    rfl
  · rw [Value.joined, if_neg (by decide)]
    rfl

/-- The code of `and` and of `or`, in whatever program, is that of both operands and one instruction
more. Whatever the value of the first operand is, the run goes on with the code of the second one, so
that all that it does happens; only then one of the two values is chosen. -/
theorem evaluates_both {left right : Expr} {operator : String}
    (hoperator : operator = "and" ∨ operator = "or") {s : State} {start stop : Nat}
    (hstands : (Gen.expression (.binary left operator right)).StandsIn s.outline.code start stop)
    (hsize : s.outline.code.size ≤ Value.sizeLimit) :
    ∃ middle last, (Gen.expression left).StandsIn s.outline.code start middle ∧
      (Gen.expression right).StandsIn s.outline.code middle last ∧ last + 1 = stop ∧
      ∀ x s₁, Evaluates start middle s x s₁ →
        (∀ t, Tour (fun n => middle ≤ n ∧ n < last) s₁ t →
          Tour (fun n => start ≤ n ∧ n < stop) s t) ∧
        ∀ y s₂, Evaluates middle last s₁ y s₂ →
          Evaluates start stop s (Value.joined s₂.store operator x y)
            (s₂.moved stop (Value.joined s₂.store operator x y :: s.stack)) := by
  obtain ⟨op, hop, hstands⟩ : ∃ op,
      (operator = "and" ∧ op = .both ∨ operator = "or" ∧ op = .either) ∧
      Gen.StandsIn (do Gen.expression left; Gen.expression right; Gen.emit' op) s.outline.code start
        stop := by
    rcases hoperator with rfl | rfl
    · exact ⟨.both, .inl ⟨rfl, rfl⟩, hstands⟩
    · exact ⟨.either, .inr ⟨rfl, rfl⟩, hstands⟩
  have hright := follows_expression right
  obtain ⟨middle, hl, hrest⟩ := hstands.split (follows_expression left) (hright.seq (.op op))
  obtain ⟨last, hr, hjoin⟩ := hrest.split hright (.op op)
  obtain ⟨hi, rfl⟩ := hjoin.op
  have hle := ((follows_expression left).standsIn hl).le
  have hle' := (hright.standsIn hr).le
  refine ⟨middle, last, hl, hr, rfl, fun x s₁ hx => ?_⟩
  have hfirst := hx.tour.mono (Q := fun n => start ≤ n ∧ n < last + 1) fun n hn =>
    ⟨hn.1, by omega⟩
  have hboth : ∀ t, Tour (fun n => middle ≤ n ∧ n < last) s₁ t →
      Tour (fun n => start ≤ n ∧ n < last + 1) s t := fun t ht =>
    hfirst.trans (ht.mono fun n hn => ⟨by omega, by omega⟩)
  refine ⟨hboth, fun y s₂ hy => ?_⟩
  have htour := hboth s₂ hy.tour
  rw [← htour.code] at hsize hi
  have hstep := Act.step_joined hy.counter hsize hop hi (hy.stack.trans (by rw [hx.stack]))
  exact ⟨htour.moved hy.counter ⟨by omega, by omega⟩ hstep, s₂.counter_moved _ _, rfl⟩

end Wide

open Wide in
theorem Wide.Answers.of_plain {s : State} {lo hi : Nat}
    (h : s.outline.code.all (fun i => i.op != .call) = true) : Answers lo hi s := by
  intro n t t₁ w u htour hcounter _ _ henter hdeep hwithin hreturn hlength
  rcases Act.effect_step henter with rfl | ⟨i, hnext, -⟩
  · exact absurd hdeep (Nat.lt_irrefl _)
  · obtain ⟨hcall, -⟩ := control_of_return hnext henter hdeep hwithin hreturn hlength
    obtain ⟨_, hfetch⟩ := State.fetch_of_next? hnext
    have hpick := Act.pick_of_fetch hfetch
    rw [hcounter, htour.code] at hpick
    obtain ⟨hlt, rfl⟩ := Array.getElem?_eq_some_iff.1 (getElem?_of_pick_at hpick)
    have hplain := Array.all_eq_true.1 h n hlt
    simp [hcall] at hplain

/-- A zero, and a five that does not matter. -/
def Expr.zeroAndFive : Expr := .binary (.literal (.int 0)) "and" (.literal (.int 5))

open Wide in
theorem runs_zeroAndFive : ∃ s s₁ s₂ s₃ : State,
    (Gen.expression .zeroAndFive).StandsIn s.outline.code 0 3 ∧ s.outline.code.size = 4 ∧
    s.outline.counter = .at 0 ∧ s.outline.code.all (fun i => i.op != .call) = true ∧
    Evaluates 0 1 s (.int 0) s₁ ∧ Evaluates 1 2 s₁ (.int 5) s₂ ∧
    Tour (fun n => 2 ≤ n ∧ n < 3) s₂ s₃ ∧ s₃.outline.counter = .at 3 := by
  have hrun : (attempt (.expression .zeroAndFive) 0).any (fun (stop, s, s₁, _, _) => stop = 4 ∧
      s.outline.code.all (fun i => i.op != .call) = true ∧ s.counts? = some [] ∧
      s₁.place? = some 1 ∧ s₁.frames.length = s.frames.length ∧ s₁.counts? = some [0] ∧
      (stepsWithin 0 1 s₁).any fun s₂ => s₂.place? = some 2 ∧
        s₂.frames.length = s₁.frames.length ∧ s₂.counts? = some [5, 0] ∧
        (stepsWithin 0 1 s₂).any fun s₃ => s₃.place? = some 3 ∧
          s₃.frames.length = s₂.frames.length) = true := by
    decide +kernel
  simp only [Option.any_eq_true, decide_eq_true_eq] at hrun
  obtain ⟨⟨_, s, s₁, _, _⟩, hrun, rfl, hplain, hcount, hplace₁, hlength₁, hcount₁, s₂, hstep₂,
    hplace₂, hlength₂, hcount₂, s₃, hstep₃, hplace₃, hlength₃⟩ := hrun
  obtain ⟨hstands, hstart, hsize, hbegin, -⟩ := attempt_eq_some hrun
  obtain ⟨last, hexpr, hpop⟩ := Gen.StandsIn.split (follows_expression .zeroAndFive) (.op .pop) hstands
  obtain rfl : last = 3 := by simpa using hpop.op.2
  have hstack₁ := State.stack_of_counts? hcount₁
  have hstack₂ := State.stack_of_counts? hcount₂
  have hone := Evaluates.of_step hbegin hstart hplace₁ hlength₁
    (hstack₁.trans (congrArg _ (State.stack_of_counts? hcount).symm))
  have htwo := Evaluates.of_step (step_of_steps hstep₂) hone.counter hplace₂ hlength₂
    (hstack₂.trans (congrArg _ hstack₁.symm))
  exact ⟨s, s₁, s₂, s₃, hexpr, hsize, hstart, hplain, hone, htwo,
    Tour.refl.lap htwo.counter ⟨Nat.le_refl _, Nat.lt_succ_self _⟩
      (.step (step_of_steps hstep₃) hlength₃), State.counter_of_place? hplace₃⟩

open Wide in
theorem leaves_one_value_zeroAndFive : ∃ s t : State, Expr.zeroAndFive.Tidy .onward true ∧
    (Gen.expression .zeroAndFive).StandsIn s.outline.code 0 3 ∧ s.outline.counter = .at 0 ∧
    Answers 0 3 s ∧ Tour (fun n => 0 ≤ n ∧ n < 3) s t ∧ t.outline.counter = .at 3 ∧
    ∃ v, t.stack = v :: s.stack := by
  obtain ⟨s, s₁, s₂, s₃, hstands, -, hstart, hplain, hone, htwo, hthree, hend⟩ := runs_zeroAndFive
  have htidy : Expr.zeroAndFive.Tidy .onward true := .binary .literal .literal
  have htour : Tour (fun n => 0 ≤ n ∧ n < 3) s s₃ :=
    ((hone.tour.mono fun n hn => ⟨by omega, by omega⟩).trans
      (htwo.tour.mono fun n hn => ⟨by omega, by omega⟩)).trans
      (hthree.mono fun n hn => ⟨by omega, by omega⟩)
  exact ⟨s, s₃, htidy, hstands, hstart, .of_plain hplain, htour, hend,
    (leaves_one_value htidy hstands hstart (.of_plain hplain) htour hend).2⟩

open Wide in
theorem evaluates_both_zeroAndFive : ∃ s s₁ s₂ t : State,
    (Gen.expression .zeroAndFive).StandsIn s.outline.code 0 3 ∧
    s.outline.code.size ≤ Value.sizeLimit ∧ Evaluates 0 1 s (.int 0) s₁ ∧
    Evaluates 1 2 s₁ (.int 5) s₂ ∧ Evaluates 0 3 s (.int 0) t := by
  obtain ⟨s, s₁, s₂, -, hstands, hsize, -, -, hone, htwo, -⟩ := runs_zeroAndFive
  have hsmall : s.outline.code.size ≤ Value.sizeLimit := hsize.trans_le (by decide)
  obtain ⟨middle, last, hleft, hright, hlast, hall⟩ := evaluates_both (.inl rfl) hstands hsmall
  obtain rfl : middle = 1 := ((follows_expression _).standsIn hleft).literal
  obtain rfl : last = 2 := ((follows_expression _).standsIn hright).literal
  exact ⟨s, s₁, s₂, _, hstands, hsmall, hone, htwo, (hall _ _ hone).2 _ _ htwo⟩

/-- A function that is called where the first operand has decided. -/
def Program.undecided : Program :=
  [.function "f" []
    [.expression (.call (.name "print") [.literal (.str "called")]),
     .returnValue (some (.literal (.bool true)))],
   .declare "r" (some (.binary (.literal (.bool false)) "and" (.call (.name "f") []))) none]

open Wide in
theorem second_operand_called : ∃ c s₀ t, Program.undecided.compile = .ok c ∧
    State.load {} c.bytes = .ok s₀ ∧ Reached s₀ t ∧ t.next?.map (·.op) = some .halt ∧
    t.output = "called\n" := by
  exact exists_of_runOf 13 (by decide +kernel) (by decide +kernel)

/-- A variable whose value is a formatted literal without pieces. -/
def Program.emptyText : Program := [.declare "x" (some (.formatted (.list []))) none]

open Wide in
/-- A formatted literal without pieces has no code, so that there is no value to store. -/
theorem emptyText_left_out : Gen.expression (.formatted (.list [])) {} = .ok () {} ∧
    ∃ c s₀ t, Program.emptyText.compile = .ok c ∧ State.load {} c.bytes = .ok s₀ ∧ Reached s₀ t ∧
      t.next?.map (·.op) = some .storeGlobal ∧ t.stack.length = 0 := by
  exact ⟨rfl, exists_of_runOf 0 (by decide +kernel) (by decide +kernel)⟩

end StackScript
