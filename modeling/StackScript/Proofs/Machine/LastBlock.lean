import StackScript.Proofs.Machine.Thrown

/-!
# The last block of a try statement

A try statement with a clause comes to its last block behind its clauses, whether its body has ended,
a clause has caught an exception or none was for it. The block is performed once and left at its end,
unless an exception is under way there: then it is raised again, and the handler of the statement,
which only the end of a clause takes away, leads it back to the clauses of the same statement.

* `last_block`: how often the last block of a try statement is performed;
* `last_block_left_out`: without a clause it is not.
-/

namespace StackScript

/-- No instruction of a block and its clauses belongs to a last block. -/
theorem TrySpan.In.op_ne {code : Array Instruction} {b : TrySpan} (hb : b.In code) {n : Nat}
    {i : Instruction} (hlo : b.start < n) (hhi : n < b.exit) (hi : code[n]? = some i) :
    i.op ≠ .finallyBegin := by
  have hother (op : Opcode) (hne : op ≠ .finallyBegin) (h : ∃ j ∈ code[n]?, j.op = op) :
      i.op ≠ .finallyBegin := holds_at h hi ▸ hne
  have hroams {lo hi' : Nat} (h : ∃ j ∈ code[n]?, j.Roams lo hi') : i.op ≠ .finallyBegin :=
    fun heq => (holds_at h hi).1 (heq ▸ by decide)
  rcases Nat.lt_trichotomy n b.stop with hlt | rfl | hgt
  · exact hroams (hb.body n hlt hlo)
  · exact hother .tryEnd nofun hb.ends
  · obtain ⟨first, last, hmem, hfirst, hlast⟩ := hb.chain.locate hgt hhi
    obtain ⟨hclause, -⟩ := hb.chain.clause hmem
    rcases hfirst.eq_or_lt with rfl | hfirst
    · exact hother .catchBegin nofun hclause.begins
    · rcases hlast.eq_or_lt with rfl | hlast
      · exact hother .catchEnd nofun hclause.ends
      · exact hroams (hclause.body n hlast hfirst)

theorem TrySpan.In.stop_lt_exit {code : Array Instruction} {b : TrySpan} (hb : b.In code) :
    b.stop + 1 < b.exit := by
  obtain ⟨last, hfirst⟩ := hb.chain.exists_first hb.caught
  obtain ⟨hclause, -, hlt, -⟩ := hb.chain.clause hfirst
  exact hclause.lt.trans hlt

namespace Wide

/-- How often an instruction has been performed. -/
def Trace.times (trace : Trace) (op : Opcode) : Nat := (trace.map (·.1)).count op

theorem Trace.times_cons {trace : Trace} {op : Opcode} {entry : Opcode × Option Nat} :
    Trace.times (entry :: trace) op = trace.times op + if entry.1 = op then 1 else 0 := by
  simp [Trace.times, List.count_cons]

/-- What does not stand in a stretch of code is not performed there. -/
theorem Along.times_eq_zero {lo hi : Nat} {s t : State} {trace : Trace} {op : Opcode}
    (h : Along lo hi s trace t)
    (hop : ∀ n i, lo ≤ n → n < hi → s.outline.code[n]? = some i → i.op ≠ op) :
    trace.times op = 0 ∧ t.outline.code = s.outline.code := by
  induction h with
  | refl => exact ⟨rfl, rfl⟩
  | turn _ hcounter hlo hhi hnext hturn ih =>
    obtain ⟨hzero, hcode⟩ := ih
    have hi := State.code_of_next hcounter hnext
    rw [hcode] at hi
    exact ⟨by rw [Trace.times_cons, hzero, if_neg (hop _ _ hlo hhi hi)],
      (hturn.code hnext).trans hcode⟩

theorem State.current_of_raised {w w' : State} {ref : Nat} (h : w.raised ref = some w') :
    w'.current = some ref := by
  unfold State.raised at h
  split at h <;> cases h
  rfl

/-! ## Stages of the last block -/

/-- How far a call is with the last block of a try statement, which ends at an index; `armed` says
that no clause has taken the handler of the statement away. -/
inductive Closing (b : TrySpan) (last depth : Nat) (below : List Handler) (armed : Prop)
    (trace : Trace) (w : State) : Prop
  | ahead (htrace : trace = []) (hcounter : w.outline.counter = .at b.exit)
      (harmed : armed → w.Armed b depth below)
  | inside {n : Nat} (hcounter : w.outline.counter = .at n) (hlo : b.exit < n) (hhi : n ≤ last)
      (hbegun : trace.times .finallyBegin = 1) (hended : trace.times .finallyEnd = 0)
      (harmed : armed → w.Armed b depth below)
  | closed (hcounter : w.outline.counter = .at (last + 1 : Nat))
      (hbegun : trace.times .finallyBegin = 1) (hended : trace.times .finallyEnd = 1)
      (hhead : trace.head? = some (.finallyEnd, none))
  /-- An exception has been raised. -/
  | raised (hcurrent : w.current ≠ none)
      (hback : armed → w.outline.counter = .at (b.stop + 1 : Nat) ∧ w.Armed b depth below)
  | left {z : Int} (hcounter : w.outline.counter = .at z) (hz : z < 0)
      (hbegun : trace.times .finallyBegin = 1) (hended : trace.times .finallyEnd = 0)

namespace Closing

variable {b : TrySpan} {last depth n : Nat} {below : List Handler} {armed : Prop} {trace : Trace}
  {w w' : State} {i : Instruction}

theorem of_raised {ref : Nat} (h : w.raised ref = some w') (hdepth : w.frames.length = depth)
    (harmed : armed → w.Armed b depth below) : Closing b last depth below armed trace w' := by
  refine .raised (by simp [State.current_of_raised h]) fun ha => ?_
  have hraised := (harmed ha).raised ref hdepth
  rw [h] at hraised
  cases hraised
  obtain ⟨finallyAt, hhandlers⟩ := harmed ha
  exact ⟨State.counter_jump _ _, finallyAt, (w.handlers_jump _).trans hhandlers⟩

theorem turn (h : Closing b last depth below armed trace w) (hstop : b.stop + 1 < b.exit)
    (hlast : LastBlock w.outline.code b.exit last) (hdepth : w.frames.length = depth)
    (hquiet : armed ∨ w.current = none) (hcounter : w.outline.counter = .at n) (hlo : b.exit ≤ n)
    (hhi : n < last + 1) (hi : w.outline.code[n]? = some i) (heffect : TurnEffect i w.fetched w')
    (hlength : w'.frames.length = depth) :
    Closing b last depth below armed ((i.op, w.current) :: trace) w' := by
  have hsame : ∀ {z : Int}, w.outline.counter = .at z → (n : Int) = z := by
    intro z hz
    rw [hcounter] at hz
    injection hz
  have hcounter' := State.counter_fetched hcounter
  have hdepth' : w.fetched.frames.length = depth := (w.length_jump _).trans hdepth
  have harmed' (h : armed → w.Armed b depth below) : armed → w.fetched.Armed b depth below :=
    fun ha => (h ha).imp fun _ => (w.handlers_jump _).trans
  cases h with
  | ahead htrace hm harmed =>
    obtain rfl : n = b.exit := by
      have := hsame hm
      omega
    have hop := holds_at hlast.begins hi
    have heffect := heffect.effect (by rw [hop]; decide)
    simp only [Effect, hop] at heffect
    subst heffect htrace
    have hnoted : w.fetched.noted.outline = w.fetched.outline := by
      unfold State.noted
      split <;> rfl
    refine .inside (hnoted ▸ hcounter') (Nat.lt_succ_self _) hlast.lt (by simp [hop, Trace.times])
      (by simp [hop, Trace.times]) fun ha => ?_
    obtain ⟨_, hhandlers⟩ := harmed' harmed ha
    exact ⟨some w.fetched.outline.counter, by simp [State.noted, hhandlers]⟩
  | inside hm hlow hhigh hbegun hended harmed =>
    have hpast : b.exit < n := by
      have := hsame hm
      omega
    rcases (Nat.lt_succ_iff.1 hhi).eq_or_lt with rfl | hbefore
    · have hop := holds_at hlast.ends hi
      have heffect := heffect.effect (by rw [hop]; decide)
      simp only [Effect, hop] at heffect
      rcases heffect with ⟨hnone, rfl⟩ | ⟨ref, hraised⟩
      · have hnone : w.current = none := (w.current_jump _).symm.trans hnone
        exact .closed hcounter' (by simp [Trace.times_cons, hop, hbegun])
          (by simp [Trace.times_cons, hop, hended]) (by simp [hop, hnone])
      · exact .of_raised hraised hdepth' (harmed' harmed)
    · have hroams := holds_at (hlast.body n hbefore hpast) hi
      have hne {op : Opcode} (h : op ∈ Opcode.guarding) : i.op ≠ op :=
        fun heq => hroams.1 (heq ▸ h)
      have hbegun' : Trace.times ((i.op, w.current) :: trace) .finallyBegin = 1 := by
        rw [Trace.times_cons, hbegun, if_neg (hne (by decide))]
      have hended' : Trace.times ((i.op, w.current) :: trace) .finallyEnd = 0 := by
        rw [Trace.times_cons, hended, if_neg (hne (by decide))]
      rcases heffect.wanders hroams hcounter' hpast hbefore (hlength.trans hdepth'.symm) with
        ⟨z, hz, hleft⟩ | ⟨hhandlers, m, hm', hlow', hhigh'⟩ | ⟨ref, hraised⟩
      · exact .left hleft hz hbegun' hended'
      · exact .inside hm' hlow' hhigh' hbegun' hended' fun ha =>
          (harmed' harmed ha).imp fun _ => hhandlers.trans
      · exact .of_raised hraised hdepth' (harmed' harmed)
  | closed hm =>
    have := hsame hm
    omega
  | raised hcurrent hback =>
    rcases hquiet with ha | hnone
    · have := hsame (hback ha).1
      omega
    · exact absurd hnone hcurrent
  | left hm hz =>
    have := hsame hm
    omega

end Closing

theorem Along.closing {b : TrySpan} {last : Nat} {below : List Handler} {armed : Prop}
    {trace : Trace} {t u : State} (h : Along b.exit (last + 1) t trace u)
    (hstop : b.stop + 1 < b.exit) (hlast : LastBlock t.outline.code b.exit last)
    (hcounter : t.outline.counter = .at b.exit) (harmed : armed → t.Armed b t.frames.length below)
    (hquiet : armed ∨ ∀ entry ∈ trace, entry.2 = none) :
    Closing b last t.frames.length below armed trace u.rest ∧
      u.outline.code = t.outline.code ∧ u.frames.length = t.frames.length := by
  induction h with
  | refl => exact ⟨.ahead rfl hcounter harmed, rfl, rfl⟩
  | @turn trace u v n i _ hn hlo hhi hnext hturn ih =>
    obtain ⟨hclosing, hcode, hlength⟩ :=
      ih (hquiet.imp_right fun h entry hentry => h entry (List.mem_cons_of_mem _ hentry))
    obtain ⟨heffect, hlength'⟩ := hturn.effect hnext
    refine ⟨?_, (hturn.code hnext).trans hcode, hlength'.trans hlength⟩
    have hi := State.code_of_next hn hnext
    exact hclosing.turn hstop (hcode.symm ▸ hlast) hlength
      (hquiet.imp_right fun h => h _ List.mem_cons_self) hn hlo hhi hi heffect
      (hlength'.trans hlength)

/-! ## Try statements -/

/-- A try statement with a clause, of whatever program, comes to its last block with nothing of it
performed, and without an exception if a clause or the body has come to its end. If there is none
until the block is left, it is performed once, and control goes on behind the statement. If there is
one at its end and no clause has come to its end, control goes back to the first clause. -/
theorem last_block {body finale : List Stmt} {catches : List CatchClause}
    (hflat : FlatTry body catches) (hne : finale ≠ []) (hfinale : ∀ s ∈ finale, s.Tryless)
    {s s₁ : State} {start stop : Nat}
    (hstands : (Stmt.tryBlock body catches (some finale)).StandsIn s.outline.code start stop)
    (hsize : s.outline.code.size ≤ Value.sizeLimit)
    (hstart : s.outline.counter = .at start) (hbegin : Act.step s = .ok () s₁) :
    ∃ b : TrySpan, b.Covers s.outline.code start stop catches (some finale) ∧
      (∃ last, stop = last + 1 ∧ LastBlock s.outline.code b.exit last) ∧
      ∀ trace t, Along (start + 1) b.exit s₁ trace t → t.outline.counter = .at b.exit →
        trace.times .finallyBegin = 0 ∧ (∃ t₁, Act.step t = .ok () t₁) ∧
        ((∃ e, (.catchEnd, e) ∈ trace) ∨ (.tryEnd, none) ∈ trace → t.current = none) ∧
        ∀ more u, Along b.exit stop t more u →
          ((∀ entry ∈ more, entry.2 = none) → u.current = none →
            more = [] ∨ more.times .finallyBegin = 1 ∧
              (more.times .finallyEnd = 1 ∧ u.outline.counter = .at stop ∨
                more.times .finallyEnd = 0 ∧ ∃ z : Int, u.outline.counter = .at z ∧
                  (z < 0 ∨ b.exit < z ∧ z < stop))) ∧
          (trace.Unhandled → ∀ e, more.head? = some (.finallyEnd, some e) →
            u.outline.counter = .at (b.stop + 1 : Nat) ∧ u.current ≠ none ∧
              u.Armed b s.frames.length s.handlers) := by
  obtain ⟨b, hb, hfree⟩ := hflat.lays hstands hsize
  obtain ⟨last, rfl, hlast⟩ := hfree finale rfl hne hfinale
  obtain rfl := hb.starts
  refine ⟨b, hb, ⟨last, rfl, hlast⟩, fun trace t hrun hexit => ?_⟩
  obtain ⟨-, hcode₁, -⟩ := Stage.begin hb.toIn hstart hbegin
  obtain ⟨-, hcode, hlength⟩ := hrun.inside hb.toIn hstart hbegin
  obtain ⟨-, hcaught, hended, hunhandled⟩ := hrun.behind hb.toIn hstart hbegin hexit
  have hlast' : LastBlock t.outline.code b.exit last := hcode.symm ▸ hlast
  refine ⟨?_, ?_, fun h => h.elim (fun h => (hcaught h).2) fun h => (hended h).2,
    fun more u hmore => ⟨fun hquiet hnone => ?_, fun h e hhead => ?_⟩⟩
  · refine (hrun.times_eq_zero fun n i hlo hhi hi => ?_).1
    exact hb.op_ne hlo hhi (hcode₁ ▸ hi)
  · obtain ⟨⟨_, operand⟩, hi, rfl⟩ := hlast'.begins
    rw [Act.step_at hexit hi (hcode.symm ▸ hsize)]
    show ∃ t₁, Act.finallyBegin t.fetched = .ok () t₁
    rw [Act.finallyBegin, bind_of_ok (Act.run_counter _)]
    exact ⟨_, rfl⟩
  · obtain ⟨hclosing, -⟩ : Closing b last t.frames.length [] False more u.rest ∧ _ :=
      hmore.closing hb.stop_lt_exit hlast' hexit nofun (.inr hquiet)
    cases hclosing with
    | ahead htrace => exact .inl htrace
    | inside hcounter hlo hhi hbegun hended =>
      exact .inr ⟨hbegun, .inr ⟨hended, _, hcounter, .inr (by omega)⟩⟩
    | closed hcounter hbegun hended => exact .inr ⟨hbegun, .inl ⟨hended, hcounter⟩⟩
    | raised hcurrent => exact absurd hnone hcurrent
    | left hcounter hz hbegun hended => exact .inr ⟨hbegun, .inr ⟨hended, _, hcounter, .inl hz⟩⟩
  · have harmed : t.Armed b t.frames.length s.handlers := ⟨none, hlength ▸ hunhandled h⟩
    obtain ⟨hclosing, -⟩ := hmore.closing hb.stop_lt_exit hlast' hexit (fun _ => harmed)
      (.inl trivial)
    rw [hlength] at hclosing
    obtain ⟨rest, rfl⟩ : ∃ rest, more = (.finallyEnd, some e) :: rest :=
      ⟨_, (List.eq_cons_of_mem_head? hhead)⟩
    cases hclosing with
    | ahead htrace => cases htrace
    | inside _ _ _ _ hended => simp [Trace.times_cons] at hended
    | closed _ _ _ hlast => cases hlast
    | raised hcurrent hback => exact ⟨(hback trivial).1, hcurrent, (hback trivial).2⟩
    | left _ _ _ hended => simp [Trace.times_cons] at hended

end Wide

/-- What comes last is a statement that leaves nothing. -/
def idling : List Stmt := [.expression (.literal (.int 1))]

theorem tryless_idling : ∀ s ∈ idling, s.Tryless := by
  rintro s (_ | ⟨_, ⟨⟩⟩)
  exact .of nofun nofun

open Wide in
theorem last_block_choosy : ∃ s s₁ t u trace more,
    (Stmt.tryBlock throwing choosy (some idling)).StandsIn s.outline.code 0 14 ∧
    s.outline.counter = .at 0 ∧ Act.step s = .ok () s₁ ∧ Along 1 10 s₁ trace t ∧
    (∃ e, (.throwTop, e) ∈ trace) ∧ t.outline.counter = .at 10 ∧ t.current = none ∧
    Along 10 14 t more u ∧ u.outline.counter = .at 14 ∧ trace.times .finallyBegin = 0 ∧
    more.times .finallyBegin = 1 ∧ more.times .finallyEnd = 1 := by
  have hrun : (attempt (.tryBlock throwing choosy (some idling)) 0).any (fun r =>
      r.1 = 14 ∧ (∀ n < 14, r.2.1.outline.code[n]?.any (·.op = .finallyBegin) → n = 10) ∧
        (turnsAlong 1 10 6 r.2.2.1).any (fun r => (∃ entry ∈ r.1, entry.1 = .throwTop) ∧
          (∃ entry ∈ r.1, entry.1 = .catchEnd) ∧ r.2.place? = some 10 ∧
          (turnsAlong 10 14 4 r.2).any fun r =>
            (∀ entry ∈ r.1, entry.2 = none) ∧ r.2.place? = some 14 ∧ r.2.current = none)) = true := by
    decide +kernel
  simp only [Option.any_eq_true, decide_eq_true_eq] at hrun
  obtain ⟨⟨_, s, s₁, _⟩, hattempt, rfl, hcode, ⟨trace, t⟩, ht, ⟨⟨_, e⟩, he, rfl⟩,
    ⟨⟨_, e'⟩, he', rfl⟩, hplace, ⟨more, u⟩, hu, hquiet, hplace', hnone⟩ := hrun
  obtain ⟨hstands, hstart, hsize, hbegin, -⟩ := attempt_eq_some hattempt
  have ht := Along.of_turns ht
  have hu := Along.of_turns hu
  have hsmall : s.outline.code.size ≤ Value.sizeLimit := hsize.trans_le (by decide)
  obtain ⟨b, hb, ⟨last, hlast, hblock⟩, hall⟩ :=
    last_block flatTry_choosy (List.cons_ne_nil _ _) tryless_idling hstands hsmall hstart hbegin
  have hexit : b.exit = 10 := by
    obtain ⟨i, hi, hop⟩ := hblock.begins
    have hlt := hblock.lt
    exact hcode _ (by omega) (by simp [Option.mem_def.1 hi, hop])
  rw [hexit] at hall
  have hcounter := State.counter_of_place? hplace
  have hcounter' := State.counter_of_place? hplace'
  obtain ⟨hzero, -, hcaught, hmore⟩ := hall trace t ht hcounter
  obtain ⟨honce, -⟩ := hmore more u hu
  obtain rfl | ⟨hbegun, ⟨hended, -⟩ | ⟨-, z, hz, hout⟩⟩ := honce hquiet hnone
  · cases hu
    rw [hcounter] at hcounter'
    injection hcounter' with heq
    omega
  · exact ⟨s, s₁, t, u, trace, more, hstands, hstart, hbegin, ht, ⟨e, he⟩, hcounter,
      hcaught (.inl ⟨e', he'⟩), hu, hcounter', hzero, hbegun, hended⟩
  · rw [hcounter'] at hz
    injection hz with hz
    omega

/-- A try statement without a clause. -/
def Program.unguarded : Program :=
  [.tryBlock [.pass] [] (some [.expression (.call (.name "print") [.literal (.str "f")])]),
   .expression (.call (.name "print") [.literal (.str "after")])]

open Wide in
/-- Neither the last block nor the statement behind it is performed, though nothing is thrown. -/
theorem last_block_left_out : ∃ c s₀ t, Program.unguarded.compile = .ok c ∧
    State.load {} c.bytes = .ok s₀ ∧ Reached s₀ t ∧ t.next? = none ∧ t.output = "" := by
  exact exists_of_runOf 2 (by decide +kernel) (by decide +kernel)

end StackScript
