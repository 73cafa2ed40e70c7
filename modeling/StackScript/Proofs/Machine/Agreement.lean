import StackScript.Proofs.Machine.Loaded
import StackScript.Proofs.Machine.Start

/-!
# Programs on both machines

Two machines that are in step stay so as long as the instructions are common to both. The code that
drops a value means nothing to the fast machine, which keeps the value at the bottom of its stack.
Where nothing is below a value that is dropped, no instruction comes upon it any more, and the run ends
alike on both machines. Where something is below it, the two part.

* `finishes_alike`: a program that runs so ends alike on both machines;
* `iterator_mistaken`: a value left on an iterator ends the run of the fast machine with a failure.
-/

namespace StackScript

/-! ## Runs of shared instructions -/

namespace Wide

/-- An instruction that both machines have, and that finds its operands on the stack. It calls no
function that only the fast machine has. The fast machine performs `storeVar` already when it loads a
program; no compiled program has it. -/
structure Shared (w : State) (i : Instruction) : Prop where
  op : i.op ∈ Opcode.common
  store : i.op ≠ .storeVar
  operand : i.operand.IsCount
  operands : needs i ≤ w.stack.length
  callee : ∀ (k : Nat) name, i = ⟨.call, .int k⟩ → w.stack[k]? = some (.str name) →
    name ∉ Fast.ownFunctions

/-- So many steps up to a halt. Each of them performs a shared instruction, or drops the only value on
the stack. -/
inductive Shares : Nat → State → State → Prop
  | halt {w w' : State} {i : Instruction} : w.running → Act.fetch w = .ok (some i) w' →
      i.op = .halt → Shares 1 w w'
  | step {n : Nat} {w w₁ w' last : State} {i : Instruction} : w.running →
      Act.fetch w = .ok (some i) w₁ → Shared w i → Act.step w = .ok () w' → Shares n w' last →
      Shares (n + 1) w last
  | drop {n : Nat} {w w₁ w' last : State} : w.running →
      Act.fetch w = .ok (some ⟨.pop, .null⟩) w₁ → w.stack.length = 1 → Act.step w = .ok () w' →
      Shares n w' last → Shares (n + 1) w last

/-- With at least as many steps allowed as it takes, such a run is done. -/
theorem Shares.loop {n : Nat} {w last : State} (h : Shares n w last) (more : Nat) :
    Wide.loop (n + more) w = ⟨.done, more, last⟩ := by
  induction h with
  | @halt w w' i hrunning hfetch hop =>
    have hpc : w.pc.compare .lt w.main.size = .ok true := hrunning
    have hstep : Act.step w = .error .halted w' := by
      obtain ⟨op, operand⟩ := i
      cases hop
      rw [Act.step, bind_of_ok hfetch]
      rfl
    rw [Nat.add_comm, Wide.loop, hpc]
    simp only [hstep]
  | @step n w w₁ w' last i hrunning _ _ hstep _ ih | @drop n w w₁ w' last hrunning _ _ hstep _ ih =>
    have hpc : w.pc.compare .lt w.main.size = .ok true := hrunning
    rw [Nat.add_right_comm, Wide.loop, hpc]
    simp only [hstep, ih]

end Wide

/-! ## Turns of the fast machine -/

/-- What drops a value on the wide machine checks a type on the fast one. -/
theorem Opcode.ofDatum?_fastSet_pop {d : Datum} (h : ofDatum? wideSet d = some .pop) :
    ofDatum? fastSet d = some .typeCheck := by
  obtain ⟨row, hfind, hrow⟩ := Option.map_eq_some_iff.1 h
  have hrows : ∀ row ∈ wideSet, row.2.1 = .pop →
      ∃ other ∈ fastSet, other.1 = row.1 ∧ other.2.1 = .typeCheck := by decide
  obtain ⟨other, hother, hcode, hcheck⟩ := hrows row (List.mem_of_find?_eq_some hfind) hrow
  rw [← hcheck]
  exact ofDatum?_of_mem (by decide) hother (hcode ▸ by simpa using List.find?_some hfind)

/-- What is done with one row when a program is loaded. -/
theorem Fast.Act.prepare_row {f : Fast.State} {code operand : Datum} {op : Opcode} (fuel : Nat)
    (hlt : f.pc.compare .lt f.main.size = .ok true)
    (hrow : rowAt f.main f.pc = .ok (code, operand))
    (hop : Opcode.ofDatum? Opcode.fastSet code = some op) :
    (op = .loadConst ∨ op = .loadFunc → prepare (fuel + 1) f =
      (constant operand >>= push >>= fun _ => prepare fuel) { f with pc := f.pc.next }) ∧
    (op = .typeCheck → prepare (fuel + 1) f = prepare fuel { f with pc := f.pc.next }) ∧
    (op ∉ startOps → prepare (fuel + 1) f = .ok () { f with pc := f.pc.next }) := by
  rw [prepare, bind_of_ok (get_run f), bind_of_ok (ofExcept_ok hlt f), if_pos rfl,
    bind_of_ok (ofExcept_ok hrow f)]
  dsimp only
  rw [bind_of_ok (show (modify _ : Act Unit) f = .ok () { f with pc := f.pc.next } from rfl), hop]
  refine ⟨?_, ?_, fun h => ?_⟩
  · rintro (rfl | rfl) <;> rw [bind_assoc]
  · rintro rfl
    rfl
  · cases op <;> first | rfl | exact absurd (by decide) h

namespace Alike

section Turns

variable {w w₁ w' : Wide.State} {f : Fast.State} {i : Instruction} {left : List Value}

/-- Where the wide machine fetches an instruction, a silent fast machine finds its row. -/
theorem row (h : Alike "" "" w f) (hsilent : f.debug = false)
    (hfetch : Wide.Act.fetch w = .ok (some i) w₁) :
    ∃ code f₁, Fast.Act.next? f = .ok (some (code, i.operand)) f₁ ∧
      Opcode.ofDatum? Opcode.wideSet code = some i.op ∧ Alike "" "" w₁ f₁ ∧ f₁.debug = false := by
  obtain ⟨code, f₁, listing, hnext, hcode, halike, hlisting, hdebug⟩ :=
    alike_row h.lockstep h.classless (by simp [hsilent]) hfetch
  obtain ⟨text, hwide, hfast⟩ := h.shown
  obtain ⟨more, hwide₁, hfast₁⟩ := halike.shown
  refine ⟨code, f₁, hnext, hcode, ⟨halike.lockstep, halike.classless, text ++ more, ?_, ?_⟩,
    hdebug.trans hsilent⟩
  · rw [hwide₁, hwide, String.append_assoc]
  · rw [hfast₁, hfast, hlisting hsilent, String.append_empty, String.append_assoc]

variable (halike : Alike "" "" { w with stack := w.stack ++ left } f) (hsilent : f.debug = false)

include halike hsilent

/-- A shared instruction does the same above the values that are left. -/
theorem turn (hfetch : Wide.Act.fetch w = .ok (some i) w₁) (hshared : Wide.Shared w i)
    (hstep : Wide.Act.step w = .ok () w') :
    ∃ f', Fast.Turn f f' ∧ Alike "" "" { w' with stack := w'.stack ++ left } f' ∧
      f'.debug = false := by
  rw [Wide.Act.step, bind_of_ok hfetch] at hstep
  obtain ⟨-, segment, -, hstack, -, hother⟩ := Wide.Act.step_slides hfetch hstep
    (List.append_nil w.stack).symm hshared.operands
  rw [List.append_nil] at hstack
  have hfetch' := Wide.Act.fetch_other hfetch (w.stack ++ left)
  have hrun := hother left
  rw [Wide.Act.step, bind_of_ok hfetch', ← hstack] at hrun
  obtain ⟨code, f₁, hnext, hcode, halike₁, hsilent₁⟩ := halike.row hsilent hfetch'
  have hown : ∀ (k : Nat) name, i = ⟨.call, .int k⟩ → (w.stack ++ left)[k]? = some (.str name) →
      name ∉ Fast.ownFunctions := by
    rintro k name rfl hname
    have hk : k + 1 ≤ w.stack.length := hshared.operands
    rw [List.getElem?_append_left hk] at hname
    exact hshared.callee k name rfl hname
  obtain ⟨f', hperform, halike', hdebug⟩ :=
    alike_perform hshared.op hshared.operand halike₁ hown hrun
  refine ⟨f', ⟨code, i.operand, f₁, hnext, ?_⟩, halike', hdebug.trans hsilent₁⟩
  rw [Fast.Act.performRow_eq (Opcode.ofDatum?_fastSet hshared.op hcode), hperform]

/-- The value that the wide machine drops is left on the stack of the fast one. -/
theorem drop (hfetch : Wide.Act.fetch w = .ok (some ⟨.pop, .null⟩) w₁) (hone : w.stack.length = 1)
    (hstep : Wide.Act.step w = .ok () w') :
    ∃ f' left, Fast.Turn f f' ∧ Alike "" "" { w' with stack := w'.stack ++ left } f' ∧
      f'.debug = false := by
  obtain ⟨v, hv⟩ := List.length_eq_one_iff.1 hone
  obtain ⟨code, f₁, hnext, hcode, halike₁, hsilent₁⟩ :=
    halike.row hsilent (Wide.Act.fetch_other hfetch (w.stack ++ left))
  have hw' : w' = { w₁ with stack := [] } := by
    rw [Wide.Act.step, bind_of_ok hfetch] at hstep
    obtain ⟨dropped, w₂, hpop, hreturn⟩ := bind_eq_ok hstep
    cases hreturn
    obtain ⟨rest, hrest, rfl⟩ := Wide.Act.pop_eq_ok hpop
    rw [(Wide.Act.outline_fetch hfetch).2, hv] at hrest
    cases hrest
    rfl
  refine ⟨f₁, v :: left, ⟨code, .null, f₁, hnext, ?_⟩, ?_, hsilent₁⟩
  · rw [Fast.Act.performRow_eq (Opcode.ofDatum?_fastSet_pop hcode)]
    rfl
  · rw [hv] at halike₁
    rw [hw']
    exact halike₁

theorem halt (hfetch : Wide.Act.fetch w = .ok (some i) w₁) (hop : i.op = .halt) :
    ∃ f', Fast.LastTurn f f' ∧ Alike "" "" { w₁ with stack := w₁.stack ++ left } f' := by
  obtain ⟨code, f₁, hnext, hcode, halike₁, -⟩ :=
    halike.row hsilent (Wide.Act.fetch_other hfetch (w.stack ++ left))
  rw [← (Wide.Act.outline_fetch hfetch).2] at halike₁
  refine ⟨f₁, ⟨code, i.operand, f₁, hnext, ?_⟩, halike₁⟩
  rw [hop] at hcode
  rw [Fast.Act.performRow_eq (Opcode.ofDatum?_fastSet (by decide) hcode)]
  rfl

end Turns

/-- Where the wide machine runs to a halt so, the fast one does in as many turns. -/
theorem finishes {n : Nat} {w last : Wide.State} (hrun : Wide.Shares n w last) {f : Fast.State}
    {left : List Value} (halike : Alike "" "" { w with stack := w.stack ++ left } f)
    (hsilent : f.debug = false) :
    ∃ f' left, (∀ more, Fast.loop (n + more) f = ⟨.done, more, f'⟩) ∧
      Alike "" "" { last with stack := last.stack ++ left } f' := by
  induction hrun generalizing f left with
  | halt _ hfetch hop =>
    obtain ⟨f', hturn, halike'⟩ := halike.halt hsilent hfetch hop
    exact ⟨f', left, fun more => Nat.add_comm 1 more ▸ hturn.loop more, halike'⟩
  | step _ hfetch hshared hstep _ ih =>
    obtain ⟨f₁, hturn, halike₁, hsilent₁⟩ := halike.turn hsilent hfetch hshared hstep
    obtain ⟨f', left', hloop, halike'⟩ := ih halike₁ hsilent₁
    exact ⟨f', left', fun more => by rw [Nat.add_right_comm, hturn.loop, hloop], halike'⟩
  | drop _ hfetch hone hstep _ ih =>
    obtain ⟨f₁, left₁, hturn, halike₁, hsilent₁⟩ := halike.drop hsilent hfetch hone hstep
    obtain ⟨f', left', hloop, halike'⟩ := ih halike₁ hsilent₁
    exact ⟨f', left', fun more => by rw [Nat.add_right_comm, hturn.loop, hloop], halike'⟩

/-- The rows that are performed when a program is loaded are the first of the run, up to one that does
more than load a constant. -/
theorem prepare (fuel : Nat) {n : Nat} {w last : Wide.State} (hrun : Wide.Shares n w last)
    {f : Fast.State} {left : List Value} (halike : Alike "" "" { w with stack := w.stack ++ left } f)
    (hsilent : f.debug = false) (hframes : f.frames = []) (stats : Fast.Stats) :
    ∃ pc stack, Fast.Act.prepare fuel { f with stats } = .ok () { f with stats, pc, stack } := by
  induction fuel generalizing n w f left with
  | zero => exact ⟨f.pc, f.stack, rfl⟩
  | succ fuel ih =>
    have hfound {i : Instruction} {w₁ : Wide.State} (hrunning : w.running)
        (hfetch : Wide.Act.fetch w = .ok (some i) w₁) :
        ∃ code, Opcode.ofDatum? Opcode.wideSet code = some i.op ∧
          f.pc.compare .lt f.main.size = .ok true ∧
          Fast.Act.rowAt f.main f.pc = .ok (code, i.operand) ∧
          ∃ stats', Fast.Act.next? f = .ok (some (code, i.operand))
            { f with stats := stats', pc := f.pc.next } := by
      have hwide : w.frames = [] := List.forall₂_nil_right_iff.1 (hframes ▸ halike.lockstep.frames)
      obtain ⟨-, hcompare, hpick, -⟩ | ⟨_, _, hcall, -⟩ := Wide.Act.fetch_eq_ok hfetch
      · have hpc : f.pc = w.pc := halike.lockstep.pc
        have hmain : f.main.Spells w.main := halike.lockstep.main
        obtain ⟨code, hrow, hop⟩ := hmain.rowAt hpick
        rw [← hpc] at hrow hcompare
        rw [← hmain.size] at hcompare
        have hlt : w.pc.compare .lt w.main.size = .ok true := hrunning
        rw [← hpc, ← hmain.size] at hlt
        obtain ⟨stats', hnext⟩ := Fast.Act.next?_main hframes hsilent hcompare hrow f.stats
        exact ⟨code, hop, hlt, hrow, stats', hnext f.globals⟩
      · rw [hwide] at hcall
        cases hcall
    cases hrun with
    | halt hrunning hfetch hop =>
      obtain ⟨code, hcode, hlt, hrow, -⟩ := hfound hrunning hfetch
      rw [hop] at hcode
      have hprepare := Fast.Act.prepare_row (f := { f with stats }) fuel hlt hrow
        (Opcode.ofDatum?_fastSet (by decide) hcode)
      exact ⟨_, _, hprepare.2.2 (by decide)⟩
    | drop hrunning hfetch hone hstep hrest =>
      obtain ⟨code, hcode, hlt, hrow, stats', hnext⟩ := hfound hrunning hfetch
      have hop := Opcode.ofDatum?_fastSet_pop hcode
      obtain ⟨f', left', ⟨_, _, f₁, hnext', hperform⟩, halike', hsilent'⟩ :=
        halike.drop hsilent hfetch hone hstep
      cases hnext.symm.trans hnext'
      rw [Fast.Act.performRow_eq hop] at hperform
      cases hperform
      rw [(Fast.Act.prepare_row (f := { f with stats }) fuel hlt hrow hop).2.1 rfl]
      exact ih hrest halike' hsilent' hframes
    | @step _ _ w₁ w' _ i hrunning hfetch hshared hstep hrest =>
      obtain ⟨code, hcode, hlt, hrow, stats', hnext⟩ := hfound hrunning hfetch
      have hop := Opcode.ofDatum?_fastSet hshared.op hcode
      have hprepare := Fast.Act.prepare_row (f := { f with stats }) fuel hlt hrow hop
      by_cases hload : i.op = .loadConst ∨ i.op = .loadFunc
      · obtain ⟨f', ⟨_, _, f₁, hnext', hperform⟩, halike', hsilent'⟩ :=
          halike.turn hsilent hfetch hshared hstep
        cases hnext.symm.trans hnext'
        have hloads : Fast.Act.perform i.op i.operand = Fast.Act.constant i.operand >>= Fast.Act.push := by
          rcases hload with hload | hload <;> rw [hload] <;> rfl
        rw [Fast.Act.performRow_eq hop, hloads] at hperform
        obtain ⟨v, f₂, hv, hpush⟩ := bind_eq_ok hperform
        obtain ⟨rfl, hputs⟩ := Fast.Act.puts_constant hv
        cases hpush
        rw [hprepare.1 hload, bind_of_ok (hputs stats f.globals rfl)]
        exact ih hrest halike' hsilent' hframes
      · refine ⟨_, _, hprepare.2.2 fun hmem => ?_⟩
        have hcheck : Opcode.typeCheck ∉ Opcode.common := by decide
        simp only [Fast.startOps, List.mem_cons, List.not_mem_nil, or_false] at hmem
        rcases hmem with h | h | h | h
        · exact hload (.inl h)
        · exact hload (.inr h)
        · exact hshared.store h
        · exact hcheck (h ▸ hshared.op)

end Alike

/-! ## Programs -/

section Program

variable {p : Program} {c : Compiled} (hc : p.compile = .ok c)

include hc

/-- What the wide machine loads, the fast one reads, and the two are in step. -/
theorem alike_of_load {w : Wide.State} (hload : Wide.State.load {} c.bytes = .ok w) :
    ∃ f, Fast.State.read {} c.bytes = .ok f ∧ Alike "" "" w f ∧ f.debug = false ∧ f.frames = [] ∧
      f.stack = [] ∧ w.stack = [] ∧ f.pc = .at 0 ∧ w.pc = .at 0 := by
  rw [load_of_read hc] at hload
  cases hread : Datum.read (Datum.write (.list c.unit.constants)) with
  | error e =>
    rw [hread] at hload
    cases hload
  | ok constants =>
    rw [hread] at hload
    cases hload
    obtain ⟨halike, hsilent⟩ := alike_loaded hc constants
    obtain ⟨hframes, hstack, hpc, -⟩ := Wide.State.loaded_start c.unit constants
    have hmatch := halike.lockstep.frames
    rw [hframes] at hmatch
    refine ⟨_, ?_, halike, hsilent, List.forall₂_nil_left_iff.1 hmatch,
      halike.lockstep.stack.trans hstack, hstack, halike.lockstep.pc.trans hpc, hpc⟩
    rw [fast_of_read hc, hread]
    rfl

/-- Where the wide machine loads a program and runs it to a halt by shared instructions, dropping
values only where nothing is below them, the fast machine loads and runs it too, in as many steps.
Both show the same, and they end with the same globals and the same lists and dictionaries. -/
theorem finishes_alike {n : Nat} {w₀ w : Wide.State}
    (hload : Wide.State.load {} c.bytes = .ok w₀) (hrun : Wide.Shares n w₀ w) :
    ∃ f₀ f, Fast.State.load {} c.bytes = .ok f₀ ∧
      (∀ more, Wide.run (n + more) w₀ = ⟨.done, more, w⟩ ∧
        Fast.run (n + more) f₀ = ⟨.done, more, f⟩) ∧
      f.output = w.output ∧ f.globals = w.globals ∧
      f.store = w.store.withRoutines f.store.routines := by
  obtain ⟨f₀, hread, halike, hsilent, hframes, hstack, hempty, hpc, hpcWide⟩ := alike_of_load hc hload
  have habove : Alike "" "" { w₀ with stack := w₀.stack ++ [] } f₀ := by
    rw [List.append_nil]
    exact halike
  obtain ⟨f, left, hloop, hlast⟩ := habove.finishes hrun hsilent
  obtain ⟨pc, stack, hprepare⟩ := habove.prepare f₀.main.size hrun hsilent hframes f₀.stats
  have hstart : ({ f₀ with pc := .at 0 } : Fast.State) = f₀ := by rw [← hpc]
  have hrewound : ({ f₀ with pc, stack } : Fast.State).rewound = f₀ := by
    rw [Fast.State.rewound, ← hpc, ← hstack]
  have hloaded : Fast.Act.start f₀ = .ok () f₀ := by
    have hrewind : (modify Fast.State.rewound : Fast.Act Unit) { f₀ with pc, stack } = .ok () f₀ :=
      congrArg (EStateM.Result.ok ()) hrewound
    rw [Fast.Act.start_silent hsilent, hstart, bind_of_ok hprepare, bind_of_ok hrewind,
      Fast.Act.listEmpty_silent hsilent]
  obtain ⟨text, hwide, hfast⟩ := hlast.shown
  refine ⟨f₀, f, ?_, fun more => ⟨?_, ?_⟩, hfast.trans hwide.symm, hlast.lockstep.globals,
    hlast.lockstep.store⟩
  · simp only [Fast.State.load, hread, Except.mapError, bind, Except.bind, hloaded]
    rfl
  · rw [Wide.run, ← hpcWide]
    exact hrun.loop more
  · rw [Fast.run, ← hpc]
    exact hloop more

end Program

namespace Wide

/-- Whether an instruction is shared. -/
def isShared (w : State) (i : Instruction) : Bool :=
  i.op ∈ Opcode.common && i.op ≠ .storeVar && needs i ≤ w.stack.length &&
    (match i.operand with
    | .null | .int (.ofNat _) => true
    | _ => false) &&
    match w.stack[i.count]? with
    | some (.str name) => name ∉ Fast.ownFunctions
    | _ => true

theorem Shared.of_isShared {w : State} {i : Instruction} (h : isShared w i = true) : Shared w i := by
  simp only [isShared, Bool.and_eq_true, decide_eq_true_eq] at h
  obtain ⟨⟨⟨⟨hop, hstore⟩, hneeds⟩, hoperand⟩, hcallee⟩ := h
  refine ⟨hop, hstore, ?_, hneeds, ?_⟩
  · split at hoperand
    · exact .inl ‹_›
    · exact .inr ⟨_, ‹_›⟩
    · cases hoperand
  · rintro k name rfl hname
    have hcount : (⟨.call, .int k⟩ : Instruction).count = k := rfl
    rw [hcount, hname] at hcallee
    simpa using hcallee

/-- The state in which a run by shared instructions halts after so many steps. -/
def shares? : Nat → State → Option State
  | 0, _ => none
  | n + 1, w =>
    match w.pc.compare .lt w.main.size, Act.fetch w, Act.step w with
    | .ok true, .ok (some ⟨.halt, _⟩) t, _ => if n = 0 then some t else none
    | .ok true, .ok (some ⟨.pop, .null⟩) _, .ok _ w' =>
      if w.stack.length = 1 then shares? n w' else none
    | .ok true, .ok (some i) _, .ok _ w' => if isShared w i then shares? n w' else none
    | _, _, _ => none

theorem Shares.of_shares? {n : Nat} {w last : State} (h : shares? n w = some last) :
    Shares n w last := by
  fun_induction shares? n w with
  | case2 w _ t hfetch hrunning =>
    cases h
    exact .halt hrunning hfetch rfl
  | case4 n w _ _ w' hstep hfetch hrunning hone ih => exact .drop hrunning hfetch hone hstep (ih h)
  | case6 n w i _ _ w' _ _ hstep hfetch hrunning hshared ih =>
    exact .step hrunning hfetch (.of_isShared hshared) hstep (ih h)
  | case1 | case3 | case5 | case7 | case8 => cases h

end Wide

/-- A function that drops a value, called as long as a condition holds. -/
def Program.telling : Program :=
  [.function "tell" ["n"]
    [.expression (.call (.name "print") [.name "n"]),
     .returnValue (some (.binary (.name "n") "+" (.name "n")))],
   .declare "x" (some (.literal (.int 1))) none,
   .whileLoop (.binary (.name "x") "<" (.literal (.int 4)))
    [.assign "x" (.call (.name "tell") [.name "x"])],
   .expression (.call (.name "print") [.name "x"])]

open Wide in
theorem finishes_alike_telling : ∃ c w₀ w f₀ f, Program.telling.compile = .ok c ∧
    State.load {} c.bytes = .ok w₀ ∧ Shares 47 w₀ w ∧ w.output = "1\n2\n4\n" ∧
    Fast.State.load {} c.bytes = .ok f₀ ∧ (∀ more, Fast.run (47 + more) f₀ = ⟨.done, more, f⟩) ∧
    f.output = "1\n2\n4\n" ∧ f.globals = w.globals := by
  have hrun : ((runOf Program.telling 0).bind (shares? 47)).map State.output = some "1\n2\n4\n" := by
    decide +kernel
  obtain ⟨w, hw, hshown⟩ := Option.map_eq_some_iff.1 hrun
  obtain ⟨w₀, hstart, hshares⟩ := Option.bind_eq_some_iff.1 hw
  obtain ⟨c, _, hc, hload, ⟨⟩⟩ := steps_of_runOf (by decide +kernel) hstart
  have hshares := Shares.of_shares? hshares
  obtain ⟨f₀, f, hload', hruns, houtput, hglobals, -⟩ := finishes_alike hc hload hshares
  exact ⟨c, w₀, w, f₀, f, hc, hload, hshares, hshown, hload', fun more => (hruns more).2,
    houtput.trans hshown, hglobals⟩

/-! ## Runs that part -/

/-- The items of a list, shown one by one. -/
def Program.showing : Program :=
  [.forLoop "x" (.list [.literal (.int 1), .literal (.int 2)])
    [.expression (.call (.name "print") [.name "x"])]]

/-- In a counted loop the value that is not dropped stands on the iterator, and the fast machine takes
it for the iterator when the next item is due: its run fails where that of the wide machine goes
on. -/
theorem iterator_mistaken : ∃ c w₀ f₀, Program.showing.compile = .ok c ∧
    Wide.State.load {} c.bytes = .ok w₀ ∧ Fast.State.load {} c.bytes = .ok f₀ ∧
    (Wide.run 20 w₀).state.output = "1\n2\n" ∧
    (Fast.run 20 f₀).state.output =
      "1\nRuntime error: Invalid iterator state\n\nCall stack:\n  (empty)\n" := by
  have hwide : (Wide.runOf Program.showing 0).map (Wide.run 20 · |>.state.output) =
      some "1\n2\n" := by
    decide +kernel
  have hfast : (Fast.loadedOf Program.showing).map (Fast.run 20 · |>.state.output) =
      some "1\nRuntime error: Invalid iterator state\n\nCall stack:\n  (empty)\n" := by
    decide +kernel
  obtain ⟨w₀, hstart, hw⟩ := Option.map_eq_some_iff.1 hwide
  obtain ⟨f₀, hloaded, hf⟩ := Option.map_eq_some_iff.1 hfast
  obtain ⟨c, _, hc, hload, ⟨⟩⟩ := Wide.steps_of_runOf (by decide +kernel) hstart
  exact ⟨c, w₀, f₀, hc, hload, Fast.loadedOf_eq_some hc hloaded, hw, hf⟩

end StackScript
