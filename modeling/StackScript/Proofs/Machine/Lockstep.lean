import Mathlib.Data.List.Nodup
import StackScript.Proofs.Machine.Outline
import StackScript.Proofs.Machine.Shared

/-!
# The two machines in step

A step of the wide machine by a common instruction is one turn of the loop of the fast machine: the
row that the fast machine finds spells the instruction, and what it does with it mirrors it. Codes
are compared as data, so that a code may be a whole number, a truth value or a float; whichever it
is, both sets of instructions give it the same meaning.

* `lockstep_step`: a step by a common instruction is a turn of the loop of the fast machine.
-/

namespace StackScript

/-! ## Codes -/

theorem Number.Binary.den_pos (b : Number.Binary) : 0 < b.ratio.2 := by
  unfold Number.Binary.ratio
  split
  · exact Nat.one_pos
  · rw [Nat.shiftLeft_eq, Nat.one_mul]
    exact Nat.two_pow_pos _

theorem Number.eq_of_compareIntFloat {i j : Int} {x : Float}
    (hi : Number.compareIntFloat i x = some .eq) (hj : Number.compareIntFloat j x = some .eq) :
    i = j := by
  unfold Number.compareIntFloat at hi hj
  split at hi
  · cases hi
  · rename_i hnan
    rw [if_neg hnan] at hj
    split at hi
    · split at hi <;> cases hi
    · rename_i b hb
      rw [hb] at hj
      have hi := Int.compare_eq_eq.1 (Option.some.inj hi)
      have hj := Int.compare_eq_eq.1 (Option.some.inj hj)
      have hden : (b.ratio.2 : Int) ≠ 0 := by
        have := b.den_pos
        omega
      exact Int.eq_of_mul_eq_mul_right hden (hi.trans hj.symm)

theorem Datum.eq_of_same_int {d : Datum} {i j : Int} (hi : d.same (.int i) = true)
    (hj : d.same (.int j) = true) : i = j := by
  cases d with
  | float x =>
    have hi : Number.compareIntFloat i x = some .eq := by
      simpa [same, sameLeaf, integral?] using hi
    have hj : Number.compareIntFloat j x = some .eq := by
      simpa [same, sameLeaf, integral?] using hj
    exact Number.eq_of_compareIntFloat hi hj
  | bool b =>
    have hi : (if b then 1 else 0 : Int) = i := by simpa [same, sameLeaf, integral?] using hi
    have hj : (if b then 1 else 0 : Int) = j := by simpa [same, sameLeaf, integral?] using hj
    exact hi.symm.trans hj
  | int k =>
    have hi : k = i := by simpa [same, sameLeaf, integral?] using hi
    have hj : k = j := by simpa [same, sameLeaf, integral?] using hj
    exact hi.symm.trans hj
  | _ => simp [same, sameLeaf, integral?] at hi

namespace Opcode

theorem find?_of_unique {α : Type} {rows : List α} {p : α → Bool} {row : α} (hmem : row ∈ rows)
    (hp : p row = true) (hunique : ∀ other ∈ rows, p other = true → other = row) :
    rows.find? p = some row := by
  cases h : rows.find? p with
  | none => exact absurd hp (by simpa using List.find?_eq_none.1 h row hmem)
  | some found =>
    rw [hunique found (List.mem_of_find?_eq_some h) (List.find?_some h)]

variable {d : Datum}

/-- A code means what a row with that code says, if no two rows have the same. -/
theorem ofDatum?_of_mem {rows : List (Nat × Opcode × String)} (hcodes : (rows.map (·.1)).Nodup)
    {row : Nat × Opcode × String} (hmem : row ∈ rows)
    (hsame : d.same (.int row.1) = true) : ofDatum? rows d = some row.2.1 := by
  refine Option.map_eq_some_iff.2 ⟨row, find?_of_unique hmem hsame fun other hother heq => ?_, rfl⟩
  have hcode : other.1 = row.1 := Int.ofNat.inj (Datum.eq_of_same_int heq hsame)
  exact List.inj_on_of_nodup_map hcodes hother hmem hcode

/-- A code that the wide set gives to a common instruction means the same in the fast set. -/
theorem ofDatum?_fastSet {op : Opcode} (hop : op ∈ common)
    (h : ofDatum? wideSet d = some op) : ofDatum? fastSet d = some op := by
  obtain ⟨row, hfind, rfl⟩ := Option.map_eq_some_iff.1 h
  have hmem := List.mem_of_find?_eq_some hfind
  have hrows : ∀ row ∈ wideSet, row.2.1 ∈ common → row ∈ fastSet := by decide
  exact ofDatum?_of_mem (by decide) (hrows row hmem hop) (by simpa using List.find?_some hfind)

end Opcode

/-! ## Fetching -/

theorem Counter.pick_congr {α β : Type} {c : Counter} {a : Array α} {b : Array β} {x : α}
    (hsize : b.size = a.size) (h : c.pick a = .ok x) :
    ∃ (k : Nat) (y : β), a[k]? = some x ∧ b[k]? = some y ∧ c.pick b = .ok y := by
  unfold Counter.pick at h ⊢
  cases hindex : c.index? with
  | none => simp [hindex] at h
  | some i =>
    simp only [hindex] at h ⊢
    split at h
    · cases h
    · rename_i hbeyond
      cases hplace : Value.place? a.size i with
      | none => simp [hplace] at h
      | some k =>
        simp only [hplace, Option.bind_some] at h
        cases hk : a[k]? with
        | none => simp [hk] at h
        | some z =>
          simp only [hk] at h
          cases h
          have hlt : k < b.size := hsize ▸ (Array.getElem?_eq_some_iff.1 hk).1
          refine ⟨k, b[k], hk, Array.getElem?_eq_getElem hlt, ?_⟩
          simp [hbeyond, hsize, hplace, Array.getElem?_eq_getElem hlt]

theorem Wide.forall₂_of_mapM {rows : List Datum} {code : List Instruction}
    (h : rows.mapM Wide.instructionOf = .ok code) :
    List.Forall₂ (fun row i => Wide.instructionOf row = .ok i) rows code := by
  induction rows generalizing code with
  | nil =>
    cases h
    exact .nil
  | cons row rows ih =>
    rw [List.mapM_cons] at h
    cases hrow : Wide.instructionOf row with
    | error e => simp [hrow, bind, Except.bind] at h
    | ok i =>
      cases hrows : rows.mapM Wide.instructionOf with
      | error e => simp [hrow, hrows, bind, Except.bind] at h
      | ok rest =>
        simp only [hrow, hrows, bind, Except.bind, pure, Except.pure] at h
        cases h
        exact .cons hrow (ih hrows)

variable {i : Instruction} {f : Fast.State}

theorem Wide.instructionOf_eq_ok {row : Datum} (h : Wide.instructionOf row = .ok i) :
    ∃ code, row.pair = .ok (code, i.operand) ∧ Opcode.ofDatum? Opcode.wideSet code = some i.op := by
  unfold Wide.instructionOf at h
  cases hpair : row.pair with
  | error e => simp [hpair, bind, Except.bind] at h
  | ok pair =>
    obtain ⟨code, operand⟩ := pair
    simp only [hpair, bind, Except.bind] at h
    cases hop : Opcode.ofDatum? Opcode.wideSet code with
    | none => simp [hop] at h
    | some op =>
      simp only [hop] at h
      cases h
      exact ⟨code, rfl, hop⟩

namespace Listing.Spells

variable {listing : Listing} {code : Array Instruction}

theorem rows (h : listing.Spells code) : ∃ rows, listing = .rows rows ∧ rows.size = code.size ∧
    ∀ (k : Nat) row i, rows[k]? = some row → code[k]? = some i →
      Wide.instructionOf row = .ok i := by
  obtain ⟨rows, rfl, hcode⟩ := h
  cases hmap : rows.toList.mapM Wide.instructionOf with
  | error e => simp [Wide.codeOf, Datum.parts, hmap, bind, Except.bind] at hcode
  | ok instructions =>
    simp only [Wide.codeOf, Datum.parts, hmap, bind, Except.bind, pure, Except.pure] at hcode
    cases hcode
    have hall := Wide.forall₂_of_mapM hmap
    refine ⟨rows, rfl, by simpa using hall.length_eq, fun k row i hrow hi => ?_⟩
    obtain ⟨hlt, rfl⟩ := Array.getElem?_eq_some_iff.1 hrow
    obtain ⟨hlt', rfl⟩ := Array.getElem?_eq_some_iff.1 hi
    simpa using hall.get (i := k) (by simpa using hlt) (by simpa using hlt')

theorem size (h : listing.Spells code) : listing.size = code.size := by
  obtain ⟨rows, rfl, hsize, -⟩ := h.rows
  exact hsize

theorem rowAt (h : listing.Spells code) {c : Counter} (hi : c.pick code = .ok i) :
    ∃ d, Fast.Act.rowAt listing c = .ok (d, i.operand) ∧
      Opcode.ofDatum? Opcode.wideSet d = some i.op := by
  obtain ⟨rows, rfl, hsize, hrows⟩ := h.rows
  obtain ⟨k, row, hk, hrow, hpick⟩ := Counter.pick_congr hsize hi
  obtain ⟨d, hpair, hop⟩ := Wide.instructionOf_eq_ok (hrows k row i hrow hk)
  refine ⟨d, ?_, hop⟩
  simp [Fast.Act.rowAt, hpick, hpair, bind, Except.bind]

end Listing.Spells

/-- Where the wide machine fetches an instruction, its counter points to it and is moved on. -/
theorem Wide.Act.fetch_some {w w' : Wide.State} (h : fetch w = .ok (some i) w') :
    w.outline.counter.compare .ge w.outline.code.size = .ok false ∧
      w.outline.counter.pick w.outline.code = .ok i ∧ w' = w.fetched := by
  rw [fetch, bind_of_ok (run_code w), bind_of_ok (run_counter w)] at h
  obtain ⟨past, w₁, hpast, hrest⟩ := bind_eq_ok h
  obtain ⟨hcompare, rfl⟩ := ofExcept_eq_ok hpast
  cases past with
  | true => cases hrest
  | false =>
    obtain ⟨j, w₂, hread, hmove⟩ := bind_eq_ok hrest
    obtain ⟨hpick, rfl⟩ := ofExcept_eq_ok hread
    obtain ⟨_, w₃, hjump, hreturn⟩ := bind_eq_ok hmove
    cases hreturn
    cases hjump
    exact ⟨hcompare, hpick, rfl⟩

/-- The instruction is one of the main program or of the innermost call. -/
theorem Wide.Act.fetch_eq_ok {w w' : Wide.State} (h : fetch w = .ok (some i) w') :
    (w.frames = [] ∧ w.pc.compare .ge w.main.size = .ok false ∧ w.pc.pick w.main = .ok i ∧
      w' = { w with pc := w.pc.next }) ∨
    ∃ frame rest, w.frames = frame :: rest ∧
      frame.pc.compare .ge frame.routine.code.size = .ok false ∧
      frame.pc.pick frame.routine.code = .ok i ∧
      w' = { w with frames := { frame with pc := frame.pc.next } :: rest } := by
  obtain ⟨hcompare, hpick, rfl⟩ := fetch_some h
  cases hframes : w.frames with
  | nil =>
    cases w
    cases hframes
    exact .inl ⟨rfl, hcompare, hpick, rfl⟩
  | cons frame rest =>
    cases w
    cases hframes
    exact .inr ⟨frame, rest, rfl, hcompare, hpick, rfl⟩

namespace Fast.Act

variable {f : State} {row : Datum × Datum}

theorem fetch_main (hframes : f.frames = []) (hcompare : f.pc.compare .ge f.main.size = .ok false)
    (hrow : rowAt f.main f.pc = .ok row) : fetch f = .ok (some row) { f with pc := f.pc.next } := by
  have hsettle : settle f.frames.length f = .ok () f := by
    rw [hframes]
    rfl
  unfold fetch
  rw [bind_of_ok (get_run f), bind_of_ok hsettle, bind_of_ok (get_run f)]
  simp only [hframes]
  rw [bind_of_ok (ofExcept_ok hcompare f)]
  show (ofExcept (rowAt f.main f.pc) >>= _) f = _
  rw [bind_of_ok (ofExcept_ok hrow f), bind_of_ok (jump_main hframes), hframes]
  rfl

theorem fetch_call {frame : Frame Nat} {rest : List (Frame Nat)} {cell : RoutineCell}
    (hframes : f.frames = frame :: rest)
    (hcell : f.store.routines.getD frame.routine default = cell)
    (hcompare : frame.pc.compare .ge cell.code.size = .ok false)
    (hrow : rowAt cell.code frame.pc = .ok row) :
    fetch f = .ok (some row) { f with frames := { frame with pc := frame.pc.next } :: rest } := by
  have hcell : routineAt frame.routine f = .ok cell f := by
    rw [← hcell]
    rfl
  have hsettle : settle f.frames.length f = .ok () f := by
    rw [hframes, List.length_cons, settle, bind_of_ok (get_run f)]
    simp only [hframes]
    rw [bind_of_ok hcell, bind_of_ok (ofExcept_ok hcompare f)]
    rfl
  unfold fetch
  rw [bind_of_ok (get_run f), bind_of_ok hsettle, bind_of_ok (get_run f)]
  simp only [hframes]
  rw [bind_of_ok hcell, bind_of_ok (ofExcept_ok hrow f), bind_of_ok (jump_call hframes)]
  rfl

theorem ask_ok {α : Type} {g : Store → Except Fault α} {a : α} (h : g f.store = .ok a) :
    ask g f = .ok a f := by
  show opOr .value (Op.ofExcept (g f.store)) f = _
  rw [h]
  rfl

theorem list_run (code operand : Datum) {top : String}
    (h : Value.quotedList f.store (f.stack.take 3).reverse = .ok top) :
    ∃ line, list code operand f = .ok () { f with output := f.output ++ line } := by
  have hask : ask (Value.quotedList · (f.stack.take 3).reverse) f = .ok top f := ask_ok h
  obtain ⟨text, htext⟩ : ∃ text, list code operand f = print text f := by
    unfold list
    rw [bind_of_ok (get_run f), bind_of_ok hask]
    cases f.frames with
    | nil =>
      simp only [pure_bind]
      exact ⟨_, rfl⟩
    | cons frame rest =>
      simp only [pure_bind]
      exact ⟨_, bind_of_ok rfl⟩
  have hprint : print text f = .ok () { f with output := f.output ++ text ++ "\n" } := rfl
  refine ⟨text ++ "\n", ?_⟩
  rw [htext, hprint, String.append_assoc]

variable {code : Datum}

/-- Counting and listing a fetched row change the counts and what is shown only. -/
theorem next?_run {operand : Datum} {f' : State} (hfetch : fetch f = .ok (some (code, operand)) f')
    (hshown : f'.debug = true →
      ∃ top, Value.quotedList f'.store (f'.stack.take 3).reverse = .ok top) :
    ∃ stats line, next? f = .ok (some (code, operand))
      { f' with stats := stats, output := f'.output ++ line } ∧ (f'.debug = false → line = "") := by
  obtain ⟨stats, hcount⟩ : ∃ stats, countStep f' = .ok () { f' with stats := stats } := by
    show ∃ stats, EStateM.Result.ok () (if f'.counting then _ else f') = _
    split
    · exact ⟨_, rfl⟩
    · exact ⟨f'.stats, rfl⟩
  refine ⟨stats, ?_⟩
  unfold next?
  rw [bind_of_ok hfetch]
  dsimp only
  rw [bind_of_ok hcount, bind_of_ok (get_run _)]
  cases hdebug : f'.debug with
  | false =>
    refine ⟨"", ?_, fun _ => rfl⟩
    rw [String.append_empty]
    rfl
  | true =>
    obtain ⟨top, htop⟩ := hshown hdebug
    obtain ⟨line, hline⟩ := list_run (f := { f' with stats := stats }) code operand htop
    refine ⟨line, ?_, nofun⟩
    rw [hdebug] at hline
    rw [if_pos rfl, bind_of_ok hline]
    rfl

theorem performRow_eq {op : Opcode}
    (h : Opcode.ofDatum? Opcode.fastSet code = some op) (operand : Datum) :
    performRow code operand = perform op operand := by
  unfold performRow
  rw [h]

end Fast.Act

/-! ## Turns -/

namespace Fast

/-- One turn of the loop: a row is found, listed if the machine lists its steps, and performed. -/
def Turn (f f' : State) : Prop :=
  ∃ code operand f₁, Act.next? f = .ok (some (code, operand)) f₁ ∧
    Act.performRow code operand f₁ = .ok () f'

/-- The turn that stops the machine. -/
def LastTurn (f f' : State) : Prop :=
  ∃ code operand f₁, Act.next? f = .ok (some (code, operand)) f₁ ∧
    Act.performRow code operand f₁ = .error .halted f'

theorem Turn.loop {f f' : State} (h : Turn f f') (fuel : Nat) :
    Fast.loop (fuel + 1) f = Fast.loop fuel f' := by
  obtain ⟨code, operand, f₁, hnext, hperform⟩ := h
  rw [Fast.loop, hnext]
  simp only [hperform]

theorem LastTurn.loop {f f' : State} (h : LastTurn f f') (fuel : Nat) :
    Fast.loop (fuel + 1) f = ⟨.done, fuel, f'⟩ := by
  obtain ⟨code, operand, f₁, hnext, hperform⟩ := h
  rw [Fast.loop, hnext]
  simp only [hperform]
  rfl

end Fast

/-- Where the wide machine fetches an instruction, the fast one finds its row. -/
theorem alike_row {w w₁ : Wide.State} (h : Lockstep w f) (hclassless : f.Classless)
    (hshown : f.debug = true → ∃ top, Value.quotedList f.store (f.stack.take 3).reverse = .ok top)
    (hfetch : Wide.Act.fetch w = .ok (some i) w₁) :
    ∃ code f₁ listing, Fast.Act.next? f = .ok (some (code, i.operand)) f₁ ∧
      Opcode.ofDatum? Opcode.wideSet code = some i.op ∧
      Alike w.output (f.output ++ listing) w₁ f₁ ∧ (f.debug = false → listing = "") ∧
      f₁.debug = f.debug := by
  have hframes := h.frames
  obtain ⟨hwide, hcompare, hpick, rfl⟩ | ⟨frame, rest, hwide, hcompare, hpick, rfl⟩ :=
    Wide.Act.fetch_eq_ok hfetch
  · rw [hwide] at hframes
    have hfast := List.forall₂_nil_left_iff.1 hframes
    obtain ⟨code, hrow, hop⟩ := h.main.rowAt hpick
    rw [← h.pc] at hcompare hrow
    rw [← h.main.size] at hcompare
    obtain ⟨stats, listing, hnext, hsilent⟩ :=
      Fast.Act.next?_run (Fast.Act.fetch_main hfast hcompare hrow) hshown
    refine ⟨code, _, listing, hnext, hop, ?_, hsilent, rfl⟩
    exact ⟨{ h with pc := by rw [← h.pc] }, { hclassless with }, "", by simp, by simp⟩
  · rw [hwide] at hframes
    obtain ⟨frame', rest', hmatch, hrest, hfast⟩ := List.forall₂_cons_left_iff.1 hframes
    obtain ⟨code, hrow, hop⟩ := hmatch.routine.code.rowAt hpick
    rw [← hmatch.pc] at hcompare hrow
    rw [← hmatch.routine.code.size] at hcompare
    obtain ⟨stats, listing, hnext, hsilent⟩ :=
      Fast.Act.next?_run (Fast.Act.fetch_call hfast rfl hcompare hrow) hshown
    have hmoved : FramesMatch f.store.routines { frame with pc := frame.pc.next }
        { frame' with pc := frame'.pc.next } := { hmatch with pc := by rw [hmatch.pc] }
    have hlocals : ∀ moved ∈ { frame' with pc := frame'.pc.next } :: rest',
        ∀ v ∈ moved.locals, v.objectFree = true := by
      intro moved hmem
      rcases List.mem_cons.1 hmem with rfl | hmem
      · exact hclassless.locals frame' (hfast ▸ List.mem_cons_self)
      · exact hclassless.locals moved (hfast ▸ List.mem_cons_of_mem _ hmem)
    refine ⟨code, _, listing, hnext, hop, ?_, hsilent, rfl⟩
    exact ⟨{ h with frames := .cons hmoved hrest }, { hclassless with locals := hlocals }, "",
      by simp, by simp⟩

/-- Where the wide machine performs a common instruction, the loop of the fast machine makes a turn
that shows the same and leads to a related state; and both stop at a halt. -/
theorem lockstep_step {w w₁ : Wide.State} {f : Fast.State} {i : Instruction} (h : Lockstep w f)
    (hclassless : f.Classless)
    (hlist : f.debug = true → ∃ top, Value.quotedList f.store (f.stack.take 3).reverse = .ok top)
    (hfetch : Wide.Act.fetch w = .ok (some i) w₁) (hop : i.op ∈ Opcode.common)
    (hoperand : i.operand.IsCount)
    (hown : ∀ (n : Nat) name, i = ⟨.call, .int n⟩ → w.stack[n]? = some (.str name) →
      name ∉ Fast.ownFunctions) :
    (∀ w', Wide.Act.step w = .ok () w' → ∃ f' listing shown, Fast.Turn f f' ∧
      (∀ fuel, Fast.loop (fuel + 1) f = Fast.loop fuel f') ∧ Lockstep w' f' ∧ f'.Classless ∧
      w'.output = w.output ++ shown ∧ f'.output = f.output ++ listing ++ shown ∧
      (f.debug = false → listing = "")) ∧
    (i.op = .halt → ∃ w' f' listing shown, Wide.Act.step w = .error .halted w' ∧
      Fast.LastTurn f f' ∧ (∀ fuel, Fast.loop (fuel + 1) f = ⟨.done, fuel, f'⟩) ∧ Lockstep w' f' ∧
      f'.Classless ∧ w'.output = w.output ++ shown ∧ f'.output = f.output ++ listing ++ shown ∧
      (f.debug = false → listing = "")) := by
  obtain ⟨code, f₁, listing, hnext, hcode, halike, hsilent, -⟩ := alike_row h hclassless hlist hfetch
  have hrow : Fast.Act.performRow code i.operand = Fast.Act.perform i.op i.operand :=
    Fast.Act.performRow_eq (Opcode.ofDatum?_fastSet hop hcode) i.operand
  have hstep : Wide.Act.step w = Wide.Act.perform i w₁ := by
    unfold Wide.Act.step
    rw [bind_of_ok hfetch]
  have hstack : w₁.stack = w.stack := by
    obtain ⟨-, -, -, rfl⟩ | ⟨_, _, -, -, -, rfl⟩ := Wide.Act.fetch_eq_ok hfetch <;> rfl
  constructor
  · intro w' hrun
    rw [hstep] at hrun
    obtain ⟨f', hperform, halike', -⟩ := alike_perform hop hoperand halike (hstack ▸ hown) hrun
    obtain ⟨shown, hwide, hfast⟩ := halike'.shown
    have hturn : Fast.Turn f f' := ⟨code, i.operand, f₁, hnext, by rw [hrow, hperform]⟩
    exact ⟨f', listing, shown, hturn, hturn.loop, halike'.lockstep, halike'.classless, hwide, hfast,
      hsilent⟩
  · intro hhalt
    have hwide : Wide.Act.perform i w₁ = .error .halted w₁ := by
      obtain ⟨op, operand⟩ := i
      cases hhalt
      rfl
    have hfast : Fast.Act.perform i.op i.operand f₁ = .error .halted f₁ := by
      rw [hhalt]
      rfl
    obtain ⟨shown, hshownWide, hshownFast⟩ := halike.shown
    have hturn : Fast.LastTurn f f₁ := ⟨code, i.operand, f₁, hnext, by rw [hrow, hfast]⟩
    exact ⟨w₁, f₁, listing, shown, by rw [hstep, hwide], hturn, hturn.loop, halike.lockstep,
      halike.classless, hshownWide, hshownFast, hsilent⟩

/-- A routine that calls the value below the top of the stack. -/
def Wide.Routine.caller : Wide.Routine :=
  ⟨"f", .list [.str "x"], .dict [(.str "x", .int 0)], #[⟨.call, .int 1⟩]⟩

/-- A call of the routine, in which it is about to call itself. -/
def Wide.State.calling : Wide.State where
  routines := [("f", .caller)]
  stack := [.int 2, .str "f"]
  frames := [⟨.caller, .at 0, .at 0, #[.int 7]⟩]

/-- The same call on the fast machine, with a local slot more. -/
def Fast.State.calling : Fast.State where
  store :=
    { lists := #[#[]]
      routines := #[⟨"f", .list [.str "x"], .rows #[.list [.int 80, .int 1]],
        .dict [(.str "x", .int 0)], .null⟩] }
  routines := [("f", 0)]
  stack := [.int 2, .str "f"]
  frames := [⟨0, .at 0, .at 0, #[.int 7, .none]⟩]

theorem Lockstep.calling : Lockstep .calling .calling where
  functions := rfl
  store := rfl
  constants := rfl
  globals := rfl
  stack := rfl
  pc := rfl
  main := ⟨#[], rfl, rfl⟩
  routines := by
    intro name
    cases hname : name == "f" with
    | true =>
      simp only [Wide.State.calling, Fast.State.calling, List.lookup_cons, hname]
      exact .some ⟨rfl, rfl, rfl, _, rfl, rfl⟩
    | false =>
      simp only [Wide.State.calling, Fast.State.calling, List.lookup_cons, hname]
      exact .none
  frames := .cons ⟨⟨rfl, rfl, rfl, _, rfl, rfl⟩, rfl, rfl, [.none], rfl⟩ .nil

theorem lockstep_step_calling : Lockstep .calling .calling ∧ ∃ w' f',
    Wide.Act.step .calling = .ok () w' ∧ w'.frames.length = 2 ∧ Fast.Turn .calling f' ∧
    Lockstep w' f' := by
  have hclassless : Fast.State.calling.Classless :=
    ⟨rfl, ⟨by simp [Fast.State.calling], by simp [Fast.State.calling]⟩, rfl,
      by simp [Fast.State.calling], by simp [Fast.State.calling, Value.objectFree],
      by simp [Fast.State.calling, Value.objectFree]⟩
  obtain ⟨w₁, hfetch⟩ : ∃ w₁, Wide.Act.fetch .calling = .ok (some ⟨.call, .int 1⟩) w₁ := ⟨_, rfl⟩
  obtain ⟨w', hstep, hdepth⟩ : ∃ w', Wide.Act.step .calling = .ok () w' ∧ w'.frames.length = 2 :=
    ⟨_, rfl, rfl⟩
  have hown : ∀ (n : Nat) name, (⟨.call, .int 1⟩ : Instruction) = ⟨.call, .int n⟩ →
      Wide.State.calling.stack[n]? = some (.str name) → name ∉ Fast.ownFunctions := by
    intro n name hn hname
    cases hn
    cases hname
    decide
  obtain ⟨f', _, _, hturn, -, hlockstep, -⟩ := (lockstep_step .calling hclassless nofun hfetch
    (by decide) (.inr ⟨1, rfl⟩) hown).1 w' hstep
  exact ⟨.calling, w', f', hstep, hdepth, hturn, hlockstep⟩

end StackScript
