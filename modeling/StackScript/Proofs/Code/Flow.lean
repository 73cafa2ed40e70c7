import Mathlib.Logic.Relation
import StackScript.Proofs.Computation
import StackScript.Proofs.Code.Definitions
import StackScript.Proofs.Code.TryBlock

/-!
# Where control goes in code

From each instruction control goes on at the next one, at the target of a jump, or behind the catch
blocks that a machine passes. Only the code is looked at, so that both ways of a branch count, and
nothing is raised. A routine gets a return at its end unless its last instruction is one already.

* `overruns_iff`: which routines of a program control can run past.
-/

namespace StackScript

open Relation (ReflTransGen)

/-! ## Edges -/

/-- The index that a counter stands at in code of a size; counters below zero count from the end. -/
def Counter.node? (size : Nat) : Counter → Option Nat
  | .at i => some (if i < 0 then i + size else i).toNat
  | .stray _ => none

/-- The counters that can come after an instruction at an index which raises nothing. -/
def Instruction.exits (code : Array Instruction) (n : Nat) (i : Instruction) : List Counter :=
  let after : Counter := .at (n + 1 : Nat)
  match i.op with
  | .jump => [.ofOperand i.operand]
  | .jumpIfFalse | .jumpIfTrue | .forIter => [after, .ofOperand i.operand]
  | .tryEnd => [Wide.Act.skipCatches code (Wide.Act.remaining code after) 0 after]
  | .catchBegin => [Wide.Act.skipCatch code (Wide.Act.remaining code after) after]
  | .ret | .halt | .throwTop | .reraise => []
  | _ => [after]

/-- Control can go from an index to another. -/
def Edge (code : Array Instruction) (n m : Nat) : Prop :=
  ∃ i ∈ code[n]?, ∃ c ∈ i.exits code n, c.node? code.size = some m

/-- Control that starts with the first instruction can come to an index. -/
def Comes (code : Array Instruction) (n : Nat) : Prop := ReflTransGen (Edge code) 0 n

/-- Control can run past the last instruction of a routine. -/
def Routine.Overruns (r : Routine) : Prop := ∃ n, Comes r.code n ∧ Edge r.code n r.code.size

@[simp] theorem Counter.node?_at (size n : Nat) : (Counter.at n).node? size = some n := by
  simp [Counter.node?, show ¬ (n : Int) < 0 by omega]

section Edges

variable {code : Array Instruction} {n m target : Nat} {i : Instruction}

theorem edge_iff (h : code[n]? = some i) :
    Edge code n m ↔ ∃ c ∈ i.exits code n, c.node? code.size = some m := by
  simp [Edge, h]

theorem edge_jump (h : code[n]? = some (.to .jump target)) : Edge code n m ↔ m = target := by
  have hexits : (Instruction.to .jump target).exits code n = [.at target] := rfl
  rw [edge_iff h, hexits]
  simp [eq_comm]

theorem edge_branch {op : Opcode} (hop : op ∈ [Opcode.jumpIfFalse, .jumpIfTrue, .forIter])
    (h : code[n]? = some (.to op target)) : Edge code n m ↔ m = n + 1 ∨ m = target := by
  have hexits : (Instruction.to op target).exits code n = [.at (n + 1 : Nat), .at target] := by
    simp only [List.mem_cons, List.not_mem_nil, or_false] at hop
    rcases hop with rfl | rfl | rfl <;> rfl
  rw [edge_iff h, hexits]
  simp only [List.mem_cons, List.not_mem_nil, or_false, exists_eq_or_imp, exists_eq_left,
    Counter.node?_at, Option.some.injEq]
  exact or_congr eq_comm eq_comm

theorem not_edge_ret (h : code[n]? = some i) (hop : i.op = .ret) : ¬ Edge code n m := by
  have hexits : i.exits code n = [] := by simp [Instruction.exits, hop]
  simp [edge_iff h, hexits]

/-- Control goes on behind the instruction. -/
def Instruction.completes (i : Instruction) : Bool := i.op ∉ [.jump, .ret, .halt, .throwTop]

/-- From an instruction of no try block control goes on behind it, or at the last instruction. -/
theorem edge_free (h : code[n]? = some i) (hfree : i.Free) (hedge : Edge code n m) :
    i.completes = true ∧ m = n + 1 ∨ m + 1 = code.size := by
  obtain ⟨hlt, -⟩ := Array.getElem?_eq_some_iff.1 h
  obtain ⟨c, hc, hm⟩ := (edge_iff h).1 hedge
  have hout (hjump : i.op ∈ Shape.jumps) (hc : c = .ofOperand i.operand) : m + 1 = code.size := by
    rw [hc, hfree.2 hjump, Counter.ofOperand_int, Counter.node?, if_pos (by decide)] at hm
    have := Option.some.inj hm
    omega
  have hnext (hc : c = .at (n + 1 : Nat)) : m = n + 1 := by
    rw [hc, Counter.node?_at] at hm
    exact (Option.some.inj hm).symm
  have hguarding := hfree.1
  obtain ⟨op, operand⟩ := i
  cases op with
  | jump => exact .inr (hout (by simp [Shape.jumps]) (List.mem_singleton.1 hc))
  | jumpIfFalse | jumpIfTrue | forIter =>
    rcases List.mem_cons.1 hc with hc | hc
    · exact .inl ⟨rfl, hnext hc⟩
    · exact .inr (hout (by simp [Shape.jumps]) (List.mem_singleton.1 hc))
  | tryEnd | catchBegin | reraise => exact absurd (by simp [Opcode.guarding]) hguarding
  | ret | halt | throwTop => cases hc
  | _ => exact .inl ⟨rfl, hnext (List.mem_singleton.1 hc)⟩

theorem edge_next (h : code[n]? = some i) (hfree : i.Free) (hi : i.completes = true) :
    Edge code n (n + 1) := by
  refine (edge_iff h).2 ⟨.at (n + 1 : Nat), ?_, Counter.node?_at _ _⟩
  have hguarding := hfree.1
  obtain ⟨op, operand⟩ := i
  cases op with
  | jump | ret | halt | throwTop => cases hi
  | tryEnd | catchBegin | reraise => exact absurd (by simp [Opcode.guarding]) hguarding
  | _ => exact List.mem_cons_self

end Edges

/-! ## Code whose jumps follow from its form -/

namespace Shape

/-- Control that enters the code can come to its end. -/
def completes : Shape → Bool
  | nothing | guarded _ | forLoop _ => true
  | one i => i.completes
  | seq a b => a.completes && b.completes
  | choice a b => a.completes || b.completes
  | whileLoop a _ | repeatLoop a => a.completes

/-- Control that enters the code at an index can come to another one in it. -/
def Live : Shape → Nat → Nat → Prop
  | nothing, _, _ => False
  | one _, start, n => n = start
  | seq a b, start, n => a.Live start n ∨ a.completes = true ∧ b.Live (start + a.size) n
  | guarded a, start, n => n = start ∨ a.Live (start + 1) n
  | choice a b, start, n => n = start ∨ a.Live (start + 1) n ∨
      a.completes = true ∧ n = start + 1 + a.size ∨ b.Live (start + a.size + 2) n
  | whileLoop a b, start, n => a.Live start n ∨ a.completes = true ∧ (n = start + a.size ∨
      b.Live (start + a.size + 1) n ∨ b.completes = true ∧ n = start + a.size + 1 + b.size)
  | repeatLoop a, start, n => a.Live start n ∨ a.completes = true ∧ n = start + a.size
  | forLoop a, start, n => n = start ∨ a.Live (start + 1) n ∨
      a.completes = true ∧ n = start + 1 + a.size

/-- Control that enters the code at an index can come to another one in it, or to its end. -/
def At (s : Shape) (start n : Nat) : Prop :=
  s.Live start n ∨ s.completes = true ∧ n = start + s.size

theorem Live.lt {s : Shape} {start n : Nat} (h : s.Live start n) : n < start + s.size := by
  induction s generalizing start with
  | nothing => exact h.elim
  | one i =>
    obtain rfl : n = start := h
    exact Nat.lt_succ_self n
  | seq a b iha ihb =>
    simp only [size]
    rcases h with h | ⟨-, h⟩
    · have := iha h
      omega
    · have := ihb h
      omega
  | guarded a ih =>
    simp only [size]
    rcases h with h | h
    · omega
    · have := ih h
      omega
  | choice a b iha ihb =>
    simp only [size]
    rcases h with h | h | ⟨-, h⟩ | h
    · omega
    · have := iha h
      omega
    · omega
    · have := ihb h
      omega
  | whileLoop a b iha ihb =>
    simp only [size]
    rcases h with h | ⟨-, h | h | ⟨-, h⟩⟩
    · have := iha h
      omega
    · omega
    · have := ihb h
      omega
    · omega
  | repeatLoop a ih =>
    simp only [size]
    rcases h with h | ⟨-, h⟩
    · have := ih h
      omega
    · omega
  | forLoop a ih =>
    simp only [size]
    rcases h with h | h | ⟨-, h⟩
    · omega
    · have := ih h
      omega
    · omega

variable {a b s : Shape} {start n m : Nat}

/-- Where the first code is left at its end, the second one is entered. -/
theorem At.andThen (h : a.At start n) (hb : b.At (start + a.size) (start + a.size)) :
    (a.seq b).At start n := by
  rcases h with h | ⟨hcompletes, rfl⟩
  · exact .inl (.inl h)
  · rcases hb with hb | ⟨hb, hsize⟩
    · exact .inl (.inr ⟨hcompletes, hb⟩)
    · exact .inr ⟨by simp [completes, hcompletes, hb], by simp only [size]; omega⟩

theorem at_start (s : Shape) (start : Nat) : s.At start start := by
  induction s generalizing start with
  | nothing => exact .inr ⟨rfl, rfl⟩
  | one | guarded | choice | forLoop => exact .inl (by simp [Live])
  | seq a b iha ihb => exact (iha start).andThen (ihb _)
  | whileLoop a b iha =>
    rcases iha start with h | ⟨hcompletes, h⟩
    · exact .inl (.inl h)
    · exact .inl (.inr ⟨hcompletes, .inl h⟩)
  | repeatLoop a ih =>
    rcases ih start with h | h
    · exact .inl (.inl h)
    · exact .inl (.inr h)

/-- Control that is in the code stays in it until it goes on at its end, or at the last instruction of
all. -/
theorem at_of_edge {code : Array Instruction} (hfree : s.All Instruction.Free)
    (hcode : Placed code start s) (hn : s.Live start n) (hm : Edge code n m) :
    s.At start m ∨ m + 1 = code.size := by
  induction s generalizing start with
  | nothing => exact hn.elim
  | one i =>
    obtain rfl : n = start := hn
    exact (edge_free hcode.one hfree hm).imp_left .inr
  | seq a b iha ihb =>
    rcases hn with hn | ⟨hcompletes, hn⟩
    · exact (iha hfree.1 hcode.first hn).imp_left fun h => h.andThen (b.at_start _)
    · refine (ihb hfree.2 hcode.rest hn).imp_left (Or.imp (fun h => .inr ⟨hcompletes, h⟩) ?_)
      rintro ⟨hb, rfl⟩
      exact ⟨by simp [completes, hcompletes, hb], Nat.add_assoc _ _ _⟩
  | guarded a ih =>
    have hin (h : a.At (start + 1) m) : (guarded a).At start m :=
      h.imp .inr fun h => ⟨rfl, by simp only [size]; omega⟩
    rcases hn with rfl | hn
    · rcases (edge_branch (by decide) hcode.guard).1 hm with rfl | rfl
      · exact .inl (hin (a.at_start _))
      · exact .inl (.inr ⟨rfl, by simp only [size]; omega⟩)
    · exact (ih hfree hcode.guardedBody hn).imp_left hin
  | choice a b iha ihb =>
    obtain ⟨hbranch, ha, hjump, hb⟩ := hcode.choice
    have hina (h : a.At (start + 1) m) : (choice a b).At start m :=
      .inl (.inr (h.imp id fun h => .inl h))
    have hinb (h : b.At (start + a.size + 2) m) : (choice a b).At start m :=
      h.imp (fun h => .inr (.inr (.inr h)))
        fun h => ⟨by simp [completes, h.1], by simp only [size]; omega⟩
    rcases hn with rfl | hn | ⟨hcompletes, rfl⟩ | hn
    · rcases (edge_branch (by decide) hbranch).1 hm with rfl | rfl
      · exact .inl (hina (a.at_start _))
      · exact .inl (hinb (b.at_start _))
    · exact (iha hfree.1 ha hn).imp_left hina
    · obtain rfl := (edge_jump hjump).1 hm
      exact .inl (.inr ⟨by simp [completes, hcompletes], by simp only [size]; omega⟩)
    · exact (ihb hfree.2 hb hn).imp_left hinb
  | whileLoop a b iha ihb =>
    obtain ⟨ha, hbranch, hb, hjump⟩ := hcode.whileLoop
    have hina (h : a.At start m) : (whileLoop a b).At start m :=
      .inl (h.imp id fun h => ⟨h.1, .inl h.2⟩)
    rcases hn with hn | ⟨hcompletes, hn⟩
    · exact (iha hfree.1 ha hn).imp_left hina
    have hinb (h : b.At (start + a.size + 1) m) : (whileLoop a b).At start m :=
      .inl (.inr ⟨hcompletes, .inr h⟩)
    rcases hn with rfl | hn | ⟨-, rfl⟩
    · rcases (edge_branch (by decide) hbranch).1 hm with rfl | rfl
      · exact .inl (hinb (b.at_start _))
      · exact .inl (.inr ⟨hcompletes, by simp only [size]; omega⟩)
    · exact (ihb hfree.2 hb hn).imp_left hinb
    · obtain rfl := (edge_jump hjump).1 hm
      exact .inl (hina (a.at_start _))
  | repeatLoop a ih =>
    obtain ⟨ha, hbranch⟩ := hcode.repeatLoop
    have hin (h : a.At start m) : (repeatLoop a).At start m := .inl h
    rcases hn with hn | ⟨hcompletes, rfl⟩
    · exact (ih hfree ha hn).imp_left hin
    · rcases (edge_branch (by decide) hbranch).1 hm with rfl | rfl
      · exact .inl (.inr ⟨hcompletes, by simp only [size]; omega⟩)
      · exact .inl (hin (a.at_start _))
  | forLoop a ih =>
    obtain ⟨hbranch, ha, hjump⟩ := hcode.forLoop
    have hin (h : a.At (start + 1) m) : (forLoop a).At start m := .inl (.inr h)
    rcases hn with rfl | hn | ⟨-, rfl⟩
    · rcases (edge_branch (by decide) hbranch).1 hm with rfl | rfl
      · exact .inl (hin (a.at_start _))
      · exact .inl (.inr ⟨rfl, by simp only [size]; omega⟩)
    · exact (ih hfree ha hn).imp_left hin
    · obtain rfl := (edge_jump hjump).1 hm
      exact .inl (.inl (.inl rfl))

/-- Code that can be passed is passed. -/
theorem comes_of_completes {code : Array Instruction} (hfree : s.All Instruction.Free)
    (hcode : Placed code start s) (h : s.completes = true) :
    ReflTransGen (Edge code) start (start + s.size) := by
  induction s generalizing start with
  | nothing => exact .refl
  | one i => exact .single (edge_next hcode.one hfree h)
  | seq a b iha ihb =>
    obtain ⟨ha, hb⟩ := Bool.and_eq_true_iff.1 h
    have hpath := (iha hfree.1 hcode.first ha).trans (ihb hfree.2 hcode.rest hb)
    rwa [Nat.add_assoc] at hpath
  | guarded a =>
    refine .single ((edge_branch (by decide) hcode.guard).2 (.inr ?_))
    simp only [size]
    omega
  | choice a b iha ihb =>
    obtain ⟨hbranch, ha, hjump, hb⟩ := hcode.choice
    rcases Bool.or_eq_true_iff.1 h with h | h
    · refine .head ((edge_branch (by decide) hbranch).2 (.inl rfl)) ((iha hfree.1 ha h).tail ?_)
      refine (edge_jump hjump).2 ?_
      simp only [size]
      omega
    · have hpath := ihb hfree.2 hb h
      rw [show start + a.size + 2 + b.size = start + (choice a b).size by simp only [size]; omega]
        at hpath
      exact .head ((edge_branch (by decide) hbranch).2 (.inr rfl)) hpath
  | whileLoop a b iha =>
    obtain ⟨ha, hbranch, -, -⟩ := hcode.whileLoop
    refine (iha hfree.1 ha h).tail ((edge_branch (by decide) hbranch).2 (.inr ?_))
    simp only [size]
    omega
  | repeatLoop a ih =>
    obtain ⟨ha, hbranch⟩ := hcode.repeatLoop
    exact (ih hfree ha h).tail ((edge_branch (by decide) hbranch).2 (.inl rfl))
  | forLoop a =>
    obtain ⟨hbranch, -, -⟩ := hcode.forLoop
    refine .single ((edge_branch (by decide) hbranch).2 (.inr ?_))
    simp only [size]
    omega

end Shape

/-! ## Routines -/

/-- What holds of the first index and goes along with edges holds wherever control comes. -/
theorem Comes.induct {code : Array Instruction} {P : Nat → Prop} (hstart : P 0)
    (hedge : ∀ n m, P n → Edge code n m → P m) {n : Nat} (h : Comes code n) : P n := by
  induction h with
  | refl => exact hstart
  | tail _ hm ih => exact hedge _ _ ih hm

section Routines

variable {r : Routine} {s : Shape} (hfree : s.All Instruction.Free) (hcode : Placed r.code 0 s)

include hfree hcode

/-- If a value is loaded and returned behind the code of the body, control does not run past it. -/
theorem not_overruns_of_appended (hsize : r.code.size = s.size + 2) {k : Nat}
    (hbehind : Stretch r.code s.size [.to .loadConst k, ⟨.ret, .null⟩]) : ¬ r.Overruns := by
  have hload : Instruction.Free (.to .loadConst k) := by simp [Instruction.Free, Instruction.to,
    Opcode.guarding, Shape.jumps]
  have hplace : ∀ n m, s.At 0 n ∨ n = s.size + 1 → Edge r.code n m → s.At 0 m ∨ m = s.size + 1 := by
    rintro n m ((hn | ⟨-, rfl⟩) | rfl) hm
    · exact (s.at_of_edge hfree hcode hn hm).imp_right fun h => by omega
    · rw [Nat.zero_add] at hm
      rcases edge_free hbehind.head hload hm with ⟨-, rfl⟩ | h
      · exact .inr rfl
      · exact .inr (by omega)
    · exact absurd hm (not_edge_ret hbehind.tail.head rfl)
  rintro ⟨n, hcomes, hpast⟩
  rcases hplace n _ (hcomes.induct (.inl (s.at_start 0)) hplace) hpast with (h | ⟨-, h⟩) | h
  · have := h.lt
    omega
  · omega
  · omega

/-- If the last instruction of the body is a return that ends the routine, control runs past it exactly
if it can pass the whole body. -/
theorem overruns_iff_completes (hsize : s.size = r.code.size) {i : Instruction}
    (hlast : i ∈ r.code.back?) (hop : i.op = .ret) : r.Overruns ↔ s.completes = true := by
  obtain ⟨hpos, hlast⟩ : 0 < r.code.size ∧ r.code[r.code.size - 1]? = some i := by
    rw [Array.back?_eq_getElem?] at hlast
    exact ⟨by have := (Array.getElem?_eq_some_iff.1 hlast).1; omega, hlast⟩
  have hplace : ∀ n m, s.At 0 n ∨ n + 1 = r.code.size → Edge r.code n m →
      s.At 0 m ∨ m + 1 = r.code.size := by
    rintro n m ((hn | ⟨-, rfl⟩) | hn) hm
    · exact s.at_of_edge hfree hcode hn hm
    · rw [Nat.zero_add, hsize] at hm
      simp [Edge] at hm
    · rw [show r.code.size - 1 = n by omega] at hlast
      exact absurd hm (not_edge_ret hlast hop)
  constructor
  · rintro ⟨n, hcomes, hpast⟩
    rcases hplace n _ (hcomes.induct (.inl (s.at_start 0)) hplace) hpast with (h | ⟨h, -⟩) | h
    · have := h.lt
      omega
    · exact h
    · omega
  · intro h
    have hpath := s.comes_of_completes hfree hcode h
    rw [Nat.zero_add, hsize] at hpath
    rcases hpath.cases_tail with h | ⟨n, hcomes, hpast⟩
    · omega
    · exact ⟨n, hcomes, hpast⟩

end Routines

/-- Each routine of a program has the code of one of its functions. If there is no try block in that
function, control runs past the end of the routine exactly if the code of the body can be passed and
nothing has been appended to it: this happens where the body ends in a return that a branch leads
around. -/
theorem overruns_iff {p : Program} {c : Compiled} (hc : p.compile = .ok c) {r : Routine}
    (hr : r ∈ c.unit.routines) :
    ∃ f ∈ p.definitions, f.Makes r ∧ ((∀ s ∈ f.body, s.Tryless) →
      ∃ sc shape sc', Plan.statements f.body sc = .ok (shape, sc') ∧ Placed r.code 0 shape ∧
        (r.Overruns ↔ shape.completes = true ∧ shape.size = r.code.size)) := by
  obtain ⟨f, hf, hmakes⟩ := makes_of_compile hc hr
  refine ⟨f, hf, hmakes, fun htryless => ?_⟩
  obtain ⟨stop, ⟨sc, shape, sc', -, hshape, hcode, rfl⟩, hclosed⟩ := hmakes.body
  obtain ⟨-, hfree⟩ := carried_tryless.stmts f.body htryless sc shape sc' rfl hshape
  refine ⟨sc, shape, sc', hshape, hcode, ?_⟩
  rw [Nat.zero_add] at hclosed
  rcases hclosed with ⟨hsize, i, hlast, hop⟩ | ⟨hsize, k, hbehind⟩
  · rw [overruns_iff_completes hfree hcode hsize hlast hop]
    exact ⟨fun h => ⟨h, hsize⟩, And.left⟩
  · refine iff_of_false (not_overruns_of_appended hfree hcode hsize hbehind) ?_
    rintro ⟨-, hsame⟩
    omega

/-- A statement that returns on one way only. -/
def Stmt.glance : Stmt := .branch (.literal (.bool true)) [.returnValue none] [] none

/-- A function that ends with such a statement. -/
def Program.peeking : Program := [.function "peek" [] [.glance]]

section Glances

variable {sc sc' : Scope} {shape : Shape}

theorem Plan.loadConst_ok {d : Datum} (h : Plan.loadConst d sc = .ok (shape, sc')) :
    ∃ k, shape = .one (.to .loadConst k) := by
  obtain ⟨k, _, _, ⟨⟩⟩ := Plan.bind_ok.1 h
  exact ⟨k, rfl⟩

theorem Plan.returning_ok (h : Plan.statements [.returnValue none] sc = .ok (shape, sc')) :
    shape.size = 2 := by
  obtain ⟨_, _, _, hreturn, ⟨⟩, rfl⟩ := Plan.andThen_ok h
  obtain ⟨_, _, _, hload, ⟨⟩, rfl⟩ := Plan.andThen_ok hreturn
  obtain ⟨k, rfl⟩ := Plan.loadConst_ok hload
  rfl

theorem Plan.glance_ok (h : Plan.statement .glance sc = .ok (shape, sc')) :
    shape.completes = true ∧ shape.size = 4 := by
  obtain ⟨_, _, hcondition, h⟩ := Plan.bind_ok.1 h
  obtain ⟨k, rfl⟩ := Plan.loadConst_ok hcondition
  obtain ⟨body, _, hbody, h⟩ := Plan.bind_ok.1 h
  obtain ⟨_, _, ⟨⟩, h⟩ := Plan.bind_ok.1 h
  obtain ⟨_, _, ⟨⟩, h⟩ := Plan.bind_ok.1 h
  cases h
  simp [Shape.completes, Shape.size, Instruction.completes, Instruction.to,
    Plan.returning_ok hbody]

end Glances

theorem overruns_iff_peek : ∃ c peek, Program.peeking.compile = .ok c ∧
    peek ∈ c.unit.routines ∧ peek.code.size = 4 ∧ peek.Overruns := by
  have hsizes : Program.peeking.compile.toOption.map (·.unit.routines.map (·.code.size)) =
      some [4] := by
    decide +kernel
  obtain ⟨c, hc, hsizes⟩ := Option.map_eq_some_iff.1 hsizes
  have hc := eq_ok_of_toOption hc
  obtain ⟨peek, hpeek, hfour⟩ : ∃ r ∈ c.unit.routines, r.code.size = 4 :=
    List.mem_map.1 (hsizes ▸ by decide)
  have hglance : Stmt.glance.Tryless := .of nofun fun part hpart => by
    obtain rfl : part = .returnValue none := by simpa [Stmt.glance, Stmt.inner] using hpart
    exact .of nofun nofun
  obtain ⟨f, hf, -, h⟩ := overruns_iff hc hpeek
  obtain rfl : f = ⟨"peek", [], false, [.glance]⟩ := List.mem_singleton.1 hf
  obtain ⟨sc, shape, sc', hplan, -, hiff⟩ := h (List.forall_mem_singleton.2 hglance)
  obtain ⟨_, _, _, hfirst, ⟨⟩, rfl⟩ := Plan.andThen_ok hplan
  obtain ⟨hcompletes, hsize⟩ := Plan.glance_ok hfirst
  refine ⟨c, peek, hc, hpeek, hfour, hiff.2 ?_⟩
  simp [Shape.completes, Shape.size, hcompletes, hsize, hfour]

end StackScript
