import StackScript.Proofs.Code.Plan

/-!
# Stack depths of code

Code is well formed when every index can be given a stack depth such that each instruction finds the
operands it needs and leaves the depth of every instruction that may come next.
-/

namespace StackScript

/-! ## Instructions -/

/-- What the operands of instructions are checked against: the pool of constants, the number of
global slots, and the number of local slots inside a routine. -/
structure Limits where
  constants : List Datum
  globals : Nat
  locals : Option Nat

/-- How the operand of a method call holds the number of arguments and the index of the name. -/
abbrev MethodCoding := Datum → Nat → Nat → Prop

/-- Both numbers are written into one, the arguments above sixteen bits for the name. -/
def MethodCoding.packed : MethodCoding := fun operand arguments index =>
  operand = .int (((arguments <<< 16) ||| index : Nat))

/-- Both numbers are read back from one. -/
def MethodCoding.unpacked : MethodCoding := fun operand arguments index =>
  ∃ k : Nat, operand = .int k ∧ arguments = k >>> 16 ∧ index = k &&& 0xFFFF

/-- The operators that replace two values by one. -/
def Opcode.joins : List Opcode :=
  [.add, .sub, .mul, .div, .mod, .pow, .eq, .ne, .lt, .gt, .le, .ge, .isIn, .both, .either,
    .getItem]

/-- The operators that replace a value by another. -/
def Opcode.converts : List Opcode := [.negate, .formatValue, .getIter, .importModule]

section

variable (limits : Limits) (method : MethodCoding) (before : Option Instruction)

/-- An instruction after which the next one runs, with the operands it needs and the values it
leaves. `before` is the instruction before it. -/
inductive Effect : Instruction → Nat → Nat → Prop
  | loadConst {k : Nat} : k < limits.constants.length → Effect (.to .loadConst k) 0 1
  | loadFunc {k : Nat} : k < limits.constants.length → Effect (.to .loadFunc k) 0 1
  | getAttr {k : Nat} : k < limits.constants.length → Effect (.to .getAttr k) 1 1
  | createClass {k : Nat} : k < limits.constants.length → Effect (.to .createClass k) 1 1
  | loadGlobal {k : Nat} : k < limits.globals → Effect (.to .loadGlobal k) 0 1
  | storeGlobal {k : Nat} : k < limits.globals → Effect (.to .storeGlobal k) 1 0
  | loadLocal {k n : Nat} : limits.locals = some n → k < n → Effect (.to .loadLocal k) 0 1
  | storeLocal {k n : Nat} : limits.locals = some n → k < n → Effect (.to .storeLocal k) 1 0
  | join {op : Opcode} : op ∈ Opcode.joins → Effect ⟨op, .null⟩ 2 1
  | convert {op : Opcode} : op ∈ Opcode.converts → Effect ⟨op, .null⟩ 1 1
  | pop : Effect ⟨.pop, .null⟩ 1 0
  | call {n : Nat} : Effect (.to .call n) (n + 1) 1
  | callMethod {operand : Datum} {n k : Nat} : method operand n k → k < limits.constants.length →
      Effect ⟨.callMethod, operand⟩ (n + 1) 1
  | buildList {n : Nat} : Effect (.to .buildList n) n 1
  | buildTuple {n : Nat} : Effect (.to .buildTuple n) n 1
  | buildDict {n : Nat} : Effect (.to .buildDict n) (2 * n) 1
  | setItem : Effect ⟨.setItem, .null⟩ 3 0
  | setAttr : Effect ⟨.setAttr, .null⟩ 3 0
  | listAppend : Effect ⟨.listAppend, .null⟩ 3 2
  | importFrom {k : Nat} {items : List Datum} : before = some (.to .loadConst k) →
      limits.constants[k]? = some (.list items) → Effect ⟨.importFrom, .null⟩ 2 items.length

end

section

variable (limits : Limits) (method : MethodCoding) (lo hi : Nat) (depth : Nat → Nat)
  (before : Option Instruction) (place : Nat)

/-- An instruction at an index agrees with the depths there and at its successors, which lie between
two indices. -/
inductive Fits : Instruction → Prop
  | step {i : Instruction} {needs leaves : Nat} : Effect limits method before i needs leaves →
      needs ≤ depth place → depth (place + 1) = depth place - needs + leaves → Fits i
  | jump {target : Nat} : lo ≤ target → target ≤ hi → depth target = depth place →
      Fits (.to .jump target)
  | branch {op : Opcode} {target : Nat} : op = .jumpIfFalse ∨ op = .jumpIfTrue →
      lo ≤ target → target ≤ hi → 1 ≤ depth place → depth (place + 1) = depth place - 1 →
      depth target = depth place - 1 → Fits (.to op target)
  | forIter {target : Nat} : lo ≤ target → target ≤ hi → 1 ≤ depth place →
      depth (place + 1) = depth place + 1 → depth target = depth place - 1 →
      Fits (.to .forIter target)
  | ret : 1 ≤ depth place → Fits ⟨.ret, .null⟩
  | halt : depth place = 0 → Fits ⟨.halt, .null⟩

end

/-- The instruction before an index. -/
def instructionBefore (code : List Instruction) : Nat → Option Instruction
  | 0 => none
  | k + 1 => code[k]?

/-- The indices of code can be given stack depths. -/
def WellFormedCode (limits : Limits) (method : MethodCoding) (code : List Instruction) : Prop :=
  ∃ depth : Nat → Nat, depth 0 = 0 ∧ ∀ k i, code[k]? = some i →
    Fits limits method 0 code.length depth (instructionBefore code k) k i

/-- The main program and all routines are well formed. -/
structure CodeUnit.WellFormed (u : CodeUnit) (method : MethodCoding) : Prop where
  main : WellFormedCode ⟨u.constants, u.globals.length, none⟩ method u.main
  routines : ∀ r ∈ u.routines,
    WellFormedCode ⟨u.constants, u.globals.length, some r.slots.length⟩ method r.code.toList

variable {limits : Limits} {method : MethodCoding}

/-- The operands of method calls may be read in another way that agrees on the names of the pool. -/
theorem Effect.recode {method' : MethodCoding} {before : Option Instruction} {i : Instruction}
    {needs leaves : Nat}
    (hm : ∀ operand n k, method operand n k → k < limits.constants.length → method' operand n k)
    (h : Effect limits method before i needs leaves) : Effect limits method' before i needs leaves := by
  cases h with
  | callMethod h hk => exact .callMethod (hm _ _ _ h hk) hk
  | _ => constructor <;> assumption

theorem WellFormedCode.recode {method' : MethodCoding} {code : List Instruction}
    (hm : ∀ operand n k, method operand n k → k < limits.constants.length → method' operand n k)
    (h : WellFormedCode limits method code) : WellFormedCode limits method' code := by
  obtain ⟨depth, hstart, hfits⟩ := h
  refine ⟨depth, hstart, fun k i hk => ?_⟩
  cases hfits k i hk with
  | step h hneeds hnext => exact .step (h.recode hm) hneeds hnext
  | jump h₁ h₂ h₃ => exact .jump h₁ h₂ h₃
  | branch hop h₁ h₂ h₃ h₄ h₅ => exact .branch hop h₁ h₂ h₃ h₄ h₅
  | forIter h₁ h₂ h₃ h₄ h₅ => exact .forIter h₁ h₂ h₃ h₄ h₅
  | ret h => exact .ret h
  | halt h => exact .halt h

end StackScript
