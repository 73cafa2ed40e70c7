import StackScript.Proofs.Code.Depth

/-!
# Heights at which instructions run

Within a call the stack has a height of its own, counted from where the call began. Some instructions
are safe only where nothing but their operands is on it: a return leaves what else is there to the
caller. `Rules` say for each instruction whether it may stand above other values.

* `Paced.wellFormed`: under limits such code is well formed.

`Proofs/Code/Block.lean` puts such code together, and `Proofs/Code/Tidy.lean` tells the trees whose
code is paced.
-/

namespace StackScript

/-! ## Rules -/

/-- Where an instruction may stand: anywhere, only with nothing below its operands, or nowhere. -/
inductive Rule where
  | any
  | bottom
  | never
  deriving DecidableEq

namespace Rule

/-- An instruction with so many operands may stand at a height. -/
def Holds (needs height : Nat) : Rule → Prop
  | any => True
  | bottom => height = needs
  | never => False

/-- An instruction may stand in code that starts at the bottom, or at a height that is not known. -/
def Allows (atBottom : Bool) : Rule → Prop
  | any => True
  | bottom => atBottom = true
  | never => False

theorem Allows.holds {rule : Rule} {atBottom : Bool} (h : rule.Allows atBottom) {d : Nat}
    (hd : atBottom = true → d = 0) (needs : Nat) : rule.Holds needs (d + needs) := by
  cases rule with
  | any => trivial
  | bottom =>
    rw [hd h]
    exact Nat.zero_add needs
  | never => exact h

end Rule

/-- The instructions that rules may speak of. -/
def Opcode.governed : List Opcode :=
  [.pop, .ret, .call, .getIter, .getAttr, .setAttr, .callMethod, .createClass, .importModule]

/-- A rule for each instruction; all but the governed ones are free. -/
structure Rules where
  of : Opcode → Rule
  free : ∀ op, op ∉ Opcode.governed → of op = .any

theorem Rule.Allows.anywhere {rule : Rule} (h : rule.Allows false) (atBottom : Bool) :
    rule.Allows atBottom := by
  cases rule with
  | any => trivial
  | bottom => cases h
  | never => exact h

variable {code : List Instruction} {rules : Rules} {limits limits' : Limits} {op : Opcode} {k : Nat}

theorem Rules.allows_free (rules : Rules) (h : op ∉ Opcode.governed)
    (atBottom : Bool) : (rules.of op).Allows atBottom := by
  rw [rules.free op h]
  trivial

/-- No rules at all. -/
def Rules.none : Rules where
  of _ := .any
  free _ _ := rfl

/-! ## Instructions -/

/-- The instructions that put a value on the stack. -/
def Opcode.loads : List Opcode := [.loadConst, .loadFunc, .loadGlobal, .loadLocal]

/-- A number in the code names something that is there. -/
def Limits.Admits (limits : Limits) (k : Nat) : Opcode → Prop
  | .loadGlobal | .storeGlobal => k < limits.globals
  | .loadLocal | .storeLocal => ∃ n, limits.locals = some n ∧ k < n
  | _ => k < limits.constants.length

section

variable (limits : Option Limits) (before : Option Instruction)

/-- An instruction after which the next one runs, with the number of values that it takes from the
stack and that it leaves there. If there are limits, what it names is there; only then is it known
how many names an import leaves. `before` is the instruction before it. -/
inductive Instruction.Moves : Instruction → Nat → Nat → Prop
  | load {op : Opcode} {k : Nat} : op ∈ Opcode.loads → (∀ l ∈ limits, l.Admits k op) →
      Moves (.to op k) 0 1
  | storeGlobal {k : Nat} : (∀ l ∈ limits, l.Admits k .storeGlobal) → Moves (.to .storeGlobal k) 1 0
  | storeLocal {k : Nat} : (∀ l ∈ limits, l.Admits k .storeLocal) → Moves (.to .storeLocal k) 1 0
  | join {op : Opcode} : op ∈ Opcode.joins → Moves ⟨op, .null⟩ 2 1
  | convert {op : Opcode} : op ∈ Opcode.converts → Moves ⟨op, .null⟩ 1 1
  | pop : Moves ⟨.pop, .null⟩ 1 0
  | call {n : Nat} : Moves (.to .call n) (n + 1) 1
  | callMethod {n k : Nat} : (∀ l ∈ limits, l.Admits k .callMethod) →
      Moves (.to .callMethod ((n <<< 16) ||| k)) (n + 1) 1
  | getAttr {k : Nat} : (∀ l ∈ limits, l.Admits k .getAttr) → Moves (.to .getAttr k) 1 1
  | setAttr : Moves ⟨.setAttr, .null⟩ 3 0
  | createClass {k : Nat} : (∀ l ∈ limits, l.Admits k .createClass) → Moves (.to .createClass k) 1 1
  | buildList {n : Nat} : Moves (.to .buildList n) n 1
  | buildTuple {n : Nat} : Moves (.to .buildTuple n) n 1
  | buildDict {n : Nat} : Moves (.to .buildDict n) (2 * n) 1
  | setItem : Moves ⟨.setItem, .null⟩ 3 0
  | listAppend : Moves ⟨.listAppend, .null⟩ 3 2
  | importFrom {k count : Nat} : limits.isSome → before = some (.to .loadConst k) →
      (∀ l ∈ limits, ∃ items, l.constants[k]? = some (.list items) ∧ items.length = count) →
      Moves ⟨.importFrom, .null⟩ 2 count

end

/-- Limits with more constants and more globals. -/
structure Limits.Within (limits limits' : Limits) : Prop where
  constants : limits.constants <+: limits'.constants
  globals : limits.globals ≤ limits'.globals
  locals : limits'.locals = limits.locals

theorem getElem?_mono {α : Type} {a b : List α} (h : a <+: b) {x : α}
    (hk : a[k]? = some x) : b[k]? = some x := by
  obtain ⟨more, rfl⟩ := h
  rw [List.getElem?_append_left (List.getElem?_eq_some_iff.1 hk).1, hk]

theorem Limits.Within.admits (h : limits.Within limits')
    (hk : limits.Admits k op) : limits'.Admits k op := by
  have hlength := h.constants.length_le
  have hglobals := h.globals
  unfold Admits at hk ⊢
  rw [h.locals]
  split at hk <;> first | exact hk | omega

namespace Instruction.Moves

variable {limits : Option Limits} {before : Option Instruction} {i : Instruction}
  {needs leaves : Nat}

theorem of_none (h : i.Moves limits none needs leaves) : i.Moves limits before needs leaves := by
  cases h with
  | importFrom _ hbefore => cases hbefore
  | _ => constructor <;> assumption

theorem mono {l l' : Limits} (hl : l.Within l') (h : i.Moves (some l) before needs leaves) :
    i.Moves (some l') before needs leaves := by
  have hadmits {k : Nat} {op : Opcode} (hk : ∀ a ∈ some l, a.Admits k op) :
      ∀ a ∈ some l', a.Admits k op := by
    rintro _ ⟨⟩
    exact hl.admits (hk l rfl)
  cases h with
  | load hop hk => exact .load hop (hadmits hk)
  | importFrom _ hbefore hitems =>
    refine .importFrom rfl hbefore ?_
    rintro _ ⟨⟩
    obtain ⟨items, hitems, hcount⟩ := hitems l rfl
    exact ⟨items, getElem?_mono hl.constants hitems, hcount⟩
  | storeGlobal hk | storeLocal hk | callMethod hk | getAttr hk | createClass hk =>
    constructor
    exact hadmits hk
  | _ => constructor <;> assumption

theorem effect {l : Limits} (h : i.Moves (some l) before needs leaves) :
    Effect l .packed before i needs leaves := by
  cases h with
  | load hop hk =>
    have hk := hk l rfl
    simp only [Opcode.loads, List.mem_cons, List.not_mem_nil, or_false] at hop
    rcases hop with rfl | rfl | rfl | rfl
    · exact .loadConst hk
    · exact .loadFunc hk
    · exact .loadGlobal hk
    · obtain ⟨n, hn, hlt⟩ := hk
      exact .loadLocal hn hlt
  | storeLocal hk =>
    obtain ⟨n, hn, hlt⟩ := hk l rfl
    exact .storeLocal hn hlt
  | storeGlobal hk => exact .storeGlobal (hk l rfl)
  | callMethod hk => exact .callMethod rfl (hk l rfl)
  | getAttr hk => exact .getAttr (hk l rfl)
  | createClass hk => exact .createClass (hk l rfl)
  | importFrom _ hbefore hitems =>
    obtain ⟨items, hk, rfl⟩ := hitems l rfl
    exact .importFrom hbefore hk
  | _ => constructor <;> assumption

theorem of_call (h : i.Moves limits before needs leaves) (hop : i.op = .call) :
    ∃ n, i = .to .call n ∧ needs = n + 1 ∧ leaves = 1 := by
  cases h with
  | call => exact ⟨_, rfl, rfl, rfl⟩
  | load h | join h | convert h =>
    cases hop
    simp [Opcode.loads, Opcode.joins, Opcode.converts] at h
  | _ => cases hop

end Instruction.Moves

/-- The instruction whose rule holds for another one: what goes with counted loops is under the rule
for taking an iterator. -/
def Opcode.ruler : Opcode → Opcode
  | .listAppend => .getIter
  | op => op

section

variable (rules : Rules) (limits : Option Limits) (lo hi : Nat) (height : Nat → Nat)
  (before : Option Instruction) (place : Nat)

/-- An instruction at an index obeys the rules and agrees with the heights there and at its
successors, which lie between two indices. -/
inductive Climbs : Instruction → Prop
  | step {i : Instruction} {needs leaves : Nat} : i.Moves limits before needs leaves →
      (rules.of i.op.ruler).Holds needs (height place) → needs ≤ height place →
      height (place + 1) = height place - needs + leaves → Climbs i
  | jump {target : Nat} : lo ≤ target → target ≤ hi → height target = height place →
      Climbs (.to .jump target)
  | branch {op : Opcode} {target : Nat} : op = .jumpIfFalse ∨ op = .jumpIfTrue →
      lo ≤ target → target ≤ hi → 1 ≤ height place → height (place + 1) = height place - 1 →
      height target = height place - 1 → Climbs (.to op target)
  | forIter {target : Nat} : (rules.of .getIter).Holds 1 (height place) → lo ≤ target →
      target ≤ hi → 1 ≤ height place → height (place + 1) = height place + 1 →
      height target = height place - 1 → Climbs (.to .forIter target)
  | ret : (rules.of .ret).Holds 1 (height place) → 1 ≤ height place → Climbs ⟨.ret, .null⟩
  | halt : height place = 0 → Climbs ⟨.halt, .null⟩

end

/-- The indices of code can be given heights that obey the rules. -/
def Paced (rules : Rules) (limits : Option Limits) (code : List Instruction) : Prop :=
  ∃ height : Nat → Nat, height 0 = 0 ∧ ∀ k i, code[k]? = some i →
    Climbs rules limits 0 code.length height (instructionBefore code k) k i

namespace Climbs

variable {rules : Rules} {limits : Option Limits} {lo hi lo' hi' n : Nat}
  {height height' : Nat → Nat} {before : Option Instruction} {i : Instruction}

/-- What obeys does so where the instruction moves as much and the bounds are wider. -/
theorem imp {limits' : Option Limits} {before' : Option Instruction}
    (hmoves : ∀ needs leaves, i.Moves limits before needs leaves →
      i.Moves limits' before' needs leaves)
    (hlo : lo' ≤ lo) (hhi : hi ≤ hi') (h : Climbs rules limits lo hi height before n i) :
    Climbs rules limits' lo' hi' height before' n i := by
  cases h with
  | step h hrule hneeds hnext => exact .step (hmoves _ _ h) hrule hneeds hnext
  | jump h₁ h₂ h₃ => exact .jump (by omega) (by omega) h₃
  | branch hop h₁ h₂ h₃ h₄ h₅ => exact .branch hop (by omega) (by omega) h₃ h₄ h₅
  | forIter hrule h₁ h₂ h₃ h₄ h₅ => exact .forIter hrule (by omega) (by omega) h₃ h₄ h₅
  | ret hrule h => exact .ret hrule h
  | halt h => exact .halt h

theorem congr (hn : lo ≤ n) (hn' : n < hi) (hd : ∀ k, lo ≤ k → k ≤ hi → height' k = height k)
    (h : Climbs rules limits lo hi height before n i) :
    Climbs rules limits lo hi height' before n i := by
  have h₀ := hd n hn (by omega)
  have h₁ := hd (n + 1) (by omega) (by omega)
  cases h with
  | step h hrule hneeds hnext =>
    exact .step h (h₀ ▸ hrule) (h₀ ▸ hneeds) (by rw [h₁, h₀, hnext])
  | jump hl hh ht => exact .jump hl hh (by rw [hd _ hl hh, h₀, ht])
  | branch hop hl hh hneeds hnext ht =>
    exact .branch hop hl hh (h₀ ▸ hneeds) (by rw [h₁, h₀, hnext]) (by rw [hd _ hl hh, h₀, ht])
  | forIter hrule hl hh hneeds hnext ht =>
    exact .forIter (h₀ ▸ hrule) hl hh (h₀ ▸ hneeds) (by rw [h₁, h₀, hnext]) (by rw [hd _ hl hh, h₀, ht])
  | ret hrule hneeds => exact .ret (h₀ ▸ hrule) (h₀ ▸ hneeds)
  | halt hzero => exact .halt (h₀ ▸ hzero)

end Climbs

theorem Paced.mono (hl : limits.Within limits') (h : Paced rules (some limits) code) :
    Paced rules (some limits') code := by
  obtain ⟨height, hstart, hclimbs⟩ := h
  refine ⟨height, hstart, fun k i hk => ?_⟩
  exact (hclimbs k i hk).imp (fun _ _ h => h.mono hl) (Nat.le_refl _) (Nat.le_refl _)

theorem Paced.wellFormed
    (h : Paced rules (some limits) code) : WellFormedCode limits .packed code := by
  obtain ⟨height, hstart, hclimbs⟩ := h
  refine ⟨height, hstart, fun k i hk => ?_⟩
  cases hclimbs k i hk with
  | step h _ hneeds hnext => exact .step h.effect hneeds hnext
  | jump h₁ h₂ h₃ => exact .jump h₁ h₂ h₃
  | branch hop h₁ h₂ h₃ h₄ h₅ => exact .branch hop h₁ h₂ h₃ h₄ h₅
  | forIter _ h₁ h₂ h₃ h₄ h₅ => exact .forIter h₁ h₂ h₃ h₄ h₅
  | ret _ h => exact .ret h
  | halt h => exact .halt h

end StackScript
