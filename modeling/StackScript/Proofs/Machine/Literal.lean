import StackScript.Proofs.Code.Reference
import StackScript.Proofs.Machine.Constants
import StackScript.Proofs.Machine.Steps

/-!
# What a literal comes to when it is loaded

Constants are pooled by equality, and equality does not look at kinds: `1`, `1.0` and `True` are
equal. A literal is loaded from the place of the first constant that equals it. So its value is always
right, but its kind is that of whichever equal constant was compiled first.

* `literal_loaded`: the value of a literal when a machine has loaded the program;
* `literal_of_other_kind`: a number that is loaded as a truth value.
-/

namespace StackScript

/-! ## Constants at a place -/

namespace Generator

/-- The constant that a literal comes to at a place: the first one that equals it, or a new one. -/
def pooled (g : Generator) (d : Datum) : Datum := (g.constants.find? (·.same d)).getD d

/-- The first constant that equals a literal, if there is one, is of its kind. -/
def Keeps (g : Generator) (d : Datum) : Prop :=
  ∀ k ∈ g.constants.find? (·.same d), k.kindName = d.kindName

/-- A place at which no constant has come in that is not in the program. -/
def Before (g : Generator) (c : Compiled) : Prop := g.constants.toList <+: c.unit.constants

theorem kindName_pooled (g : Generator) (d : Datum) :
    (g.pooled d).kindName = d.kindName ↔ g.Keeps d := by
  unfold pooled Keeps
  cases g.constants.find? (·.same d) <;> simp

end Generator

variable {d k : Datum} {n : Nat} {c : Compiled} {s : Store} {v : Value}

theorem Datum.eq_of_same_plain (h : k.same d = true)
    (hd : d = .null ∨ ∃ t, d = .str t) : k = d := by
  rcases hd with rfl | ⟨t, rfl⟩ <;> cases k <;>
    simp_all [Datum.same, Datum.sameLeaf, Datum.integral?]

theorem Generator.keeps_plain (g : Generator) (hd : d = .null ∨ ∃ t, d = .str t) : g.Keeps d := by
  intro k hk
  have hsame : k.same d = true := by simpa using Array.find?_some hk
  rw [Datum.eq_of_same_plain hsame hd]

theorem Generator.same_pooled (g : Generator) (d : Datum) :
    g.pooled d = d ∨ (g.pooled d).same d = true := by
  unfold pooled
  cases hfound : g.constants.find? (·.same d) with
  | none => exact .inl rfl
  | some k => exact .inr (by simpa using Array.find?_some hfound)

theorem Datum.eq_zero_of_same (h : k.same (.int 0) = true)
    (hkind : k.kindName = (Datum.int 0).kindName) : k = .int 0 := by
  cases k <;> simp_all [Datum.same, Datum.sameLeaf, Datum.integral?, Datum.kindName]

theorem Generator.pooled_zero (g : Generator) : g.pooled (.int 0) = .int 0 ↔ g.Keeps (.int 0) := by
  rw [← g.kindName_pooled]
  refine ⟨fun h => by rw [h], fun hkind => ?_⟩
  rcases g.same_pooled (.int 0) with h | h
  · exact h
  · exact Datum.eq_zero_of_same h hkind

theorem Datum.Scalar.of_same (hd : d.Scalar) (h : k.same d = true) : k.Scalar := by
  cases k with
  | null => exact .null
  | bool b => exact .bool b
  | int i => exact .int i
  | float x => exact .float x
  | str s => exact .str s
  | list items | tuple items | dict entries =>
    cases hd <;> simp [Datum.same, Datum.sameLeaf, Datum.integral?] at h

theorem Generator.scalar_pooled (g : Generator) (hd : d.Scalar) : (g.pooled d).Scalar := by
  unfold pooled
  cases hfound : g.constants.find? (·.same d) with
  | none => exact hd
  | some k => exact hd.of_same (by simpa using Array.find?_some hfound)

theorem Datum.Scalar.kind_of_heldAs (hd : d.Scalar) (h : d.HeldAs s v) : v.kind = d.kindName := by
  cases hd with
  | float x =>
    rw [Datum.HeldAs] at h
    rw [h]
    split <;> rfl
  | null | bool b | int i | str t =>
    rw [Datum.HeldAs] at h
    rw [h]
    rfl

/-! ## The code of literals -/

theorem Plan.constant_pooled {g : Generator} {sc : Scope}
    (h : Plan.constant d g.scope = .ok (n, sc)) : sc.constants[n]? = some (g.pooled d) := by
  unfold Plan.constant at h
  split at h
  · rename_i i hfound
    cases h
    obtain ⟨hlt, hsame, hfirst⟩ := Array.findIdx?_eq_some_iff_getElem.1 hfound
    have hfind : g.scope.constants.find? (·.same d) = some g.scope.constants[n] := by
      refine Array.find?_eq_some_iff_getElem.2 ⟨hsame, n, hlt, rfl, fun j hj => ?_⟩
      simpa using hfirst j hj
    have hfind : g.constants.find? (·.same d) = some g.scope.constants[n] := hfind
    rw [Array.getElem?_eq_getElem hlt, Generator.pooled, hfind]
    rfl
  · rename_i hnone
    cases h
    have hfind : g.constants.find? (·.same d) = none := by
      refine Array.find?_eq_none.2 fun k hk => ?_
      simpa using Array.findIdx?_eq_none_iff.1 hnone k hk
    rw [Generator.pooled, hfind]
    exact Array.getElem?_push_size

/-- A literal is compiled to a load of the constant that it comes to. -/
theorem literal_code {g g' : Generator}
    (h : Gen.expression (.literal d) g = .ok () g') (hbefore : g'.Before c) :
    ∃ n, g'.code.toList = g.code.toList ++ [.to .loadConst n] ∧
      c.unit.constants[n]? = some (g.pooled d) := by
  obtain ⟨shape, sc, hplan, hemits⟩ := (follows_expression _).of_ok h
  have hplan : Plan.loadConst d g.scope = .ok (shape, sc) := hplan
  obtain ⟨n, sc₁, hconstant, hplan⟩ := Plan.bind_ok.1 hplan
  cases hplan
  have hpooled := Plan.constant_pooled hconstant
  rw [← hemits.scope, ← Array.getElem?_toList] at hpooled
  exact ⟨n, hemits.code, getElem?_mono hbefore hpooled⟩

/-- A minus loads the constant that zero comes to, then its operand, and subtracts. -/
theorem minus_code {e : Expr} {g g' : Generator}
    (h : Gen.expression (.unary "-" e) g = .ok () g') (hbefore : g'.Before c) :
    ∃ n operand, g'.code.toList = g.code.toList ++ .to .loadConst n :: (operand ++ [⟨.sub, .null⟩]) ∧
      c.unit.constants[n]? = some (g.pooled (.int 0)) := by
  obtain ⟨shape, sc, hplan, hemits⟩ := (follows_expression _).of_ok h
  have hplan : ((Plan.loadConst (.int 0)).andThen ((Plan.expression e).andThen (Plan.op .sub))) g.scope =
      .ok (shape, sc) := hplan
  obtain ⟨zero, sc₁, hzero, hplan⟩ := Plan.bind_ok.1 hplan
  obtain ⟨rest, sc₂, hrest, hplan⟩ := Plan.bind_ok.1 hplan
  cases hplan
  obtain ⟨operand, sc₃, hoperand, hrest⟩ := Plan.bind_ok.1 hrest
  cases hrest
  obtain ⟨n, sc₄, hconstant, hzero⟩ := Plan.bind_ok.1 hzero
  cases hzero
  have hpooled := Plan.constant_pooled hconstant
  have hgrows := (grows_expression hoperand).constants
  rw [← hemits.scope] at hgrows
  rw [← Array.getElem?_toList] at hpooled
  exact ⟨n, operand.layout (g.code.size + 1), hemits.code,
    getElem?_mono (hgrows.trans hbefore) hpooled⟩

/-! ## The values of constants -/

theorem Datum.Scalar.heldAs (hd : d.Scalar) {s' : Store} (h : d.HeldAs s v) : d.HeldAs s' v := by
  cases hd <;> exact h

theorem Datum.AllHeldAs.getElem? :
    ∀ {items : List Datum} {values : List Value}, Datum.AllHeldAs s items values →
      items[n]? = some k → ∃ v, values[n]? = some v ∧ k.HeldAs s v := by
  intro items
  induction items generalizing n with
  | nil =>
    intro values _ hk
    cases hk
  | cons d items ih =>
    rintro values ⟨v, rest, rfl, hd, hrest⟩ hk
    cases n with
    | zero =>
      cases hk
      exact ⟨v, rfl, hd⟩
    | succ n =>
      obtain ⟨u, hu, hheld⟩ := ih hrest hk
      exact ⟨u, hu, hheld⟩

theorem Datum.AllHeldAs.length : ∀ {items : List Datum} {values : List Value},
    Datum.AllHeldAs s items values → values.length = items.length
  | [], _, h => by
    rw [Datum.AllHeldAs] at h
    rw [h]
    rfl
  | _ :: _, _, ⟨_, _, hvalues, _, hrest⟩ => by
    rw [hvalues, List.length_cons, List.length_cons, Datum.AllHeldAs.length hrest]

namespace Wide

/-- An instruction that loads a constant, also one that is the name of a function, puts it on the
stack. -/
theorem State.Sealed.load {ref : Nat} {pool : Array Value} {w : State} (hw : w.Sealed ref pool)
    (hsize : pool.size ≤ Value.sizeLimit) (hv : pool[n]? = some v) {op : Opcode}
    (hop : op = .loadConst ∨ op = .loadFunc) (hnext : w.next? = some (.to op n)) :
    ∃ w', Act.step w = .ok () w' ∧ w'.stack = v :: w.stack := by
  obtain ⟨w₁, hfetch⟩ := State.fetch_of_next? hnext
  have hw₁ : w₁.Sealed ref pool := Act.eq_fetched hfetch ▸ hw.jump _
  obtain ⟨-, hstack⟩ := Act.outline_fetch hfetch
  have hlist : w₁.store.list ref = pool := by
    rw [Store.list, Array.getD_eq_getD_getElem?, show w₁.store.lists[ref]? = some pool from hw₁.store.kept]
    rfl
  have hitem : Value.item (.list ref) (.int n) w₁.store = .ok v w₁.store := by
    show Op.ofExcept (Value.arrayItem (w₁.store.list ref) (.int n)) w₁.store = _
    rw [hlist, arrayItem_of_lt hv hsize]
    rfl
  have hconstant : Act.constant (.int n) w₁ = .ok v w₁ := by
    show Act.op (Value.item w₁.constants (.int n)) w₁ = _
    rw [hw₁.constants, Act.op, hitem]
  have hperform : Act.perform (.to op n) = Act.constant (.int n) >>= Act.push := by
    rcases hop with rfl | rfl <;> rfl
  refine ⟨{ w₁ with stack := v :: w₁.stack }, ?_, by rw [hstack]⟩
  show (Act.fetch >>= _) w = _
  rw [bind_of_ok hfetch]
  show Act.perform (.to op n) w₁ = _
  rw [hperform, bind_of_ok hconstant]
  rfl

/-- Wherever a machine comes to an instruction in its run, it puts a value on the stack that is a
datum. -/
def State.Puts (s₀ : State) (i : Instruction) (k : Datum) : Prop :=
  ∀ s, Reached s₀ s → s.next? = some i →
    ∃ v s', Act.step s = .ok () s' ∧ s'.stack = v :: s.stack ∧ k.HeldAs s.store v ∧
      v.kind = k.kindName

/-- A machine that has loaded a compiled program puts its constants without parts on the stack. -/
theorem loads_of_compile {p : Program} (h : p.compile = .ok c)
    (hliterals : ∀ d ∈ p.literals, d.Scalar) (hdecimals : ∀ x, .float x ∈ c.unit.constants →
      Datum.read (Datum.write (.float x)) = .ok (.float x)) :
    ∃ s₀, State.load {} c.bytes = .ok s₀ ∧ ∀ op n k, op = .loadConst ∨ op = .loadFunc →
      c.unit.constants[n]? = some k → k.Scalar → s₀.Puts (.to op n) k := by
  obtain ⟨s₀, ref, values, hload, hsealed, hheld⟩ := sealed_load h hliterals hdecimals
  refine ⟨s₀, hload, fun op n k hop hk hscalar s hreached hnext => ?_⟩
  obtain ⟨v, hv, hkv⟩ := hheld.getElem? hk
  have hsmall : c.unit.constants.length < 2 ^ 32 :=
    (CodeUnit.small_of_fits (bytes_of_compile h).2.1).constants
  have hsize : values.toArray.size ≤ Value.sizeLimit := by
    rw [List.size_toArray, hheld.length]
    unfold Value.sizeLimit
    omega
  have hitem : values.toArray[n]? = some v := by
    rw [List.getElem?_toArray]
    exact hv
  obtain ⟨s', hstep, hstack⟩ := (hsealed.reached hreached).load hsize hitem hop hnext
  exact ⟨v, s', hstep, hstack, hscalar.heldAs hkv, hscalar.kind_of_heldAs hkv⟩

theorem puts_of_compile {p : Program} (h : p.compile = .ok c)
    (hliterals : ∀ d ∈ p.literals, d.Scalar) (hdecimals : ∀ x, .float x ∈ c.unit.constants →
      Datum.read (Datum.write (.float x)) = .ok (.float x)) :
    ∃ s₀, State.load {} c.bytes = .ok s₀ ∧ ∀ n k, c.unit.constants[n]? = some k → k.Scalar →
      s₀.Puts (.to .loadConst n) k := by
  obtain ⟨s₀, hload, hputs⟩ := loads_of_compile h hliterals hdecimals
  exact ⟨s₀, hload, fun n k => hputs .loadConst n k (.inl rfl)⟩

end Wide

open Wide

/-- When a machine has loaded a compiled program, the instruction of a literal puts on the stack the
constant that the literal has come to: the first one that equals it. That constant equals the literal,
and is of its kind if and only if no equal constant of another kind was entered first, which never
happens to a text or to nothing. A minus subtracts from the constant that zero has come to. -/
theorem literal_loaded {p : Program} {c : Compiled} (h : p.compile = .ok c)
    (hliterals : ∀ d ∈ p.literals, d.Scalar)
    (hdecimals : ∀ x, .float x ∈ c.unit.constants →
      Datum.read (Datum.write (.float x)) = .ok (.float x)) :
    ∃ s₀, State.load {} c.bytes = .ok s₀ ∧
      (∀ (d : Datum) (g g' : Generator), d.Scalar → Gen.expression (.literal d) g = .ok () g' →
        g'.Before c → ∃ n, g'.code.toList = g.code.toList ++ [.to .loadConst n] ∧
          s₀.Puts (.to .loadConst n) (g.pooled d) ∧
          (g.pooled d = d ∨ (g.pooled d).same d = true) ∧
          ((g.pooled d).kindName = d.kindName ↔ g.Keeps d) ∧
          (d = .null ∨ (∃ t, d = .str t) → g.Keeps d)) ∧
      ∀ (e : Expr) (g g' : Generator), Gen.expression (.unary "-" e) g = .ok () g' →
        g'.Before c → ∃ n operand, g'.code.toList =
            g.code.toList ++ .to .loadConst n :: (operand ++ [⟨.sub, .null⟩]) ∧
          s₀.Puts (.to .loadConst n) (g.pooled (.int 0)) ∧
          (g.pooled (.int 0) = .int 0 ↔ g.Keeps (.int 0)) := by
  obtain ⟨s₀, hload, hputs⟩ := puts_of_compile h hliterals hdecimals
  refine ⟨s₀, hload, fun d g g' hd hcode hbefore => ?_, fun e g g' hcode hbefore => ?_⟩
  · obtain ⟨n, hemitted, hn⟩ := literal_code hcode hbefore
    exact ⟨n, hemitted, hputs n _ hn (g.scalar_pooled hd), g.same_pooled d, g.kindName_pooled d,
      g.keeps_plain⟩
  · obtain ⟨n, operand, hemitted, hn⟩ := minus_code hcode hbefore
    exact ⟨n, operand, hemitted, hputs n _ hn (g.scalar_pooled (.int 0)), g.pooled_zero⟩

/-- The constant that the next instruction loads. -/
def Wide.State.loads? (w : State) : Option Nat :=
  match w.next? with
  | some ⟨.loadConst, .int (.ofNat n)⟩ => some n
  | _ => none

theorem Wide.State.next?_of_loads? {w : State} (h : w.loads? = some n) :
    w.next? = some (.to .loadConst n) := by
  unfold State.loads? at h
  split at h
  · rename_i hnext
    cases h
    exact hnext
  · cases h

/-- A number, and a truth value that equals it. -/
def Program.tally : Program :=
  [.declare "one" (some (.literal (.int 1))) none, .declare "yes" (some (.literal (.bool true))) none]

theorem constants_of_plan {p : Program} {constants : List Datum} (hc : p.compile = .ok c)
    (h : (Plan.program p).map (fun r => (r.1.unit r.2).constants) = .ok constants) :
    c.unit.constants = constants := by
  obtain ⟨shape, sc, hplan, hunit, -⟩ := compile_eq_ok hc
  rw [hplan] at h
  rw [hunit]
  exact Except.ok.inj h

theorem literal_loaded_tally : ∃ c s₀ s g' v s', Program.tally.compile = .ok c ∧
    (∀ d ∈ Program.tally.literals, d.Scalar) ∧
    (∀ x, .float x ∈ c.unit.constants → Datum.read (Datum.write (.float x)) = .ok (.float x)) ∧
    State.load {} c.bytes = .ok s₀ ∧ Gen.expression (.literal (.int 1)) {} = .ok () g' ∧
    g'.Before c ∧ Generator.Keeps {} (.int 1) ∧ Reached s₀ s ∧
    s.next? = some (.to .loadConst 0) ∧ Act.step s = .ok () s' ∧ s'.stack = v :: s.stack ∧
    v.kind = "int" := by
  have hrun : (runOf Program.tally 0).map State.loads? = some (some 0) := by decide +kernel
  obtain ⟨s, hs, hnext⟩ := Option.map_eq_some_iff.1 hrun
  obtain ⟨c, s₀, hc, hload, hreached⟩ := runOf_eq_some (by decide +kernel) hs
  have hconstants : c.unit.constants = [.int 1] := constants_of_plan hc (by with_unfolding_all rfl)
  have hliterals : ∀ d ∈ Program.tally.literals, d.Scalar := by
    have heq : Program.tally.literals = [.int 1, .bool true] := rfl
    simp [heq, Datum.Scalar.int, Datum.Scalar.bool]
  have hdecimals : ∀ x, .float x ∈ c.unit.constants →
      Datum.read (Datum.write (.float x)) = .ok (.float x) := by
    simp [hconstants]
  obtain ⟨s₁, hload', hloads, -⟩ := literal_loaded hc hliterals hdecimals
  obtain rfl : s₀ = s₁ := Except.ok.inj (hload.symm.trans hload')
  have hcode : Gen.expression (.literal (.int 1)) {} =
      .ok () { constants := #[.int 1], main := #[.to .loadConst 0] } := by with_unfolding_all rfl
  have hbefore : Generator.Before { constants := #[.int 1], main := #[.to .loadConst 0] } c := by
    show [Datum.int 1] <+: c.unit.constants
    exact hconstants ▸ List.prefix_refl _
  have hkeeps : Generator.Keeps {} (.int 1) := by simp [Generator.Keeps]
  obtain ⟨n, hemitted, hputs, -⟩ := hloads (.int 1) {} _ (.int 1) hcode hbefore
  obtain rfl : n = 0 := by simpa [Generator.code, Instruction.to] using hemitted.symm
  have hnext := State.next?_of_loads? hnext
  obtain ⟨v, s', hstep, hstack, -, hkind⟩ := hputs s hreached hnext
  exact ⟨c, s₀, s, _, v, s', hc, hliterals, hdecimals, hload, hcode, hbefore, hkeeps, hreached, hnext,
    hstep, hstack, hkind⟩

/-- A truth value, and a number that equals it. -/
def Program.flags : Program :=
  [.declare "yes" (some (.literal (.bool true))) none, .declare "one" (some (.literal (.int 1))) none]

/-- The number is loaded as the truth value. -/
theorem literal_of_other_kind : ∃ c s₀ t, Program.flags.compile = .ok c ∧
    State.load {} c.bytes = .ok s₀ ∧ Reached s₀ t ∧ t.next?.map (·.op) = some .halt ∧
    t.globals.toList.map Value.kind = ["bool", "bool"] := by
  exact exists_of_runOf 4 (by decide +kernel) (by decide +kernel)

end StackScript
