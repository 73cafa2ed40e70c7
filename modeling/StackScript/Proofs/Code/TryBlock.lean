import StackScript.Proofs.Code.CatchBlock
import StackScript.Proofs.Code.Reference

/-!
# Where try blocks stand in code

A try block without another one in it, its last instruction, and its catch clauses, one right behind
the other: this is what the searches of a machine for catch clauses and for their ends go by.
-/

namespace StackScript

/-! ## Stretches without try blocks -/

/-- The instruction belongs to no try block, and if it jumps, then to an index from `a` to `b`, or
out of everything. -/
def Instruction.Roams (a b : Nat) (i : Instruction) : Prop :=
  i.op ∉ Opcode.guarding ∧ (i.op ∈ Shape.jumps →
    ∃ target : Int, i.operand = .int target ∧ (target < 0 ∨ a ≤ target ∧ target ≤ b))

/-- All instructions from `lo` up to `hi` are such. -/
def Roams (code : Array Instruction) (a b lo hi : Nat) : Prop :=
  ∀ n, n < hi → lo ≤ n → ∃ i ∈ code[n]?, i.Roams a b

/-! ## Try blocks in code -/

/-- A catch clause in the code, from its first instruction to its last one. -/
structure ClauseAt (code : Array Instruction) (first last : Nat) : Prop where
  lt : first < last
  begins : ∃ i ∈ code[first]?, i.op = .catchBegin
  body : Roams code (first + 1) last (first + 1) last
  ends : ∃ i ∈ code[last]?, i.op = .catchEnd

/-- Catch clauses one right behind the other, from an index up to another. -/
def CatchChain (code : Array Instruction) : Nat → List (Nat × Nat) → Nat → Prop
  | n, [], exit => n = exit
  | n, (first, last) :: rest, exit =>
    n = first ∧ ClauseAt code first last ∧ CatchChain code (last + 1) rest exit

/-- A last block in the code, from its first instruction to its last one. -/
structure LastBlock (code : Array Instruction) (first last : Nat) : Prop where
  lt : first < last
  begins : ∃ i ∈ code[first]?, i.op = .finallyBegin
  body : Roams code (first + 1) last (first + 1) last
  ends : ∃ i ∈ code[last]?, i.op = .finallyEnd

/-- The place of a try block: its first and last instruction, those of its catch clauses, and the
index behind them. -/
structure TrySpan where
  start : Nat
  stop : Nat
  clauses : List (Nat × Nat)
  exit : Nat

/-- There is a try block with its clauses, and no other try block in them. -/
structure TrySpan.In (code : Array Instruction) (b : TrySpan) : Prop where
  small : code.size ≤ Value.sizeLimit
  lt : b.start < b.stop
  begins : ∃ i ∈ code[b.start]?, i.op = .tryBegin
  body : Roams code (b.start + 1) b.stop (b.start + 1) b.stop
  ends : ∃ i ∈ code[b.stop]?, i.op = .tryEnd
  chain : CatchChain code (b.stop + 1) b.clauses b.exit
  caught : b.clauses ≠ []

namespace CatchChain

variable {code : Array Instruction} {n exit : Nat} {clauses : List (Nat × Nat)}

theorem le (h : CatchChain code n clauses exit) : n ≤ exit := by
  induction clauses generalizing n with
  | nil => exact Nat.le_of_eq h
  | cons clause rest ih =>
    obtain ⟨rfl, hclause, hrest⟩ := h
    have hlt := hclause.lt
    have hle := ih hrest
    omega

theorem exists_first (h : CatchChain code n clauses exit) (hne : clauses ≠ []) :
    ∃ last, (n, last) ∈ clauses := by
  cases clauses with
  | nil => exact absurd rfl hne
  | cons clause rest =>
    obtain ⟨rfl, -, -⟩ := h
    exact ⟨clause.2, List.mem_cons_self⟩

/-- Behind a clause there is the next one, or they are over. -/
theorem clause (h : CatchChain code n clauses exit) {first last : Nat}
    (hmem : (first, last) ∈ clauses) : ClauseAt code first last ∧ n ≤ first ∧ last < exit ∧
      (last + 1 = exit ∨ ∃ last', (last + 1, last') ∈ clauses) := by
  induction clauses generalizing n with
  | nil => cases hmem
  | cons clause rest ih =>
    obtain ⟨rfl, hclause, hrest⟩ := h
    have hlt := hclause.lt
    rcases List.mem_cons.1 hmem with rfl | hmem
    · refine ⟨hclause, Nat.le_refl _, hrest.le, ?_⟩
      by_cases hne : rest = []
      · subst hne
        exact .inl hrest
      · obtain ⟨last', hlast'⟩ := hrest.exists_first hne
        exact .inr ⟨last', List.mem_cons_of_mem _ hlast'⟩
    · obtain ⟨hat, hle, hexit, hnext⟩ := ih hrest hmem
      refine ⟨hat, by omega, hexit, hnext.imp_right ?_⟩
      rintro ⟨last', hlast'⟩
      exact ⟨last', List.mem_cons_of_mem _ hlast'⟩

/-- Each index up to the end of the clauses is in one of them. -/
theorem locate (h : CatchChain code n clauses exit) {m : Nat} (hle : n ≤ m) (hlt : m < exit) :
    ∃ first last, (first, last) ∈ clauses ∧ first ≤ m ∧ m ≤ last := by
  induction clauses generalizing n with
  | nil =>
    obtain rfl : n = exit := h
    omega
  | cons clause rest ih =>
    obtain ⟨rfl, -, hrest⟩ := h
    by_cases hm : m ≤ clause.2
    · exact ⟨clause.1, clause.2, List.mem_cons_self, hle, hm⟩
    · obtain ⟨first, last, hmem, hbounds⟩ := ih hrest (by omega)
      exact ⟨first, last, List.mem_cons_of_mem _ hmem, hbounds⟩

end CatchChain

/-- A clause of the block begins at the index, or they are over there. -/
def TrySpan.Border (b : TrySpan) (n : Nat) : Prop := n = b.exit ∨ ∃ last, (n, last) ∈ b.clauses

/-! ## Where a machine finds clauses -/

section Search

open Wide.Act (findCatch skipCatches skipCatch remaining)

variable {code : Array Instruction}

/-- The search for a catch clause stops at the first one. -/
theorem findCatch_eq {n target : Nat} (hle : n ≤ target)
    (hquiet : ∀ m, n ≤ m → m < target → ∃ i ∈ code[m]?, i.op ≠ .catchBegin)
    (htarget : ∃ i ∈ code[target]?, i.op = .catchBegin) :
    findCatch code (code.size - n) n = target := by
  obtain ⟨i, hi, hop⟩ := htarget
  rw [Option.mem_def] at hi
  obtain ⟨hlt, -⟩ := Array.getElem?_eq_some_iff.1 hi
  obtain ⟨k, rfl⟩ := Nat.exists_eq_add_of_le hle
  induction k generalizing n with
  | zero =>
    rw [Nat.add_zero] at hi hlt
    rw [show code.size - n = code.size - (n + 1) + 1 by omega]
    simp [findCatch, Wide.place?_natCast hlt, hi, hop]
  | succ k ih =>
    obtain ⟨j, hj, hjop⟩ := hquiet n (Nat.le_refl _) (by omega)
    rw [Option.mem_def] at hj
    have hrest := ih (n := n + 1) (by omega) (fun m hm hm' => hquiet m (by omega) (by omega))
      (by rwa [show n + 1 + k = n + (k + 1) by omega]) (by omega)
    rw [show code.size - n = code.size - (n + 1) + 1 by omega]
    simp only [findCatch, Wide.place?_natCast (show n < code.size by omega), Option.bind_some, hj,
      if_neg hjop]
    rw [show (n : Int) + 1 = ((n + 1 : Nat) : Int) by omega, hrest]
    congr 1
    omega

/-- The handler of a try block knows the first clause of the block. -/
theorem TrySpan.In.findCatch_eq {b : TrySpan} (h : b.In code) :
    findCatch code (code.size - (b.start + 2)) (b.start + 2 : Nat) = (b.stop + 1 : Nat) := by
  have hlt := h.lt
  refine StackScript.findCatch_eq (by omega) (fun m hm hm' => ?_) ?_
  · rcases Nat.eq_or_lt_of_le (show m ≤ b.stop by omega) with rfl | hstop
    · obtain ⟨i, hi, hop⟩ := h.ends
      exact ⟨i, hi, by rw [hop]; decide⟩
    · obtain ⟨i, hi, hguarding, -⟩ := h.body m hstop (by omega)
      exact ⟨i, hi, fun hop => hguarding (by rw [hop]; decide)⟩
  · obtain ⟨last, hmem⟩ := h.chain.exists_first h.caught
    exact (h.chain.clause hmem).1.begins

theorem ClauseAt.catchBlock {first last : Nat} (h : ClauseAt code first last) :
    CatchBlock code first (code.extract (first + 1) last).toList ∧
      first + (code.extract (first + 1) last).toList.length + 2 = last + 1 := by
  have hlt := h.lt
  obtain ⟨i, hi, hop⟩ := h.ends
  obtain ⟨hbound, -⟩ := Array.getElem?_eq_some_iff.1 hi
  have hlength : (code.extract (first + 1) last).toList.length = last - (first + 1) := by
    simp
    omega
  refine ⟨⟨h.begins, fun k j hj => ?_, fun j hj => ?_, i, ?_, hop⟩, by omega⟩
  · obtain ⟨hk, -⟩ := List.getElem?_eq_some_iff.1 hj
    rw [Array.getElem?_toList, Array.getElem?_extract] at hj
    split at hj
    · exact hj
    · cases hj
  · obtain ⟨k, hk⟩ := List.getElem?_of_mem hj
    obtain ⟨hlt', -⟩ := List.getElem?_eq_some_iff.1 hk
    obtain ⟨m, hm, hguarding, -⟩ := h.body (first + 1 + k) (by omega) (by omega)
    rw [Array.getElem?_toList, Array.getElem?_extract, if_pos (by omega), hm] at hk
    cases hk
    exact ⟨fun hop => hguarding (by rw [hop]; decide), fun hop => hguarding (by rw [hop]; decide)⟩
  · rw [hlength, show first + 1 + (last - (first + 1)) = last by omega]
    exact hi

theorem ClauseAt.skipCatch_eq {first last : Nat} (h : ClauseAt code first last)
    (hsize : code.size ≤ Value.sizeLimit) :
    skipCatch code (remaining code (.at (first + 1 : Nat))) (.at (first + 1 : Nat)) =
      .at (last + 1 : Nat) := by
  rw [h.catchBlock.1.skipCatch_eq hsize, h.catchBlock.2]

theorem ClauseAt.skipCatches_eq {first last : Nat} (h : ClauseAt code first last)
    (hsize : code.size ≤ Value.sizeLimit) :
    skipCatches code (remaining code (.at first)) 0 (.at first) = .at (last + 1 : Nat) := by
  rw [h.catchBlock.1.skipCatches_eq hsize, h.catchBlock.2]

end Search

/-! ## Code of statements -/

/-- A statement without a try block, but for those of the functions in it. -/
inductive Stmt.Tryless : Stmt → Prop
  | of {s : Stmt} : (∀ body catches last, s ≠ .tryBlock body catches last) →
      (∀ part ∈ s.inner, Tryless part) → Tryless s

/-- The body and the clauses of a try statement that has a clause, and no other try statement in
them. -/
structure FlatTry (body : List Stmt) (catches : List CatchClause) : Prop where
  caught : catches ≠ []
  body : ∀ s ∈ body, s.Tryless
  clauses : ∀ s ∈ catches.flatMap (·.2.2), s.Tryless

/-- The code of a statement stands in the code, from an index up to another. -/
def Stmt.StandsIn (s : Stmt) (code : Array Instruction) (start stop : Nat) : Prop :=
  ∃ g g' : Generator, Gen.statement s g = .ok () g' ∧ g.code.size = start ∧ g'.code.size = stop ∧
    Stretch code start (g'.code.toList.drop start)

/-- A try block is what a try statement from `start` to `stop` has in the code: each clause has its
place, and nothing but a last block follows them. -/
structure TrySpan.Covers (b : TrySpan) (code : Array Instruction) (start stop : Nat)
    (catches : List CatchClause) (last : Option (List Stmt)) : Prop extends b.In code where
  starts : b.start = start
  count : b.clauses.length = catches.length
  exit_le : b.exit ≤ stop
  exit_eq : last = none → b.exit = stop

/-- An instruction of no try block that jumps, if at all, out of everything. -/
def Instruction.Free (i : Instruction) : Prop :=
  i.op ∉ Opcode.guarding ∧ (i.op ∈ Shape.jumps → i.operand = .int (-1))

theorem Shape.composed_free : Shape.Composed False (Shape.All Instruction.Free) := by
  refine Shape.composed_all (fun i h _ => ?_) False.elim
  have hop : i.op ∉ Opcode.guarding ∧ i.op ∉ Shape.jumps := by
    generalize i.op = op at h
    revert op
    decide
  exact ⟨hop.1, fun hjump => absurd hjump hop.2⟩

variable {s : Shape}

theorem Shape.All.roams (h : s.All Instruction.Free) {code : Array Instruction}
    {start : Nat} (hcode : Placed code start s) :
    Roams code start (start + s.size) start (start + s.size) := by
  intro n hhi hlo
  obtain ⟨k, rfl⟩ := Nat.exists_eq_add_of_le hlo
  have hk : k < (s.layout start).length := by
    rw [length_layout]
    omega
  have hi := List.getElem?_eq_getElem hk
  refine ⟨_, hcode k _ hi, ?_⟩
  rcases h.mem_layout start _ (List.getElem_mem hk) with
    ⟨hop, hjump⟩ | ⟨op, hop, target, heq, hbounds⟩
  · exact ⟨hop, fun hmem => ⟨-1, hjump hmem, by omega⟩⟩
  · rw [heq]
    refine ⟨?_, fun _ => ⟨target, rfl, by omega⟩⟩
    show op ∉ _
    clear heq
    revert op
    decide

theorem Scope.Rule.mark : Scope.Rule (fun _ => True) fun sc sc' => sc'.inWhile = sc.inWhile where
  refl _ := rfl
  trans h₁ h₂ := h₂.trans h₁
  inWhile h := h
  pushConstant _ _ := rfl
  putGlobal _ := rfl
  putLocal _ _ := rfl
  loop _ := rfl

theorem carried_tryless : Stmt.Carried (fun _ => True) (fun sc sc' => sc'.inWhile = sc.inWhile)
    False (fun _ => True) (fun _ s => s.Tryless) (Shape.All Instruction.Free) where
  rule := .mark
  basic := Datum.basic_all
  shape := Shape.composed_free.toCarried
  asked := Expr.asked_any
  composed := Shape.composed_free
  statement.exprs _ _ _ := trivial
  statement.inner := fun | .of _ hinner => hinner
  statement.out _ _ := ⟨by decide, fun _ => rfl⟩
  statement.attempt := fun | .of hne _ => absurd rfl (hne _ _ _)
  statement.function := by
    intro w name parameters body _ full
    have K := carried_literals Datum.basic_all fun _ _ _ _ _ => trivial
    have hany : ∀ d ∈ (Stmt.function name parameters body).literals, True := fun _ _ => trivial
    refine .inr fun sc a sc' hw hrun => ⟨?_, trivial⟩
    exact (K.routine hany full (K.stmts body) sc a sc' hw hrun).1.grows.inWhile
  statement.method _ _ _ _ _ := .of nofun nofun

/-- The shape lays out so many catch clauses. -/
def Shape.Clauses (count : Nat) (s : Shape) : Prop :=
  ∀ (code : Array Instruction) (start : Nat), Placed code start s →
    ∃ clauses, clauses.length = count ∧ CatchChain code start clauses (start + s.size)

theorem Shape.Clauses.cons {count : Nat} {i : Instruction} {name body rest : Shape}
    (hi : i.op = .catchBegin) (hname : name.All Instruction.Free)
    (hbody : body.All Instruction.Free) (hrest : rest.Clauses count) : Shape.Clauses (count + 1)
      ((one i).seq (name.seq (body.seq ((one ⟨.catchEnd, .null⟩).seq rest)))) := by
  intro code start hcode
  have hinside : Placed code (start + 1) ((name.seq body).seq ((one ⟨.catchEnd, .null⟩).seq rest)) :=
    hcode.rest.assoc
  have hsize : start + 1 + (name.seq body).size + 1 + rest.size = start +
      ((one i).seq (name.seq (body.seq ((one ⟨.catchEnd, .null⟩).seq rest)))).size := by
    simp only [size]
    omega
  obtain ⟨clauses, hlength, hchain⟩ := hrest code _ hinside.rest.rest
  have hfree : (name.seq body).All Instruction.Free := ⟨hname, hbody⟩
  refine ⟨(start, start + 1 + (name.seq body).size) :: clauses, by simp [hlength], rfl, ?_,
    hsize ▸ hchain⟩
  exact ⟨by omega, ⟨i, hcode.first.one, hi⟩, hfree.roams hinside.first, _, hinside.rest.first.one,
    rfl⟩

theorem begins_of_type {w : Bool} (type : Option String) :
    Plan.Carries (fun sc sc' => sc'.inWhile = sc.inWhile) w
      (match type with
      | some name => do Plan.opAt .catchBegin (← Plan.constant (.str name))
      | none => Plan.op .catchBegin)
      fun s => ∃ i : Instruction, s = .one i ∧ i.op = .catchBegin := by
  cases type with
  | some name => exact .bind .mark (.constant .mark trivial) fun k _ => .value .mark ⟨_, rfl, rfl⟩
  | none => exact .value .mark ⟨_, rfl, rfl⟩

theorem stores_of_target {w : Bool} (target : Option String) :
    Plan.Carries (fun sc sc' => sc'.inWhile = sc.inWhile) w
      (match target with
      | some name => Plan.storeName name
      | none => Plan.op .pop) (Shape.All Instruction.Free) := by
  cases target with
  | some name => exact carried_tryless.storeName name
  | none => exact carried_tryless.act (by decide)

theorem clauses_of_plan {w : Bool} : ∀ {catches : List CatchClause},
    (∀ s ∈ catches.flatMap (·.2.2), s.Tryless) →
    Plan.Carries (fun sc sc' => sc'.inWhile = sc.inWhile) w (Plan.catchClauses catches)
      (Shape.Clauses catches.length)
  | [], _ => .value .mark fun _ _ _ => ⟨[], rfl, rfl⟩
  | (type, target, body) :: rest, h => by
    have hbody := carried_tryless.stmts (w := w) body fun s hs => h s (List.mem_append_left _ hs)
    have hend : Plan.Carries (fun sc sc' => sc'.inWhile = sc.inWhile) w (Plan.op .catchEnd)
        (· = .one ⟨.catchEnd, .null⟩) := .value .mark rfl
    have hrest := clauses_of_plan (w := w) fun s hs => h s (List.mem_append_right _ hs)
    refine .before .mark (begins_of_type _) fun a ha => .before .mark (stores_of_target _)
      fun name hname => .before .mark hbody fun b hb => .before .mark hend fun c hc =>
      hrest.weaken fun more hmore => ?_
    obtain ⟨i, rfl, hi⟩ := ha
    rw [hc]
    exact .cons hi hname hb hmore

theorem Plan.andThen_ok {p q : Plan Shape} {sc sc' : Scope}
    (h : p.andThen q sc = .ok (s, sc')) : ∃ a sc₁ b, p sc = .ok (a, sc₁) ∧ q sc₁ = .ok (b, sc') ∧
      s = a.seq b := by
  obtain ⟨a, sc₁, ha, h⟩ := Plan.bind_ok.1 h
  obtain ⟨b, sc₂, hb, h⟩ := Plan.bind_ok.1 h
  cases h
  exact ⟨a, sc₁, b, ha, hb, rfl⟩

section Flat

variable {body : List Stmt} {catches : List CatchClause} {last : Option (List Stmt)}
  (hflat : FlatTry body catches)

include hflat

/-- The code of a try statement, with free code for its body. -/
theorem FlatTry.plan {sc sc' : Scope} {shape : Shape}
    (h : Plan.statement (.tryBlock body catches last) sc = .ok (shape, sc')) :
    ∃ inside clauses more : Shape, shape = (Shape.one ⟨.tryBegin, .null⟩).seq
        (inside.seq ((Shape.one ⟨.tryEnd, .null⟩).seq (clauses.seq more))) ∧
      inside.All Instruction.Free ∧ clauses.Clauses catches.length ∧
      (last = none → more = .nothing) ∧
      ∀ finale, last = some finale → finale ≠ [] → (∀ s ∈ finale, s.Tryless) →
        ∃ inner : Shape, inner.All Instruction.Free ∧ more = (Shape.one ⟨.finallyBegin, .null⟩).seq
          (inner.seq (.one ⟨.finallyEnd, .null⟩)) := by
  obtain ⟨q, hq, hnone, hsome⟩ : ∃ q, Plan.statement (.tryBlock body catches last) =
      (Plan.op .tryBegin).andThen ((Plan.statements body).andThen
        ((Plan.op .tryEnd).andThen ((Plan.catchClauses catches).andThen q))) ∧
      (last = none → q = pure .nothing) ∧ ∀ finale, last = some finale → finale ≠ [] →
        q = (Plan.op .finallyBegin).andThen ((Plan.statements finale).andThen
          (Plan.op .finallyEnd)) := by
    rcases last with _ | _ | ⟨first, rest⟩ <;> exact ⟨_, rfl, by simp⟩
  rw [hq] at h
  obtain ⟨_, _, _, ⟨⟩, h₁, rfl⟩ := Plan.andThen_ok h
  obtain ⟨inside, _, _, hinside, h₂, rfl⟩ := Plan.andThen_ok h₁
  obtain ⟨_, _, _, ⟨⟩, h₃, rfl⟩ := Plan.andThen_ok h₂
  obtain ⟨clauses, _, more, hclauses, hmore, rfl⟩ := Plan.andThen_ok h₃
  refine ⟨inside, clauses, more, rfl, (carried_tryless.stmts body hflat.body _ _ _ rfl hinside).2,
    (clauses_of_plan hflat.clauses _ _ _ rfl hclauses).2, fun hlast => ?_,
    fun finale hlast hne hfinale => ?_⟩
  · rw [hnone hlast] at hmore
    cases hmore
    rfl
  · rw [hsome finale hlast hne] at hmore
    obtain ⟨_, _, _, ⟨⟩, h₄, rfl⟩ := Plan.andThen_ok hmore
    obtain ⟨inner, _, _, hinner, ⟨⟩, rfl⟩ := Plan.andThen_ok h₄
    exact ⟨inner, (carried_tryless.stmts finale hfinale _ _ _ rfl hinner).2, rfl⟩

/-- Where the code of a try statement stands, there is a block for it, and for what comes last. -/
theorem FlatTry.lays {code : Array Instruction} {start stop : Nat}
    (hstands : (Stmt.tryBlock body catches last).StandsIn code start stop)
    (hsize : code.size ≤ Value.sizeLimit) : ∃ b : TrySpan, b.Covers code start stop catches last ∧
      ∀ finale, last = some finale → finale ≠ [] → (∀ s ∈ finale, s.Tryless) →
        ∃ n, stop = n + 1 ∧ LastBlock code b.exit n := by
  obtain ⟨g, g', hgen, rfl, rfl, hcode⟩ := hstands
  obtain ⟨_, _, hplan, hemits⟩ := (follows_statement _).of_ok hgen
  obtain ⟨inside, clauses, more, rfl, hinside, hclauses, hmore, hlast⟩ := hflat.plan hplan
  have hplaced : Placed code g.code.size ((Shape.one ⟨.tryBegin, .null⟩).seq
      (inside.seq ((Shape.one ⟨.tryEnd, .null⟩).seq (clauses.seq more)))) := by
    simpa [Placed, hemits.code] using hcode
  have hlength : g'.code.size = g.code.size + 1 + inside.size + 1 + clauses.size + more.size := by
    have hlength := congrArg List.length hemits.code
    simp [Shape.size] at hlength
    omega
  have hrest := hplaced.rest.rest
  obtain ⟨places, hplaces, hchain⟩ := hclauses code _ hrest.rest.first
  have hcaught : places ≠ [] :=
    List.ne_nil_of_length_pos (hplaces ▸ List.length_pos_iff.2 hflat.caught)
  refine ⟨⟨g.code.size, g.code.size + 1 + inside.size, places,
    g.code.size + 1 + inside.size + 1 + clauses.size⟩, ⟨⟨hsize, by simp only; omega,
    ⟨_, hplaced.first.one, rfl⟩, hinside.roams hplaced.rest.first, ⟨_, hrest.first.one, rfl⟩, hchain,
    hcaught⟩, rfl, hplaces, by simp only; omega, fun hnone => ?_⟩, fun finale hsome hne hfree => ?_⟩
  · rw [hlength, hmore hnone]
    rfl
  · obtain ⟨inner, hinner, rfl⟩ := hlast finale hsome hne hfree
    have hlast := hrest.rest.rest
    refine ⟨g.code.size + 1 + inside.size + 1 + clauses.size + 1 + inner.size, ?_,
      by simp only; omega, ⟨_, hlast.first.one, rfl⟩, hinner.roams hlast.rest.first,
      ⟨_, hlast.rest.rest.one, rfl⟩⟩
    simp only [hlength, Shape.size]
    omega

theorem FlatTry.covers {code : Array Instruction} {start stop : Nat}
    (hstands : (Stmt.tryBlock body catches last).StandsIn code start stop)
    (hsize : code.size ≤ Value.sizeLimit) : ∃ b : TrySpan, b.Covers code start stop catches last := by
  obtain ⟨b, hb, -⟩ := hflat.lays hstands hsize
  exact ⟨b, hb⟩

end Flat

end StackScript
