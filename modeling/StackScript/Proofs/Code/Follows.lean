import StackScript.Proofs.Code.Plan

/-!
# Steps of code generation and their plans

`Emits` says how a step of code generation may change a generator: the tables are given, the code of
the place grows by a block, and the main program stays as it is while a routine is under
construction. `Agrees` says that a step and its plan fail alike or succeed with such a block, and
`Agrees.next` is the rule for one step after another. With `Follows` the block is the layout of the
planned shape at the place where it starts.

The lemmas follow the ways in which steps are put together: one after another (`Follows.seq`), after
a look at the tables (`Follows.read`), and the forms that emit a jump first and fill in its target
later (`Follows.guarded`, `Follows.forLoop`, `Follows.whileLoop`, `Follows.chain`).
-/

namespace StackScript

/-! ## Generators that grow by a block -/

/-- The tables of a generator. -/
def Generator.scope (g : Generator) : Scope :=
  ⟨g.constants, g.globals, g.current.map (·.slots), g.routines, g.inWhile⟩

/-- A generator after a step that appended a block of instructions. -/
structure Emits (g : Generator) (block : List Instruction) (scope : Scope) (g' : Generator) :
    Prop where
  scope : g'.scope = scope
  code : g'.code.toList = g.code.toList ++ block
  main : g.current.isSome → g'.main = g.main
  heading : g'.current.map (fun r => (r.name, r.parameters)) =
    g.current.map (fun r => (r.name, r.parameters))

namespace Emits

variable {g g₁ g₂ : Generator} {a b : List Instruction} {sc sc₁ : Scope}

theorem refl (g : Generator) : Emits g [] g.scope g := by
  refine ⟨rfl, by simp, fun _ => rfl, rfl⟩

theorem isSome (h : Emits g a sc g₁) : g₁.current.isSome = g.current.isSome := by
  have := congrArg Option.isSome h.heading
  simpa using this

theorem trans (h₁ : Emits g a sc g₁) (h₂ : Emits g₁ b sc₁ g₂) : Emits g (a ++ b) sc₁ g₂ := by
  refine ⟨h₂.scope, ?_, ?_, h₂.heading.trans h₁.heading⟩
  · rw [h₂.code, h₁.code, List.append_assoc]
  · intro hs
    rw [h₂.main (h₁.isSome ▸ hs), h₁.main hs]

theorem size (h : Emits g a sc g₁) : g₁.code.size = g.code.size + a.length := by
  have := congrArg List.length h.code
  simpa using this

/-- Any change of the code of the place that amounts to appending a block. -/
theorem mapCode {f : Array Instruction → Array Instruction} (h : Emits g a sc g₁)
    (hf : (f g₁.code).toList = g.code.toList ++ b) : Emits g b sc (g₁.mapCode f) := by
  obtain ⟨hscope, -, hmain, hhead⟩ := h
  refine ⟨?_, ?_, fun hs => ?_, ?_⟩ <;> cases hc : g₁.current
  iterate 2 simpa [Generator.mapCode, Generator.scope, hc] using hscope
  iterate 2 simpa [Generator.mapCode, Generator.code, hc] using hf
  · rw [hc] at hhead
    cases hg : g.current <;> simp [hg] at hs hhead
  · simpa [Generator.mapCode, hc] using hmain hs
  · simpa [Generator.mapCode, hc] using hhead
  · simpa [Generator.mapCode, hc] using hhead

theorem emit (h : Emits g a sc g₁) (op : Opcode) (operand : Datum) :
    ∃ g₂, Gen.emit op operand g₁ = .ok () g₂ ∧ Emits g (a ++ [⟨op, operand⟩]) sc g₂ :=
  ⟨_, rfl, h.mapCode (by simp [h.code])⟩

theorem modify_middle {α : Type} (f : α → α) (pre : List α) (x : α) (post : List α) :
    (pre ++ x :: post).modify pre.length f = pre ++ f x :: post := by
  induction pre with
  | nil => rfl
  | cons y pre ih => simp [ih]

theorem emitAt (h : Emits g a sc g₁) (op : Opcode) (n : Nat) :
    ∃ g₂, Gen.emitAt op n g₁ = .ok () g₂ ∧ Emits g (a ++ [.to op n]) sc g₂ :=
  h.emit op (.int n)

/-- Filling in a target changes one instruction of the block. -/
theorem patch {i : Instruction} (h : Emits g (a ++ i :: b) sc g₁) (index target : Nat)
    (hi : index = g.code.size + a.length) :
    ∃ g₂, Gen.patch index target g₁ = .ok () g₂ ∧ Emits g (a ++ .to i.op target :: b) sc g₂ := by
  refine ⟨_, rfl, h.mapCode ?_⟩
  have hlen : index = (g.code.toList ++ a).length := by simpa using hi
  rw [Array.toList_modify, h.code, hlen, ← List.append_assoc, modify_middle, List.append_assoc]
  rfl

end Emits

/-! ## Steps and their plans -/

variable {α β γ δ : Type}

theorem Plan.bind_ok {p : Plan α} {q : α → Plan β} {sc sc' : Scope} {b : β} :
    (p >>= q) sc = .ok (b, sc') ↔ ∃ a sc₁, p sc = .ok (a, sc₁) ∧ q a sc₁ = .ok (b, sc') := by
  show (StateT.bind p q) sc = _ ↔ _
  unfold StateT.bind
  cases h : p sc with
  | error e => simp [bind, Except.bind]
  | ok r =>
    obtain ⟨a, sc₁⟩ := r
    refine ⟨fun hq => ⟨a, sc₁, rfl, hq⟩, ?_⟩
    rintro ⟨_, _, hp, hq⟩
    cases hp
    exact hq

/-- The code of a routine is planned with its parameters in slots, and entered in the table. -/
theorem Plan.routine_ok {name : String} {parameters : List String} {body : Plan Shape} {a : Unit}
    {sc sc' : Scope} (h : Plan.routine name parameters body sc = .ok (a, sc')) :
    ∃ shape sc₁ code sc₂,
      body { sc with locals := some (Slots.ofParameters parameters) } = .ok (shape, sc₁) ∧
      Plan.withReturn (shape.layout 0) sc₁ = .ok (code, sc₂) ∧ sc' = { sc₂ with
        routines := Generator.putRoutine ⟨name, parameters, sc₂.locals.getD [], code.toArray⟩
          sc₂.routines
        locals := sc.locals } := by
  obtain ⟨_, _, ⟨⟩, h⟩ := Plan.bind_ok.1 h
  obtain ⟨_, _, ⟨⟩, h⟩ := Plan.bind_ok.1 h
  obtain ⟨shape, sc₁, hshape, h⟩ := Plan.bind_ok.1 h
  obtain ⟨code, sc₂, hcode, h⟩ := Plan.bind_ok.1 h
  cases h
  exact ⟨shape, sc₁, code, sc₂, hshape, hcode, rfl⟩

theorem Plan.withLoop_ok {w : Bool} {body : Plan Shape} {shape : Shape} {sc sc' : Scope}
    (h : Plan.withLoop w body sc = .ok (shape, sc')) :
    ∃ sc₁, body { sc with inWhile := w } = .ok (shape, sc₁) ∧
      sc' = { sc₁ with inWhile := sc.inWhile } := by
  obtain ⟨_, _, ⟨⟩, h⟩ := Plan.bind_ok.1 h
  obtain ⟨_, _, ⟨⟩, h⟩ := Plan.bind_ok.1 h
  obtain ⟨_, sc₁, hshape, h⟩ := Plan.bind_ok.1 h
  cases h
  exact ⟨sc₁, hshape, rfl⟩

theorem Plan.get_bind (f : Scope → Plan α) (sc : Scope) : (get >>= f) sc = f sc sc := rfl

variable {p : Plan (List (Shape × Shape))} {target : Datum} {m : Gen (List Nat)} {k : α → Gen β}
  {g₁ g : Generator}

theorem Gen.bind_ok {m : Gen α} {s : Generator} {a : α}
    {r : EStateM.Result CompileError Generator β} (h : m g = .ok a s) (hk : k a s = r) :
    (m >>= k) g = r := by
  show EStateM.bind m k g = _
  simp [EStateM.bind, h, hk]

theorem Gen.bind_error {m : Gen α} {e : CompileError}
    (h : m g = .error e g₁) : (m >>= k) g = .error e g₁ := by
  show EStateM.bind m k g = _
  simp [EStateM.bind, h]

theorem Gen.get_bind (f : Generator → Gen α) (g : Generator) : (get >>= f) g = f g g := rfl

theorem Gen.here_eq (g : Generator) : Gen.here g = .ok g.code.size g := rfl

/-- Code generation that started from `g` and its plan fail alike, or they yield results, and the
block in between is as demanded. -/
inductive Agrees (g : Generator) (Q : α → β → List Instruction → Prop) :
    EStateM.Result CompileError Generator α → Except CompileError (β × Scope) → Prop
  | ok {a : α} {b : β} {block : List Instruction} {sc : Scope} {g' : Generator}
      (he : Emits g block sc g') (hQ : Q a b block) : Agrees g Q (.ok a g') (.ok (b, sc))
  | error (e : CompileError) (g' : Generator) : Agrees g Q (.error e g') (.error e)

namespace Agrees

variable {g g₁ g₂ : Generator} {sc : Scope} {block : List Instruction} {m : Gen α} {k : α → Gen γ}
  {p : Plan β} {Q : α → β → List Instruction → Prop}

theorem bind {g₀ : Generator} {q : β → Plan δ} {R : γ → δ → List Instruction → Prop}
    (h : Agrees g₀ Q (m g₁) (p sc)) (hk : ∀ a b rest g₂, Emits g₀ rest g₂.scope g₂ → Q a b rest →
      Agrees g R (k a g₂) (q b g₂.scope)) : Agrees g R ((m >>= k) g₁) ((p >>= q) sc) := by
  show Agrees g R (EStateM.bind m k g₁) (StateT.bind p q sc)
  unfold EStateM.bind StateT.bind
  generalize m g₁ = x at h ⊢
  generalize p sc = y at h ⊢
  cases h with
  | error e g' => exact .error e g'
  | ok he hQ =>
    cases he.scope
    exact hk _ _ _ _ he hQ

theorem next {q : β → Plan δ} {R : γ → δ → List Instruction → Prop} (he : Emits g block sc g₁)
    (h : Agrees g₁ Q (m g₁) (p g₁.scope))
    (hk : ∀ a b rest g₂, Emits g (block ++ rest) g₂.scope g₂ → Q a b rest →
      Agrees g R (k a g₂) (q b g₂.scope)) : Agrees g R ((m >>= k) g₁) ((p >>= q) sc) := by
  rw [← he.scope]
  exact bind h fun a b rest g₂ he' => hk a b rest g₂ (he.trans he')

variable {y : Except CompileError (β × Scope)} {a : α}

theorem behind {x : EStateM.Result CompileError Generator α}
    {R : α → β → List Instruction → Prop} (he : Emits g block sc g₁) (h : Agrees g₁ Q x y)
    (hR : ∀ a b rest, Q a b rest → R a b (block ++ rest)) : Agrees g R x y := by
  cases h with
  | error e g' => exact .error e g'
  | ok he' hQ => exact .ok (he.trans he') (hR _ _ _ hQ)

theorem last {f : β → δ} {R : α → δ → List Instruction → Prop} (he : Emits g block sc g₁)
    (h : Agrees g₁ Q (m g₁) (p g₁.scope)) (hf : ∀ a b rest, Q a b rest → R a (f b) (block ++ rest)) :
    Agrees g R (m g₁) ((p >>= fun b => pure (f b)) sc) := by
  have hnext := next (k := pure) (q := fun b => pure (f b)) (R := R) he h
    fun a b rest g₂ he' hQ => .ok he' (hf a b rest hQ)
  rwa [bind_pure] at hnext

theorem run {R : γ → β → List Instruction → Prop}
    (hm : m g₁ = .ok a g₂) (h : Agrees g R (k a g₂) y) : Agrees g R ((m >>= k) g₁) y := by
  rwa [Gen.bind_ok hm rfl]

theorem done {b : β} (hm : m g₁ = .ok a g₂) (he : Emits g block sc g₂) (hQ : Q a b block) :
    Agrees g Q (m g₁) (.ok (b, sc)) :=
  hm ▸ .ok he hQ

end Agrees

/-- A step of code generation that lays out what is planned. -/
def Follows (m : Gen Unit) (p : Plan Shape) : Prop :=
  ∀ g, Agrees g (fun _ shape block => block = shape.layout g.code.size) (m g) (p g.scope)

/-- A step of code generation that emits nothing and yields what is planned. -/
def Reads (m : Gen α) (p : Plan α) : Prop :=
  ∀ g, Agrees g (fun a b block => a = b ∧ block = []) (m g) (p g.scope)

theorem Follows.ok {m : Gen Unit} {p : Plan Shape} (h : Follows m p) {shape : Shape}
    {sc : Scope} (hp : p g.scope = .ok (shape, sc)) :
    ∃ g', m g = .ok () g' ∧ Emits g (shape.layout g.code.size) sc g' := by
  have hg := h g
  rw [hp] at hg
  cases hg' : m g with
  | error e g' =>
    rw [hg'] at hg
    cases hg
  | ok a g' =>
    rw [hg'] at hg
    cases hg with | ok he hQ => exact ⟨g', rfl, hQ ▸ he⟩

theorem Follows.error {m : Gen Unit} {p : Plan Shape} (h : Follows m p)
    {e : CompileError} (hp : p g.scope = .error e) : ∃ g', m g = .error e g' := by
  have hg := h g
  rw [hp] at hg
  cases hg' : m g with
  | error e g' =>
    rw [hg'] at hg
    cases hg
    exact ⟨g', rfl⟩
  | ok a g' =>
    rw [hg'] at hg
    cases hg

/-! ## Tables -/

namespace Reads

theorem value (a : α) : Reads (pure a) (pure a) := fun g => .ok (.refl g) ⟨rfl, rfl⟩

theorem bind {x : Gen α} {y : Plan α} {q : α → Plan β}
    (h : Reads x y) (hk : ∀ a, Reads (k a) (q a)) : Reads (x >>= k) (y >>= q) := by
  intro g
  refine .next (.refl g) (h g) fun a b rest g₁ he ⟨hab, hrest⟩ => ?_
  subst hab hrest
  exact .behind he (hk a g₁) fun _ _ _ h => h

theorem lift (x : Except CompileError α) : Reads (Gen.lift x) (Plan.lift x) := by
  intro g
  cases x with
  | error e => exact .error e g
  | ok a => exact .ok (.refl g) ⟨rfl, rfl⟩

theorem constant (d : Datum) : Reads (Gen.constant d) (Plan.constant d) := by
  intro g
  rw [Gen.constant, Gen.get_bind, Plan.constant, show g.scope.constants = g.constants from rfl]
  cases g.constants.findIdx? (fun c => c.same d) with
  | some i => exact .ok (.refl g) ⟨rfl, rfl⟩
  | none => exact .ok ⟨rfl, by simp [Generator.code], fun _ => rfl, rfl⟩ ⟨rfl, rfl⟩

theorem globalSlot (name : String) : Reads (Gen.globalSlot name) (Plan.globalSlot name) := by
  intro g
  rw [Gen.globalSlot, Gen.get_bind, Plan.globalSlot, show g.scope.globals = g.globals from rfl]
  cases g.globals.slot? name with
  | some i => exact .ok (.refl g) ⟨rfl, rfl⟩
  | none => exact .ok ⟨rfl, by simp [Generator.code], fun _ => rfl, rfl⟩ ⟨rfl, rfl⟩

theorem localSlot (name : String) : Reads (Gen.localSlot name) (Plan.localSlot name) := by
  intro g
  rw [Gen.localSlot, Gen.get_bind, Plan.localSlot,
    show g.scope.locals = g.current.map (·.slots) from rfl]
  cases hc : g.current with
  | none => exact .error _ g
  | some r =>
    rw [Option.map_some]
    cases hslot : r.slots.slot? name with
    | some i =>
      simp only [hslot]
      exact .ok (.refl g) ⟨rfl, rfl⟩
    | none =>
      simp only [hslot]
      refine .ok ⟨?_, ?_, fun _ => rfl, ?_⟩ ⟨rfl, rfl⟩ <;> simp [Generator.scope, Generator.code, hc]

end Reads

namespace Follows

variable {m m' : Gen Unit} {p q : Plan Shape}

theorem seq (h : Follows m p) (h' : Follows m' q) : Follows (do m; m') (p.andThen q) := by
  intro g
  refine .next (.refl g) (h g) fun _ a block g₁ he hblock => .last he (h' g₁) ?_
  rintro - b rest rfl
  subst hblock
  rw [he.size]
  simp [Shape.layout]

theorem nothing : Follows (pure ()) (pure .nothing) := fun g => .ok (.refl g) rfl

theorem failing (e : CompileError) : Follows (throw e) (throw e) := fun g => .error e g

theorem emit (op : Opcode) (operand : Datum) :
    Follows (Gen.emit op operand) (pure (.one ⟨op, operand⟩)) := by
  intro g
  obtain ⟨g₁, hg₁, he⟩ := (Emits.refl g).emit op operand
  exact .done hg₁ he rfl

theorem op (op : Opcode) : Follows (Gen.emit' op) (Plan.op op) := emit op .null

theorem opAt (op : Opcode) (n : Nat) : Follows (Gen.emitAt op n) (Plan.opAt op n) :=
  emit op (.int n)

theorem read {x : Gen α} {y : Plan α} {k : α → Gen Unit} {q : α → Plan Shape} (h : Reads x y)
    (hk : ∀ a, Follows (k a) (q a)) : Follows (x >>= k) (y >>= q) := by
  intro g
  refine .next (.refl g) (h g) fun a b rest g₁ he ⟨hab, hrest⟩ => ?_
  subst hab hrest
  refine .behind he (hk a g₁) fun _ shape rest hrest => ?_
  rw [hrest, he.size]
  rfl

theorem each {f : α → Gen Unit} {q : α → Plan Shape} (h : ∀ a, Follows (f a) (q a)) :
    ∀ items : List α, Follows (items.forM f) (Plan.each q items)
  | [] => nothing
  | a :: rest => by
    show Follows (do f a; rest.forM f) _
    exact (h a).seq (each h rest)

/-- What a step sees of a generator is what the plan sees of its tables. -/
theorem inspect (f : Generator → α) (f' : Scope → α) (h : ∀ g, f g = f' g.scope)
    {k : α → Gen Unit} {q : α → Plan Shape} (hk : ∀ a, Follows (k a) (q a)) :
    Follows (do k (f (← get))) (do q (f' (← get))) := by
  intro g
  show Agrees g _ (k (f g) g) (q (f' g.scope) g.scope)
  rw [h g]
  exact hk _ g

theorem loadConst (d : Datum) : Follows (Gen.loadConst d) (Plan.loadConst d) :=
  read (Reads.constant d) fun _ => opAt _ _

theorem inside (h : Follows m p) (h' : Follows m' q) :
    Follows (do if (← get).current.isSome then m else m')
      (do if (← get).locals.isSome then p else q) := by
  refine inspect (fun g => g.current.isSome) (fun sc => sc.locals.isSome)
    (fun g => by simp [Generator.scope])
    (k := fun b => if b then _ else _) (q := fun b => if b then _ else _) ?_
  rintro (_ | _)
  · exact h'
  · exact h

/-- The slot of a name, where it is known. -/
theorem known {look : Generator → Option Nat} {look' : Scope → Option Nat}
    (hlook : ∀ g, look g = look' g.scope) {k : Nat → Gen Unit} {r : Nat → Plan Shape}
    (hk : ∀ slot, Follows (k slot) (r slot)) (h : Follows m p) :
    Follows
      (do
        match look (← get) with
        | some slot => k slot
        | none => m)
      (do
        match look' (← get) with
        | some slot => r slot
        | none => p) := by
  refine inspect look look' hlook
    (k := fun | some slot => _ | none => _) (q := fun | some slot => _ | none => _) ?_
  rintro (_ | slot)
  · exact h
  · exact hk slot

theorem slot?_locals (name : String) (g : Generator) :
    (g.current.bind fun r => r.slots.slot? name) = g.scope.locals.bind (·.slot? name) := by
  cases h : g.current <;> simp [Generator.scope, h]

theorem slot?_globals (name : String) (g : Generator) :
    g.globals.slot? name = g.scope.globals.slot? name := rfl

theorem atGlobal (op : Opcode) (name : String) : Follows (do Gen.emitAt op (← Gen.globalSlot name))
    (do Plan.opAt op (← Plan.globalSlot name)) :=
  read (Reads.globalSlot name) fun _ => opAt _ _

theorem atLocal (op : Opcode) (name : String) : Follows (do Gen.emitAt op (← Gen.localSlot name))
    (do Plan.opAt op (← Plan.localSlot name)) :=
  read (Reads.localSlot name) fun _ => opAt _ _

theorem storeName (name : String) : Follows (Gen.storeName name) (Plan.storeName name) :=
  inside (atLocal _ name) (atGlobal _ name)

theorem loadName (name : String) : Follows (Gen.loadName name) (Plan.loadName name) :=
  known (slot?_locals name) (fun _ => opAt _ _) (atGlobal _ name)

theorem loadCallee (name : String) : Follows (Gen.loadCallee name) (Plan.loadCallee name) :=
  known (slot?_locals name) (fun _ => opAt _ _)
    (known (slot?_globals name) (fun _ => opAt _ _) (loadConst _))

theorem assignName (name : String) : Follows (Gen.assignName name) (Plan.assignName name) :=
  inside (known (slot?_globals name) (fun _ => opAt _ _) (atLocal _ name)) (atGlobal _ name)

/-! ## Forms with jumps -/

theorem guarded (h : Follows m p) :
    Follows
      (do
        let skip ← Gen.here
        Gen.emitAt .jumpIfFalse 0
        m
        Gen.patch skip (← Gen.here))
      (Plan.into .guarded p) := by
  intro g
  obtain ⟨g₁, hg₁, he₁⟩ := (Emits.refl g).emitAt .jumpIfFalse 0
  refine .run (Gen.here_eq g) (.run hg₁ (.next he₁ (h g₁) fun _ body rest g₂ he₂ hrest => ?_))
  obtain ⟨g₃, hg₃, he₃⟩ := he₂.patch (a := []) g.code.size g₂.code.size rfl
  refine .run (Gen.here_eq g₂) (.done hg₃ he₃ ?_)
  have hstart : g₁.code.size = g.code.size + 1 := he₁.size
  have hstop : g₂.code.size = g.code.size + 1 + body.size := by
    rw [he₂.size, hrest]
    simp
    omega
  rw [hrest, hstop, hstart]
  rfl

theorem forLoop (h : Follows m p) :
    Follows
      (do
        let start ← Gen.here
        Gen.emitAt .forIter 0
        m
        Gen.emitAt .jump start
        Gen.patch start (← Gen.here))
      (Plan.into .forLoop p) := by
  intro g
  obtain ⟨g₁, hg₁, he₁⟩ := (Emits.refl g).emitAt .forIter 0
  refine .run (Gen.here_eq g) (.run hg₁ (.next he₁ (h g₁) fun _ body rest g₂ he₂ hrest => ?_))
  obtain ⟨g₃, hg₃, he₃⟩ := he₂.emitAt .jump g.code.size
  obtain ⟨g₄, hg₄, he₄⟩ := he₃.patch (a := []) g.code.size g₃.code.size rfl
  refine .run hg₃ (.run (Gen.here_eq g₃) (.done hg₄ he₄ ?_))
  have hstart : g₁.code.size = g.code.size + 1 := he₁.size
  have hstop : g₃.code.size = g.code.size + body.size + 2 := by
    rw [he₃.size, hrest]
    simp
    omega
  rw [hrest, hstop, hstart]
  rfl

theorem whileLoop (h : Follows m p) (h' : Follows m' q) :
    Follows
      (do
        let start ← Gen.here
        m
        let leave ← Gen.here
        Gen.emitAt .jumpIfFalse 0
        m'
        Gen.emitAt .jump start
        Gen.patch leave (← Gen.here))
      (do
        let condition ← p
        return .whileLoop condition (← q)) := by
  intro g
  refine .run (Gen.here_eq g) (.next (.refl g) (h g) fun _ c block g₁ he₁ hc => ?_)
  obtain ⟨g₂, hg₂, he₂⟩ := he₁.emitAt .jumpIfFalse 0
  refine .run (Gen.here_eq g₁) (.run hg₂ (.next he₂ (h' g₂) fun _ b rest g₃ he₃ hb => ?_))
  obtain ⟨g₄, hg₄, he₄⟩ := he₃.emitAt .jump g.code.size
  rw [List.append_assoc, List.append_assoc] at he₄
  obtain ⟨g₅, hg₅, he₅⟩ := he₄.patch g₁.code.size g₄.code.size he₁.size
  refine .run hg₄ (.run (Gen.here_eq g₄) (.done hg₅ he₅ ?_))
  have hstart : g₂.code.size = g.code.size + c.size + 1 := by
    rw [he₂.size, hc]
    simp
    omega
  have hstop : g₄.code.size = g.code.size + c.size + b.size + 2 := by
    rw [he₄.size, hb, hc]
    simp
    omega
  rw [hb, hc, hstop, hstart]
  simp [Shape.layout, Instruction.to]

theorem repeatLoop (h : Follows m p) :
    Follows
      (do
        let start ← Gen.here
        m
        Gen.emitAt .jumpIfTrue start)
      (Plan.into .repeatLoop p) := by
  intro g
  refine .run (Gen.here_eq g) (.next (.refl g) (h g) fun _ body block g₁ he₁ hblock => ?_)
  obtain ⟨g₂, hg₂, he₂⟩ := he₁.emitAt .jumpIfTrue g.code.size
  exact .done hg₂ he₂ (by rw [hblock]; rfl)

end Follows

/-! ## Alternatives

The clauses of a chain are emitted with open jumps to its end, which are filled in once the end is
known. -/

namespace Shape

/-- How many instructions clauses have. -/
def clausesSize : List (Shape × Shape) → Nat
  | [] => 0
  | (condition, body) :: rest => condition.size + body.size + 2 + clausesSize rest

/-- The instructions of clauses whose bodies lead to a given target. -/
def clausesLayout (target : Datum) : List (Shape × Shape) → Nat → List Instruction
  | [], _ => []
  | (condition, body) :: rest, start =>
    condition.layout start ++
      (.to .jumpIfFalse (start + condition.size + body.size + 2) ::
        body.layout (start + condition.size + 1) ++
      ⟨.jump, target⟩ :: clausesLayout target rest (start + condition.size + body.size + 2))

/-- The indices of the jumps from the bodies of clauses. -/
def clausesLeaves : List (Shape × Shape) → Nat → List Nat
  | [], _ => []
  | (condition, body) :: rest, start =>
    (start + condition.size + body.size + 1) ::
      clausesLeaves rest (start + condition.size + body.size + 2)

@[simp] theorem length_clausesLayout (target : Datum) (clauses : List (Shape × Shape))
    (start : Nat) : (clausesLayout target clauses start).length = clausesSize clauses := by
  induction clauses generalizing start with
  | nil => rfl
  | cons clause rest ih => simp [clausesLayout, clausesSize, ih]; omega

theorem size_chain (clauses : List (Shape × Shape)) (last : Shape) :
    (chain clauses last).size = clausesSize clauses + last.size := by
  induction clauses with
  | nil => simp [chain, clausesSize]
  | cons clause rest ih => simp [chain, clausesSize, size, ih]; omega

theorem layout_chain (clauses : List (Shape × Shape)) (last : Shape) (start stop : Nat)
    (hstop : stop = start + clausesSize clauses + last.size) : (chain clauses last).layout start =
      clausesLayout (.int stop) clauses start ++ last.layout (start + clausesSize clauses) := by
  induction clauses generalizing start with
  | nil => simp [chain, clausesLayout, clausesSize]
  | cons clause rest ih =>
    obtain ⟨c, b⟩ := clause
    simp only [clausesSize] at hstop
    have hrest := ih (start + c.size + b.size + 2) (by omega)
    have hend : start + c.size + b.size + 2 + (chain rest last).size = stop := by
      rw [size_chain]
      omega
    simp only [chain, layout, hend, hrest, clausesLayout, clausesSize, Instruction.to]
    simp [Nat.add_assoc]

end Shape

theorem Emits.patchLeaves {sc : Scope} (stop : Nat)
    (clauses : List (Shape × Shape)) {start : Nat} {a b : List Instruction}
    (h : Emits g (a ++ (Shape.clausesLayout target clauses start ++ b)) sc g₁)
    (hstart : start = g.code.size + a.length) :
    ∃ g₂, (Shape.clausesLeaves clauses start).forM (fun leave => Gen.patch leave stop) g₁ = .ok () g₂ ∧
      Emits g (a ++ (Shape.clausesLayout (.int stop) clauses start ++ b)) sc g₂ := by
  induction clauses generalizing start a g₁ with
  | nil => exact ⟨g₁, rfl, h⟩
  | cons clause rest ih =>
    obtain ⟨c, body⟩ := clause
    -- the block up to the jump of the first clause
    let front := a ++ (c.layout start ++
      .to .jumpIfFalse (start + c.size + body.size + 2) :: body.layout (start + c.size + 1))
    have hfront : front.length = a.length + c.size + body.size + 1 := by
      simp [front]
      omega
    have h₁ : Emits g (front ++ ⟨.jump, target⟩ ::
        (Shape.clausesLayout target rest (start + c.size + body.size + 2) ++ b)) sc g₁ := by
      simpa [front, Shape.clausesLayout] using h
    obtain ⟨g₂, hg₂, e₂⟩ := h₁.patch (start + c.size + body.size + 1) stop (by omega)
    obtain ⟨g₃, hg₃, e₃⟩ := ih (a := front ++ [.to .jump stop]) (by simpa using e₂)
      (by simp [hfront]; omega)
    refine ⟨g₃, Gen.bind_ok hg₂ hg₃, ?_⟩
    simpa [front, Shape.clausesLayout, Instruction.to] using e₃

/-- Clauses that are emitted with open ends; the step yields where these are. -/
def FollowsOpen (target : Datum) (m : Gen (List Nat)) (p : Plan (List (Shape × Shape))) : Prop :=
  ∀ g, Agrees g (fun leaves clauses block => leaves = Shape.clausesLeaves clauses g.code.size ∧
    block = Shape.clausesLayout target clauses g.code.size) (m g) (p g.scope)

theorem FollowsOpen.nil (target : Datum) : FollowsOpen target (pure []) (pure []) :=
  fun g => .ok (.refl g) ⟨rfl, rfl⟩

theorem FollowsOpen.cons {condition body : Gen Unit}
    {c b : Plan Shape} (hc : Follows condition c)
    (hb : Follows body b) (h : FollowsOpen target m p) :
    FollowsOpen target
      (do
        condition
        let skip ← Gen.here
        Gen.emit .jumpIfFalse target
        body
        let leave ← Gen.here
        Gen.emit .jump target
        Gen.patch skip (← Gen.here)
        return leave :: (← m))
      (do
        let condition ← c
        let body ← b
        return (condition, body) :: (← p)) := by
  intro g
  refine .next (.refl g) (hc g) fun _ c block g₁ he₁ hc => .run (Gen.here_eq g₁) ?_
  obtain ⟨g₂, hg₂, he₂⟩ := he₁.emit .jumpIfFalse target
  refine .run hg₂ (.next he₂ (hb g₂) fun _ b rest g₃ he₃ hb => .run (Gen.here_eq g₃) ?_)
  obtain ⟨g₄, hg₄, he₄⟩ := he₃.emit .jump target
  rw [List.append_assoc, List.append_assoc] at he₄
  obtain ⟨g₅, hg₅, he₅⟩ := he₄.patch g₁.code.size g₄.code.size he₁.size
  refine .run hg₄ (.run (Gen.here_eq g₄) (.run hg₅ ?_))
  refine .next he₅ (h g₅) fun _ clauses more g₆ he₆ ⟨hleaves, hmore⟩ => .ok he₆ ?_
  have hstart : g₂.code.size = g.code.size + c.size + 1 := by
    rw [he₂.size, hc]
    simp
    omega
  have hleave : g₃.code.size = g.code.size + c.size + b.size + 1 := by
    rw [he₃.size, hb, hc]
    simp
    omega
  have hnext : g₄.code.size = g.code.size + c.size + b.size + 2 := by
    rw [he₄.size, hb, hc]
    simp
    omega
  have hnext' : g₅.code.size = g.code.size + c.size + b.size + 2 := by
    rw [he₅.size, hb, hc]
    simp
    omega
  rw [hleaves, hmore, hleave, hnext', hb, hc, hnext, hstart]
  exact ⟨rfl, by simp [Shape.clausesLayout, Instruction.to]⟩

theorem Follows.chain {last : Gen Unit}
    {q : Plan Shape} (h : FollowsOpen target m p)
    (hl : Follows last q) :
    Follows
      (do
        let ends ← m
        last
        let stop ← Gen.here
        ends.forM fun leave => Gen.patch leave stop)
      (do
        let clauses ← p
        let last ← q
        return .chain clauses last) := by
  intro g
  refine .next (.refl g) (h g) fun _ clauses block g₁ he₁ ⟨hleaves, hblock⟩ => ?_
  subst hleaves hblock
  refine .next he₁ (hl g₁) fun _ last rest g₂ he₂ hrest => .run (Gen.here_eq g₂) ?_
  obtain ⟨g₃, hg₃, he₃⟩ := Emits.patchLeaves (a := []) g₂.code.size clauses he₂ rfl
  refine .done hg₃ he₃ ?_
  have hlast : g₁.code.size = g.code.size + Shape.clausesSize clauses := by
    simpa using he₁.size
  have hstop : g₂.code.size = g.code.size + Shape.clausesSize clauses + last.size := by
    rw [he₂.size, hrest]
    simp
    omega
  rw [Shape.layout_chain clauses last _ _ hstop, ← hlast, hrest]
  rfl

end StackScript
