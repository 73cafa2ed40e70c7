import StackScript.Proofs.Code.Entered

/-!
# Which variable a name stands for in a routine

An assignment looks for a name among the globals first, a read among the names of the routine first.
Both tables grow while the routine is compiled, so the answer depends on the place.
-/

namespace StackScript

/-- A variable as an instruction names it: a slot of the main program or of the running call. -/
inductive Variable where
  | main (slot : Nat)
  | call (slot : Nat)
  deriving DecidableEq, Repr

namespace Variable

/-- The instruction that writes a variable. -/
def store : Variable → Instruction
  | main slot => .to .storeGlobal slot
  | call slot => .to .storeLocal slot

/-- The instruction that reads a variable. -/
def load : Variable → Instruction
  | main slot => .to .loadGlobal slot
  | call slot => .to .loadLocal slot

theorem to_inj {op op' : Opcode} {n m : Nat} (h : Instruction.to op n = .to op' m) :
    op = op' ∧ n = m := by
  obtain ⟨hop, hnumber⟩ := Instruction.mk.inj h
  exact ⟨hop, Int.ofNat.inj (Datum.int.inj hnumber)⟩

theorem store_inj {x y : Variable} (h : x.store = y.store) : x = y := by
  cases x <;> cases y <;> obtain ⟨hop, rfl⟩ := to_inj h <;> first | rfl | cases hop

theorem load_inj {x y : Variable} (h : x.load = y.load) : x = y := by
  cases x <;> cases y <;> obtain ⟨hop, rfl⟩ := to_inj h <;> first | rfl | cases hop

end Variable

namespace Generator

/-- The slot of a name among the globals. -/
def global? (g : Generator) (name : String) : Option Nat := g.globals.slot? name

/-- The slot of a name in the routine of the place. -/
def local? (g : Generator) (name : String) : Option Nat :=
  g.current.bind fun routine => routine.slots.slot? name

/-- The variable that an assignment right before the place has written. -/
def assigned? (g : Generator) (name : String) : Option Variable :=
  match g.global? name with
  | some slot => some (.main slot)
  | none => (g.local? name).map .call

/-- The variable that a read right before the place has loaded. -/
def read? (g : Generator) (name : String) : Option Variable :=
  match g.local? name with
  | some slot => some (.call slot)
  | none => (g.global? name).map .main

/-- A later place of the same routine: the tables have only grown. -/
structure Later (g g' : Generator) : Prop where
  globals : g.globals <+: g'.globals
  locals : ∃ routine routine', g.current = some routine ∧ g'.current = some routine' ∧
    routine.slots <+: routine'.slots

variable {g g' g'' : Generator} {name : String} {k : Nat}

namespace Later

theorem isSome_left (h : Later g g') : g.current.isSome := by
  obtain ⟨_, _, hroutine, -, -⟩ := h.locals
  simp [hroutine]

theorem isSome_right (h : Later g g') : g'.current.isSome := by
  obtain ⟨_, _, -, hroutine, -⟩ := h.locals
  simp [hroutine]

theorem trans (h : Later g g') (h' : Later g' g'') : Later g g'' := by
  obtain ⟨r, r', hr, hr', hslots⟩ := h.locals
  obtain ⟨s, s', hs, hs', hslots'⟩ := h'.locals
  rw [hr'] at hs
  cases hs
  exact ⟨h.globals.trans h'.globals, r, s', hr, hs', hslots.trans hslots'⟩

theorem global? (h : Later g g') (hk : g.global? name = some k) : g'.global? name = some k := by
  obtain ⟨more, hmore⟩ := h.globals
  show g'.globals.slot? name = some k
  rw [← hmore]
  exact Slots.slot?_append_left hk

theorem local? (h : Later g g') (hk : g.local? name = some k) : g'.local? name = some k := by
  obtain ⟨r, r', hr, hr', more, hmore⟩ := h.locals
  unfold Generator.local? at hk ⊢
  rw [hr] at hk
  rw [hr']
  show r'.slots.slot? name = some k
  rw [← hmore]
  exact Slots.slot?_append_left hk

end Later

/-! ## An assignment and a read of one name -/

/-- At two places of one routine an assignment and a read of a name come to one variable, unless the
name is a global one at the first and one of the routine at the second. -/
theorem assigned?_eq_read? {stored loaded : Variable} (horder : g.Later g' ∨ g'.Later g)
    (hstored : g.assigned? name = some stored) (hloaded : g'.read? name = some loaded) :
    stored = loaded ↔ ¬ ((g.global? name).isSome ∧ (g'.local? name).isSome) := by
  unfold assigned? at hstored
  unfold read? at hloaded
  cases hglobal : g.global? name with
  | some k =>
    rw [hglobal] at hstored
    cases hstored
    cases hlocal : g'.local? name with
    | some j =>
      rw [hlocal] at hloaded
      cases hloaded
      simp
    | none =>
      rw [hlocal] at hloaded
      obtain ⟨j, hj, rfl⟩ := Option.map_eq_some_iff.1 hloaded
      have hsame : j = k := by
        rcases horder with h | h
        · exact Option.some.inj (hj.symm.trans (h.global? hglobal))
        · exact Option.some.inj ((h.global? hj).symm.trans hglobal)
      simp [hsame]
  | none =>
    rw [hglobal] at hstored
    obtain ⟨j, hj, rfl⟩ := Option.map_eq_some_iff.1 hstored
    cases hlocal : g'.local? name with
    | some k =>
      rw [hlocal] at hloaded
      cases hloaded
      have hsame : j = k := by
        rcases horder with h | h
        · exact Option.some.inj ((h.local? hj).symm.trans hlocal)
        · exact Option.some.inj (hj.symm.trans (h.local? hlocal))
      simp [hsame]
    | none =>
      -- neither order lets a name of the routine be read as a global one that is not known
      rw [hlocal] at hloaded
      obtain ⟨k, hk, rfl⟩ := Option.map_eq_some_iff.1 hloaded
      exfalso
      rcases horder with h | h
      · rw [h.local? hj] at hlocal
        cases hlocal
      · rw [h.global? hk] at hglobal
        cases hglobal

end Generator

/-! ## What is emitted -/

variable {name : String} {e : Expr} {sc : Scope} {g g' : Generator}

theorem Follows.of_ok {m : Gen Unit} {p : Plan Shape} (h : Follows m p) (hm : m g = .ok () g') :
    ∃ shape sc, p g.scope = .ok (shape, sc) ∧ Emits g (shape.layout g.code.size) sc g' := by
  cases hp : p g.scope with
  | error e =>
    obtain ⟨_, herror⟩ := h.error hp
    rw [hm] at herror
    cases herror
  | ok result =>
    obtain ⟨shape, sc⟩ := result
    obtain ⟨_, hok, hemits⟩ := h.ok hp
    rw [hm] at hok
    cases hok
    exact ⟨shape, sc, rfl, hemits⟩

theorem Generator.scope_local? : g.scope.locals.bind (·.slot? name) = g.local? name := by
  unfold Generator.scope Generator.local?
  cases g.current <;> rfl

theorem Emits.later {block : List Instruction}
    (h : Emits g block sc g') (hgrows : g.scope.Grows sc) (hin : g.current.isSome) :
    g.Later g' := by
  obtain ⟨routine, hroutine⟩ := Option.isSome_iff_exists.1 hin
  have hslots : g.scope.locals = some routine.slots := by simp [Generator.scope, hroutine]
  refine ⟨?_, ?_⟩
  · have := hgrows.globals
    rw [← h.scope] at this
    exact this
  · rcases hgrows.locals with ⟨hnone, -⟩ | ⟨slots, slots', hs, hs', hle⟩
    · rw [hslots] at hnone
      cases hnone
    · rw [hslots] at hs
      cases hs
      rw [← h.scope] at hs'
      obtain ⟨routine', hroutine', rfl⟩ := Option.map_eq_some_iff.1 hs'
      exact ⟨routine, routine', hroutine, hroutine', hle⟩

theorem grows_expression {shape : Shape} {sc' : Scope}
    (h : Plan.expression e sc = .ok (shape, sc')) : sc.Grows sc' :=
  ((carried_literals Datum.basic_all fun _ _ _ _ _ => trivial).expression (fun _ _ => trivial)
    _ _ _ rfl h).1.grows

theorem later_expression (hin : g.current.isSome)
    (h : Gen.expression e g = .ok () g') : g.Later g' := by
  obtain ⟨shape, sc, hplan, hemits⟩ := (follows_expression e).of_ok h
  exact hemits.later (grows_expression hplan) hin

/-- Whatever is compiled in a routine leads to a later place of it. -/
theorem later_statement {s : Stmt} (hin : g.current.isSome)
    (h : Gen.statement s g = .ok () g') : g.Later g' := by
  obtain ⟨shape, sc, hplan, hemits⟩ := (follows_statement s).of_ok h
  have hleads := (carried_literals Datum.basic_all fun _ _ _ _ _ => trivial).stmt s
    (fun _ _ => trivial) _ _ _ rfl hplan
  exact hemits.later hleads.1.grows hin

section Plans

variable {name : String} {shape : Shape} {sc sc' : Scope}

variable {k : Nat}

theorem Plan.globalSlot_known (h : Plan.globalSlot name sc = .ok (k, sc')) :
    sc'.globals.slot? name = some k ∧ sc'.locals = sc.locals := by
  unfold Plan.globalSlot at h
  split at h
  · rename_i hslot
    cases h
    exact ⟨hslot, rfl⟩
  · rename_i hnew
    cases h
    exact ⟨Slots.slot?_put hnew _, rfl⟩

theorem Plan.localSlot_known (h : Plan.localSlot name sc = .ok (k, sc')) :
    sc'.locals.bind (·.slot? name) = some k ∧ sc'.globals = sc.globals := by
  unfold Plan.localSlot at h
  split at h
  · cases h
  · rename_i slots hlocals
    split at h
    · rename_i hslot
      cases h
      refine ⟨?_, rfl⟩
      rw [hlocals]
      exact hslot
    · rename_i hnew
      cases h
      exact ⟨Slots.slot?_put hnew _, rfl⟩

theorem Plan.assignName_stores {slots : Slots} (hin : sc.locals = some slots)
    (h : Plan.assignName name sc = .ok (shape, sc')) :
    (∃ k, sc'.globals.slot? name = some k ∧ shape = .one (Variable.main k).store) ∨
    sc'.globals.slot? name = none ∧
      ∃ k, sc'.locals.bind (·.slot? name) = some k ∧ shape = .one (Variable.call k).store := by
  cases hglobal : sc.globals.slot? name with
  | some k =>
    simp only [Plan.assignName, Plan.get_bind, hin, Option.isSome_some, if_true, hglobal] at h
    cases h
    exact .inl ⟨k, hglobal, rfl⟩
  | none =>
    simp only [Plan.assignName, Plan.get_bind, hin, Option.isSome_some, if_true, hglobal] at h
    obtain ⟨k, sc₁, hslot, h⟩ := Plan.bind_ok.1 h
    cases h
    obtain ⟨hknown, hglobals⟩ := Plan.localSlot_known hslot
    rw [← hglobals] at hglobal
    exact .inr ⟨hglobal, k, hknown, rfl⟩

theorem Plan.loadName_loads (h : Plan.loadName name sc = .ok (shape, sc')) :
    (∃ k, sc'.locals.bind (·.slot? name) = some k ∧ shape = .one (Variable.call k).load) ∨
    sc'.locals.bind (·.slot? name) = none ∧
      ∃ k, sc'.globals.slot? name = some k ∧ shape = .one (Variable.main k).load := by
  cases hlocal : sc.locals.bind (·.slot? name) with
  | some k =>
    simp only [Plan.loadName, Plan.get_bind, hlocal] at h
    cases h
    exact .inl ⟨k, hlocal, rfl⟩
  | none =>
    simp only [Plan.loadName, Plan.get_bind, hlocal] at h
    obtain ⟨k, sc₁, hslot, h⟩ := Plan.bind_ok.1 h
    cases h
    obtain ⟨hknown, hlocals⟩ := Plan.globalSlot_known hslot
    rw [← hlocals] at hlocal
    exact .inr ⟨hlocal, k, hknown, rfl⟩

end Plans

theorem Emits.back? {b : List Instruction} {i : Instruction}
    (h : Emits g (b ++ [i]) sc g') : g'.code.back? = some i := by
  rw [← Array.getLast?_toList, h.code, ← List.append_assoc, List.getLast?_concat]

/-- An assignment in a routine ends with a store to the variable that its tables then tell. -/
theorem assign_stores (hin : g'.current.isSome) (h : Gen.statement (.assign name e) g = .ok () g') :
    ∃ stored : Variable, g'.code.back? = some stored.store ∧ g'.assigned? name = some stored := by
  obtain ⟨shape, sc, hplan, hemits⟩ := (follows_statement _).of_ok h
  obtain ⟨value, sc₁, hvalue, hplan⟩ := Plan.bind_ok.1 hplan
  obtain ⟨last, sc₂, hassign, hplan⟩ := Plan.bind_ok.1 hplan
  cases hplan
  obtain ⟨slots, hslots⟩ : ∃ slots, sc₁.locals = some slots := by
    rw [hemits.isSome] at hin
    rcases (grows_expression hvalue).locals with ⟨hnone, -⟩ | ⟨_, slots, -, hslots, -⟩
    · simp [Generator.scope, Option.isSome_iff_ne_none] at hin hnone
      exact absurd hnone hin
    · exact ⟨slots, hslots⟩
  unfold Generator.assigned? Generator.global?
  rw [← Generator.scope_local?]
  show ∃ stored : Variable, _ ∧ (match g'.scope.globals.slot? name with
    | some slot => some (Variable.main slot)
    | none => _) = some stored
  rw [hemits.scope]
  rcases Plan.assignName_stores hslots hassign with ⟨k, hglobal, rfl⟩ | ⟨hglobal, k, hlocal, rfl⟩
  · exact ⟨.main k, hemits.back?, by rw [hglobal]⟩
  · exact ⟨.call k, hemits.back?, by rw [hglobal, hlocal]; rfl⟩

/-- A read ends with a load of the variable that the tables then tell. -/
theorem name_loads (h : Gen.expression (.name name) g = .ok () g') :
    ∃ loaded : Variable, g'.code.back? = some loaded.load ∧ g'.read? name = some loaded := by
  obtain ⟨shape, sc, hplan, hemits⟩ := (follows_expression _).of_ok h
  have hplan : Plan.loadName name g.scope = .ok (shape, sc) := hplan
  unfold Generator.read? Generator.global?
  rw [← Generator.scope_local?]
  show ∃ loaded : Variable, _ ∧ (match g'.scope.locals.bind (·.slot? name) with
    | some slot => some (Variable.call slot)
    | none => (g'.scope.globals.slot? name).map .main) = some loaded
  rw [hemits.scope]
  rcases Plan.loadName_loads hplan with ⟨k, hlocal, rfl⟩ | ⟨hlocal, k, hglobal, rfl⟩
  · exact ⟨.call k, Emits.back? (b := []) hemits, by rw [hlocal]⟩
  · exact ⟨.main k, Emits.back? (b := []) hemits, by rw [hlocal, hglobal]; rfl⟩

end StackScript
