import StackScript.Proofs.Machine.Steps
import StackScript.Proofs.Meaning.Resolved

/-!
# The machine follows the meaning of programs

If a machine holds the resolved code of a part of a program, it goes from the first instruction to the
end of that code, and does to the memory what the interpreter does: it ends in the same store, with the
same output and the same values of names, and fails where the interpreter fails. The proof follows the
interpreter, by induction on the bound for its recursion, with one lemma for each function of the
interpreter. The main statement is `simulates`.
-/

namespace StackScript.Meaning

open Wide

/-! ## Programs in a machine -/

theorem exists_binary {operator : String} {op : Opcode} (h : binaryOpcode? operator = some op) :
    ∃ f, binary? operator = some f := by
  obtain ⟨row, hfind, -⟩ := Option.map_eq_some_iff.1 h
  have hname : row.1 = operator := by simpa using List.find?_some hfind
  have hmem := List.mem_of_find?_eq_some hfind
  rw [← hname]
  simp only [List.mem_cons, List.not_mem_nil, or_false] at hmem
  rcases hmem with rfl | rfl | rfl | rfl | rfl | rfl | rfl | rfl | rfl | rfl | rfl | rfl | rfl |
    rfl | rfl <;> exact ⟨_, rfl⟩

/-- The value of a datum that is complete in itself. -/
def leaf? : Datum → Option Value
  | .null => some .none
  | .bool b => some (.bool b)
  | .int i => some (.int i)
  | .str s => some (.str s)
  | _ => none

theorem operandValue_leaf {d : Datum} {v : Value} (h : leaf? d = some v) :
    Act.operandValue d = pure v := by
  cases d <;> cases h <;> rfl

/-- A machine holds the code of a function of the program. -/
structure Implements (im : Image) (t : Tables) (p : Procedure) (code : StackScript.Routine) :
    Prop where
  name : code.name = p.name
  parameters : code.parameters = p.parameters
  found : im.routines.lookup code.name = some (.ofCode code)
  notPlain : plainFunction? code.name = none
  slots : code.slots.Proper
  first : ∃ more, code.slots.names = code.parameters ++ more
  known : ∀ name, name ∈ p.names ↔ name ∈ code.slots.names
  body : ∃ a, ({ t with locals := some code.slots } : Tables).CodesBody true p.body a ∧
    code.code = (a.layout 0).toArray
  returns : ∃ e, p.body.getLast? = some (.returnValue e)
  codeSize : code.code.size ≤ Value.sizeLimit
  slotsSize : code.slots.length ≤ Value.sizeLimit

/-- A machine has loaded a program: its constants are those of the tables, and it holds the code of
all functions. -/
structure Loaded (im : Image) (procedures : List Procedure) (t : Tables) : Prop where
  sound : im.Sound
  halts : im.main[im.main.size - 1]? = some ⟨.halt, .null⟩
  globals : im.globals = t.globals
  locals : t.locals = none
  functions : t.functions = procedures.map (·.name)
  pool : ∀ (i : Nat) (d : Datum), t.constants[i]? = some d → ∃ v, leaf? d = some v ∧ im.pool[i]? = some v
  routines : ∀ p ∈ procedures, ∃ code, Implements im t p code

/-- Where a machine stands, which names are known there, and the tables of that place. -/
inductive Stands (t : Tables) : Spot → Place → Tables → Prop
  | main : Stands t .main none t
  | routine {r : Wide.Routine} {slots : Slots} {outer : List (Frame Wide.Routine)} {back : Nat}
      {names : List String} (h : ∀ name, name ∈ names ↔ name ∈ slots.names) :
      Stands t (.routine r slots outer back) (some names) { t with locals := some slots }

variable {procedures : List Procedure} {place : Place} {spot : Spot} {fuel : Nat} {e : Option Expr}
  {t t' : Tables}

theorem Stands.constants (h : Stands t spot place t') : t'.constants = t.constants := by
  cases h <;> rfl

theorem Stands.globals (h : Stands t spot place t') : t'.globals = t.globals := by
  cases h <;> rfl

theorem Stands.functions (h : Stands t spot place t') : t'.functions = t.functions := by
  cases h <;> rfl

section Names

variable {im : Image} {procedures : List Procedure} {t t' : Tables} {spot : Spot} {place : Place}
  {w : Memory} {S : List Value} {n : Nat} (hl : Loaded im procedures t)
  (hs : Stands t spot place t') (hv : im.Valid spot)
include hl hs hv

theorem runs_loadConst {op : Opcode} (hop : op = .loadConst ∨ op = .loadFunc) {i : Nat} {d : Datum}
    (hi : t'.constants[i]? = some d) (h : (im.code spot)[n]? = some (.to op i)) (hw : im.Intact w) :
    ∃ v, leaf? d = some v ∧ Runs (im.state spot w S n) (im.state spot w (v :: S) (n + 1)) := by
  rw [hs.constants] at hi
  obtain ⟨v, hd, hpool⟩ := hl.pool i d hi
  exact ⟨v, hd, runs_constant hv hop h hw hpool⟩

variable {name : String} {a : Shape}

theorem reaches_read (ha : t'.Loads name a)
    (hp : Placed (im.code spot) n a) (hg : Good im t.functions w) :
    Reaches (Good im t.functions) (im.state spot w S n)
      (fun v w' => im.state spot w' (v :: S) (n + a.size)) none (read place name w) := by
  cases ha with
  | ofLocal hlocals hk =>
    cases hs with
    | main => simp [hl.locals] at hlocals
    | @routine r slots outer back names hnames =>
      cases hlocals
      have hmem : name ∈ names :=
        (hnames name).2 (List.mem_map.2 ⟨_, Slots.mem_of_slot? hk, rfl⟩)
      have hread : read (some names) name w = .ok (w.locals name) w := by
        show (if name ∈ names then (pure (w.locals name) : Run Value) else _) w = _
        rw [if_pos hmem]
        rfl
      rw [hread]
      exact ⟨hg, runs_loadLocal hv hk hp.one⟩
  | ofGlobal hlocals hk =>
    rw [hs.globals, ← hl.globals] at hk
    have hread : read place name w = .ok (w.globals name) w := by
      show (if name ∈ place.getD [] then _ else (pure (w.globals name) : Run Value)) w = _
      rw [if_neg]
      · rfl
      · cases hs with
        | main => simp
        | routine hnames => exact fun hmem => hlocals _ rfl ((hnames name).1 hmem)
    rw [hread]
    exact ⟨hg, runs_loadGlobal hv hk hp.one⟩

theorem reaches_assign (ha : t'.Stores name a)
    (hp : Placed (im.code spot) n a) (hg : Good im t.functions w) (v : Value) :
    Reaches (Good im t.functions) (im.state spot w (v :: S) n)
      (fun _ w' => im.state spot w' S (n + a.size)) none (assign place name v w) := by
  cases ha with
  | ofLocal hlocals hk =>
    cases hs with
    | main => simp [hl.locals] at hlocals
    | routine hnames =>
      cases hlocals
      exact ⟨⟨hg.intact, hg.named, hg.unbound⟩, runs_storeLocal hv hk hp.one v⟩
  | ofGlobal hlocals hname hk =>
    rw [hs.globals, ← hl.globals] at hk
    rw [hs.functions] at hname
    cases hs with
    | routine hnames => cases hlocals
    | main =>
      refine ⟨⟨hg.intact, fun f hf => ?_, fun other hother => ?_⟩, runs_storeGlobal hv hk hp.one v⟩
      · have hne : f ≠ name := fun heq => hname (heq ▸ hf)
        show put w.globals name v f = _
        rw [put, if_neg hne, hg.named f hf]
      · have hne : other ≠ name := fun heq => by simp [heq, hk] at hother
        show put w.globals name v other = _
        rw [put, if_neg hne, hg.unbound other hother]

theorem runs_callee (ha : t'.Calls name a)
    (hp : Placed (im.code spot) n a) (hg : Good im t.functions w) :
    Runs (im.state spot w S n) (im.state spot w (.str name :: S) (n + a.size)) := by
  cases ha with
  | ofConstant hi =>
    obtain ⟨v, hd, hrun⟩ := runs_loadConst hl hs hv (.inl rfl) hi hp.one hg.intact
    cases hd
    exact hrun
  | ofGlobal hname hk =>
    rw [hs.globals, ← hl.globals] at hk
    rw [hs.functions] at hname
    have := runs_loadGlobal (w := w) (S := S) hv hk hp.one
    rwa [hg.named name hname] at this

end Names

/-! ## The induction -/

/-- A return of the code in which a machine stands leads to a state. -/
def ReturnsTo (im : Image) (spot : Spot) (S : List Value) (r : Value → Memory → State) : Prop :=
  ∀ (m : Nat) (v : Value) (w : Memory), (im.code spot)[m]? = some ⟨.ret, .null⟩ →
    Runs (im.state spot w (v :: S) m) (r v w)

/-- The code that appends the value of an element, if there is no condition or it holds. -/
inductive Gathers (t : Tables) (element : Expr) : Option Expr → Shape → Prop
  | always {a : Shape} (ha : t.Codes element a) :
      Gathers t element none (a.seq (.one ⟨.listAppend, .null⟩))
  | filtered {condition : Expr} {a b : Shape} (hb : t.Codes condition b) (ha : t.Codes element a) :
      Gathers t element (some condition) (b.seq (.guarded (a.seq (.one ⟨.listAppend, .null⟩))))

section Statements

variable (im : Image) (procedures : List Procedure) (t : Tables) (fuel : Nat)

/-- The machine evaluates expressions. -/
def EvalFollowed : Prop :=
  ∀ {spot : Spot} {place : Place} {t' : Tables}, Stands t spot place t' → im.Valid spot →
    ∀ {e : Expr} {a : Shape}, t'.Codes e a → ∀ {n : Nat} {w : Memory} {S : List Value},
    Placed (im.code spot) n a → Good im t.functions w →
    Reaches (Good im t.functions) (im.state spot w S n)
      (fun v w' => im.state spot w' (v :: S) (n + a.size)) none (eval procedures place fuel e w)

/-- The machine evaluates expressions one after another. -/
def EvalAllFollowed : Prop :=
  ∀ {spot : Spot} {place : Place} {t' : Tables}, Stands t spot place t' → im.Valid spot →
    ∀ {es : List Expr} {a : Shape}, t'.CodesAll es a → ∀ {n : Nat} {w : Memory} {S : List Value},
    Placed (im.code spot) n a → Good im t.functions w →
    Reaches (Good im t.functions) (im.state spot w S n)
      (fun vs w' => im.state spot w' (vs.reverse ++ S) (n + a.size)) none
      (evalAll procedures place fuel es w)

/-- The machine jumps by a condition. -/
def PassesFollowed : Prop :=
  ∀ {spot : Spot} {place : Place} {t' : Tables}, Stands t spot place t' → im.Valid spot →
    ∀ {e : Expr} {a : Shape}, t'.Codes e a → ∀ {n m : Nat} {w : Memory} {S : List Value},
    Placed (im.code spot) n a → Good im t.functions w → ∀ {op : Opcode} {wanted : Bool},
    op = .jumpIfFalse ∧ wanted = false ∨ op = .jumpIfTrue ∧ wanted = true →
    (im.code spot)[n + a.size]? = some (.to op m) →
    Reaches (Good im t.functions) (im.state spot w S n)
      (fun b w' => im.state spot w' S (if b = wanted then m else n + a.size + 1)) none
      (passes procedures place fuel (some e) w)

/-- The machine performs some part of a program, which may return. -/
def RunFollowed (codes : Tables → Bool → Shape → Prop) (run : Place → Run Unit) : Prop :=
  ∀ {spot : Spot} {place : Place} {t' : Tables}, Stands t spot place t' → im.Valid spot →
    ∀ {returns : Bool} {a : Shape}, codes t' returns a → ∀ {n : Nat} {w : Memory} {S : List Value},
    Placed (im.code spot) n a → Good im t.functions w → ∀ {ret : Option (Value → Memory → State)},
    (returns = true → ∃ r ∈ ret, ReturnsTo im spot S r) →
    Reaches (Good im t.functions) (im.state spot w S n)
      (fun _ w' => im.state spot w' S (n + a.size)) ret (run place w)

/-- The machine walks over the items of an iterator. -/
def WalkFollowed : Prop :=
  ∀ {spot : Spot} {place : Place} {t' : Tables}, Stands t spot place t' → im.Valid spot →
    ∀ {target : String} {body : List Stmt} {b c : Shape}, t'.Stores target b →
    t'.CodesBody false body c → ∀ {n : Nat} {w : Memory} {S : List Value} {it : Value},
    Placed (im.code spot) n (.forLoop (b.seq c)) → Good im t.functions w →
    Reaches (Good im t.functions) (im.state spot w (it :: S) n)
      (fun _ w' => im.state spot w' S (n + (Shape.forLoop (b.seq c)).size)) none
      (walk procedures place fuel target body it w)

/-- The machine gathers the items of a list. -/
def GatherFollowed : Prop :=
  ∀ {spot : Spot} {place : Place} {t' : Tables}, Stands t spot place t' → im.Valid spot →
    ∀ {target : String} {element : Expr} {condition : Option Expr} {b c : Shape},
    t'.Stores target b → Gathers t' element condition c →
    ∀ {n : Nat} {w : Memory} {S : List Value} {it : Value} {ref : Nat}, ref ≠ im.ref →
    Placed (im.code spot) n (.forLoop (b.seq c)) → Good im t.functions w →
    Reaches (Good im t.functions) (im.state spot w (it :: .list ref :: S) n)
      (fun _ w' => im.state spot w' (.list ref :: S) (n + (Shape.forLoop (b.seq c)).size)) none
      (gather procedures place fuel element target condition (.list ref) it w)

/-- The machine performs statements. -/
def ExecFollowed : Prop :=
  ∀ {s : Stmt}, RunFollowed im t (fun t' returns => t'.CodesStmt returns s)
    fun place => exec procedures place fuel s

/-- The machine performs statements one after another. -/
def ExecAllFollowed : Prop :=
  ∀ {body : List Stmt}, RunFollowed im t (fun t' returns => t'.CodesBody returns body)
    fun place => execAll procedures place fuel body

/-- The machine performs one of several alternatives. -/
def AlternativesFollowed : Prop :=
  ∀ {clauses : List (Expr × List Stmt)} {last : Option (List Stmt)},
    RunFollowed im t (fun t' returns => t'.CodesChoice returns clauses last)
      fun place => alternatives procedures place fuel clauses last

/-- The machine follows every function of the interpreter with a given bound. -/
structure Simulates : Prop where
  eval : EvalFollowed im procedures t fuel
  evalAll : EvalAllFollowed im procedures t fuel
  passes : PassesFollowed im procedures t fuel
  exec : ExecFollowed im procedures t fuel
  execAll : ExecAllFollowed im procedures t fuel
  alternatives : AlternativesFollowed im procedures t fuel
  walk : WalkFollowed im procedures t fuel
  gather : GatherFollowed im procedures t fuel

end Statements

theorem length_evalAll {es : List Expr} {vs : List Value} {w w' : Memory}
    (h : evalAll procedures place fuel es w = .ok vs w') : vs.length = es.length := by
  induction fuel generalizing es vs w w' with
  | zero => cases h
  | succ fuel ih =>
    cases es with
    | nil =>
      cases h
      rfl
    | cons e es =>
      cases hv : eval procedures place fuel e w with
      | error signal w₁ =>
        rw [show evalAll procedures place (fuel + 1) (e :: es) w = _ from bind_of_error hv] at h
        cases h
      | ok v w₁ =>
        rw [show evalAll procedures place (fuel + 1) (e :: es) w = _ from bind_of_ok hv] at h
        cases hrest : evalAll procedures place fuel es w₁ with
        | error signal w₂ =>
          rw [bind_of_error hrest] at h
          cases h
        | ok rest w₂ =>
          rw [bind_of_ok hrest] at h
          cases h
          simpa using ih hrest

theorem exec_returnValue_ne_ok {w w' : Memory} {u : Unit} :
    exec procedures place fuel (.returnValue e) w ≠ .ok u w' := by
  intro h
  cases fuel with
  | zero => cases h
  | succ fuel =>
    cases e with
    | none => cases h
    | some e =>
      cases hv : eval procedures place fuel e w with
      | error signal w₁ =>
        rw [show exec procedures place (fuel + 1) (.returnValue (some e)) w = _ from
          bind_of_error hv] at h
        cases h
      | ok v w₁ =>
        rw [show exec procedures place (fuel + 1) (.returnValue (some e)) w = _ from
          bind_of_ok hv] at h
        cases h

/-- A body that ends with a return does not come to its end. -/
theorem execAll_ne_ok {body : List Stmt}
    (hlast : body.getLast? = some (.returnValue e)) {w w' : Memory} :
    execAll procedures place fuel body w ≠ .ok () w' := by
  induction body generalizing fuel w with
  | nil => cases hlast
  | cons s rest ih =>
    cases fuel with
    | zero => exact fun h => by cases h
    | succ fuel =>
      intro h
      cases hs : exec procedures place fuel s w with
      | error signal w₁ =>
        rw [show execAll procedures place (fuel + 1) (s :: rest) w = _ from bind_of_error hs] at h
        cases h
      | ok u w₁ =>
        rw [show execAll procedures place (fuel + 1) (s :: rest) w = _ from bind_of_ok hs] at h
        cases rest with
        | nil =>
          cases hlast
          exact exec_returnValue_ne_ok hs
        | cons s' rest => exact ih (by simpa using hlast) h

section Induction

variable {im : Image} {procedures : List Procedure} {t t' : Tables} {spot : Spot} {place : Place}
  {w : Memory} {S : List Value} {n fuel : Nat} (hl : Loaded im procedures t)
  (ih : Simulates im procedures t fuel) (hs : Stands t spot place t') (hv : im.Valid spot)
include hl ih hs hv

omit hl in
theorem comprehension_succ {element iterable : Expr} {target : String} {condition : Option Expr}
    {a b c : Shape} (ha : t'.Codes iterable a) (hb : t'.Stores target b)
    (hc : Gathers t' element condition c)
    (hp : Placed (im.code spot) n ((Shape.one (.to .buildList 0)).seq
      (a.seq ((Shape.one ⟨.getIter, .null⟩).seq (.forLoop (b.seq c))))))
    (hg : Good im t.functions w) : Reaches (Good im t.functions) (im.state spot w S n)
      (fun v w' => im.state spot w' (v :: S) (n + ((Shape.one (.to .buildList 0)).seq
        (a.seq ((Shape.one ⟨.getIter, .null⟩).seq (.forLoop (b.seq c))))).size)) none
      (eval procedures place (fuel + 1) (.comprehension element target iterable condition) w) := by
  rw [show n + ((Shape.one (.to .buildList 0)).seq
        (a.seq ((Shape.one ⟨.getIter, .null⟩).seq (.forLoop (b.seq c))))).size =
      n + 1 + a.size + 1 + (Shape.forLoop (b.seq c)).size by simp only [Shape.size]; omega]
  have hlist : act (Act.op (Op.newList #[])) w =
      .ok (.list w.store.lists.size) { w with store := { w.store with
        lists := w.store.lists.push #[] } } := rfl
  have href : w.store.lists.size ≠ im.ref := by
    have := (Array.getElem?_eq_some_iff.1 hg.intact).1
    omega
  refine .bind (reaches_buildList hv hg [] hp.first.one) fun list w₁ hw₁ hg₁ => ?_
  rw [hlist] at hw₁
  cases hw₁
  refine .bind (ih.eval hs hv ha hp.rest.first hg₁) fun v w₂ _ hg₂ => ?_
  refine .bind (reaches_getIter hv hg₂ hp.rest.rest.first.one v) fun it w₃ _ hg₃ => ?_
  refine .bind (ih.gather hs hv hb hc href hp.rest.rest.rest hg₃) fun _ w₄ _ hg₄ => ?_
  exact ⟨hg₄, .refl _⟩

/-- A call of a function of the program: its body runs in a call of its own, and the machine comes
back with the value that it returns. -/
theorem reaches_inCall {p : Procedure} {code : StackScript.Routine} (hi : Implements im t p code)
    (vs : List Value) (hlength : vs.length = p.parameters.length)
    (hcall : (im.code spot)[n]? = some (.to .call vs.length)) (hg : Good im t.functions w) :
    Reaches (Good im t.functions) (im.state spot w (vs.reverse ++ .str p.name :: S) n)
      (fun v w' => im.state spot w' (v :: S) (n + 1)) none
      (inCall (bound p.parameters vs) (execAll procedures (some p.names) fuel p.body) w) := by
  obtain ⟨more, hmore⟩ := hi.first
  obtain ⟨a, ha, hcode⟩ := hi.body
  have hback : spot.back (n + 1) < im.main.size := by
    cases spot with
    | routine r slots outer back => exact hv.2.2.2.2
    | main =>
      have hlt : n < im.main.size := (Array.getElem?_eq_some_iff.1 hcall).1
      have hne : n ≠ im.main.size - 1 := by
        rintro rfl
        have := hcall.symm.trans hl.halts
        simp [Instruction.to] at this
      show n + 1 < im.main.size
      omega
  have hvalid : im.Valid (.routine (.ofCode code) code.slots (spot.frames w.locals (n + 1))
      (spot.back (n + 1))) := ⟨hl.sound, hi.codeSize, hi.slots, hi.slotsSize, hback⟩
  have hplaced : Placed (im.code (.routine (.ofCode code) code.slots (spot.frames w.locals (n + 1))
      (spot.back (n + 1)))) 0 a := by
    intro j i hj
    show code.code[0 + j]? = some i
    simpa [hcode] using hj
  have henter := runs_enter (w := w) (S := S) hv hi.notPlain hi.found hmore hi.slots.nodup vs
    (hi.parameters ▸ hlength) hcall
  rw [hi.name, hi.parameters] at henter
  have hbound : Good im t.functions { w with locals := bound p.parameters vs } :=
    ⟨hg.intact, hg.named, hg.unbound⟩
  have hrun : Reaches (Good im t.functions) _ _
      (some fun v w' => im.state spot { w' with locals := w.locals } (v :: S) (n + 1))
      (execAll procedures (some p.names) fuel p.body
        { w with locals := bound p.parameters vs }) :=
    ih.execAll (.routine hi.known) hvalid ha hplaced hbound
      fun _ => ⟨_, rfl, fun m v w' hm => runs_ret hvalid hm v⟩
  refine .after henter ?_
  obtain ⟨e, hlast⟩ := hi.returns
  unfold inCall
  cases hres : execAll procedures (some p.names) fuel p.body
      { w with locals := bound p.parameters vs } with
  | ok u w' => exact absurd hres (execAll_ne_ok hlast)
  | error signal w' =>
    rw [hres] at hrun
    cases signal with
    | exhausted => trivial
    | stopped cause => exact hrun
    | returned v =>
      obtain ⟨r, hr, hg', hrun⟩ := hrun
      cases hr
      exact ⟨⟨hg'.intact, hg'.named, hg'.unbound⟩, hrun⟩

theorem call_succ {name : String} {arguments : List Expr} {a b : Shape}
    (hname : name ∈ t'.functions ∨ (plainFunction? name).isSome) (ha : t'.Calls name a)
    (hb : t'.CodesAll arguments b)
    (hp : Placed (im.code spot) n (a.seq (b.seq (.one (.to .call arguments.length)))))
    (hg : Good im t.functions w) : Reaches (Good im t.functions) (im.state spot w S n)
      (fun v w' => im.state spot w' (v :: S)
        (n + (a.seq (b.seq (.one (.to .call arguments.length)))).size)) none
      (eval procedures place (fuel + 1) (.call (.name name) arguments) w) := by
  rw [show n + (a.seq (b.seq (.one (.to .call arguments.length)))).size =
    n + a.size + b.size + 1 by simp only [Shape.size]; omega]
  refine .after (runs_callee hl hs hv ha hp.first hg)
    (.bind (ih.evalAll hs hv hb hp.rest.first hg) fun vs w₁ hvs hg₁ => ?_)
  have hcall : (im.code spot)[n + a.size + b.size]? = some (.to .call vs.length) := by
    rw [length_evalAll hvs]
    exact hp.rest.rest.one
  cases hf : plainFunction? name with
  | some f => exact reaches_callPlain hv hg₁ hf vs hcall
  | none =>
    have hmem : name ∈ procedures.map (·.name) := by
      rw [← hl.functions, ← hs.functions]
      simpa [hf] using hname
    cases hp' : procedures.find? (·.name == name) with
    | none =>
      obtain ⟨p, hp, rfl⟩ := List.mem_map.1 hmem
      simpa using List.find?_eq_none.1 hp' p hp
    | some p =>
      obtain rfl : p.name = name := by simpa using List.find?_some hp'
      obtain ⟨code, hi⟩ := hl.routines p (List.mem_of_find?_eq_some hp')
      by_cases hlength : vs.length = p.parameters.length
      · simp only [if_pos hlength]
        exact reaches_inCall hl ih hs hv hi vs hlength hcall hg₁
      · simp only [if_neg hlength]
        have := crashes_enter (w := w₁) (S := S) hv hi.notPlain hi.found vs
          (hi.parameters ▸ hlength) hcall
        rwa [hi.name, hi.parameters] at this

omit hs hv in
theorem eval_succ : EvalFollowed im procedures t (fuel + 1) := by
  intro spot place t' hs hv e a ha n w S hp hg
  cases ha with
  | @literal d i hi =>
    obtain ⟨v, hd, hrun⟩ := runs_loadConst hl hs hv (.inl rfl) hi hp.one hg.intact
    show Reaches _ _ _ _ (act (Act.operandValue d) w)
    rw [operandValue_leaf hd]
    exact ⟨hg, hrun⟩
  | name ha => exact reaches_read hl hs hv ha hp hg
  | @binary left right operator op a b ha hb hop =>
    obtain ⟨f, hf⟩ := exists_binary hop
    rw [show n + (a.seq (b.seq (.one ⟨op, .null⟩))).size = n + a.size + b.size + 1 by
      simp only [Shape.size]; omega]
    refine .bind (ih.eval hs hv ha hp.first hg) fun x w₁ _ hg₁ => ?_
    refine .bind (ih.eval hs hv hb hp.rest.first hg₁) fun y w₂ _ hg₂ => ?_
    rw [hf]
    exact reaches_binary hv hg₂ hf hop hp.rest.rest.one x y
  | @not operand a ha =>
    refine .bind (ih.eval hs hv ha hp.first hg) fun x w₁ _ hg₁ => ?_
    exact ⟨hg₁, runs_negate hv hp.rest.one x⟩
  | @minus operand i a hi ha =>
    rw [show n + ((Shape.one (.to .loadConst i)).seq (a.seq (.one ⟨.sub, .null⟩))).size =
      n + 1 + a.size + 1 by simp only [Shape.size]; omega]
    obtain ⟨zero, hd, hrun⟩ := runs_loadConst hl hs hv (.inl rfl) hi hp.first.one hg.intact
    cases hd
    refine .after hrun (.bind (ih.eval hs hv ha hp.rest.first hg) fun x w₁ _ hg₁ => ?_)
    have hminus : binary? "-" = some (Act.arith .sub) := rfl
    exact reaches_binary hv hg₁ hminus rfl hp.rest.rest.one (.int 0) x
  | plus ha =>
    refine .bind (ih.eval hs hv ha hp hg) fun x w₁ _ hg₁ => ?_
    exact ⟨hg₁, .refl _⟩
  | @index object index a b ha hb =>
    rw [show n + (a.seq (b.seq (.one ⟨.getItem, .null⟩))).size = n + a.size + b.size + 1 by
      simp only [Shape.size]; omega]
    refine .bind (ih.eval hs hv ha hp.first hg) fun x w₁ _ hg₁ => ?_
    refine .bind (ih.eval hs hv hb hp.rest.first hg₁) fun y w₂ _ hg₂ => ?_
    exact reaches_getItem hv hg₂ hp.rest.rest.one x y
  | @list elements a ha =>
    refine .bind (ih.evalAll hs hv ha hp.first hg) fun vs w₁ hvs hg₁ => ?_
    exact reaches_buildList hv hg₁ vs (by rw [length_evalAll hvs]; exact hp.rest.one)
  | @tuple elements a ha =>
    refine .bind (ih.evalAll hs hv ha hp.first hg) fun vs w₁ hvs hg₁ => ?_
    exact ⟨hg₁, runs_buildTuple hv vs (by rw [length_evalAll hvs]; exact hp.rest.one)⟩
  | @comprehension element iterable target a b c ha hb hc =>
    exact comprehension_succ ih hs hv ha hb (.always hc) hp hg
  | @filtered element iterable condition target a b c d ha hb hd hc =>
    exact comprehension_succ ih hs hv ha hb (.filtered hd hc) hp hg
  | @call name arguments a b hname ha hb => exact call_succ hl ih hs hv hname ha hb hp hg

omit hl hs hv in
theorem evalAll_succ : EvalAllFollowed im procedures t (fuel + 1) := by
  intro spot place t' hs hv es a ha n w S hp hg
  cases ha with
  | nil => exact ⟨hg, .refl _⟩
  | @cons e rest a b ha hb =>
    refine .bind (ih.eval hs hv ha hp.first hg) fun v w₁ _ hg₁ => ?_
    refine .bind (ih.evalAll hs hv hb hp.rest hg₁) fun vs w₂ _ hg₂ => ?_
    refine ⟨hg₂, ?_⟩
    show Runs _ (im.state spot w₂ ((v :: vs).reverse ++ S) (n + (a.size + b.size)))
    rw [List.reverse_cons, List.append_assoc, List.singleton_append, ← Nat.add_assoc]
    exact .refl _

omit hl hs hv in
theorem passes_succ : PassesFollowed im procedures t (fuel + 1) := by
  intro spot place t' hs hv e a ha n m w S hp hg op wanted hop hjump
  refine .bind (ih.eval hs hv ha hp hg) fun v w₁ _ hg₁ => ?_
  exact ⟨hg₁, runs_jumpIf hv hop hjump v⟩

omit hl hs hv in
theorem execAll_succ : ExecAllFollowed im procedures t (fuel + 1) := by
  intro body spot place t' hs hv returns a ha n w S hp hg ret hret
  cases ha with
  | nil => exact ⟨hg, .refl _⟩
  | @cons returns s rest a b ha hb =>
    rw [Shape.size, ← Nat.add_assoc]
    refine .bind (ih.exec hs hv ha hp.first hg hret) fun _ w₁ _ hg₁ => ?_
    exact ih.execAll hs hv hb hp.rest hg₁ hret

omit hl hs hv in
theorem alternatives_succ : AlternativesFollowed im procedures t (fuel + 1) := by
  intro clauses last spot place t' hs hv returns a ha n w S hp hg ret hret
  cases ha with
  | guarded hc hb hlast =>
    rename_i c b
    have hguard := hp.rest
    have hsize : n + (c.seq (.guarded b)).size = n + c.size + 1 + b.size := by
      simp only [Shape.size]
      omega
    rw [hsize]
    refine .bind (.anyReturn (ih.passes hs hv hc hp.first hg (.inl ⟨rfl, rfl⟩) hguard.guard))
      fun holds w₁ _ hg₁ => ?_
    cases holds with
    | true => exact ih.execAll hs hv hb hguard.guardedBody hg₁ hret
    | false =>
      -- nothing is left to run, and no code for it
      have hnothing : t'.CodesBody returns (last.getD []) .nothing := by
        rw [hlast]
        exact .nil
      exact ih.alternatives hs hv (.chain .nil hnothing) (fun j i hj => by cases hj) hg₁ hret
  | chain hclauses ha =>
    cases hclauses with
    | nil => exact ih.execAll hs hv ha hp hg hret
    | cons hc hb hrest =>
      rename_i a _ _ _ c b codes
      have hsize : n + (Shape.chain ((c, b) :: codes) a).size =
          n + c.size + b.size + 2 + (Shape.chain codes a).size := by
        show n + (c.size + (b.size + (Shape.chain codes a).size + 2)) = _
        omega
      obtain ⟨hjump, hbody, hleave, hother⟩ := Placed.choice (Placed.rest hp)
      rw [hsize]
      refine .bind (.anyReturn (ih.passes hs hv hc (Placed.first hp) hg (.inl ⟨rfl, rfl⟩) hjump))
        fun holds w₁ _ hg₁ => ?_
      cases holds with
      | true => exact (ih.execAll hs hv hb hbody hg₁ hret).onward fun _ w₂ => runs_jump hv hleave
      | false => exact ih.alternatives hs hv (.chain hrest ha) hother hg₁ hret

omit ih hl in
/-- The code of a loop over an iterator: an item is stored, or the loop is left. -/
theorem reaches_nextItem (hl : Loaded im procedures t) {target : String} {b c : Shape}
    (hb : t'.Stores target b) (hp : Placed (im.code spot) n (.forLoop (b.seq c)))
    (hg : Good im t.functions w) (it : Value) {k : Unit → Run Unit}
    (hk : ∀ w', Good im t.functions w' →
      Reaches (Good im t.functions) (im.state spot w' (it :: S) (n + 1 + b.size))
        (fun _ w'' => im.state spot w'' S (n + (Shape.forLoop (b.seq c)).size)) none (k () w')) :
    Reaches (Good im t.functions) (im.state spot w (it :: S) n)
      (fun _ w' => im.state spot w' S (n + (Shape.forLoop (b.seq c)).size)) none
      ((do
        match ← act (Act.op it.next) with
        | none => return ()
        | some item =>
          assign place target item
          k ()) w) := by
  obtain ⟨hnext, hbody, hback⟩ := hp.forLoop
  refine .bind (reaches_forIter hv hg hnext it) fun item w₁ _ hg₁ => ?_
  cases item with
  | none => exact ⟨hg₁, .refl _⟩
  | some v =>
    refine .bind (reaches_assign hl hs hv hb hbody.first hg₁ v) fun _ w₂ _ hg₂ => ?_
    exact hk w₂ hg₂

omit hs hv in
theorem walk_succ : WalkFollowed im procedures t (fuel + 1) := by
  intro spot place t' hs hv target body b c hb hc n w S it hp hg
  obtain ⟨-, hbody, hback⟩ := hp.forLoop
  refine reaches_nextItem hs hv hl hb hp hg it (k := fun _ => do
    execAll procedures place fuel body
    walk procedures place fuel target body it) fun w₁ hg₁ => ?_
  have hrun : Reaches (Good im t.functions) (im.state spot w₁ (it :: S) (n + 1 + b.size))
      (fun _ w' => im.state spot w' (it :: S) n) none (execAll procedures place fuel body w₁) := by
    refine (ih.execAll hs hv hc hbody.rest hg₁ (by simp)).onward fun _ w₂ => runs_jump hv ?_
    rw [Nat.add_assoc]
    exact hback
  exact .bind hrun fun _ w₂ _ hg₂ => ih.walk hs hv hb hc hp hg₂

omit hl in
/-- The code that appends an element and goes back to the start of its loop. -/
theorem reaches_append {element : Expr} {a : Shape} (ha : t'.Codes element a) {ref m : Nat}
    (href : ref ≠ im.ref) {it : Value}
    (hp : Placed (im.code spot) m (a.seq (.one ⟨.listAppend, .null⟩)))
    (hback : (im.code spot)[m + a.size + 1]? = some (.to .jump n)) (hg : Good im t.functions w)
    {k : Run Unit} {next : Unit → Memory → State}
    (hk : ∀ w', Good im t.functions w' → Reaches (Good im t.functions)
      (im.state spot w' (it :: .list ref :: S) n) next none (k w')) :
    Reaches (Good im t.functions) (im.state spot w (it :: .list ref :: S) m) next none
      ((do
        act (appendTo (.list ref) (← eval procedures place fuel element))
        k) w) := by
  refine .bind (ih.eval hs hv ha hp.first hg) fun v w₁ _ hg₁ => ?_
  refine .bind (reaches_listAppend hv hg₁ href hp.rest.one v it) fun _ w₂ _ hg₂ => ?_
  exact (hk w₂ hg₂).after (runs_jump hv hback)

omit hs hv in
theorem gather_succ : GatherFollowed im procedures t (fuel + 1) := by
  intro spot place t' hs hv target element condition b c hb hc n w S it ref href hp hg
  obtain ⟨-, hbody, hback⟩ := hp.forLoop
  refine reaches_nextItem hs hv hl hb hp hg it (k := fun _ => do
    if ← passes procedures place fuel condition then
      act (appendTo (.list ref) (← eval procedures place fuel element))
    gather procedures place fuel element target condition (.list ref) it) fun w₁ hg₁ => ?_
  have hagain : ∀ w', Good im t.functions w' → Reaches (Good im t.functions)
      (im.state spot w' (it :: .list ref :: S) n)
      (fun _ w'' => im.state spot w'' (.list ref :: S) (n + (Shape.forLoop (b.seq c)).size)) none
      (gather procedures place fuel element target condition (.list ref) it w') :=
    fun w' hg' => ih.gather hs hv hb hc href hp hg'
  cases hc with
  | @always a ha =>
    have hjump : (im.code spot)[n + 1 + b.size + a.size + 1]? = some (.to .jump n) := by
      rw [← hback]
      congr 1
      simp only [Shape.size]
      omega
    cases fuel with
    | zero => trivial
    | succ fuel => exact reaches_append ih hs hv ha href hbody.rest hjump hg₁ hagain
  | @filtered condition a d hd ha =>
    have hjump : (im.code spot)[n + 1 + b.size + d.size + 1 + a.size + 1]? = some (.to .jump n) := by
      rw [← hback]
      congr 1
      simp only [Shape.size]
      omega
    have hguard := hbody.rest.rest
    refine .bind (ih.passes hs hv hd hbody.rest.first hg₁ (.inl ⟨rfl, rfl⟩) hguard.guard)
      fun holds w₂ _ hg₂ => ?_
    cases holds with
    | true => exact reaches_append ih hs hv ha href hguard.guardedBody hjump hg₂ hagain
    | false => exact (hagain w₂ hg₂).after (runs_jump hv hjump)

omit hs hv in
theorem exec_succ : ExecFollowed im procedures t (fuel + 1) := by
  intro s spot place t' hs hv returns a ha n w S hp hg ret hret
  cases ha with
  | expression ha =>
    refine .anyReturn (.bind (ih.eval hs hv ha hp.first hg) fun v w₁ _ hg₁ => ?_)
    exact ⟨hg₁, runs_pop hv hp.rest.one v⟩
  | @declare returns name hint e a b ha hb | @assign returns name e a b ha hb =>
    rw [Shape.size, ← Nat.add_assoc]
    refine .anyReturn (.bind (ih.eval hs hv ha hp.first hg) fun v w₁ _ hg₁ => ?_)
    exact reaches_assign hl hs hv hb hp.rest hg₁ v
  | branch ha => exact ih.alternatives hs hv ha hp hg hret
  | @whileLoop returns condition body a b ha hb =>
    obtain ⟨hc, hjump, hbody, hback⟩ := hp.whileLoop
    refine .bind (.anyReturn (ih.passes hs hv ha hc hg (.inl ⟨rfl, rfl⟩) hjump))
      fun holds w₁ _ hg₁ => ?_
    cases holds with
    | true =>
      have hrun : Reaches (Good im t.functions) _ (fun _ w' => im.state spot w' S n) ret
          (execAll procedures place fuel body w₁) :=
        (ih.execAll hs hv hb hbody hg₁ hret).onward fun _ w₂ => runs_jump hv hback
      exact .bind hrun fun _ w₂ _ hg₂ => ih.exec hs hv (.whileLoop ha hb) hp hg₂ hret
    | false =>
      refine ⟨hg₁, ?_⟩
      show Runs (im.state spot w₁ S (n + a.size + b.size + 2))
        (im.state spot w₁ S (n + (a.size + b.size + 2)))
      rw [show n + (a.size + b.size + 2) = n + a.size + b.size + 2 by omega]
      exact .refl _
  | @repeatLoop returns condition body a b ha hb =>
    obtain ⟨hbody, hjump⟩ := hp.repeatLoop
    refine .bind (ih.execAll hs hv ha hbody.first hg hret) fun _ w₁ _ hg₁ => ?_
    refine .bind (.anyReturn (ih.passes hs hv hb hbody.rest hg₁ (.inr ⟨rfl, rfl⟩) (by
      rw [Nat.add_assoc]; exact hjump))) fun holds w₂ _ hg₂ => ?_
    cases holds with
    | true => exact ih.exec hs hv (.repeatLoop ha hb) hp hg₂ hret
    | false =>
      refine ⟨hg₂, ?_⟩
      show Runs (im.state spot w₂ S (n + a.size + b.size + 1))
        (im.state spot w₂ S (n + (a.size + b.size + 1)))
      rw [show n + (a.size + b.size + 1) = n + a.size + b.size + 1 by omega]
      exact .refl _
  | @forLoop returns target iterable body a b c ha hb hc =>
    rw [show n + (a.seq ((Shape.one ⟨.getIter, .null⟩).seq (.forLoop (b.seq c)))).size =
      n + a.size + 1 + (Shape.forLoop (b.seq c)).size by simp only [Shape.size]; omega]
    refine .anyReturn (.bind (ih.eval hs hv ha hp.first hg) fun v w₁ _ hg₁ => ?_)
    refine .bind (reaches_getIter hv hg₁ hp.rest.first.one v) fun it w₂ _ hg₂ => ?_
    exact ih.walk hs hv hb hc hp.rest.rest hg₂
  | @returnValue e a ha =>
    obtain ⟨r, hr, hto⟩ := hret rfl
    refine .bind (.anyReturn (ih.eval hs hv ha hp.first hg)) fun v w₁ _ hg₁ => ?_
    exact ⟨r, hr, hg₁, hto _ v w₁ hp.rest.one⟩
  | @returnNothing i hi =>
    obtain ⟨r, hr, hto⟩ := hret rfl
    obtain ⟨v, hd, hrun⟩ := runs_loadConst hl hs hv (.inl rfl) hi hp.first.one hg.intact
    cases hd
    exact ⟨r, hr, hg, hrun.trans (hto _ .none w hp.rest.one)⟩

end Induction

/-- The machine follows the interpreter, whatever the bound for its recursion. -/
theorem simulates {im : Image}
    (hl : Loaded im procedures t) (fuel : Nat) : Simulates im procedures t fuel := by
  induction fuel with
  | zero => constructor <;> (repeat intro) <;> trivial
  | succ fuel ih =>
    exact ⟨eval_succ hl ih, evalAll_succ ih, passes_succ ih, exec_succ hl ih, execAll_succ ih,
      alternatives_succ ih, walk_succ hl ih, gather_succ hl ih⟩

end StackScript.Meaning
