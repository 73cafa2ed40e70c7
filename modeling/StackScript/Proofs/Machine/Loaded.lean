import StackScript.Machine.Fast.Load
import StackScript.Proofs.Machine.Balance
import StackScript.Proofs.Machine.Steps

/-!
# A compiled program in both machines

Both machines read the same file. The wide machine holds the code of its routines itself and the fast
one keeps it in its store, row by row; so after loading, the two are in step.
-/

namespace StackScript

/-! ## Constants -/

namespace Value

open Op

mutual

theorem ofDatum_ok : ∀ (d : Datum) (s : Store), ∃ v t, ofDatum d s = .ok v t
  | .null, _ | .bool _, _ | .int _, _ | .float _, _ | .str _, _ => ⟨_, _, rfl⟩
  | .list items, s | .tuple items, s => by
    obtain ⟨vs, t, hrun⟩ := ofItems_ok items s
    rw [ofDatum, bind_of_ok hrun]
    exact ⟨_, _, rfl⟩
  | .dict entries, s => by
    obtain ⟨vs, t, hrun⟩ := ofEntries_ok entries s
    rw [ofDatum, bind_of_ok hrun]
    exact ⟨_, _, rfl⟩

theorem ofItems_ok : ∀ (items : List Datum) (s : Store), ∃ vs t, ofItems items s = .ok vs t
  | [], _ => ⟨_, _, rfl⟩
  | d :: rest, s => by
    obtain ⟨v, t, hrun⟩ := ofDatum_ok d s
    obtain ⟨vs, u, hrest⟩ := ofItems_ok rest t
    rw [ofItems, bind_of_ok hrun, bind_of_ok hrest]
    exact ⟨_, _, rfl⟩

theorem ofEntries_ok : ∀ (entries : List (Datum × Datum)) (s : Store),
    ∃ vs t, ofEntries entries s = .ok vs t
  | [], _ => ⟨_, _, rfl⟩
  | (k, d) :: rest, s => by
    obtain ⟨key, t, hkey⟩ := ofDatum_ok k s
    obtain ⟨v, u, hrun⟩ := ofDatum_ok d t
    obtain ⟨vs, last, hrest⟩ := ofEntries_ok rest u
    rw [ofEntries, bind_of_ok hkey, bind_of_ok hrun, bind_of_ok hrest]
    exact ⟨_, _, rfl⟩

end

end Value

/-! ## Routines -/

/-- A routine as the fast machine holds it. -/
def RoutineCell.ofCode (r : Routine) : RoutineCell where
  name := r.name
  parameters := .list (r.parameters.map .str)
  code := .rows (r.code.toList.map Instruction.datum).toArray
  slots := r.slots.datum

theorem Listing.spells_datum {code : List Instruction} (h : ∀ i ∈ code, i.op ≠ .typeCheck) :
    (Listing.rows (code.map Instruction.datum).toArray).Spells code.toArray :=
  ⟨_, rfl, Wide.codeOf_datum h⟩

theorem Wide.Routine.ofCode_standsIn {r : StackScript.Routine}
    (h : ∀ i ∈ r.code.toList, i.op ≠ .typeCheck) : (Routine.ofCode r).StandsIn (.ofCode r) :=
  ⟨rfl, rfl, rfl, Listing.spells_datum h⟩

/-- The routines of the wide machine stand in cells of the fast one, in the same order. -/
def RoutinesStand (cells : Array RoutineCell) (wide : List (String × Wide.Routine))
    (fast : List (String × Nat)) : Prop :=
  List.Forall₂ (fun a b => b.1 = a.1 ∧ b.2 < cells.size ∧ a.2.StandsIn (cells.getD b.2 default))
    wide fast

namespace RoutinesStand

variable {cells : Array RoutineCell} {wide : List (String × Wide.Routine)}
  {fast : List (String × Nat)}

theorem lookup (h : RoutinesStand cells wide fast) (name : String) :
    Option.Rel (fun r ref => Wide.Routine.StandsIn r (cells.getD ref default)) (wide.lookup name)
      (fast.lookup name) := by
  induction h with
  | nil => exact .none
  | @cons a b wide fast hentry _ ih =>
    obtain ⟨hname, -, hstands⟩ := hentry
    rw [List.lookup_cons, List.lookup_cons, hname]
    split
    · exact .some hstands
    · exact ih

theorem append (h : RoutinesStand cells wide fast) {r : Wide.Routine} {cell : RoutineCell}
    (hcell : r.StandsIn cell) (name : String) :
    RoutinesStand (cells.push cell) (wide ++ [(name, r)]) (fast ++ [(name, cells.size)]) := by
  have hold : RoutinesStand (cells.push cell) wide fast := by
    refine List.Forall₂.imp (fun a b hentry => ?_) h
    obtain ⟨hname, hlt, hstands⟩ := hentry
    refine ⟨hname, by rw [Array.size_push]; omega, ?_⟩
    simpa [Array.getD_eq_getD_getElem?, Array.getElem?_push, Nat.ne_of_lt hlt] using hstands
  refine List.rel_append hold (.cons ⟨rfl, by simp, ?_⟩ .nil)
  simpa [Array.getD_eq_getD_getElem?] using hcell

end RoutinesStand

namespace Fast

theorem putRoutine_of_new {routines : List (String × Nat)} {name : String} {ref : Nat}
    (h : ∀ entry ∈ routines, entry.1 ≠ name) :
    putRoutine routines name ref = routines ++ [(name, ref)] := by
  induction routines with
  | nil => rfl
  | cons entry rest ih =>
    have hne : (entry.1 == name) = false := by simpa using h entry (by simp)
    rw [putRoutine, hne, ih fun x hx => h x (by simp [hx])]
    rfl

/-- Routines of distinct names are taken over one by one. -/
theorem withRoutines_datum {codes : List Routine} {wide : List (String × Wide.Routine)} {f : State}
    (h : RoutinesStand f.store.routines wide f.routines) (hnames : (codes.map (·.name)).Nodup)
    (hnew : ∀ r ∈ codes, ∀ entry ∈ f.routines, entry.1 ≠ r.name)
    (hcode : ∀ r ∈ codes, ∀ i ∈ r.code.toList, i.op ≠ .typeCheck) :
    ∃ cells fast, f.withRoutines (codes.map fun r => (.str r.name, r.datum)) =
        .ok { f with store := f.store.withRoutines cells, routines := fast } ∧
      RoutinesStand cells (wide ++ codes.map fun r => (r.name, .ofCode r)) fast := by
  induction codes generalizing wide f with
  | nil => exact ⟨f.store.routines, f.routines, rfl, by simpa using h⟩
  | cons r codes ih =>
    obtain ⟨hr, hnames⟩ := List.nodup_cons.1 hnames
    have hput : putRoutine f.routines r.name f.store.routines.size =
        f.routines ++ [(r.name, f.store.routines.size)] := putRoutine_of_new (hnew r (by simp))
    have hstand := h.append (Wide.Routine.ofCode_standsIn (hcode r (by simp))) r.name
    rw [← hput] at hstand
    obtain ⟨cells, fast, hrun, hcells⟩ := ih (f := { f with
        store := { f.store with routines := f.store.routines.push (.ofCode r) }
        routines := putRoutine f.routines r.name f.store.routines.size }) hstand hnames
      (hput ▸ Routine.ne_of_new _ hr hnew) fun x hx => hcode x (by simp [hx])
    exact ⟨cells, fast, hrun, by simpa using hcells⟩

end Fast

/-! ## Loading -/

/-- A fast machine that has read a program whose constants were read as some data. -/
def Fast.State.loaded (unit : CodeUnit) (constants : Datum) : Fast.State :=
  match (State.withConstants {} constants).withRoutines
      (unit.routines.map fun r => (.str r.name, r.datum)) with
  | .ok f => { f with
      globalSlots := unit.globals.datum
      globals := Array.replicate unit.globals.length .none
      main := .rows (unit.main.map Instruction.datum).toArray }
  | .error _ => {}

section Load

variable {p : Program} {c : Compiled} (h : p.compile = .ok c)
include h

/-- The routines of a compiled program are taken over without a failure. -/
theorem withRoutines_of_compile (f : Fast.State) (hf : f.routines = []) :
    ∃ cells fast, f.withRoutines (c.unit.routines.map fun r => (.str r.name, r.datum)) =
        .ok { f with store := f.store.withRoutines cells, routines := fast } ∧
      RoutinesStand cells (c.unit.routines.map fun r => (r.name, .ofCode r)) fast := by
  have hstorable := storable_of_compile h
  have hempty : RoutinesStand f.store.routines [] f.routines := hf ▸ .nil
  exact Fast.withRoutines_datum hempty hstorable.names (by simp [hf])
    fun r hr i hi => ((hstorable.routines r hr).2 i hi).op

/-- Reading a compiled program hangs on its constants alone. -/
theorem fast_of_read : Fast.State.read {} c.bytes =
    ((Datum.read (Datum.write (.list c.unit.constants))).mapError fun e => .file (.data e)).map
      (Fast.State.loaded c.unit) := by
  obtain ⟨hbytes, hfits, -, -⟩ := bytes_of_compile h
  obtain ⟨_, _, _, _, hheader, hconstants, hglobals, hroutines, hmain⟩ :=
    CodeFile.sections_ofUnit (storable_of_compile h) hfits
  rw [hbytes, Fast.State.read, hheader]
  simp only [Except.mapError, bind, Except.bind, hconstants]
  cases Datum.read (Datum.write (.list c.unit.constants)) with
  | error e => rfl
  | ok found =>
    have hnew : (Fast.State.withConstants {} found).routines = [] := by
      unfold Fast.State.withConstants
      split <;> rfl
    obtain ⟨cells, fast, htable, -⟩ := withRoutines_of_compile h _ hnew
    simp only [Except.map, hglobals, Slots.length_datum, hroutines, Datum.entries, htable, hmain,
      Fast.State.loaded]
    rfl

theorem alike_loaded (constants : Datum) :
    Alike "" "" (Wide.State.loaded c.unit constants) (Fast.State.loaded c.unit constants) ∧
      (Fast.State.loaded c.unit constants).debug = false := by
  obtain ⟨v, store, hvalue⟩ := Value.ofDatum_ok constants { lists := #[#[]] }
  obtain ⟨hv, hholds⟩ := (Value.keeps_ofDatum (C := .classless) constants).ok
    (Custody.holds_classless.2 ⟨by simp, by simp⟩) hvalue
  have hstore := Custody.holds_classless.1 hholds
  have hwide : Wide.State.withConstants {} constants = { constants := v, store } := by
    rw [Wide.State.withConstants,
      show (Value.ofDatum constants).run ({} : Wide.State).store = _ from hvalue]
  have hfast : Fast.State.withConstants {} constants = { constants := v, store } := by
    rw [Fast.State.withConstants,
      show (Value.ofDatum constants).run ({} : Fast.State).store = _ from hvalue]
  obtain ⟨cells, fast, htable, hcells⟩ :=
    withRoutines_of_compile h { constants := v, store } rfl
  rw [Wide.State.loaded, hwide, Fast.State.loaded, hfast, htable]
  refine ⟨⟨⟨rfl, rfl, rfl, rfl, rfl, rfl, ?_, hcells.lookup, .nil⟩, ?_, "", rfl, rfl⟩, rfl⟩
  · exact Listing.spells_datum fun i hi => ((storable_of_compile h).main i hi).op
  · refine ⟨rfl, ⟨hstore.lists, hstore.dicts⟩, hv, ?_, by simp, by simp⟩
    intro value hvalue
    rw [(Array.mem_replicate.1 hvalue).2]
    rfl

end Load

/-- The fast machine that has loaded a program. -/
def Fast.loadedOf (p : Program) : Option State := do
  let (shape, sc) ← (Plan.program p).toOption
  let constants ← (Datum.read (Datum.write (.list (shape.unit sc).constants))).toOption
  match Act.start (State.loaded (shape.unit sc) constants) with
  | .ok _ f => some f
  | .error _ _ => none

theorem Fast.loadedOf_eq_some {p : Program} {c : Compiled} {f : State} (hc : p.compile = .ok c)
    (h : loadedOf p = some f) : State.load {} c.bytes = .ok f := by
  unfold loadedOf at h
  simp only [bind, Option.bind_eq_some_iff] at h
  obtain ⟨⟨shape, sc⟩, hplan, constants, hread, hstart⟩ := h
  have hloaded : State.read {} c.bytes = .ok (.loaded (shape.unit sc) constants) := by
    rw [fast_of_read hc, Wide.unit_of_plan hc hplan, eq_ok_of_toOption hread]
    rfl
  simp only [State.load, hloaded, Except.mapError, bind, Except.bind]
  split at hstart
  · rename_i hok
    cases hstart
    rw [hok]
    rfl
  · cases hstart

end StackScript
