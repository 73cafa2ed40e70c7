import StackScript.Proofs.Meaning.Simulation
import StackScript.Proofs.Meaning.Storable

/-!
# Loading a program of the core language

The code file of a program of the core language is loaded by a new machine, which then holds the code
of the program, with its constants in a list of their own.
-/

namespace StackScript.Meaning

open Wide

/-! ## Literals -/

/-- A literal of the core language: the digits of an integer are not too many to be written. -/
inductive Literal : Datum → Prop
  | null : Literal .null
  | bool (b : Bool) : Literal (.bool b)
  | int {i : Int} (h : i.natAbs < 10 ^ Number.digitLimit) : Literal (.int i)
  | str (s : String) : Literal (.str s)

variable {d : Datum} {constants : List Datum} {pool : List Value} {unit : CodeUnit}

theorem Literal.storable (h : Literal d) : d.Storable := by
  cases h with
  | null => exact .null
  | bool b => exact .bool b
  | int h => exact .int h
  | str s => exact .str s

theorem Literal.exists_leaf (h : Literal d) : ∃ v, leaf? d = some v := by
  cases h <;> exact ⟨_, rfl⟩

theorem badKey?_literals (h : ∀ d ∈ constants, Literal d) :
    (Datum.list constants).badKey? = none := by
  show Datum.badKeyItems? constants = none
  induction constants with
  | nil => rfl
  | cons d constants ih =>
    have hd : d.badKey? = none := by
      cases h d (by simp) <;> rfl
    rw [Datum.badKeyItems?, hd, ih fun x hx => h x (by simp [hx])]
    rfl

theorem not_longInteger_of_storable (h : d.Storable) : Gen.longInteger d = false := by
  cases h with
  | int h => simpa [Gen.longInteger, Number.exceedsDigitLimit] using h
  | _ => rfl

theorem bytesOf_literals (h : ∀ d ∈ unit.constants, Literal d)
    (hstorable : CodeFile.fits unit = true → unit.Storable) : Gen.bytesOf unit =
      if CodeFile.fits unit then .ok (CodeFile.ofUnit unit) else .error .longSection := by
  have hlong : unit.constants.any Gen.longInteger = false := by
    simpa using fun d hd => not_longInteger_of_storable (h d hd).storable
  simp only [Gen.bytesOf, hlong, badKey?_literals h, Bool.false_eq_true, if_false]
  split
  · rename_i hfits
    rw [if_neg]
    simpa using fun i hi => not_longInteger_of_storable ((hstorable hfits).instruction i hi).operand
  · rfl

theorem Literal.eq_of_same {a b : Datum} (ha : Literal a) (hb : Literal b) (h : a.same b = true)
    (hkind : a.kindName = b.kindName) : a = b := by
  cases ha <;> cases hb <;>
    simp_all [Datum.same, Datum.sameLeaf, Datum.integral?, Datum.kindName]
  case bool.bool b c => cases b <;> cases c <;> simp_all

/-- Texts and nothing are equal only to what is of their kind. -/
theorem Literal.kindName_of_same {a b : Datum} (ha : Literal a) (hb : Literal b)
    (h : a.same b = true) (hplain : b = .null ∨ ∃ s, b = .str s) : a.kindName = b.kindName := by
  rcases hplain with rfl | ⟨s, rfl⟩ <;> cases ha <;>
    simp_all [Datum.same, Datum.sameLeaf, Datum.integral?, Datum.kindName]

theorem Literal.same_comm {a b : Datum} (ha : Literal a) (hb : Literal b) : a.same b = b.same a := by
  cases ha <;> cases hb <;> first | rfl | exact BEq.comm

/-! ## Loading -/

/-- What a machine holds that has loaded a program with some constants. -/
def imageOf (unit : CodeUnit) (pool : List Value) : Image where
  ref := 1
  pool := pool.toArray
  globals := unit.globals
  routines := unit.routines.map fun r => (r.name, .ofCode r)
  main := unit.main.toArray

/-- The memory in which a loaded program starts: it has two lists, which a new machine has for the
constants, the second of them with the constants of the program. -/
def startOf (pool : List Value) : Memory where
  store := { lists := #[#[], pool.toArray] }

theorem ofItems_leaves {items : List Datum} (h : items.map leaf? = pool.map some) (store : Store) :
    Value.ofItems items store = .ok pool store := by
  induction items generalizing pool with
  | nil =>
    obtain rfl : pool = [] := by simpa using h.symm
    rfl
  | cons d items ih =>
    cases pool with
    | nil => cases h
    | cons v pool =>
      obtain ⟨hd, hrest⟩ := List.cons_eq_cons.1 h
      have hvalue : Value.ofDatum d store = .ok v store := by
        cases d <;> cases hd <;> rfl
      rw [Value.ofItems, bind_of_ok hvalue, bind_of_ok (ih hrest)]
      rfl

theorem load_ofUnit (h : unit.Storable)
    (hfits : CodeFile.fits unit = true) (hpool : unit.constants.map leaf? = pool.map some) :
    State.load {} (CodeFile.ofUnit unit) =
      .ok ((imageOf unit pool).state .main (startOf pool) [] 0) := by
  have hread : Datum.read (Datum.write (.list unit.constants)) = .ok (.list unit.constants) :=
    Datum.Storable.read_write (.list h.constants)
  have hvalues : (Value.ofDatum (.list unit.constants)).run ({} : State).store =
      .ok (.list 1) (startOf pool).store := by
    show (Value.ofDatum (.list unit.constants)) _ = _
    rw [Value.ofDatum, bind_of_ok (ofItems_leaves hpool _)]
    rfl
  have hnone : slotValues unit.globals (fun _ => .none) =
      Array.replicate unit.globals.length .none := by
    rw [slotValues, List.map_const', List.toArray_replicate]
  rw [load_ofUnit_of_read { h with constants := by simp } hfits, hread]
  simp only [Except.mapError, Except.map, State.loaded, State.withConstants, hvalues, Image.state,
    imageOf, startOf, hnone]
  rfl

/-! ## Compiled programs -/

theorem exists_pool (h : ∀ d ∈ constants, Literal d) :
    ∃ pool : List Value, constants.map leaf? = pool.map some := by
  induction constants with
  | nil => exact ⟨[], rfl⟩
  | cons d constants ih =>
    obtain ⟨v, hv⟩ := (h d (by simp)).exists_leaf
    obtain ⟨pool, hpool⟩ := ih fun x hx => h x (by simp [hx])
    exact ⟨v :: pool, by simp [hv, hpool]⟩

theorem lookup_routines {codes : List StackScript.Routine} {code : StackScript.Routine}
    (hnames : (codes.map (·.name)).Nodup) (h : code ∈ codes) :
    (codes.map fun r => (r.name, Wide.Routine.ofCode r)).lookup code.name = some (.ofCode code) := by
  induction codes with
  | nil => cases h
  | cons other codes ih =>
    obtain ⟨hother, hnames⟩ := List.nodup_cons.1 hnames
    rcases List.mem_cons.1 h with rfl | h
    · simp
    · have hne : (code.name == other.name) = false := by
        simpa using fun heq : code.name = other.name =>
          hother (List.mem_map.2 ⟨code, h, heq⟩)
      simp [List.lookup_cons, hne, ih hnames h]

theorem slots_storable {slots : Slots} (h : slots.Proper) (hlength : slots.length < 2 ^ 32) :
    slots.Storable := by
  refine ⟨h.nodup, fun entry hentry => two_pow_lt_digitLimit ?_⟩
  have hmem : entry.2 ∈ slots.map (·.2) := List.mem_map_of_mem hentry
  rw [h.dense, List.mem_range] at hmem
  omega

/-- A program of the core language that has been compiled and fits into a file. -/
structure Built (r : Rules) (defs : List Procedure) (body : List Stmt) (shape : Shape) (sc : Scope) :
    Prop where
  program : r.CoreProgram defs body
  literals : ∀ d, r.literal d → Literal d
  ordered : r.Ordered [] sc
  main : sc.locals = none
  code : (r.tables sc).CodesProgram body defs shape
  procedures : (r.tables sc).CodesProcedures defs sc.routines
  fits : CodeFile.fits (shape.unit sc) = true

namespace Built

variable {r : Rules} {defs : List Procedure} {body : List Stmt} {shape : Shape} {sc : Scope}
  (h : Built r defs body shape sc)
include h

theorem small : (shape.unit sc).Small := CodeUnit.small_of_fits h.fits

theorem names : (sc.routines.map (·.name)).Nodup := h.procedures.names ▸ h.program.distinct

theorem size_lt : shape.size < 2 ^ 32 := by
  have hmain := h.small.main
  simp only [Shape.unit, List.length_append, Shape.length_layout, List.length_singleton] at hmain
  omega

theorem within : (r.tables sc).Within (2 ^ 32) := by
  refine ⟨Nat.le_of_lt h.small.constants, ⟨h.ordered.globals, Nat.le_of_lt h.small.globals⟩, ?_⟩
  intro slots hslots
  have hslots : sc.locals = some slots := hslots
  rw [h.main] at hslots
  cases hslots

theorem storable : (shape.unit sc).Storable := by
  refine ⟨fun d hd => (h.literals d (h.ordered.constants d hd)).storable,
    slots_storable h.ordered.globals h.small.globals, h.names, fun code hcode => ?_, fun i hi => ?_⟩
  · obtain ⟨d, -, hd⟩ := h.procedures.only code hcode
    obtain ⟨hslots, hsize⟩ := h.small.routines code hcode
    obtain ⟨a, ha, hlayout⟩ := hd.body
    have htables : Tables.Within (2 ^ 32) { r.tables sc with locals := some code.slots } := by
      refine ⟨h.within.constants, h.within.globals, ?_⟩
      rintro slots hmem
      cases hmem
      exact ⟨hd.slots, Nat.le_of_lt hslots⟩
    have ha_size : a.size < 2 ^ 32 := by simpa [hlayout] using hsize
    refine ⟨slots_storable hd.slots hslots, fun i hi => ?_⟩
    rw [hlayout] at hi
    exact (ha.fair htables 0 i hi).storable (by omega)
  · rcases List.mem_append.1 hi with hi | hi
    · have hsize := h.size_lt
      exact (h.code.fair h.within 0 i hi).storable (by omega)
    · rw [List.mem_singleton.1 hi]
      exact ⟨by decide, .null⟩

/-- A machine that has loaded the program holds its code. -/
theorem loaded (hpool : sc.constants.toList.map leaf? = pool.map some) :
    Loaded (imageOf (shape.unit sc) pool) defs (r.tables sc) := by
  have hlimit : 2 ^ 32 ≤ Value.sizeLimit := by decide
  have hlength : pool.length = sc.constants.toList.length := by
    simpa using (congrArg List.length hpool).symm
  have hsmall := h.small
  have hconstants : sc.constants.toList.length < 2 ^ 32 := hsmall.constants
  have hglobals : List.length sc.globals < 2 ^ 32 := hsmall.globals
  have hmain := hsmall.main
  refine ⟨⟨h.ordered.globals, ?_, ?_, ?_⟩, ?_, rfl, h.main, h.program.functions, ?_, ?_⟩
  · exact Nat.le_trans (Nat.le_of_lt hglobals) hlimit
  · show pool.toArray.size ≤ _
    rw [List.size_toArray]
    omega
  · show (shape.unit sc).main.toArray.size ≤ _
    rw [List.size_toArray]
    omega
  · simp [imageOf, Shape.unit]
  · intro i d hi
    have hi : sc.constants.toList[i]? = some d := hi
    have hmap := congrArg (·[i]?) hpool
    simp only [List.getElem?_map, hi, Option.map_some] at hmap
    obtain ⟨v, hv, heq⟩ := Option.map_eq_some_iff.1 hmap.symm
    exact ⟨v, heq.symm, by simpa [imageOf] using hv⟩
  · intro d hd
    obtain ⟨code, hmem, hcode⟩ := h.procedures.each d hd
    obtain ⟨hslots, hsize⟩ := hsmall.routines code hmem
    exact ⟨code, hcode.name, hcode.parameters, lookup_routines h.names hmem,
      hcode.name ▸ h.program.notPlain d hd, hcode.slots, hcode.parameters ▸ hcode.first, hcode.known,
      hcode.body, (h.program.procedures d hd).returns, by omega, by omega⟩

end Built

end StackScript.Meaning
