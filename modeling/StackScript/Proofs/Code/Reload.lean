import StackScript.Machine.Wide.Load
import StackScript.Proofs.Code.Slots
import StackScript.Proofs.Datum.RoundTrip
import StackScript.Proofs.Text.Utf8

/-!
# Written code files are read back

A compiled program is storable when its numbers have no more digits than can be read, its names are
distinct, and all its instructions have a code in the wide set. The file of a storable program is read
section by section, and each section yields what was written.
-/

namespace StackScript

/-! ## Numbers in bytes -/

@[simp] theorem length_lowFirst (count n : Nat) : (lowFirst count n).length = count := by
  induction count generalizing n with
  | zero => rfl
  | succ count ih => simp [lowFirst, ih]

theorem ofLowFirst_lowFirst {count n : Nat} (h : n < 256 ^ count) :
    ofLowFirst (lowFirst count n) = n := by
  induction count generalizing n with
  | zero =>
    obtain rfl : n = 0 := by simpa using h
    rfl
  | succ count ih =>
    have hrest : n / 256 < 256 ^ count := by
      rw [Nat.pow_succ] at h
      omega
    have hbyte : (UInt8.ofNat (n % 256)).toNat = n % 256 := by
      simp
    show (UInt8.ofNat (n % 256)).toNat + 256 * ofLowFirst (lowFirst count (n / 256)) = n
    rw [ih hrest, hbyte]
    omega

namespace CodeFile

theorem takeNumber_lowFirst {count n : Nat} (h : n < 256 ^ count) (rest : List UInt8) :
    takeNumber count (lowFirst count n ++ rest) = .ok (n, rest) := by
  have hfront : (lowFirst count n ++ rest).take count = lowFirst count n := by
    rw [List.take_append_of_le_length (by simp), List.take_of_length_le (by simp)]
  have hrest : (lowFirst count n ++ rest).drop count = rest := by
    rw [List.drop_append_of_le_length (by simp), List.drop_of_length_le (by simp), List.nil_append]
  simp [takeNumber, hfront, hrest, ofLowFirst_lowFirst h]

theorem readHeader_magic (rest : List UInt8) :
    readHeader (magic ++ lowFirst 2 version ++ rest) = .ok rest := by
  have hversion := takeNumber_lowFirst (show version < 256 ^ 2 by decide) rest
  have hdrop : (magic ++ (lowFirst 2 version ++ rest)).drop 4 = lowFirst 2 version ++ rest := rfl
  have htake : (magic ++ (lowFirst 2 version ++ rest)).take 4 = magic := rfl
  simp [readHeader, htake, hdrop, hversion, bind, Except.bind, pure, Except.pure]

variable {d : Datum}

theorem readSection_eq (hlength : (Text.encodeUtf8 d.write).length < 2 ^ 32)
    (rest : List UInt8) : readSection (sectionBytes d ++ rest) =
      ((Datum.read d.write).mapError .data).map fun found => (found, rest) := by
  have hnumber := takeNumber_lowFirst (show (Text.encodeUtf8 d.write).length < 256 ^ 4 by omega)
    (Text.encodeUtf8 d.write ++ rest)
  simp only [readSection, sectionBytes, List.append_assoc, hnumber, bind, Except.bind,
    List.take_left, List.drop_left, Text.decodeUtf8_encodeUtf8, Except.mapError]
  cases Datum.read d.write <;> rfl

theorem readSection_sectionBytes (h : d.Storable)
    (hlength : (Text.encodeUtf8 d.write).length < 2 ^ 32) (rest : List UInt8) :
    readSection (sectionBytes d ++ rest) = .ok (d, rest) := by
  rw [readSection_eq hlength, h.read_write]
  rfl

end CodeFile

/-! ## Storable programs -/

/-- Slots of distinct names, with numbers that can be read. -/
structure Slots.Storable (slots : Slots) : Prop where
  names : slots.names.Nodup
  numbers : ∀ entry ∈ slots, entry.2 < 10 ^ Number.digitLimit

/-- An instruction of the wide set with an operand that can be read. -/
structure Instruction.Storable (i : Instruction) : Prop where
  op : i.op ≠ .typeCheck
  operand : i.operand.Storable

/-- A program that can be read back. -/
structure CodeUnit.Storable (unit : CodeUnit) : Prop where
  constants : ∀ d ∈ unit.constants, d.Storable
  globals : unit.globals.Storable
  names : (unit.routines.map (·.name)).Nodup
  routines : ∀ r ∈ unit.routines, r.slots.Storable ∧ ∀ i ∈ r.code.toList, i.Storable
  main : ∀ i ∈ unit.main, i.Storable

variable {unit : CodeUnit}

theorem CodeUnit.Storable.instruction (h : unit.Storable) :
    ∀ i ∈ unit.instructions, i.Storable := by
  intro i hi
  rcases List.mem_append.1 hi with hi | hi
  · exact h.main i hi
  · obtain ⟨r, hr, hi⟩ := List.mem_flatMap.1 hi
    exact (h.routines r hr).2 i hi

theorem Slots.Storable.datum {slots : Slots} (h : slots.Storable) : slots.datum.Storable := by
  have hfields : slots.datum = .dict ((slots.map fun entry =>
      (entry.1, Datum.int entry.2)).map fun f => (.str f.1, f.2)) := by
    simp [Slots.datum]
  rw [hfields]
  refine .dict ?_ ?_
  · rw [List.map_map]
    exact h.names
  · intro f hf
    obtain ⟨entry, hentry, rfl⟩ := List.mem_map.1 hf
    exact .int (by simpa using h.numbers entry hentry)

theorem Opcode.code_lt (op : Opcode) : op.code < 256 := by
  cases op <;> decide

theorem two_pow_lt_digitLimit {n : Nat} (h : n ≤ 2 ^ 33) : n < 10 ^ Number.digitLimit :=
  calc n < 10 ^ 10 := by omega
    _ ≤ 10 ^ Number.digitLimit := Nat.pow_le_pow_right (by decide) (by decide)

theorem Instruction.Storable.datum {i : Instruction} (h : i.Storable) : i.datum.Storable := by
  refine .list fun d hd => ?_
  rcases List.mem_cons.1 hd with rfl | hd
  · have := i.op.code_lt
    exact .int (two_pow_lt_digitLimit (by simpa using by omega))
  · exact List.mem_singleton.1 hd ▸ h.operand

theorem storable_code {code : List Instruction} (h : ∀ i ∈ code, i.Storable) :
    (Datum.list (code.map Instruction.datum)).Storable := by
  refine .list fun d hd => ?_
  obtain ⟨i, hi, rfl⟩ := List.mem_map.1 hd
  exact (h i hi).datum

theorem Routine.storable_datum {r : Routine} (hslots : r.slots.Storable)
    (hcode : ∀ i ∈ r.code.toList, i.Storable) : r.datum.Storable := by
  have hfields : r.datum = .dict ([
      ("parameters", Datum.list (r.parameters.map .str)), ("local_vars", r.slots.datum),
      ("instructions", .list (r.code.toList.map Instruction.datum))].map
        fun f => (.str f.1, f.2)) := rfl
  rw [hfields]
  refine .dict (by simp) ?_
  intro f hf
  simp only [List.mem_cons, List.not_mem_nil, or_false] at hf
  rcases hf with rfl | rfl | rfl
  · refine .list fun d hd => ?_
    obtain ⟨s, -, rfl⟩ := List.mem_map.1 hd
    exact .str s
  · exact hslots.datum
  · exact storable_code hcode

theorem CodeUnit.Storable.sections (h : unit.Storable) :
    ∀ d ∈ CodeFile.sections unit, d.Storable := by
  intro d hd
  simp only [CodeFile.sections, List.mem_cons, List.not_mem_nil, or_false] at hd
  rcases hd with rfl | rfl | rfl | rfl
  · exact .list h.constants
  · exact h.globals.datum
  · have hfields : (Datum.dict (unit.routines.map fun r => (.str r.name, r.datum))) =
        .dict ((unit.routines.map fun r => (r.name, r.datum)).map fun f => (.str f.1, f.2)) := by
      simp
    rw [hfields]
    refine .dict (by rw [List.map_map]; exact h.names) ?_
    intro f hf
    obtain ⟨r, hr, rfl⟩ := List.mem_map.1 hf
    exact Routine.storable_datum (h.routines r hr).1 (h.routines r hr).2
  · exact storable_code h.main

/-! ## Parts are no longer than the whole -/

namespace Datum

/-- The text of joined parts has at least one character for each part but one, and is not shorter than
any of them. -/
theorem length_intercalate (parts : List String) :
    parts.length ≤ (", ".intercalate parts).toList.length + 1 ∧
      ∀ part ∈ parts, part.toList.length ≤ (", ".intercalate parts).toList.length := by
  induction parts with
  | nil => simp
  | cons first rest ih =>
    cases rest with
    | nil => simp
    | cons second rest =>
      have htext : (", ".intercalate (first :: second :: rest)).toList =
          first.toList ++ ',' :: ' ' :: (", ".intercalate (second :: rest)).toList := by
        simp [String.toList_intercalate]
      rw [htext]
      simp only [List.length_append, List.length_cons] at ih ⊢
      refine ⟨by omega, fun part hpart => ?_⟩
      rcases List.mem_cons.1 hpart with rfl | hpart
      · omega
      · have := ih.2 part hpart
        omega

theorem writeItems_eq_map (items : List Datum) : writeItems items = items.map write := by
  induction items with
  | nil => rfl
  | cons d items ih => rw [writeItems, ih, List.map_cons]

theorem writeEntries_eq_map (entries : List (Datum × Datum)) :
    writeEntries entries = entries.map fun e => writeText e.1.keyText ++ ": " ++ e.2.write := by
  induction entries with
  | nil => rfl
  | cons e entries ih => rw [writeEntries, ih, List.map_cons]

theorem length_write_list (items : List Datum) :
    items.length ≤ (write (.list items)).toList.length ∧
      ∀ d ∈ items, d.write.toList.length ≤ (write (.list items)).toList.length := by
  obtain ⟨hcount, hpart⟩ := length_intercalate (items.map write)
  have hlength : (write (.list items)).toList.length =
      (", ".intercalate (items.map write)).toList.length + 2 := by
    simp only [write, writeItems_eq_map, String.toList_append, List.length_append]
    simp
    omega
  rw [List.length_map] at hcount
  refine ⟨by omega, fun d hd => ?_⟩
  have := hpart d.write (List.mem_map_of_mem hd)
  omega

theorem length_write_dict (entries : List (Datum × Datum)) :
    entries.length ≤ (write (.dict entries)).toList.length ∧
      ∀ e ∈ entries, e.2.write.toList.length ≤ (write (.dict entries)).toList.length := by
  obtain ⟨hcount, hpart⟩ := length_intercalate
    (entries.map fun e => writeText e.1.keyText ++ ": " ++ e.2.write)
  have hlength : (write (.dict entries)).toList.length = (", ".intercalate (entries.map fun e =>
      writeText e.1.keyText ++ ": " ++ e.2.write)).toList.length + 2 := by
    simp only [write, writeEntries_eq_map, String.toList_append, List.length_append]
    simp
    omega
  rw [List.length_map] at hcount
  refine ⟨by omega, fun e he => ?_⟩
  have := hpart _ (List.mem_map_of_mem he)
  simp only [String.toList_append, List.length_append] at this
  omega

end Datum

theorem Text.length_encodeUtf8 (s : String) : s.toList.length ≤ (encodeUtf8 s).length := by
  unfold encodeUtf8
  induction s.toList with
  | nil => simp
  | cons c cs ih =>
    have hchar : 1 ≤ (encodeChar c).length := by
      simp only [encodeChar]
      split
      · simp
      · split
        · simp
        · split <;> simp
    simp only [List.flatMap_cons, List.length_append, List.length_cons]
    omega

/-- A program whose parts are few enough to be counted in four bytes. -/
structure CodeUnit.Small (unit : CodeUnit) : Prop where
  constants : unit.constants.length < 2 ^ 32
  globals : unit.globals.length < 2 ^ 32
  main : unit.main.length < 2 ^ 32
  routines : ∀ r ∈ unit.routines, r.slots.length < 2 ^ 32 ∧ r.code.size < 2 ^ 32
  parameters : ∀ r ∈ unit.routines, r.parameters.length < 2 ^ 32

theorem CodeUnit.small_of_fits (h : CodeFile.fits unit = true) : unit.Small := by
  have hwrite : ∀ d ∈ CodeFile.sections unit, d.write.toList.length < 2 ^ 32 := by
    intro d hd
    have hbytes := List.all_eq_true.1 h d hd
    exact Nat.lt_of_le_of_lt (Text.length_encodeUtf8 _) (by simpa using hbytes)
  simp only [CodeFile.sections, List.mem_cons, List.not_mem_nil, or_false, forall_eq_or_imp,
    forall_eq] at hwrite
  obtain ⟨hconstants, hglobals, hroutines, hmain⟩ := hwrite
  -- the parts of a routine are parts of the section of routines
  have hpart : ∀ r ∈ unit.routines, ∀ e ∈ [
      (Datum.str "parameters", Datum.list (r.parameters.map .str)),
      (.str "local_vars", r.slots.datum),
      (.str "instructions", .list (r.code.toList.map Instruction.datum))],
      e.2.write.toList.length < 2 ^ 32 := by
    intro r hr e he
    have hentry := (Datum.length_write_dict
      (unit.routines.map fun r => (.str r.name, r.datum))).2 (.str r.name, r.datum)
      (List.mem_map.2 ⟨r, hr, rfl⟩)
    have hroutine : r.datum.write.toList.length < 2 ^ 32 := Nat.lt_of_le_of_lt hentry hroutines
    exact Nat.lt_of_le_of_lt ((Datum.length_write_dict _).2 e he) hroutine
  have hslots (slots : Slots) (h : slots.datum.write.toList.length < 2 ^ 32) :
      slots.length < 2 ^ 32 := by
    have := (Datum.length_write_dict (slots.map fun e => (.str e.1, .int e.2))).1
    rw [List.length_map] at this
    exact Nat.lt_of_le_of_lt this h
  refine ⟨?_, hslots _ hglobals, ?_, fun r hr => ⟨hslots _ ?_, ?_⟩, fun r hr => ?_⟩
  · exact Nat.lt_of_le_of_lt (Datum.length_write_list _).1 hconstants
  · have := (Datum.length_write_list (unit.main.map Instruction.datum)).1
    rw [List.length_map] at this
    exact Nat.lt_of_le_of_lt this hmain
  · exact hpart r hr (.str "local_vars", r.slots.datum) (by simp)
  · have hcode := hpart r hr (.str "instructions", .list (r.code.toList.map Instruction.datum))
      (by simp)
    have := (Datum.length_write_list (r.code.toList.map Instruction.datum)).1
    rw [List.length_map, Array.length_toList] at this
    exact Nat.lt_of_le_of_lt this hcode
  · have hnames := hpart r hr (.str "parameters", .list (r.parameters.map .str)) (by simp)
    have := (Datum.length_write_list (r.parameters.map .str)).1
    rw [List.length_map] at this
    exact Nat.lt_of_le_of_lt this hnames

/-! ## Reading instructions and routines -/

theorem Routine.ne_of_new {α : Type} {entries : List (String × α)} (a : α) {r : Routine}
    {codes : List Routine} (hr : r.name ∉ codes.map (·.name))
    (hnew : ∀ x ∈ r :: codes, ∀ entry ∈ entries, entry.1 ≠ x.name) :
    ∀ x ∈ codes, ∀ entry ∈ entries ++ [(r.name, a)], entry.1 ≠ x.name := by
  intro x hx entry hentry
  rcases List.mem_append.1 hentry with hentry | hentry
  · exact hnew x (by simp [hx]) entry hentry
  · rw [List.mem_singleton.1 hentry]
    exact fun heq => hr (List.mem_map.2 ⟨x, hx, heq.symm⟩)

namespace Wide

theorem ofDatum?_code {op : Opcode} (h : op ≠ .typeCheck) :
    Opcode.ofDatum? Opcode.wideSet (.int op.code) = some op := by
  cases op <;> first | rfl | exact absurd rfl h

theorem instructionOf_datum {i : Instruction} (h : i.op ≠ .typeCheck) :
    instructionOf i.datum = .ok i := by
  simp [instructionOf, Instruction.datum, Datum.pair, Datum.parts, bind, Except.bind, pure,
    Except.pure, ofDatum?_code h]

variable {routines : List (String × Routine)} {code : List Instruction}

theorem mapM_instructionOf (h : ∀ i ∈ code, i.op ≠ .typeCheck) :
    (code.map Instruction.datum).mapM instructionOf = .ok code := by
  induction code with
  | nil => rfl
  | cons i code ih =>
    simp [instructionOf_datum (h i (by simp)), ih fun x hx => h x (by simp [hx]), bind, Except.bind,
      pure, Except.pure]

theorem codeOf_datum (h : ∀ i ∈ code, i.op ≠ .typeCheck) :
    codeOf (.list (code.map Instruction.datum)) = .ok code.toArray := by
  simp [codeOf, Datum.parts, bind, Except.bind, mapM_instructionOf h, pure, Except.pure]

/-- A routine as a machine holds it. -/
def Routine.ofCode (r : StackScript.Routine) : Routine :=
  ⟨r.name, .list (r.parameters.map .str), r.slots.datum, r.code⟩

theorem routineOf_datum {r : StackScript.Routine} (h : ∀ i ∈ r.code.toList, i.op ≠ .typeCheck) :
    routineOf r.name r.datum = .ok (.ofCode r) := by
  have hcode := codeOf_datum h
  have hinstructions : r.datum.part "instructions" =
      .ok (.list (r.code.toList.map Instruction.datum)) := rfl
  have hparameters : r.datum.part "parameters" = .ok (.list (r.parameters.map .str)) := rfl
  have hslots : r.datum.part "local_vars" = .ok r.slots.datum := rfl
  simp [routineOf, hinstructions, hparameters, hslots, hcode, bind, Except.bind, pure, Except.pure,
    Routine.ofCode]

theorem putRoutine_of_new {r : Routine} (h : ∀ entry ∈ routines, entry.1 ≠ r.name) :
    putRoutine routines r = routines ++ [(r.name, r)] := by
  induction routines with
  | nil => rfl
  | cons entry rest ih =>
    have hne : (entry.1 == r.name) = false := by simpa using h entry (by simp)
    rw [putRoutine, hne, ih fun x hx => h x (by simp [hx])]
    rfl

/-- Routines of distinct names are read as they were written. -/
theorem putRoutines_datum {codes : List StackScript.Routine} (hnames : (codes.map (·.name)).Nodup)
    (hnew : ∀ r ∈ codes, ∀ entry ∈ routines, entry.1 ≠ r.name)
    (h : ∀ r ∈ codes, ∀ i ∈ r.code.toList, i.op ≠ .typeCheck) :
    putRoutines routines (codes.map fun r => (.str r.name, r.datum)) =
      .ok (routines ++ codes.map fun r => (r.name, .ofCode r)) := by
  induction codes generalizing routines with
  | nil => simp [putRoutines]
  | cons r codes ih =>
    obtain ⟨hr, hnames⟩ := List.nodup_cons.1 hnames
    have hput : putRoutine routines (.ofCode r) = routines ++ [(r.name, .ofCode r)] :=
      putRoutine_of_new (hnew r (by simp))
    have hrest := ih hnames (StackScript.Routine.ne_of_new (.ofCode r) hr hnew) fun x hx => h x (by simp [hx])
    simp [putRoutines, keyName, routineOf_datum (h r (by simp)), bind, Except.bind, hput, hrest]

/-! ## Loading -/

/-- A machine that has loaded a program whose constants were read as some data. -/
def State.loaded (unit : CodeUnit) (constants : Datum) : State :=
  { State.withConstants {} constants with
    globalSlots := unit.globals.datum
    globals := Array.replicate unit.globals.length .none
    routines := unit.routines.map fun r => (r.name, .ofCode r)
    main := unit.main.toArray }

theorem State.loaded_start (unit : CodeUnit) (constants : Datum) :
    (loaded unit constants).frames = [] ∧ (loaded unit constants).stack = [] ∧
      (loaded unit constants).pc = .at 0 ∧ (loaded unit constants).functions = .plain := by
  unfold loaded withConstants
  split <;> exact ⟨rfl, rfl, rfl, rfl⟩

end Wide

/-- The file of a program, section by section: what comes after the constants is read back. -/
theorem CodeFile.sections_ofUnit
    (h : ({ unit with constants := [] } : CodeUnit).Storable) (hfits : CodeFile.fits unit = true) :
    ∃ first second third fourth,
      CodeFile.readHeader (CodeFile.ofUnit unit) = .ok first ∧
      nextSection first = ((Datum.read (Datum.write (.list unit.constants))).mapError
        fun e => .file (.data e)).map (fun found => (found, second)) ∧
      nextSection second = .ok (unit.globals.datum, third) ∧
      nextSection third = .ok (.dict (unit.routines.map fun r => (.str r.name, r.datum)), fourth) ∧
      nextSection fourth = .ok (.list (unit.main.map Instruction.datum), []) := by
  have hlength : ∀ d ∈ CodeFile.sections unit, (Text.encodeUtf8 d.write).length < 2 ^ 32 := by
    intro d hd
    simpa using List.all_eq_true.1 hfits d hd
  have hsection : ∀ d ∈ (CodeFile.sections unit).tail, ∀ rest,
      nextSection (CodeFile.sectionBytes d ++ rest) = .ok (d, rest) := by
    intro d hd rest
    have hd' : d ∈ CodeFile.sections { unit with constants := [] } := List.mem_of_mem_tail hd
    rw [nextSection, CodeFile.readSection_sectionBytes (h.sections d hd')
      (hlength d (List.mem_of_mem_tail hd))]
    rfl
  simp only [CodeFile.sections, List.tail_cons, List.mem_cons, List.not_mem_nil, or_false,
    forall_eq_or_imp, forall_eq] at hsection
  obtain ⟨hglobals, hroutines, hmain⟩ := hsection
  refine ⟨_, _, _, _, CodeFile.readHeader_magic _, ?_, hglobals _, hroutines _, hmain []⟩
  show nextSection (CodeFile.sectionBytes (.list unit.constants) ++ _) = _
  rw [nextSection, CodeFile.readSection_eq (hlength _ (by simp [CodeFile.sections]))]
  cases Datum.read (Datum.write (.list unit.constants)) <;> rfl

theorem Slots.length_datum (slots : Slots) : slots.datum.length = .ok slots.length := by
  simp [Datum.length, Slots.datum, Listing.ofDatum?, Listing.size]

theorem Wide.load_ofUnit_of_read
    (h : ({ unit with constants := [] } : CodeUnit).Storable) (hfits : CodeFile.fits unit = true) :
    State.load {} (CodeFile.ofUnit unit) =
      ((Datum.read (Datum.write (.list unit.constants))).mapError fun e => .file (.data e)).map
        (State.loaded unit) := by
  obtain ⟨_, _, _, _, hheader, hconstants, hglobals, hroutines, hmain⟩ :=
    CodeFile.sections_ofUnit h hfits
  have htable : putRoutines [] (unit.routines.map fun r => (.str r.name, r.datum)) =
      .ok (unit.routines.map fun r => (r.name, .ofCode r)) :=
    putRoutines_datum h.names (by simp) fun r hr i hi => ((h.routines r hr).2 i hi).op
  have hcode := codeOf_datum fun i hi => (h.main i hi).op
  rw [State.load, hheader]
  simp only [Except.mapError, bind, Except.bind, hconstants]
  cases Datum.read (Datum.write (.list unit.constants)) with
  | error e => rfl
  | ok found =>
    simp only [Except.map, hglobals, Slots.length_datum, hroutines, Datum.entries, htable, hmain,
      hcode]
    rfl

end StackScript
