import StackScript.Proofs.Code.Entered
import StackScript.Proofs.Code.Reload

/-!
# A loaded program is the one that was compiled

Whatever program compiles, a new machine that loads its file holds the tables and the code of the
generator. The literals of trees have no parts; the other constants are texts and lists and tables
of texts, so that all of them can be read back.

* `load_compile`: a compiled program is restored, with its constants.
-/

namespace StackScript

/-! ## Literals -/

theorem Expr.mem_literalsOf {d : Datum} : ∀ {es : List Expr}, d ∈ Expr.literalsOf es →
    ∃ e ∈ es, d ∈ e.literals
  | e :: rest, h => by
    rcases List.mem_append.1 h with h | h
    · exact ⟨e, by simp, h⟩
    · obtain ⟨e', he', hd⟩ := Expr.mem_literalsOf h
      exact ⟨e', by simp [he'], hd⟩

theorem Expr.mem_literalsOfPairs {d : Datum} : ∀ {pairs : List (Expr × Expr)},
    d ∈ Expr.literalsOfPairs pairs → ∃ entry ∈ pairs, d ∈ entry.1.literals ∨ d ∈ entry.2.literals
  | (key, value) :: rest, h => by
    rcases List.mem_append.1 h with h | h
    · exact ⟨(key, value), by simp, List.mem_append.1 h⟩
    · obtain ⟨entry, hentry, hd⟩ := Expr.mem_literalsOfPairs h
      exact ⟨entry, by simp [hentry], hd⟩

/-- The literals of an expression that was read have no parts. -/
theorem Expr.Woven.scalar {e : Expr} (h : e.Woven) : ∀ d ∈ e.literals, d.Scalar := by
  induction h with
  | literal h =>
    intro d hd
    rw [List.mem_singleton.1 hd]
    exact h
  | @formatted pieces =>
    intro d hd
    obtain ⟨item, hitem, hvalue⟩ := List.mem_filterMap.1 hd
    obtain ⟨piece, -, rfl⟩ := List.mem_map.1 hitem
    cases piece <;> cases hvalue <;> exact .str _
  | name | lambda | await => nofun
  | binary _ _ ihl ihr => exact List.forall_mem_append.2 ⟨ihl, ihr⟩
  | unary _ ih | member _ ih => exact ih
  | call _ _ ihf iha =>
    refine List.forall_mem_append.2 ⟨ihf, fun d hd => ?_⟩
    obtain ⟨e, he, hd⟩ := Expr.mem_literalsOf hd
    exact iha e he d hd
  | index _ _ iho ihi => exact List.forall_mem_append.2 ⟨iho, ihi⟩
  | list _ ih | tuple _ ih =>
    intro d hd
    obtain ⟨e, he, hd⟩ := Expr.mem_literalsOf hd
    exact ih e he d hd
  | dict _ _ ihk ihv =>
    intro d hd
    obtain ⟨entry, hentry, hd | hd⟩ := Expr.mem_literalsOfPairs hd
    · exact ihk entry hentry d hd
    · exact ihv entry hentry d hd
  | @comprehension element iterable target condition _ _ _ ihe ihi ihc =>
    have hfirst := List.forall_mem_append.2 ⟨ihi, ihe⟩
    cases condition with
    | none => exact List.forall_mem_append.2 ⟨hfirst, nofun⟩
    | some c => exact List.forall_mem_append.2 ⟨hfirst, ihc c rfl⟩

/-! ## Constants -/

/-- The constants of programs: literals, and lists and tables of texts. -/
inductive Datum.Constant : Datum → Prop
  | scalar {d : Datum} (h : d.Scalar) : Constant d
  | texts (names : List String) : Constant (.list (names.map .str))
  | table {fields : List (String × String)} (h : (fields.map (·.1)).Nodup) :
      Constant (.dict (fields.map fun f => (.str f.1, .str f.2)))

theorem Datum.basic_constant : Datum.Basic Datum.Constant where
  null := .scalar .null
  zero := .scalar (.int 0)
  initial := by
    intro hint
    unfold Gen.initialValue
    split
    · exact .scalar (.int 0)
    · exact .scalar (.float 0)
    · exact .scalar (.str "")
    · exact .scalar (.bool false)
    · exact .scalar .null
  text := fun s => .scalar (.str s)
  texts := .texts
  table := fun _ h => .table h

variable {d : Datum}

/-- A constant that can be written is read back, if decimal numbers are. -/
theorem Datum.Constant.storable (h : d.Constant) (hlong : Gen.longInteger d = false)
    (hfloat : ∀ x, d = .float x → Datum.read (Datum.write (.float x)) = .ok (.float x)) :
    d.Storable := by
  cases h with
  | scalar h =>
    cases h with
    | null => exact .null
    | bool b => exact .bool b
    | int i => exact .int (by simpa [Gen.longInteger, Number.exceedsDigitLimit] using hlong)
    | float x => exact .float (hfloat x rfl)
    | str s => exact .str s
  | texts names =>
    refine .list fun d hd => ?_
    obtain ⟨s, -, rfl⟩ := List.mem_map.1 hd
    exact .str s
  | @table fields hnames =>
    have hfields : (fields.map fun f => (Datum.str f.1, Datum.str f.2)) =
        (fields.map fun f => (f.1, Datum.str f.2)).map fun f => (.str f.1, f.2) := by
      simp
    rw [hfields]
    refine .dict (by simpa [Function.comp_def] using hnames) fun f hf => ?_
    obtain ⟨field, -, rfl⟩ := List.mem_map.1 hf
    exact .str field.2

/-! ## Compiled programs -/

section Compiled

variable {p : Program} {c : Compiled} (h : p.compile = .ok c)
include h

theorem leads_of_compile {A : Datum → Prop} (hA : Datum.Basic A) (hliterals : ∀ d ∈ p.literals, A d)
    (hscalar : ∀ d : Datum, d.Scalar → A d) : ∃ shape sc,
      c.unit = Shape.unit shape sc ∧ Scope.Leads A {} sc ∧ shape.Legible := by
  obtain ⟨shape, sc, hplan, hunit, -⟩ := compile_eq_ok h
  have hread : ∀ source e, Gen.expressionOf source = .ok e → ∀ d ∈ e.literals, A d :=
    fun source e he d hd => hscalar d ((Gen.woven_expressionOf he).scalar d hd)
  obtain ⟨hleads, hlegible⟩ := (carried_literals hA hread).stmts p
    (fun s hs d hd => hliterals d ((Stmt.mem_literalsOf p).2 ⟨s, hs, hd⟩)) {} shape sc rfl hplan
  exact ⟨shape, sc, hunit, hleads, hlegible⟩

theorem constant_of_compile (hliterals : ∀ d ∈ p.literals, d.Scalar) :
    ∀ d ∈ c.unit.constants, d.Constant := by
  obtain ⟨shape, sc, hunit, hleads, -⟩ := leads_of_compile h Datum.basic_constant
    (fun d hd => .scalar (hliterals d hd)) fun d hd => .scalar hd
  rw [hunit]
  intro d hd
  rcases hleads.constants d hd with hold | hnew
  · cases hold
  · exact hnew

theorem bytes_of_compile : c.bytes = CodeFile.ofUnit c.unit ∧ CodeFile.fits c.unit = true ∧
    (∀ d ∈ c.unit.constants, Gen.longInteger d = false) ∧
    ∀ i ∈ c.unit.instructions, Gen.longInteger i.operand = false := by
  obtain ⟨-, -, -, -, hbytes⟩ := compile_eq_ok h
  unfold Gen.bytesOf at hbytes
  split at hbytes
  · cases hbytes
  · rename_i hconstants
    split at hbytes
    · cases hbytes
    · split at hbytes
      · rename_i hfits
        split at hbytes
        · cases hbytes
        · rename_i hoperands
          exact ⟨(Except.ok.inj hbytes).symm, hfits, by simpa using hconstants,
            by simpa using hoperands⟩
      · cases hbytes

theorem storable_instruction {i : Instruction} (hi : i ∈ c.unit.instructions) (hl : i.Legible) :
    i.Storable := by
  refine ⟨hl.op, ?_⟩
  have hshort := (bytes_of_compile h).2.2.2 i hi
  rcases hl.operand with hnull | ⟨n, hn⟩
  · rw [hnull]
    exact .null
  · rw [hn] at hshort ⊢
    exact .int (by simpa [Gen.longInteger, Number.exceedsDigitLimit] using hshort)

/-- All but the constants of a compiled program can be read back. -/
theorem storable_of_compile : ({ c.unit with constants := [] } : CodeUnit).Storable := by
  have hA : Datum.Basic fun _ => True := by constructor <;> intros <;> trivial
  obtain ⟨shape, sc, hunit, hleads, hlegible⟩ :=
    leads_of_compile h hA (fun _ _ => trivial) fun _ _ => trivial
  have hsmall := CodeUnit.small_of_fits (bytes_of_compile h).2.1
  have hglobals : c.unit.globals.Proper := by
    rw [hunit]
    exact hleads.globals .nil
  have hroutine : ∀ r ∈ c.unit.routines, r.Legible := by
    rw [hunit]
    intro r hr
    rcases hleads.routines r hr with hold | hnew
    · cases hold
    · exact hnew
  refine ⟨nofun, ⟨hglobals.nodup, fun entry hentry => two_pow_lt_digitLimit ?_⟩, ?_, ?_, ?_⟩
  · have hmem : entry.2 ∈ c.unit.globals.map (·.2) := List.mem_map_of_mem hentry
    rw [hglobals.dense, List.mem_range] at hmem
    have := hsmall.globals
    omega
  · show (c.unit.routines.map (·.name)).Nodup
    rw [hunit]
    exact hleads.names List.nodup_nil
  · intro r hr
    obtain ⟨hnames, hnumbers, hcode⟩ := hroutine r hr
    refine ⟨⟨hnames, fun entry hentry => two_pow_lt_digitLimit ?_⟩, fun i hi => ?_⟩
    · have hnumber := hnumbers entry hentry
      have hslots := (hsmall.routines r hr).1
      have hparameters := hsmall.parameters r hr
      omega
    · exact storable_instruction h (List.mem_append.2 (.inr (List.mem_flatMap.2 ⟨r, hr, hi⟩)))
        (hcode i hi)
  · intro i hi
    refine storable_instruction h (List.mem_append.2 (.inl hi)) ?_
    have hi : i ∈ c.unit.main := hi
    rw [hunit] at hi
    rcases List.mem_append.1 hi with hi | hi
    · exact hlegible.layout 0 i hi
    · rw [List.mem_singleton.1 hi]
      exact ⟨by decide, .inl rfl⟩

end Compiled

/-! ## Data as values -/

mutual

/-- A value in a store that is a datum: of its kind, and with its parts in their order. -/
def Datum.HeldAs (s : Store) : Datum → Value → Prop
  | .null, v => v = .none
  | .bool b, v => v = .bool b
  | .int i, v => v = .int i
  | .float x, v => v = if x.isNaN then .nan Value.fileMark else .float x
  | .str t, v => v = .str t
  | .list items, v => ∃ ref, v = .list ref ∧ ref < s.lists.size ∧
      Datum.AllHeldAs s items (s.list ref).toList
  | .tuple items, v => ∃ values, v = .tuple values ∧ Datum.AllHeldAs s items values
  | .dict entries, v => ∃ ref, v = .dict ref ∧ ref < s.dicts.size ∧
      Datum.EntriesHeldAs s entries (s.dict ref).toList

/-- Values that are the items of a sequence. -/
def Datum.AllHeldAs (s : Store) : List Datum → List Value → Prop
  | [], values => values = []
  | d :: items, values => ∃ v rest, values = v :: rest ∧ d.HeldAs s v ∧ Datum.AllHeldAs s items rest

/-- Keys and values that are the entries of a table. -/
def Datum.EntriesHeldAs (s : Store) : List (Datum × Datum) → List (Value × Value) → Prop
  | [], values => values = []
  | (key, d) :: entries, values => ∃ k v rest, values = (k, v) :: rest ∧ key.HeldAs s k ∧
      d.HeldAs s v ∧ Datum.EntriesHeldAs s entries rest

end

/-- A store with more lists and tables. -/
structure Store.Extends (s s' : Store) : Prop where
  lists : s.lists.toList <+: s'.lists.toList
  dicts : s.dicts.toList <+: s'.dicts.toList

namespace Store.Extends

theorem refl (s : Store) : s.Extends s := ⟨List.prefix_refl _, List.prefix_refl _⟩

theorem trans {s s' s'' : Store} (h : s.Extends s') (h' : s'.Extends s'') : s.Extends s'' :=
  ⟨h.lists.trans h'.lists, h.dicts.trans h'.dicts⟩

theorem newList (s : Store) (items : Array Value) :
    s.Extends { s with lists := s.lists.push items } :=
  ⟨by simp, List.prefix_refl _⟩

theorem newDict (s : Store) (entries : Table) :
    s.Extends { s with dicts := s.dicts.push entries } :=
  ⟨List.prefix_refl _, by simp⟩

theorem getD_eq {α : Type} {xs ys : Array α} (h : xs.toList <+: ys.toList) {i : Nat}
    (hi : i < xs.size) (a : α) : i < ys.size ∧ ys.getD i a = xs.getD i a := by
  have hsize : xs.size ≤ ys.size := h.length_le
  have hitem : ys.toList[i]? = xs.toList[i]? := by
    obtain ⟨rest, hrest⟩ := h
    rw [← hrest, List.getElem?_append_left hi]
  refine ⟨by omega, ?_⟩
  rw [Array.getD_eq_getD_getElem?, Array.getD_eq_getD_getElem?, ← Array.getElem?_toList, hitem,
    Array.getElem?_toList]

variable {s s' : Store} {ref : Nat}

theorem list_eq (h : s.Extends s') (href : ref < s.lists.size) :
    ref < s'.lists.size ∧ s'.list ref = s.list ref :=
  getD_eq h.lists href _

theorem dict_eq (h : s.Extends s') (href : ref < s.dicts.size) :
    ref < s'.dicts.size ∧ s'.dict ref = s.dict ref :=
  getD_eq h.dicts href _

mutual

theorem heldAs (h : s.Extends s') : ∀ {d : Datum} {v : Value}, d.HeldAs s v → d.HeldAs s' v
  | .null, _, hd | .bool _, _, hd | .int _, _, hd | .float _, _, hd | .str _, _, hd => hd
  | .list _, _, ⟨ref, hv, href, hitems⟩ => by
    obtain ⟨href', heq⟩ := h.list_eq href
    exact ⟨ref, hv, href', heq ▸ allHeldAs h hitems⟩
  | .tuple _, _, ⟨values, hv, hitems⟩ => ⟨values, hv, allHeldAs h hitems⟩
  | .dict _, _, ⟨ref, hv, href, hentries⟩ => by
    obtain ⟨href', heq⟩ := h.dict_eq href
    exact ⟨ref, hv, href', heq ▸ entriesHeldAs h hentries⟩

theorem allHeldAs (h : s.Extends s') : ∀ {items : List Datum} {values : List Value},
    Datum.AllHeldAs s items values → Datum.AllHeldAs s' items values
  | [], _, hitems => hitems
  | _ :: _, _, ⟨v, rest, hvalues, hv, hrest⟩ => ⟨v, rest, hvalues, heldAs h hv, allHeldAs h hrest⟩

theorem entriesHeldAs (h : s.Extends s') : ∀ {entries : List (Datum × Datum)} {values : List (Value × Value)},
    Datum.EntriesHeldAs s entries values → Datum.EntriesHeldAs s' entries values
  | [], _, hentries => hentries
  | (_, _) :: _, _, ⟨k, v, rest, hvalues, hk, hv, hrest⟩ =>
    ⟨k, v, rest, hvalues, heldAs h hk, heldAs h hv, entriesHeldAs h hrest⟩

end

end Store.Extends

/-- Making a value of a datum only adds to the store, and the value is the datum. -/
def Datum.Makes (d : Datum) : Prop :=
  ∀ s, ∃ v s', Value.ofDatum d s = .ok v s' ∧ s.Extends s' ∧ d.HeldAs s' v

theorem ofItems_held {items : List Datum} (h : ∀ d ∈ items, d.Makes) (s : Store) :
    ∃ values s', Value.ofItems items s = .ok values s' ∧ s.Extends s' ∧
      Datum.AllHeldAs s' items values := by
  induction items generalizing s with
  | nil => exact ⟨[], s, rfl, .refl s, rfl⟩
  | cons d items ih =>
    obtain ⟨v, s₁, hv, hs₁, hd⟩ := h d (by simp) s
    obtain ⟨values, s₂, hvalues, hs₂, hitems⟩ := ih (fun x hx => h x (by simp [hx])) s₁
    refine ⟨v :: values, s₂, ?_, hs₁.trans hs₂, v, values, rfl, hs₂.heldAs hd, hitems⟩
    rw [Value.ofItems, bind_of_ok hv, bind_of_ok hvalues]
    rfl

theorem ofEntries_held {fields : List (String × Datum)} (h : ∀ f ∈ fields, f.2.Makes) (s : Store) :
    ∃ values s', Value.ofEntries (fields.map fun f => (.str f.1, f.2)) s = .ok values s' ∧
      s.Extends s' ∧ values.map (·.1) = fields.map (fun f => .str f.1) ∧
      Datum.EntriesHeldAs s' (fields.map fun f => (.str f.1, f.2)) values := by
  induction fields generalizing s with
  | nil => exact ⟨[], s, rfl, .refl s, rfl, rfl⟩
  | cons f fields ih =>
    obtain ⟨v, s₁, hv, hs₁, hd⟩ := h f (by simp) s
    obtain ⟨values, s₂, hvalues, hs₂, hkeys, hentries⟩ := ih (fun x hx => h x (by simp [hx])) s₁
    refine ⟨(.str f.1, v) :: values, s₂, ?_, hs₁.trans hs₂, by simp [hkeys],
      .str f.1, v, values, rfl, rfl, hs₂.heldAs hd, hentries⟩
    have hkey : Value.ofDatum (.str f.1) s = .ok (.str f.1) s := rfl
    rw [List.map_cons, Value.ofEntries, bind_of_ok hkey, bind_of_ok hv, bind_of_ok hvalues]
    rfl

theorem Value.sameKey_str (a b : String) : (Value.str a).sameKey (.str b) = (a == b) := by
  simp [Value.sameKey, Value.identical, Value.sameLeaf]

/-- Entries under distinct texts stand in a table as they were put in. -/
theorem foldl_put_texts (values : List (Value × Value)) (names : List String) (t : Table)
    (hkeys : (t.toList ++ values).map (·.1) = names.map .str) (hnames : names.Nodup) :
    (values.foldl (fun t entry => t.put entry.1 entry.2) t).toList = t.toList ++ values := by
  induction values generalizing t with
  | nil => simp
  | cons entry values ih =>
    have hnew : t.findIdx? (fun e => e.1.sameKey entry.1) = none := by
      rw [List.map_append, eq_comm, List.map_eq_append_iff] at hkeys
      obtain ⟨before, after, rfl, hbefore, hafter⟩ := hkeys
      obtain ⟨name, after, rfl, hname, -⟩ := List.map_eq_cons_iff.1 hafter
      have hname : Value.str name = entry.1 := hname
      rw [Array.findIdx?_eq_none_iff]
      intro e he
      have hold : e.1 ∈ before.map Value.str := by
        rw [hbefore]
        exact List.mem_map_of_mem (Array.mem_def.1 he)
      obtain ⟨other, hother, heq⟩ := List.mem_map.1 hold
      have hne : other ≠ name :=
        fun h => (List.nodup_append.1 hnames).2.2 other hother name (by simp) h
      rw [← heq, ← hname, Value.sameKey_str]
      simpa using hne
    have hput : t.put entry.1 entry.2 = t.push entry := by
      rw [Table.put, hnew]
    rw [List.foldl_cons, hput, ih]
    · simp
    · simpa using hkeys

theorem Datum.Storable.makes (h : d.Storable) : d.Makes := by
  induction h with
  | null | bool b | int h | float h | str s => exact fun s => ⟨_, s, rfl, .refl s, rfl⟩
  | list h ih =>
    intro s
    obtain ⟨values, s', hrun, hs', hitems⟩ := ofItems_held ih s
    have hnew := Store.Extends.newList s' values.toArray
    refine ⟨.list s'.lists.size, _, ?_, hs'.trans hnew, _, rfl, ?_, ?_⟩
    · rw [Value.ofDatum, bind_of_ok hrun]
      rfl
    · simp
    · have hlist : Store.list { s' with lists := s'.lists.push values.toArray } s'.lists.size =
          values.toArray := by
        simp [Store.list, Array.getD_eq_getD_getElem?]
      rw [hlist]
      exact hnew.allHeldAs hitems
  | @dict fields hnames h ih =>
    intro s
    obtain ⟨values, s', hrun, hs', hkeys, hentries⟩ := ofEntries_held ih s
    have htable := foldl_put_texts values (fields.map (·.1)) #[]
      (by simpa [Function.comp_def] using hkeys) hnames
    have hnew := Store.Extends.newDict s'
      (values.foldl (fun t entry => t.put entry.1 entry.2) #[])
    refine ⟨.dict s'.dicts.size, _, ?_, hs'.trans hnew, _, rfl, ?_, ?_⟩
    · rw [Value.ofDatum, bind_of_ok hrun]
      rfl
    · simp
    · have hdict : ∀ entries : Table,
          Store.dict { s' with dicts := s'.dicts.push entries } s'.dicts.size = entries := by
        simp [Store.dict, Array.getD_eq_getD_getElem?]
      rw [hdict, htable]
      exact hnew.entriesHeldAs hentries

/-! ## Loading -/

section Load

open Wide

variable {p : Program} {c : Compiled} (h : p.compile = .ok c)
include h

/-- Loading a compiled program hangs on its constants alone. -/
theorem load_of_read : State.load {} c.bytes =
    ((Datum.read (Datum.write (.list c.unit.constants))).mapError fun e => .file (.data e)).map
      (State.loaded c.unit) := by
  obtain ⟨hbytes, hfits, -, -⟩ := bytes_of_compile h
  rw [hbytes]
  exact load_ofUnit_of_read (storable_of_compile h) hfits

theorem loaded_of_load {s₀ : State} (hload : State.load {} c.bytes = .ok s₀) :
    ∃ constants, s₀ = State.loaded c.unit constants := by
  rw [load_of_read h] at hload
  cases hread : Datum.read (Datum.write (.list c.unit.constants)) with
  | error e =>
    rw [hread] at hload
    cases hload
  | ok constants =>
    rw [hread] at hload
    cases hload
    exact ⟨constants, rfl⟩

/-- A new machine that loads a compiled program holds what the generator had: the constants with
their kinds and in their order, the slots of the global names with nothing in them yet, and all
code. A literal has no parts, and decimal numbers among the constants are taken to be read as they
were written. -/
theorem load_compile (hliterals : ∀ d ∈ p.literals, d.Scalar)
    (hdecimals : ∀ x, .float x ∈ c.unit.constants →
      Datum.read (Datum.write (.float x)) = .ok (.float x)) :
    ∃ constants store, (Datum.list c.unit.constants).HeldAs store constants ∧
      State.load {} c.bytes = .ok {
        constants, store
        globalSlots := c.unit.globals.datum
        globals := Array.replicate c.unit.globals.length .none
        routines := c.unit.routines.map fun r => (r.name, .ofCode r)
        main := c.unit.main.toArray } := by
  have hshort := (bytes_of_compile h).2.2.1
  have hconstants : (Datum.list c.unit.constants).Storable := by
    refine .list fun d hd => (constant_of_compile h hliterals d hd).storable (hshort d hd) ?_
    rintro x rfl
    exact hdecimals x hd
  obtain ⟨v, store, hrun, -, hheld⟩ := hconstants.makes ({} : State).store
  have hrun : (Value.ofDatum (.list c.unit.constants)).run ({} : State).store = .ok v store := hrun
  refine ⟨v, store, hheld, ?_⟩
  rw [load_of_read h, hconstants.read_write]
  simp only [Except.mapError, Except.map, State.loaded, State.withConstants, hrun]

end Load

/-- The decimal number that a datum is. -/
def Datum.float? : Datum → Option Float
  | .float x => some x
  | _ => none

/-- A class with a method that has a decimal number, and a list. -/
def Program.scale : Program :=
  [.classDef "Scale" [.function "by" ["self", "n"]
    [.returnValue (some (.binary (.name "n") "*" (.literal (.float 1.5))))]],
   .declare "sizes" (some (.list [.literal (.int 2), .literal (.str "m")])) none]

theorem load_compile_scale : ∃ c, Program.scale.compile = .ok c ∧
    (∀ d ∈ Program.scale.literals, d.Scalar) ∧
    (∀ x, .float x ∈ c.unit.constants → Datum.read (Datum.write (.float x)) = .ok (.float x)) ∧
    ∃ constants store, (Datum.list c.unit.constants).HeldAs store constants ∧
      Wide.State.load {} c.bytes = .ok {
        constants, store
        globalSlots := c.unit.globals.datum
        globals := Array.replicate c.unit.globals.length .none
        routines := c.unit.routines.map fun r => (r.name, .ofCode r)
        main := c.unit.main.toArray } := by
  have hcompiled : Program.scale.compile.toBool = true := by decide +kernel
  have hfloats : Program.scale.compile.toOption.map
      (fun c => c.unit.constants.filterMap Datum.float?) = some [1.5] := by
    decide +kernel
  have hliterals : ∀ d ∈ Program.scale.literals, d.Scalar := by
    have heq : Program.scale.literals = [.float 1.5, .int 2, .str "m"] := rfl
    simp [heq, Datum.Scalar.float, Datum.Scalar.int, Datum.Scalar.str]
  cases hcompile : Program.scale.compile with
  | error e =>
    rw [hcompile] at hcompiled
    cases hcompiled
  | ok c =>
    have hdecimals : ∀ x, .float x ∈ c.unit.constants →
        Datum.read (Datum.write (.float x)) = .ok (.float x) := by
      intro x hx
      rw [hcompile] at hfloats
      have hfloats : c.unit.constants.filterMap Datum.float? = [1.5] := Option.some.inj hfloats
      have hmem : x ∈ c.unit.constants.filterMap Datum.float? :=
        List.mem_filterMap.2 ⟨.float x, hx, rfl⟩
      rw [hfloats, List.mem_singleton] at hmem
      rw [hmem, show Datum.write (.float 1.5) = "1.5" by decide +kernel]
      rfl
    exact ⟨c, rfl, hliterals, hdecimals, load_compile hcompile hliterals hdecimals⟩

end StackScript
