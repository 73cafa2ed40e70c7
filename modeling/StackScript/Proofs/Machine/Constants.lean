import StackScript.Proofs.Machine.Balance

/-!
# A run keeps the constants

The list of the constants is out of the reach of a program that runs on the plain machine: no value
on the stack, in a variable or in the store is that list. So a program cannot change its constants.
-/

namespace StackScript

/-! ## A list out of reach -/

mutual

/-- A value that is not a list and has it in no tuple. -/
def Value.Avoids (ref : Nat) : Value → Prop
  | .list r => r ≠ ref
  | .tuple items => Value.AllAvoid ref items
  | _ => True

/-- All values avoid a list. -/
def Value.AllAvoid (ref : Nat) : List Value → Prop
  | [] => True
  | v :: rest => v.Avoids ref ∧ Value.AllAvoid ref rest

end

theorem Value.allAvoid_iff {ref : Nat} {values : List Value} :
    Value.AllAvoid ref values ↔ ∀ v ∈ values, v.Avoids ref := by
  induction values with
  | nil => simp [Value.AllAvoid]
  | cons v rest ih => simp [Value.AllAvoid, ih]

/-- A list stays as it is, and no value is that list. -/
def Custody.sealing (ref : Nat) (pool : Array Value) : Custody where
  Fit v := v.Avoids ref
  Loose v := v.Avoids ref
  Kept := (pinned ref pool).Kept
  loose := id
  atom {v} h := by cases v <;> trivial
  tuple := Value.allAvoid_iff
  fresh h := Nat.ne_of_gt (Array.getElem?_eq_some_iff.1 h).1
  push := (pinned ref pool).push

theorem Custody.writes_sealing {ref r : Nat} {pool : Array Value} (hr : r ≠ ref) :
    (sealing ref pool).Writes r := by
  intro lists f h
  show (lists.modify r f)[ref]? = some pool
  rw [Array.getElem?_modify, if_neg hr]
  exact h

/-! ## Constants in a store -/

/-- The lists and the tables of a store hold nothing but texts. -/
structure Store.Textual (s : Store) : Prop where
  lists : ∀ items ∈ s.lists, ∀ v ∈ items, ∃ text, v = .str text
  dicts : ∀ table ∈ s.dicts, ∀ entry ∈ table, ∃ key text, entry = (.str key, .str text)
  iterators : s.iterators = #[]
  members : s.members = []

theorem ofItems_texts (names : List String) (s : Store) :
    Value.ofItems (names.map .str) s = .ok (names.map .str) s := by
  induction names with
  | nil => rfl
  | cons name names ih =>
    have hname : Value.ofDatum (.str name) s = .ok (.str name) s := rfl
    rw [List.map_cons, Value.ofItems, bind_of_ok hname, bind_of_ok ih]
    rfl

theorem ofEntries_texts (fields : List (String × String)) (s : Store) :
    Value.ofEntries (fields.map fun f => (.str f.1, .str f.2)) s =
      .ok (fields.map fun f => (.str f.1, .str f.2)) s := by
  induction fields with
  | nil => rfl
  | cons f fields ih =>
    have htext (text : String) : Value.ofDatum (.str text) s = .ok (.str text) s := rfl
    rw [List.map_cons, Value.ofEntries, bind_of_ok (htext f.1), bind_of_ok (htext f.2),
      bind_of_ok ih]
    rfl

theorem textual_ofDatum {d : Datum} (h : d.Constant) {s s' : Store} {v : Value} (hs : s.Textual)
    (hrun : Value.ofDatum d s = .ok v s') : s'.Textual := by
  cases h with
  | scalar h =>
    cases h <;> cases hrun <;> exact hs
  | texts names =>
    rw [Value.ofDatum, bind_of_ok (ofItems_texts names s)] at hrun
    cases hrun
    refine { hs with lists := fun items hitems v hv => ?_ }
    rcases Array.mem_push.1 hitems with hitems | rfl
    · exact hs.lists items hitems v hv
    · obtain ⟨name, -, rfl⟩ := List.mem_map.1 (List.mem_toArray.1 hv)
      exact ⟨name, rfl⟩
  | @table fields hnames =>
    rw [Value.ofDatum, bind_of_ok (ofEntries_texts fields s)] at hrun
    cases hrun
    refine { hs with dicts := fun table htable entry hentry => ?_ }
    rcases Array.mem_push.1 htable with htable | rfl
    · exact hs.dicts table htable entry hentry
    · have htable := foldl_put_texts (fields.map fun f => (.str f.1, .str f.2))
        (fields.map (·.1)) #[] (by simp) hnames
      rw [← Array.mem_toList_iff, htable, List.nil_append] at hentry
      obtain ⟨f, -, rfl⟩ := List.mem_map.1 hentry
      exact ⟨f.1, f.2, rfl⟩

theorem textual_ofItems {constants : List Datum} (h : ∀ d ∈ constants, d.Constant) {s s' : Store}
    {values : List Value} (hs : s.Textual) (hrun : Value.ofItems constants s = .ok values s') :
    s'.Textual := by
  induction constants generalizing s values with
  | nil =>
    cases hrun
    exact hs
  | cons d constants ih =>
    obtain ⟨hd, hrest⟩ := List.forall_mem_cons.1 h
    obtain ⟨v, s₁, hv, hrun⟩ := bind_eq_ok hrun
    obtain ⟨others, s₂, hothers, hrun⟩ := bind_eq_ok hrun
    cases hrun
    exact ih hrest (textual_ofDatum hd hs hv) hothers

theorem Datum.AllHeldAs.of_mem {s : Store} {v : Value} : ∀ {items : List Datum} {values : List Value},
    Datum.AllHeldAs s items values → v ∈ values → ∃ d ∈ items, d.HeldAs s v
  | [], _, h, hv => by
    rw [Datum.AllHeldAs] at h
    simp [h] at hv
  | d :: items, _, ⟨u, rest, hvalues, hd, hrest⟩, hv => by
    rcases List.mem_cons.1 (hvalues ▸ hv) with rfl | hv
    · exact ⟨d, by simp, hd⟩
    · obtain ⟨e, he, hheld⟩ := Datum.AllHeldAs.of_mem hrest hv
      exact ⟨e, by simp [he], hheld⟩

namespace Wide

/-! ## Sealed machines -/

/-- A plain machine none of whose values is the list of its constants. -/
structure State.Sealed (ref : Nat) (pool : Array Value) (w : State) : Prop where
  plain : w.functions = .plain
  constants : w.constants = .list ref
  store : (Custody.sealing ref pool).Holds w.store
  stack : ∀ v ∈ w.stack, v.Avoids ref
  globals : ∀ v ∈ w.globals, v.Avoids ref
  locals : ∀ frame ∈ w.frames, ∀ v ∈ frame.locals, v.Avoids ref

namespace State.Sealed

variable {ref : Nat} {pool : Array Value} {w w' : State}

theorem guards (hw : w.Sealed ref pool) : (Custody.sealing ref pool).Guards w where
  strict _ := id
  writes _ := Custody.writes_sealing
  functions := .inl hw.plain
  constants := .inr ⟨ref, hw.constants⟩
  store := hw.store
  stack := hw.stack
  globals := hw.globals
  locals := hw.locals

theorem jump (hw : w.Sealed ref pool) (target : Counter) : (w.jump target).Sealed ref pool := by
  have hguards := State.guards_jump hw.guards target
  exact ⟨(congrArg Prod.fst (w.program_jump target)).trans hw.plain,
    (w.constants_jump target).trans hw.constants, hguards.store, hguards.stack, hguards.globals,
    hguards.locals⟩

theorem step (hw : w.Sealed ref pool) (h : Act.step w = .ok () w') : w'.Sealed ref pool := by
  rcases Act.step_eq_ok h with rfl | ⟨i, w₁, hfetch, hrun⟩
  · exact hw
  · have hw₁ : w₁.Sealed ref pool := Act.eq_fetched hfetch ▸ hw.jump _
    obtain ⟨-, hguards, _, -, heffect, -⟩ := (Act.deals_perform i w₁ hw₁.guards).done () w' hrun
    have hmoves := heffect.moves
    exact ⟨(congrArg Prod.fst hmoves.program).trans hw₁.plain, hmoves.constants.trans hw₁.constants,
      hguards.store, hguards.stack, hguards.globals, hguards.locals⟩

theorem reached {s t : State} (hs : s.Sealed ref pool) (h : Reached s t) : t.Sealed ref pool := by
  induction h with
  | refl => exact hs
  | step _ hstep _ ih => exact ih.step hstep

end State.Sealed

/-! ## Loading -/

variable {c : Compiled} {p : Program}

/-- The constants of a compiled program can be read back, if its decimal numbers can. -/
theorem storable_constants (h : p.compile = .ok c) (hliterals : ∀ d ∈ p.literals, d.Scalar)
    (hdecimals : ∀ x, .float x ∈ c.unit.constants →
      Datum.read (Datum.write (.float x)) = .ok (.float x)) :
    ∀ d ∈ c.unit.constants, d.Storable := by
  intro d hd
  refine (constant_of_compile h hliterals d hd).storable ((bytes_of_compile h).2.2.1 d hd) ?_
  rintro x rfl
  exact hdecimals x hd

/-- A new machine that loads a compiled program is sealed, and its constants are those of the
program. -/
theorem sealed_load (h : p.compile = .ok c) (hliterals : ∀ d ∈ p.literals, d.Scalar)
    (hdecimals : ∀ x, .float x ∈ c.unit.constants →
      Datum.read (Datum.write (.float x)) = .ok (.float x)) :
    ∃ s₀ ref values, State.load {} c.bytes = .ok s₀ ∧ s₀.Sealed ref values.toArray ∧
      Datum.AllHeldAs s₀.store c.unit.constants values := by
  have hstorable := storable_constants h hliterals hdecimals
  have hconstant := constant_of_compile h hliterals
  obtain ⟨values, store, hrun, -, hheld⟩ :=
    ofItems_held (fun d hd => (hstorable d hd).makes) ({} : State).store
  have htexts : store.Textual := by
    refine textual_ofItems hconstant ⟨fun items hitems v hv => ?_, ?_, rfl, rfl⟩ hrun
    · obtain rfl : items = #[] := by simpa using hitems
      simp at hv
    · simp
  have hvalues : ∀ v ∈ values, v.Avoids store.lists.size := by
    intro v hv
    obtain ⟨d, hd, hheld⟩ := hheld.of_mem hv
    cases hconstant d hd with
    | scalar h =>
      cases h with
      | float =>
        cases hheld
        split <;> trivial
      | _ =>
        cases hheld
        trivial
    | texts =>
      obtain ⟨ref, rfl, href, -⟩ := hheld
      exact Nat.ne_of_lt href
    | table =>
      obtain ⟨ref, rfl, -⟩ := hheld
      trivial
  have hlist : (Value.ofDatum (.list c.unit.constants)).run ({} : State).store =
      .ok (.list store.lists.size) { store with lists := store.lists.push values.toArray } := by
    show Value.ofDatum (.list c.unit.constants) ({} : State).store = _
    rw [Value.ofDatum, bind_of_ok hrun]
    rfl
  refine ⟨State.loaded c.unit (.list c.unit.constants), store.lists.size, values, ?_, ?_⟩
  · rw [load_of_read h, Datum.Storable.read_write (.list hstorable)]
    rfl
  · rw [State.loaded, State.withConstants, hlist]
    refine ⟨⟨rfl, rfl, ⟨by simp [Custody.sealing, Custody.pinned], ?_, ?_, ?_, ?_⟩, by simp,
      fun v hv => ?_, by simp⟩, (Store.Extends.newList store values.toArray).allHeldAs hheld⟩
    · intro items hitems v hv
      rcases Array.mem_push.1 hitems with hitems | rfl
      · obtain ⟨text, rfl⟩ := htexts.lists items hitems v hv
        trivial
      · exact hvalues v (List.mem_toArray.1 hv)
    · intro table htable entry hentry
      obtain ⟨key, text, rfl⟩ := htexts.dicts table htable entry hentry
      exact ⟨trivial, trivial⟩
    · simp [htexts.iterators]
    · simp [htexts.members]
    · rw [(Array.mem_replicate.1 hv).2]
      trivial

end Wide

end StackScript
