import Mathlib.Tactic.SplitIfs
import StackScript.Proofs.Computation
import StackScript.Proofs.Machine.Blind
import StackScript.Value.Attribute

/-!
# What operations do with the values in a store

Operations give out parts of the values that they get, or new ones. So a property of values that
passes to their parts and holds of new lists holds of all that a program ever gets hold of. `Custody`
is such a property, together with what is to be kept of the lists of the store; `Op.Keeps` says that
an operation abides by it, and that it does not look at the routines in the store. Each operation is
gone through once, for all custodies:

* `Custody.free`: no demands at all;
* `Custody.pinned`: a list stays as it is;
* `Custody.classless`: no list and no table holds an object.
-/

namespace StackScript

/-! ## Items of arrays -/

namespace Value

variable {items items' : Array Value} {index v : Value} {n : Nat}

theorem arrayItem_eq_ok (h : arrayItem items index = .ok v) :
    ∃ j, placeIn "list" items.size index (.outOfRange "list") = .ok j ∧ items.getD j .none = v := by
  unfold arrayItem at h
  cases hj : placeIn "list" items.size index (.outOfRange "list") with
  | error e =>
    rw [hj] at h
    cases h
  | ok j =>
    rw [hj] at h
    exact ⟨j, rfl, Except.ok.inj h⟩

theorem arrayPut_eq_ok (h : arrayPut items index v = .ok items') :
    ∃ j, placeIn "list" items.size index .assignmentOutOfRange = .ok j ∧
      items.setIfInBounds j v = items' := by
  unfold arrayPut at h
  cases hj : placeIn "list" items.size index .assignmentOutOfRange with
  | error e =>
    rw [hj] at h
    cases h
  | ok j =>
    rw [hj] at h
    exact ⟨j, rfl, Except.ok.inj h⟩

theorem placeIn_natCast {sequence : String} {size j : Nat} {outside : Fault} :
    placeIn sequence size (.int n) outside = .ok j ↔ beyondIndex n = false ∧ n < size ∧ n = j := by
  have hplace : place? size (n : Int) = if n < size then some n else Option.none := by
    simp [place?, show ¬ (n : Int) < 0 by omega]
  simp only [placeIn, int?, hplace]
  by_cases hlt : n < size <;> cases hbeyond : beyondIndex (n : Int) <;> simp [hlt]

/-- An index from the start counts, unless it is beyond all sizes. -/
theorem arrayItem_natCast :
    arrayItem items (.int n) = .ok v ↔ beyondIndex n = false ∧ items[n]? = some v := by
  constructor
  · intro h
    obtain ⟨j, hj, hv⟩ := arrayItem_eq_ok h
    obtain ⟨hbeyond, hlt, rfl⟩ := placeIn_natCast.1 hj
    exact ⟨hbeyond, by simpa [hlt] using hv⟩
  · rintro ⟨hbeyond, hv⟩
    obtain ⟨hlt, -⟩ := Array.getElem?_eq_some_iff.1 hv
    simp [arrayItem, placeIn_natCast.2 ⟨hbeyond, hlt, rfl⟩, hv, bind, Except.bind, pure,
      Except.pure]

theorem arrayPut_natCast : arrayPut items (.int n) v = .ok items' ↔
    beyondIndex n = false ∧ n < items.size ∧ items.setIfInBounds n v = items' := by
  constructor
  · intro h
    obtain ⟨j, hj, hput⟩ := arrayPut_eq_ok h
    obtain ⟨hbeyond, hlt, rfl⟩ := placeIn_natCast.1 hj
    exact ⟨hbeyond, hlt, hput⟩
  · rintro ⟨hbeyond, hlt, rfl⟩
    simp [arrayPut, placeIn_natCast.2 ⟨hbeyond, hlt, rfl⟩, bind, Except.bind, pure, Except.pure]

theorem mem_arrayPut {u : Value} (h : arrayPut items index v = .ok items') (hu : u ∈ items') :
    u = v ∨ u ∈ items := by
  obtain ⟨j, -, rfl⟩ := arrayPut_eq_ok h
  exact (Array.mem_or_eq_of_mem_setIfInBounds hu).symm

end Value

/-! ## Custodies -/

/-- A value that is neither made of others nor stands for a list or an object. -/
def Value.isAtom : Value → Bool
  | .tuple _ | .list _ | .object _ => false
  | _ => true

/-- The values that an iterator still has of its own. -/
def Walk.held : Walk → List Value
  | .fixed rest => rest
  | _ => []

/-- A demand on the values of a program. `Fit` is demanded of what lists and tables hold, and the
weaker `Loose` of keys, of what iterators still have, and of what was set on libraries. `Kept` is
what is demanded of the lists. -/
structure Custody where
  Fit : Value → Prop
  Loose : Value → Prop
  Kept : Array (Array Value) → Prop
  loose : ∀ {v}, Fit v → Loose v
  atom : ∀ {v}, v.isAtom = true → Fit v
  tuple : ∀ {items}, Fit (.tuple items) ↔ ∀ v ∈ items, Fit v
  fresh : ∀ {lists}, Kept lists → Fit (.list lists.size)
  push : ∀ {lists} (items), Kept lists → Kept (lists.push items)

namespace Custody

/-- All entries of a table are as demanded. -/
def Entries (C : Custody) (t : Table) : Prop := ∀ entry ∈ t, C.Loose entry.1 ∧ C.Fit entry.2

/-- All values in a store are as demanded, and so are its lists. -/
structure Holds (C : Custody) (s : Store) : Prop where
  kept : C.Kept s.lists
  lists : ∀ items ∈ s.lists, ∀ v ∈ items, C.Fit v
  dicts : ∀ table ∈ s.dicts, C.Entries table
  iterators : ∀ walk ∈ s.iterators, ∀ v ∈ walk.held, C.Loose v
  members : ∀ entry ∈ s.members, C.Loose entry.2

/-- Nothing is demanded. -/
def Free (C : Custody) : Prop := (∀ v, C.Fit v) ∧ ∀ s, C.Holds s

/-- A list may be written to. -/
def Writes (C : Custody) (ref : Nat) : Prop := ∀ lists f, C.Kept lists → C.Kept (lists.modify ref f)

/-- No demands. -/
def free : Custody where
  Fit _ := True
  Loose _ := True
  Kept _ := True
  loose := id
  atom _ := trivial
  tuple := by simp
  fresh := id
  push _ := id

/-- A list stays as it is. -/
def pinned (ref : Nat) (pool : Array Value) : Custody where
  Fit _ := True
  Loose _ := True
  Kept lists := lists[ref]? = some pool
  loose := id
  atom _ := trivial
  tuple := by simp
  fresh _ := trivial
  push {lists} items h := by
    have hlt : ref < lists.size := (Array.getElem?_eq_some_iff.1 h).1
    rw [Array.getElem?_push_lt hlt, ← Array.getElem?_eq_getElem hlt]
    exact h

/-- No list, no table and no tuple holds an object. -/
def classless : Custody where
  Fit v := v.objectFree = true
  Loose _ := True
  Kept _ := True
  loose _ := trivial
  atom {v} h := by cases v <;> first | rfl | cases h
  tuple := Value.objectFree_tuple
  fresh _ := rfl
  push _ := id

theorem holds_free (s : Store) : free.Holds s :=
  ⟨trivial, fun _ _ _ _ => trivial, fun _ _ _ _ => ⟨trivial, trivial⟩, fun _ _ _ _ => trivial,
    fun _ _ => trivial⟩

theorem holds_pinned {ref : Nat} {pool : Array Value} {s : Store} :
    (pinned ref pool).Holds s ↔ s.lists[ref]? = some pool :=
  ⟨Holds.kept, fun h => ⟨h, fun _ _ _ _ => trivial, fun _ _ _ _ => ⟨trivial, trivial⟩,
    fun _ _ _ _ => trivial, fun _ _ => trivial⟩⟩

theorem holds_classless {s : Store} : classless.Holds s ↔ s.ObjectFree :=
  ⟨fun h => ⟨h.lists, fun table ht entry he => (h.dicts table ht entry he).2⟩, fun h =>
    ⟨trivial, h.lists, fun table ht entry he => ⟨trivial, h.dicts table ht entry he⟩,
      fun _ _ _ _ => trivial, fun _ _ => trivial⟩⟩

variable {C : Custody} {s : Store} {v : Value}

namespace Holds

theorem list (h : C.Holds s) {ref : Nat} (hv : v ∈ s.list ref) : C.Fit v := by
  unfold Store.list at hv
  rw [Array.getD_eq_getD_getElem?] at hv
  cases hitems : s.lists[ref]? with
  | none => simp [hitems] at hv
  | some items =>
    rw [hitems] at hv
    exact h.lists items (Array.mem_of_getElem? hitems) v hv

theorem dict (h : C.Holds s) (ref : Nat) : C.Entries (s.dict ref) := by
  intro entry he
  unfold Store.dict at he
  rw [Array.getD_eq_getD_getElem?] at he
  cases htable : s.dicts[ref]? with
  | none => simp [htable] at he
  | some table =>
    rw [htable] at he
    exact h.dicts table (Array.mem_of_getElem? htable) entry he

theorem walk (h : C.Holds s) {ref : Nat} (hv : v ∈ (s.iterators.getD ref .finished).held) :
    C.Loose v := by
  rw [Array.getD_eq_getD_getElem?] at hv
  cases hwalk : s.iterators[ref]? with
  | none =>
    rw [hwalk] at hv
    cases hv
  | some walk =>
    rw [hwalk] at hv
    exact h.iterators walk (Array.mem_of_getElem? hwalk) v hv

theorem newList (h : C.Holds s) {items : Array Value} (hitems : ∀ v ∈ items, C.Fit v) :
    C.Holds { s with lists := s.lists.push items } := by
  refine { h with kept := C.push items h.kept, lists := fun found hfound => ?_ }
  rcases Array.mem_push.1 hfound with hold | rfl
  · exact h.lists found hold
  · exact hitems

theorem modify (h : C.Holds s) {ref : Nat} (href : C.Writes ref) {f : Array Value → Array Value}
    (hf : ∀ items, (∀ v ∈ items, C.Fit v) → ∀ v ∈ f items, C.Fit v) :
    C.Holds { s with lists := s.lists.modify ref f } := by
  refine { h with kept := href _ f h.kept, lists := fun items hitems => ?_ }
  obtain ⟨j, hj, rfl⟩ := Array.mem_iff_getElem.1 hitems
  rw [Array.getElem_modify]
  have hold := h.lists _ (Array.getElem_mem (by simpa using hj))
  split
  · exact hf _ hold
  · exact hold

end Holds

variable {items : List Value} {key index : Value} {t : Table}

theorem Entries.put {value : Value} (hkey : C.Loose key) (hvalue : C.Fit value)
    (h : C.Entries t) : C.Entries (t.put key value) := by
  intro entry hentry
  unfold Table.put at hentry
  split at hentry
  · obtain ⟨j, hj, rfl⟩ := Array.mem_iff_getElem.1 hentry
    rw [Array.getElem_modify]
    have hold := h _ (Array.getElem_mem (by simpa using hj))
    split
    · exact ⟨hold.1, hvalue⟩
    · exact hold
  · rcases Array.mem_push.1 hentry with hold | rfl
    · exact h entry hold
    · exact ⟨hkey, hvalue⟩

theorem fit_arrayItem {items : Array Value} (h : ∀ v ∈ items, C.Fit v)
    (hv : Value.arrayItem items index = .ok v) : C.Fit v := by
  obtain ⟨i, -, rfl⟩ := Value.arrayItem_eq_ok hv
  rw [Array.getD_eq_getD_getElem?]
  cases hitem : items[i]? with
  | none => exact C.atom rfl
  | some u => exact h u (Array.mem_of_getElem? hitem)

theorem fit_arrayPut {items items' : Array Value} (h : ∀ v ∈ items, C.Fit v)
    (hv : C.Fit v) (hput : Value.arrayPut items index v = .ok items') : ∀ u ∈ items', C.Fit u := by
  intro u hu
  rcases Value.mem_arrayPut hput hu with rfl | hu
  · exact hv
  · exact h u hu

theorem loose_asKey (hv : C.Loose v) (hkey : v.asKey = .ok key) : C.Loose key := by
  unfold Value.asKey at hkey
  split at hkey
  · cases hkey
  · cases hkey
    exact hv

theorem Entries.item (h : C.Entries t) (hv : Value.tableItem s t key = .ok v) : C.Fit v := by
  unfold Value.tableItem at hv
  cases hkey : Value.asKey key with
  | error e => simp [hkey, bind, Except.bind] at hv
  | ok k =>
    simp only [hkey, bind, Except.bind] at hv
    split at hv
    · rename_i u hget
      cases hv
      obtain ⟨entry, hfind, rfl⟩ := Option.map_eq_some_iff.1 hget
      exact (h entry (Array.mem_of_find?_eq_some hfind)).2
    · split at hv <;> cases hv

/-- The items of any list can be given out, and the parts of values that are as demanded. -/
def Opens (C : Custody) (v : Value) : Prop := C.Fit v ∨ ∃ ref, v = .list ref

theorem fit_getD (h : ∀ v ∈ items, C.Fit v) (i : Nat) : C.Fit (items.getD i .none) := by
  rw [List.getD_eq_getElem?_getD]
  cases hi : items[i]? with
  | none => exact C.atom rfl
  | some v => exact h v (List.mem_of_getElem? hi)

theorem fit_replicate {n : Nat} (h : ∀ v ∈ items, C.Fit v) :
    ∀ v ∈ (List.replicate n items).flatten, C.Fit v := by
  intro v hv
  obtain ⟨part, hpart, hv⟩ := List.mem_flatten.1 hv
  rw [List.eq_of_mem_replicate hpart] at hv
  exact h v hv

theorem fit_characters (t : String) : ∀ v ∈ Value.characters t, C.Fit v := by
  intro v hv
  obtain ⟨c, -, rfl⟩ := List.mem_map.1 hv
  exact C.atom rfl

end Custody

/-! ## Operations -/

namespace Op

variable {C : Custody} {α β : Type} {P : α → Prop} {Q : β → Prop}

/-- An operation that keeps a store as demanded. Its result is as demanded, and other routines in the
store make no difference. -/
def Keeps (C : Custody) (P : α → Prop) (x : Op α) : Prop :=
  ∀ s, C.Holds s → C.Holds (stateAfter (x s)) ∧ ∀ a t, x s = .ok a t →
    P a ∧ ∀ cells, x (s.withRoutines cells) = .ok a (t.withRoutines cells)

namespace Keeps

variable {x : Op α} {f : α → Op β} {a : α}

theorem ok (h : Keeps C P x) {s t : Store} (hs : C.Holds s)
    (hx : x s = .ok a t) : P a ∧ C.Holds t := by
  obtain ⟨ht, hresult⟩ := h s hs
  rw [hx] at ht
  exact ⟨(hresult a t hx).1, ht⟩

theorem imp {P' : α → Prop} (h : Keeps C P x) (hP : ∀ a, P a → P' a) : Keeps C P' x := by
  intro s hs
  obtain ⟨ht, hresult⟩ := h s hs
  exact ⟨ht, fun a t hx => ⟨hP a (hresult a t hx).1, (hresult a t hx).2⟩⟩

theorem pure (h : P a) : Keeps C P (Pure.pure a) := by
  refine fun s hs => ⟨hs, fun b t hx => ?_⟩
  cases hx
  exact ⟨h, fun _ => rfl⟩

theorem throw (e : Fault) : Keeps C P (MonadExcept.throw e : Op α) :=
  fun _ hs => ⟨hs, nofun⟩

theorem bind (hx : Keeps C P x) (hf : ∀ a, P a → Keeps C Q (f a)) : Keeps C Q (x >>= f) := by
  intro s hs
  obtain ⟨ht, hresult⟩ := hx s hs
  cases h : x s with
  | error e t =>
    rw [h] at ht
    rw [bind_of_error h]
    exact ⟨ht, nofun⟩
  | ok a t =>
    rw [h] at ht
    obtain ⟨ha, hcells⟩ := hresult a t h
    obtain ⟨hu, hresult'⟩ := hf a ha t ht
    rw [bind_of_ok h]
    refine ⟨hu, fun b u hb => ⟨(hresult' b u hb).1, fun cells => ?_⟩⟩
    rw [bind_of_ok (hcells cells)]
    exact (hresult' b u hb).2 cells

/-- An operation that looks at the store first, but not at its routines. -/
theorem getThen {f : Store → Op β} (hblind : ∀ s cells, f (s.withRoutines cells) = f s)
    (hf : ∀ s, C.Holds s → Keeps C Q (f s)) : Keeps C Q (get >>= f) := by
  intro s hs
  obtain ⟨ht, hresult⟩ := hf s hs s hs
  refine ⟨ht, fun b t hb => ⟨(hresult b t hb).1, fun cells => ?_⟩⟩
  show f (s.withRoutines cells) (s.withRoutines cells) = _
  rw [hblind]
  exact (hresult b t hb).2 cells

/-- An operation that changes a part of the store other than its routines. -/
theorem change {g : Store → Store} (ha : P a)
    (hblind : ∀ s cells, g (s.withRoutines cells) = (g s).withRoutines cells)
    (hg : ∀ s, C.Holds s → C.Holds (g s)) : Keeps C P (fun s => .ok a (g s)) := by
  refine fun s hs => ⟨hg s hs, fun b t hx => ?_⟩
  cases hx
  exact ⟨ha, fun cells => congrArg (EStateM.Result.ok a) (hblind s cells)⟩

theorem ofExcept {x : Except Fault α} (h : ∀ a, x = .ok a → P a) : Keeps C P (Op.ofExcept x) := by
  cases x with
  | error e => exact throw e
  | ok a => exact pure (h a rfl)

theorem read (x : Except Fault α) (hf : ∀ a, Keeps C Q (f a)) : Keeps C Q (Op.ofExcept x >>= f) :=
  bind (P := fun _ => True) (ofExcept fun _ _ => trivial) fun a _ => hf a

theorem ask {f : Store → Except Fault α} (hblind : ∀ s cells, f (s.withRoutines cells) = f s) :
    Keeps C (fun _ => True) (Op.ask f) :=
  getThen (fun s cells => by rw [hblind]) fun _ _ => ofExcept fun _ _ => trivial

theorem check {c : Prop} [Decidable c] {e : Fault} {k : PUnit → Op β} (hk : Keeps C Q (k ⟨⟩)) :
    Keeps C Q (if c then MonadExcept.throw e >>= k else k ⟨⟩) := by
  split
  · exact bind (P := fun _ => True) (throw e) fun _ _ => hk
  · exact hk

/-- An operation that works something out and changes the store by it. -/
theorem run_assign (x : Store → Except Fault α) (g : α → Store → Store) (s : Store) : (do
      let s ← get
      let a ← Op.ofExcept (x s)
      set (g a s) : Op Unit) s = match x s with
        | .ok a => .ok ⟨⟩ (g a s)
        | .error e => .error e s := by
  show (Op.ofExcept (x s) >>= fun a => set (g a s) : Op Unit) s = _
  cases x s <;> rfl

theorem assign {x : Store → Except Fault α} {g : α → Store → Store}
    (hx : ∀ s cells, x (s.withRoutines cells) = x s)
    (hg : ∀ a s cells, g a (s.withRoutines cells) = (g a s).withRoutines cells)
    (h : ∀ s a, C.Holds s → x s = .ok a → C.Holds (g a s)) :
    Keeps C (fun _ => True) (do
      let s ← get
      let a ← Op.ofExcept (x s)
      set (g a s) : Op Unit) := by
  intro s hs
  rw [run_assign]
  cases hxs : x s with
  | error e => exact ⟨hs, nofun⟩
  | ok a =>
    refine ⟨h s a hs hxs, fun b t hb => ⟨trivial, fun cells => ?_⟩⟩
    cases hb
    rw [run_assign, hx, hxs]
    exact congrArg (EStateM.Result.ok PUnit.unit) (hg a s cells)

theorem newList {items : Array Value} (h : ∀ v ∈ items, C.Fit v) :
    Keeps C C.Fit (Op.newList items) := by
  intro s hs
  refine ⟨hs.newList h, fun a t hx => ?_⟩
  cases hx
  exact ⟨C.fresh hs.kept, fun _ => rfl⟩

theorem newDict {entries : Table} (h : C.Entries entries) : Keeps C C.Fit (Op.newDict entries) := by
  refine fun s hs => ⟨{ hs with dicts := fun found hfound => ?_ }, fun a t hx => ?_⟩
  · rcases Array.mem_push.1 hfound with hold | rfl
    · exact hs.dicts found hold
    · exact h
  · cases hx
    exact ⟨C.atom rfl, fun _ => rfl⟩

theorem ofFloat (x : Float) : Keeps C C.Fit (Op.ofFloat x) := by
  unfold Op.ofFloat
  split
  · refine fun s hs => ⟨{ hs with }, fun a t hx => ?_⟩
    cases hx
    exact ⟨C.atom rfl, fun _ => rfl⟩
  · exact pure (C.atom rfl)

theorem ofNum (n : Num) : Keeps C C.Fit (Op.ofNum n) := by
  cases n with
  | int i => exact pure (C.atom rfl)
  | float x => exact ofFloat x
  | complex re im => exact pure (C.atom rfl)

end Keeps

end Op

namespace Value

open Op

variable {C : Custody} {a b v : Value}

theorem keeps_numeric (op : ArithOp) (a b : Value) : Keeps C C.Fit (numeric op a b) := by
  unfold numeric
  split
  · split
    · exact .throw _
    · exact .throw _
    · exact .read _ fun n => .ofNum n
  · exact .throw _

theorem keeps_joined (ha : C.Fit a) (hb : C.Fit b) : Keeps C C.Fit (joined a b) := by
  unfold joined
  split
  · exact .pure (C.atom rfl)
  · refine .pure (C.tuple.2 fun v hv => ?_)
    rcases List.mem_append.1 hv with hv | hv
    · exact C.tuple.1 ha v hv
    · exact C.tuple.1 hb v hv
  · refine .getThen (fun _ _ => rfl) fun s hs => .getThen (fun _ _ => rfl) fun s' hs' => ?_
    refine .newList fun v hv => ?_
    rcases Array.mem_append.1 hv with hv | hv
    · exact hs.list hv
    · exact hs'.list hv
  all_goals exact .throw _

theorem keeps_add (ha : C.Fit a) (hb : C.Fit b) : Keeps C C.Fit (add a b) := by
  unfold add
  split
  · exact keeps_numeric _ a b
  · exact keeps_joined ha hb

theorem keeps_repeated (ha : C.Fit a) (b : Value) : Keeps C C.Fit (repeated a b) := by
  unfold repeated
  split
  · exact .read _ fun n => .pure (C.atom rfl)
  · exact .read _ fun n => .pure (C.tuple.2 (Custody.fit_replicate (C.tuple.1 ha)))
  · refine .getThen (fun _ _ => rfl) fun s hs => .read _ fun n => .newList fun v hv => ?_
    exact Custody.fit_replicate (fun u hu => hs.list (Array.mem_def.2 hu)) v (Array.mem_def.1 hv)
  · exact .throw _

theorem keeps_mul (ha : C.Fit a) (hb : C.Fit b) : Keeps C C.Fit (mul a b) := by
  unfold mul
  split
  · exact keeps_repeated ha b
  · split
    · exact keeps_repeated hb a
    · exact keeps_numeric _ a b

/-- An item is given out as demanded, if it comes from a list or from a value as demanded. -/
theorem keeps_item (v index : Value) : Keeps C (fun found => C.Opens v → C.Fit found) (item v index) := by
  refine .getThen (fun s cells => ?_) fun s hs => ?_
  · cases v with
    | dict ref => exact congrArg Op.ofExcept (tableItem_withRoutines s cells _ index)
    | _ => rfl
  · split
    · exact .ofExcept fun u hu _ => Custody.fit_arrayItem (fun _ h => hs.list h) hu
    · refine .read _ fun i => .pure ?_
      rintro (hv | ⟨_, ⟨⟩⟩)
      exact Custody.fit_getD (C.tuple.1 hv) i
    · split
      · exact .throw _
      · split
        · exact .throw _
        · dsimp only
          split
          · exact .pure fun _ => C.atom rfl
          · exact .throw _
    · exact .ofExcept fun u hu _ => (hs.dict _).item hu
    · exact .throw _
    · exact .throw _

variable {walk : Walk} {ref : Nat} {index : Value}

theorem keeps_setItem {value : Value} (hv : ∀ ref, v = .list ref → C.Writes ref)
    (hindex : C.Loose index) (hvalue : C.Fit value) :
    Keeps C (fun _ => True) (setItem v index value) := by
  cases v with
  | list ref =>
    refine .assign (x := fun s => placeIn "list" (s.list ref).size index .assignmentOutOfRange)
      (g := fun i s => { s with lists := s.lists.modify ref (·.setIfInBounds i value) })
      (fun _ _ => rfl) (fun _ _ _ => rfl) fun s i hs _ => ?_
    refine hs.modify (hv ref rfl) fun items hitems u hu => ?_
    rcases Array.mem_or_eq_of_mem_setIfInBounds hu with hu | rfl
    · exact hitems u hu
    · exact hvalue
  | dict ref =>
    refine .assign (x := fun _ => asKey index)
      (g := fun key s => { s with dicts := s.dicts.modify ref (·.put key value) })
      (fun _ _ => rfl) (fun _ _ _ => rfl) fun s key hs hkey => ?_
    refine { hs with dicts := fun table htable => ?_ }
    obtain ⟨j, hj, rfl⟩ := Array.mem_iff_getElem.1 htable
    rw [Array.getElem_modify]
    have hold := hs.dicts _ (Array.getElem_mem (by simpa using hj))
    split
    · exact hold.put (Custody.loose_asKey hindex hkey) hvalue
    · exact hold
  | _ => exact .getThen (fun _ _ => rfl) fun _ _ => .throw _

theorem keeps_append (href : C.Writes ref) (hv : C.Fit v) :
    Keeps C (fun _ => True) (append ref v) := by
  refine .change trivial (fun _ _ => rfl) fun s hs => hs.modify href fun items hitems u hu => ?_
  rcases Array.mem_push.1 hu with hu | rfl
  · exact hitems u hu
  · exact hv

theorem keeps_newIterator (kind : IterKind) (h : ∀ v ∈ walk.held, C.Loose v) :
    Keeps C C.Fit (newIterator kind walk) := by
  refine fun s hs => ⟨{ hs with iterators := fun found hfound => ?_ }, fun a t hx => ?_⟩
  · rcases Array.mem_push.1 hfound with hold | rfl
    · exact hs.iterators found hold
    · exact h
  · cases hx
    exact ⟨C.atom rfl, fun _ => rfl⟩

theorem keeps_iterate (hv : C.Fit v) : Keeps C C.Fit (iterate v) := by
  unfold iterate
  split
  · exact keeps_newIterator _ nofun
  · exact keeps_newIterator _ fun u hu => C.loose (C.tuple.1 hv u hu)
  · exact keeps_newIterator _ fun u hu => C.loose (Custody.fit_characters _ u hu)
  · exact .getThen (fun _ _ => rfl) fun s hs => keeps_newIterator _ nofun
  · exact .pure hv
  · exact .throw _

theorem keeps_move {found : Option Value}
    (hwalk : ∀ v ∈ walk.held, C.Loose v) (hfound : ∀ v ∈ found, C.Loose v) :
    Keeps C (fun found : Option Value => ∀ v ∈ found, C.Loose v) (do
      modify fun s : Store => { s with iterators := s.iterators.setIfInBounds ref walk }
      return found) := by
  refine .change hfound (fun _ _ => rfl) fun s hs => { hs with iterators := fun w hw => ?_ }
  rcases Array.mem_or_eq_of_mem_setIfInBounds hw with hw | rfl
  · exact hs.iterators w hw
  · exact hwalk

theorem keeps_next (v : Value) :
    Keeps C (fun found : Option Value => ∀ v ∈ found, C.Loose v) (next v) := by
  unfold next
  split
  · rename_i kind ref
    refine .getThen (fun _ _ => rfl) fun s hs => ?_
    have hheld : ∀ v ∈ (s.iterators.getD ref .finished).held, C.Loose v := fun v hv => hs.walk hv
    dsimp only
    generalize s.iterators.getD ref .finished = walk at hheld ⊢
    split
    · exact .pure nofun
    · split
      · rename_i item hitem
        refine keeps_move nofun ?_
        rintro v ⟨⟩
        exact C.loose (hs.list (Array.mem_of_getElem? hitem))
      · exact keeps_move nofun nofun
    · rename_i item rest
      refine keeps_move (fun v hv => hheld v (List.mem_cons_of_mem _ hv)) ?_
      rintro v ⟨⟩
      exact hheld _ List.mem_cons_self
    · exact keeps_move nofun nofun
    · refine .check ?_
      split
      · rename_i entry hentry
        refine keeps_move nofun ?_
        rintro v ⟨⟩
        exact (hs.dict _ _ (Array.mem_of_getElem? hentry)).1
      · exact keeps_move nofun nofun
  · exact .throw _

theorem keeps_soughtIn (it sought : Value) (fuel : Nat) :
    Keeps C (fun _ => True) (soughtIn it sought fuel) := by
  induction fuel with
  | zero => exact .pure trivial
  | succ fuel ih =>
    refine .bind (keeps_next it) fun found _ => ?_
    cases found with
    | some item =>
      refine .getThen (fun s cells => ?_) fun s _ => ?_
      · rw [sameItem_withRoutines]
      · split
        · exact .pure trivial
        · exact ih
    | none => exact .pure trivial

theorem keeps_contains (container sought : Value) :
    Keeps C (fun _ => True) (contains container sought) := by
  refine .getThen (fun s cells => ?_) fun s _ => ?_
  · simp only [sameItem_withRoutines, walkBound_withRoutines]
    rfl
  · split
    · split
      · exact .pure trivial
      · exact .throw _
    · exact .pure trivial
    · exact .pure trivial
    · exact .read _ fun _ => .pure trivial
    · exact keeps_soughtIn _ _ _
    · exact .throw _

theorem keeps_toFloat (v : Value) : Keeps C C.Fit (toFloat v) := by
  unfold toFloat
  split
  · exact .pure (C.atom rfl)
  · exact .pure (C.atom rfl)
  · split
    · exact .ofFloat _
    · exact .throw _
  · split
    · exact .read _ fun _ => .pure (C.atom rfl)
    · exact .throw _

theorem keeps_rangeList (start stop step : Int) : Keeps C C.Fit (rangeList start stop step) := by
  unfold rangeList
  refine .check (.check (.check (.newList fun v hv => ?_)))
  obtain ⟨i, rfl⟩ := Array.mem_ofFn.1 hv
  exact C.atom rfl

theorem keeps_range (bound : Value → Except Fault Int) (arguments : List Value) :
    Keeps C C.Fit (range bound arguments) := by
  unfold range
  split
  · exact .read _ fun _ => keeps_rangeList _ _ _
  · exact .read _ fun _ => .read _ fun _ => keeps_rangeList _ _ _
  · exact .read _ fun _ => .read _ fun _ => .read _ fun _ => keeps_rangeList _ _ _
  · exact .throw _

theorem keeps_items (hv : C.Fit v) (hkind : ∀ kind ref, v ≠ .iterator kind ref) :
    Keeps C (fun found : List Value => ∀ v ∈ found, C.Loose v) (items v) := by
  unfold items
  split
  · exact .getThen (fun _ _ => rfl) fun s hs => .pure fun u hu =>
      C.loose (hs.list (Array.mem_def.2 hu))
  · exact .pure fun u hu => C.loose (C.tuple.1 hv u hu)
  · exact .pure fun u hu => C.loose (Custody.fit_characters _ u hu)
  · refine .getThen (fun _ _ => rfl) fun s hs => .pure fun u hu => ?_
    obtain ⟨entry, hentry, rfl⟩ := Array.mem_map.1 (Array.mem_def.2 hu)
    exact (hs.dict _ entry hentry).1
  · exact absurd rfl (hkind _ _)
  · exact .throw _

end Value

/-! ## Templates -/

namespace Template

open Op

variable {C : Custody}

/-- A step in the reading of a place that keeps the store as demanded. -/
def KeepsStep {α : Type} (C : Custody) (p : Step α) : Prop := ∀ s, Keeps C (fun _ => True) (p s)

namespace KeepsStep

variable {α β : Type}

theorem pure (a : α) : KeepsStep C (Pure.pure a) := fun _ => .pure trivial

theorem throw (e : Fault) : KeepsStep C (MonadExcept.throw e : Step α) := fun _ => .throw e

theorem set (t : State) : KeepsStep C (MonadStateOf.set t : Step PUnit) := fun _ => .pure trivial

theorem bind {p : Step α} {f : α → Step β} (hp : KeepsStep C p) (hf : ∀ a, KeepsStep C (f a)) :
    KeepsStep C (p >>= f) := fun s => .bind (hp s) fun r _ => hf r.1 r.2

theorem getThen {f : State → Step β} (hf : ∀ s, KeepsStep C (f s)) : KeepsStep C (get >>= f) :=
  fun s => hf s s

end KeepsStep

theorem keeps_argument : KeepsStep C argument := by
  refine .getThen fun s => ?_
  split
  · exact .bind (.set _) fun _ => .pure _
  · exact .throw _

theorem keeps_letter : KeepsStep C letter := by
  refine .getThen fun s => ?_
  split
  · exact .bind (.set _) fun _ => .pure _
  · exact .throw _

theorem keeps_named : KeepsStep C named := by
  refine .getThen fun s => ?_
  split
  · split
    · exact .throw _
    · split
      · exact .throw _
      · refine .bind (fun t => ?_) fun value => .set _
        exact .bind (Value.keeps_item _ _) fun _ _ => .pure trivial
  · exact .pure _

theorem keeps_number (limit : Nat) (tooBig : Fault) : KeepsStep C (number limit tooBig) := by
  refine .getThen fun s => ?_
  dsimp only
  split
  · exact .pure _
  · split
    · exact .bind (.throw _) fun _ => .bind (.set _) fun _ => .pure _
    · exact .bind (.set _) fun _ => .pure _

theorem keeps_starred : KeepsStep C starred := by
  refine .bind keeps_argument fun v => ?_
  split
  · exact .pure _
  · exact .throw _

theorem keeps_withWidth (spec : Spec) : KeepsStep C (withWidth spec) := by
  refine .getThen fun s => ?_
  split
  · exact .bind (.set _) fun _ => .bind keeps_starred fun _ => .pure _
  · exact .bind (keeps_number _ _) fun _ => .pure _

theorem keeps_withPrecision (spec : Spec) : KeepsStep C (withPrecision spec) := by
  refine .getThen fun s => ?_
  split
  · exact .bind (.set _) fun _ => .bind keeps_starred fun _ => .pure _
  · exact .bind (.set _) fun _ => .bind (keeps_number _ _) fun _ => .pure _
  · exact .pure _

theorem keeps_specification : KeepsStep C specification :=
  .getThen fun _ => .bind (.set _) fun _ => .bind (keeps_withWidth _) fun spec =>
    .bind (keeps_withPrecision spec) fun _ => .bind (fun _ => .pure trivial) fun _ => .pure _

theorem keeps_written (spec : Spec) (c : Char) (index : Nat) (v : Value) (t : State) :
    Keeps C (fun _ => True) (get >>= fun store => (match written store spec c index v with
      | .ok text => Pure.pure text
      | .error e => MonadExcept.throw e : Step (List Char)) t) := by
  refine .getThen (fun store cells => ?_) fun store _ => ?_
  · rw [written_withRoutines]
  · cases written store spec c index v with
    | ok text => exact .pure trivial
    | error e => exact .throw e

-- The store is read in the middle of the step, which is an operation on values.
theorem keeps_place (size : Nat) : KeepsStep C (place size) :=
  .bind keeps_named fun _ => .bind keeps_specification fun spec => .bind keeps_letter fun c =>
    .getThen fun _ => .bind keeps_argument fun v => keeps_written spec c _ v

theorem keeps_fill (size fuel : Nat) (text : List Char) (s : State) :
    Keeps C (fun _ => True) (fill size fuel text s) := by
  induction fuel generalizing text s with
  | zero => exact .pure trivial
  | succ fuel ih =>
    unfold fill
    split
    · split
      · exact .pure trivial
      · exact .throw _
    · exact ih _ _
    · exact .bind (keeps_place size _) fun r _ => ih _ _
    · exact ih _ _

end Template

namespace Value

open Op

variable {C : Custody} {a b : Value}

theorem keeps_mod (a b : Value) : Keeps C C.Fit (mod a b) := by
  unfold mod
  split
  · exact .bind (Template.keeps_fill _ _ _ _) fun _ _ => .pure (C.atom rfl)
  · exact keeps_numeric _ a b

theorem keeps_arith (op : ArithOp) (ha : C.Fit a) (hb : C.Fit b) :
    Keeps C C.Fit (arith op a b) := by
  cases op with
  | add => exact keeps_add ha hb
  | mul => exact keeps_mul ha hb
  | mod => exact keeps_mod a b
  | sub => exact keeps_numeric .sub a b
  | div => exact keeps_numeric .div a b
  | pow => exact keeps_numeric .pow a b

/-! ## Data -/

theorem entries_foldl_put (entries : List (Value × Value)) {t : Table}
    (hentries : ∀ entry ∈ entries, C.Loose entry.1 ∧ C.Fit entry.2) (ht : C.Entries t) :
    C.Entries (entries.foldl (fun t entry => t.put entry.1 entry.2) t) := by
  induction entries generalizing t with
  | nil => exact ht
  | cons first rest ih =>
    obtain ⟨hfirst, hrest⟩ := List.forall_mem_cons.1 hentries
    exact ih hrest (ht.put hfirst.1 hfirst.2)

mutual

theorem keeps_ofDatum : ∀ d : Datum, Keeps C C.Fit (ofDatum d)
  | .null | .bool _ | .int _ | .str _ => .pure (C.atom rfl)
  | .float x => by
    refine .pure ?_
    split <;> exact C.atom rfl
  | .list items => .bind (keeps_ofItems items) fun values hvalues =>
    .newList fun v hv => hvalues v (List.mem_toArray.1 hv)
  | .tuple items => .bind (keeps_ofItems items) fun values hvalues => .pure (C.tuple.2 hvalues)
  | .dict entries => .bind (keeps_ofEntries entries) fun values hvalues =>
    .newDict (entries_foldl_put values hvalues (by simp [Custody.Entries]))

theorem keeps_ofItems : ∀ items : List Datum,
    Keeps C (fun values => ∀ v ∈ values, C.Fit v) (ofItems items)
  | [] => .pure (by simp)
  | d :: rest => .bind (keeps_ofDatum d) fun v hv => .bind (keeps_ofItems rest) fun values hvalues =>
    .pure (List.forall_mem_cons.2 ⟨hv, hvalues⟩)

theorem keeps_ofEntries : ∀ entries : List (Datum × Datum),
    Keeps C (fun values => ∀ entry ∈ values, C.Loose entry.1 ∧ C.Fit entry.2) (ofEntries entries)
  | [] => .pure (by simp)
  | (k, d) :: rest => .bind (keeps_ofDatum k) fun key hkey => .bind (keeps_ofDatum d) fun v hv =>
    .bind (keeps_ofEntries rest) fun values hvalues =>
    .pure (List.forall_mem_cons.2 ⟨⟨C.loose hkey, hv⟩, hvalues⟩)

end

/-! ## Members of libraries -/

variable {v : Value}

theorem fit_method {kind name : String} (h : method? kind name = some v) : C.Fit v := by
  unfold method? at h
  dsimp only at h
  split_ifs at h <;> cases h <;> exact C.atom rfl

theorem loose_libraryMember {s : Store} (hs : C.Holds s) {library name : String}
    (h : libraryMember? s library name = some v) : C.Loose v := by
  unfold libraryMember? at h
  split at h
  · rename_i hlookup
    cases h
    obtain ⟨before, after, hmembers, -⟩ := List.lookup_eq_some_iff.1 hlookup
    exact hs.members (name, v) (by simp [hmembers])
  · refine C.loose ?_
    split_ifs at h
    · cases h
      exact C.atom rfl
    · cases h
      exact C.atom rfl
    · cases h
      exact C.atom rfl
    · obtain ⟨before, after, hconstants, -⟩ := List.lookup_eq_some_iff.1 h
      have hmem : (name, v) ∈ Library.constants := by simp [hconstants]
      simp only [Library.constants, List.mem_cons, Prod.mk.injEq, List.not_mem_nil, or_false] at hmem
      rcases hmem with ⟨-, rfl⟩ | ⟨-, rfl⟩ | ⟨-, rfl⟩ | ⟨-, rfl⟩ | ⟨-, rfl⟩ <;> exact C.atom rfl

theorem keeps_attribute (library name : String) :
    Keeps C (fun found : Option Value => ∀ v ∈ found, C.Loose v)
      (attribute? (.library library) name) := by
  refine .getThen (fun _ _ => rfl) fun s hs =>
    .bind (P := fun found : Option Value => ∀ v ∈ found, C.Loose v)
      (.pure fun v hv => loose_libraryMember hs hv) fun own hown => .pure ?_
  cases own with
  | some v => exact hown
  | none => exact fun v hv => C.loose (fit_method hv)

theorem keeps_member (library : String) (name : Value) :
    Keeps C C.Loose (getAttribute (.library library) name) := by
  refine .read _ fun name => .bind (keeps_attribute library name) fun found hfound => ?_
  split
  · exact .pure (hfound _ rfl)
  · exact .throw _

theorem keeps_knows (library : String) (name : Value) :
    Keeps C (fun _ => True) (hasAttribute (.library library) name) :=
  .read _ fun name => .bind (keeps_attribute library name) fun _ _ => .pure trivial

end Value

theorem Library.find_eq_ok {name found : Value} (h : Library.find name = .ok found) :
    found = .library Library.mathName := by
  unfold Library.find at h
  split at h
  · split at h
    · cases h
    · split at h
      · cases h
      · cases h
      · split at h
        · cases h
          rfl
        · cases h
      · split at h <;> cases h
  · cases h

end StackScript
