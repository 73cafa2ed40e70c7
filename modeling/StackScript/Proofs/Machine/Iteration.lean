import StackScript.Proofs.Machine.Deal
import StackScript.Proofs.Machine.Lockstep

/-!
# Loops over containers on the two machines

A loop begins by one instruction that turns a container into an iteration, and then comes back
again and again to one that puts the next item on the stack, or ends the iteration and jumps. The
wide machine keeps an iterator of its own kind; the fast machine keeps a list of the container, an
index and a size, and reads the container at the index.

`Delivers` says which items a loop gets, whatever its body does between two items, as long as the
body spares the container, the iteration and the stack below its item. Over containers that hold the
same items the loops of the two machines get exactly these items, in order (`loops_alike`). Over a
table the fast machine would have to find the indices among the keys (`table_by_index`).
-/

namespace StackScript

theorem get_then {α : Type} (f : Store → Op α) (s : Store) : (get >>= f) s = f s s := rfl

/-- The items of a container for a loop. -/
inductive Store.Holds (s : Store) : Value → List Value → Prop
  | list {ref : Nat} {items : List Value} (h : s.lists[ref]? = some items.toArray) :
      Holds s (.list ref) items
  | tuple (items : List Value) : Holds s (.tuple items) items
  | str (t : String) : Holds s (.str t) (t.toList.map fun c => .str c.toString)
  | dict {ref : Nat} {table : Table} (h : s.dicts[ref]? = some table) :
      Holds s (.dict ref) (table.toList.map (·.1))

/-- From a state at the head of a loop, the loop gets exactly these items and then leaves: `take`
is the instruction at its head, and the body may come back to it in any state that `Body` allows. -/
inductive Delivers {ε σ : Type} (take : EStateM ε σ Unit) (stack : σ → List Value)
    (Body Leaves : σ → σ → Prop) : σ → List Value → Prop
  | leave {s s' : σ} (h : take s = .ok () s') (hleave : Leaves s s') :
      Delivers take stack Body Leaves s []
  | item {s s' : σ} {v : Value} {items : List Value} (h : take s = .ok () s')
      (hstack : stack s' = v :: stack s)
      (hmore : ∀ s'', Body s' s'' → Delivers take stack Body Leaves s'' items) :
      Delivers take stack Body Leaves s (v :: items)

theorem getElem?_of_drop {held items : List Value} {i : Nat} {v : Value}
    (h : held.drop i = v :: items) : held[i]? = some v ∧ held.drop (i + 1) = items := by
  rw [← List.drop_drop, h]
  exact ⟨by rw [← List.head?_drop, h]; rfl, rfl⟩

/-! ## The wide machine -/

namespace Wide

/-- What a body may do to the state it finds: it takes the item from the stack, and the container
and the iterator stay as they are. -/
structure Spares (container : Value) (iterator : Nat) (w w' : State) : Prop where
  stack : w'.stack = w.stack.tail
  items : ∀ items, w.store.Holds container items → w'.store.Holds container items
  walk : w'.store.iterators[iterator]? = w.store.iterators[iterator]?

/-- Behind the loop the iterator is gone from the stack. -/
def LeavesLoop (operand : Datum) (w w' : State) : Prop :=
  w'.stack = w.stack.tail ∧ w'.frames = (w.jump (.ofOperand operand)).frames ∧
    w'.pc = (w.jump (.ofOperand operand)).pc

/-- The items that a walk over a container still has before it. -/
inductive Ahead (s : Store) : Value → Walk → List Value → Prop
  | live {ref i : Nat} {items : List Value} (h : s.Holds (.list ref) items) :
      Ahead s (.list ref) (.live ref i) (items.drop i)
  | fixed (container : Value) (items : List Value) : Ahead s container (.fixed items) items
  | keys {ref i : Nat} {items : List Value} (h : s.Holds (.dict ref) items) :
      Ahead s (.dict ref) (.keys ref i items.length) (items.drop i)

variable {container : Value}

theorem Ahead.of_holds {s s' : Store} {walk : Walk} {items : List Value}
    (h : ∀ items, s.Holds container items → s'.Holds container items)
    (hahead : Ahead s container walk items) : Ahead s' container walk items := by
  cases hahead with
  | live hlist => exact .live (h _ hlist)
  | fixed => exact .fixed _ _
  | keys hdict => exact .keys (h _ hdict)

/-- The store after an iterator has moved. -/
def moved (s : Store) (ref : Nat) (walk : Walk) : Store :=
  { s with iterators := s.iterators.setIfInBounds ref walk }

theorem holds_moved {s : Store} {items : List Value} (ref : Nat) (walk : Walk)
    (h : s.Holds container items) : (moved s ref walk).Holds container items := by
  cases h with
  | list h => exact .list h
  | tuple => exact .tuple _
  | str => exact .str _
  | dict h => exact .dict h

/-- The next item is the first of those ahead, if there is one, and the others stay ahead. -/
theorem next_of_ahead {s : Store} (kind : IterKind) {ref : Nat} {walk : Walk}
    {items : List Value} (hwalk : s.iterators[ref]? = some walk)
    (hahead : Ahead s container walk items) :
    ∃ walk', Value.next (.iterator kind ref) s = .ok items.head? (moved s ref walk') ∧
      (items ≠ [] → Ahead (moved s ref walk') container walk' items.tail) := by
  have hget : s.iterators.getD ref .finished = walk := by simp [hwalk]
  cases hahead with
  | @live target i held hlist =>
    have hmore := fun walk => Ahead.live (i := i + 1) (holds_moved ref walk hlist)
    cases hlist with
    | list hlist =>
      have hitem : (s.list target)[i]? = held[i]? := by simp [Store.list, hlist]
      simp only [Value.next, get_then, hget, hitem, List.head?_drop, List.tail_drop]
      cases hat : held[i]? with
      | none =>
        have hover : held.drop i = [] := List.drop_eq_nil_iff.2 (List.getElem?_eq_none_iff.1 hat)
        exact ⟨.finished, rfl, fun h => absurd hover h⟩
      | some v => exact ⟨_, rfl, fun _ => hmore _⟩
  | fixed =>
    simp only [Value.next, get_then, hget]
    cases items with
    | nil => exact ⟨.finished, rfl, fun h => absurd rfl h⟩
    | cons v items => exact ⟨_, rfl, fun _ => .fixed _ _⟩
  | @keys target i held hdict =>
    have hmore := fun walk => Ahead.keys (i := i + 1) (holds_moved ref walk hdict)
    cases hdict with
    | @dict _ table hdict =>
      have htable : s.dict target = table := by simp [Store.dict, hdict]
      simp only [Value.next, get_then, hget, htable, List.length_map, Array.length_toList, ne_eq,
        not_true, if_false, List.head?_drop, List.tail_drop, List.getElem?_map,
        Array.getElem?_toList]
      cases hat : table[i]? with
      | none => exact ⟨.finished, rfl, fun h => absurd hat (by simpa using h)⟩
      | some entry => exact ⟨_, rfl, fun _ => by simpa using hmore _⟩

theorem op_ok {α : Type} {x : Op α} {w : State} {a : α} {store : Store}
    (h : x w.store = .ok a store) : Act.op x w = .ok a { w with store := store } := by
  simp only [Act.op, h]

/-- A loop gets what its iterator has ahead. -/
theorem delivers_ahead (operand : Datum) {kind : IterKind} {ref : Nat}
    {rest : List Value} (items : List Value) : ∀ {w : State} {walk : Walk},
    w.stack = .iterator kind ref :: rest → w.store.iterators[ref]? = some walk →
    Ahead w.store container walk items →
      Delivers (Act.forIter operand) State.stack (Spares container ref) (LeavesLoop operand) w
        items := by
  induction items with
  | nil =>
    intro w walk hstack hwalk hahead
    obtain ⟨walk', hnext, -⟩ := next_of_ahead kind hwalk hahead
    refine .leave (by rw [Act.forIter_cons hstack, bind_of_ok (op_ok hnext)]; rfl) ?_
    rw [LeavesLoop, hstack]
    cases hframes : w.frames <;> simp [State.jump, hframes]
  | cons v items ih =>
    intro w walk hstack hwalk hahead
    obtain ⟨walk', hnext, hmore⟩ := next_of_ahead kind hwalk hahead
    refine .item (by rw [Act.forIter_cons hstack, bind_of_ok (op_ok hnext)]; rfl) rfl ?_
    intro w' hspares
    have hplace : ref < w.store.iterators.size := (Array.getElem?_eq_some_iff.1 hwalk).1
    have hwalk' : w'.store.iterators[ref]? = some walk' := by
      rw [hspares.walk]
      simp [moved, hplace]
    exact ih (hspares.stack.trans hstack) hwalk' ((hmore (by simp)).of_holds hspares.items)

/-- The first instruction of a loop makes an iterator with all items ahead. -/
theorem getIter_ahead {items rest : List Value} {w : State}
    (hstack : w.stack = container :: rest) (h : w.store.Holds container items) :
    ∃ w' kind ref walk, Act.getIter w = .ok () w' ∧ w'.stack = .iterator kind ref :: rest ∧
      w'.store.iterators[ref]? = some walk ∧ Ahead w'.store container walk items := by
  obtain ⟨kind, walk, hiterate, hahead⟩ : ∃ kind walk, container.iterate w.store =
      .ok (.iterator kind w.store.iterators.size)
        { w.store with iterators := w.store.iterators.push walk } ∧
      Ahead { w.store with iterators := w.store.iterators.push walk } container walk items := by
    cases h with
    | list h => exact ⟨_, _, rfl, .live (i := 0) (.list h)⟩
    | tuple => exact ⟨_, _, rfl, .fixed _ _⟩
    | str => exact ⟨_, _, rfl, .fixed _ _⟩
    | @dict ref table h =>
      have htable : (w.store.dict ref).size = (table.toList.map (·.1)).length := by
        simp [Store.dict, h]
      refine ⟨.keys, .keys ref 0 (w.store.dict ref).size, rfl, ?_⟩
      rw [htable]
      exact .keys (i := 0) (.dict h)
  refine ⟨{ w with
      stack := .iterator kind w.store.iterators.size :: rest
      store := { w.store with iterators := w.store.iterators.push walk } },
    kind, w.store.iterators.size, walk, ?_, rfl, by simp, hahead⟩
  rw [Act.getIter, bind_of_ok (Act.pop_cons hstack)]
  have hopOr : ∀ rename, Act.opOr rename container.iterate { w with stack := rest } =
      .ok (.iterator kind w.store.iterators.size) { w with
        stack := rest
        store := { w.store with iterators := w.store.iterators.push walk } } := by
    intro rename
    simp only [Act.opOr, hiterate]
  rw [bind_of_ok (hopOr _)]
  rfl

end Wide

/-! ## The fast machine -/

namespace Fast

/-- What a body may do to the state it finds: it takes the item from the stack, and the container
and the list of the iteration stay as they are. -/
structure Spares (container : Value) (progress : Nat) (f f' : State) : Prop where
  stack : f'.stack = f.stack.tail
  items : ∀ items, f.store.Holds container items → f'.store.Holds container items
  progress : f'.store.lists[progress]? = f.store.lists[progress]?

/-- Behind the loop the iteration is gone from the stack. -/
def LeavesLoop (operand : Datum) (f f' : State) : Prop :=
  f'.stack = f.stack.tail ∧ f'.store = f.store ∧
    match f.frames with
    | frame :: rest => f'.frames = { frame with pc := .ofOperand operand } :: rest ∧ f'.pc = f.pc
    | [] => f'.frames = [] ∧ f'.pc = .ofOperand operand

def IsTable : Value → Prop
  | .dict _ => True
  | _ => False

theorem item_of_holds {s : Store} {container v : Value} {items : List Value} {i : Nat}
    (h : s.Holds container items) (hkind : ¬ IsTable container)
    (hsize : items.length ≤ Value.sizeLimit) (hi : items[i]? = some v) :
    container.item (.int i) s = .ok v s := by
  have hless : i < items.length := (List.getElem?_eq_some_iff.1 hi).1
  have hbeyond : Value.beyondIndex (i : Int) = false := by
    simp [Value.beyondIndex]
    omega
  have hplace (n : Nat) (hn : items.length = n) : Value.place? n (i : Int) = some i := by
    simp [Value.place?]
    omega
  have hint : (Value.int i).int? = some (i : Int) := rfl
  cases h with
  | @list ref _ h =>
    have hitems : s.list ref = items.toArray := by simp [Store.list, h]
    have hread : Value.arrayItem items.toArray (.int i) = .ok v := by
      simp only [Value.arrayItem, Value.placeIn, hint, hbeyond, Bool.false_eq_true, if_false,
        List.size_toArray, hplace _ rfl, bind, Except.bind, pure, Except.pure]
      simp [hi]
    simp only [Value.item, get_then, hitems,
      hread]
    rfl
  | tuple =>
    have hread : Value.placeIn "tuple" items.length (.int i) (.outOfRange "tuple") = .ok i := by
      simp only [Value.placeIn, hint, hbeyond, Bool.false_eq_true, if_false, hplace _ rfl]
    have hget : items.getD i .none = v := by simp [hi]
    simp only [Value.item, get_then, hread]
    rw [← hget]
    rfl
  | str t =>
    have hlength := hplace t.toList.length (by simp)
    obtain ⟨c, hc, rfl⟩ : ∃ c, t.toList[i]? = some c ∧ Value.str c.toString = v := by
      simpa using hi
    have hget : t.toList.getD i ' ' = c := by simp [hc]
    simp only [Value.item, get_then, hint,
      hbeyond, Bool.false_eq_true, if_false, hlength, hget]
    rfl
  | dict => exact absurd trivial hkind

/-- The list of an iteration: the container, the index of the next item, and the size. -/
structure Progress (s : Store) (container : Value) (ref i size : Nat) : Prop where
  list : s.lists[ref]? = some #[container, .int i, .int size]
  apart : container ≠ .list ref

/-- The store after an iteration has moved on to an index. -/
def proceeded (s : Store) (ref i : Nat) : Store :=
  { s with lists := s.lists.modify ref (·.setIfInBounds 1 (.int i)) }

theorem holds_proceeded {s : Store} {container : Value} {items : List Value} {ref : Nat}
    (h : s.Holds container items) (hapart : container ≠ .list ref) (i : Nat) :
    (proceeded s ref i).Holds container items := by
  cases h with
  | @list target _ h =>
    have hne : ref ≠ target := fun he => hapart (he ▸ rfl)
    exact .list (by simp [proceeded, Array.getElem?_modify, hne, h])
  | tuple => exact .tuple _
  | str => exact .str _
  | dict h => exact .dict h

theorem progress_proceeded {s : Store} {container : Value} {ref i size : Nat}
    (h : Progress s container ref i size) :
    Progress (proceeded s ref (i + 1)) container ref (i + 1) size :=
  ⟨by simp [proceeded, Array.getElem?_modify, h.list], h.apart⟩

theorem holds_ge_int (i j : Nat) :
    OrderOp.holds .ge (compare (i : Int) (j : Int)) = decide (j ≤ i) := by
  by_cases h : j ≤ i
  · have hnot : compare (i : Int) (j : Int) ≠ .lt := by
      rw [ne_eq, Int.compare_eq_lt]
      omega
    simp [OrderOp.holds, h, hnot]
  · rw [Act.holds_ge_of_lt (by omega), decide_eq_false h]

variable {container : Value} {items rest : List Value} {ref i : Nat} {f : State}

/-- At the head of a loop the list of the iteration is looked at. -/
theorem forIter_progress {size : Nat} (operand : Datum) (hstack : f.stack = .list ref :: rest)
    (hprogress : Progress f.store container ref i size) :
    Act.forIter operand f = (do
      if decide (size ≤ i) then
        modify fun s => { s with stack := rest }
        Act.jump (.ofOperand operand)
      else
        Act.push (← Act.op (container.item (.int i)))
        let next ← Act.op (Value.add (.int i) (.int 1))
        Act.op (Value.setItem (.list ref) (.int 1) next) : Act Unit) f := by
  have hlist : (f.store.list ref).toList = [container, .int i, .int size] := by
    simp [Store.list, hprogress.list]
  have hcompare : Act.compare .ge (.int i) (.int size) f = .ok (decide (size ≤ i)) f := by
    rw [Act.compare_int, holds_ge_int]
  unfold Act.forIter
  rw [bind_of_ok (Act.get_run f)]
  simp only [hstack, hlist]
  rw [bind_of_ok hcompare]

theorem forIter_item (operand : Datum) (hstack : f.stack = .list ref :: rest)
    (hprogress : Progress f.store container ref i items.length)
    (h : f.store.Holds container items) (hkind : ¬ IsTable container)
    (hsize : items.length ≤ Value.sizeLimit) {v : Value} (hi : items[i]? = some v) :
    Act.forIter operand f =
      .ok () { f with stack := v :: f.stack, store := proceeded f.store ref (i + 1) } := by
  have hless : ¬ items.length ≤ i := Nat.not_le.2 (List.getElem?_eq_some_iff.1 hi).1
  have hset : Value.setItem (.list ref) (.int 1) (.int (i + 1 : Nat)) f.store =
      .ok () (proceeded f.store ref (i + 1)) := by
    have hlength : (f.store.list ref).size = 3 := by simp [Store.list, hprogress.list]
    simp only [Value.setItem, get_then,
      hlength]
    rfl
  rw [forIter_progress operand hstack hprogress]
  simp only [hless, decide_false, Bool.false_eq_true, if_false]
  have hitem : Act.op (container.item (.int i)) f = .ok v f :=
    Act.op_ok (item_of_holds h hkind hsize hi)
  have hadd : Act.op (Value.add (.int i) (.int 1)) { f with stack := v :: f.stack } =
      .ok (.int (i + 1 : Nat)) { f with stack := v :: f.stack } := rfl
  rw [bind_of_ok hitem]
  show (Act.op (Value.add (.int i) (.int 1)) >>= fun next =>
    Act.op (Value.setItem (.list ref) (.int 1) next)) { f with stack := v :: f.stack } = _
  rw [bind_of_ok hadd]
  exact Act.op_ok hset

theorem forIter_leaves {size : Nat} (operand : Datum) (hstack : f.stack = .list ref :: rest)
    (hprogress : Progress f.store container ref i size) (hi : size ≤ i) :
    ∃ f', Act.forIter operand f = .ok () f' ∧ LeavesLoop operand f f' := by
  rw [forIter_progress operand hstack hprogress]
  simp only [hi, decide_true, if_true]
  refine ⟨_, rfl, ?_⟩
  rw [LeavesLoop, hstack]
  cases hframes : f.frames <;> simp [hframes]

theorem delivers_progress (operand : Datum) (hkind : ¬ IsTable container)
    (hsize : items.length ≤ Value.sizeLimit) (ahead : List Value) : ∀ {f : State} {i : Nat},
    f.stack = .list ref :: rest → Progress f.store container ref i items.length →
    f.store.Holds container items → ahead = items.drop i →
      Delivers (Act.forIter operand) State.stack (Spares container ref) (LeavesLoop operand) f
        ahead := by
  induction ahead with
  | nil =>
    intro f i hstack hprogress _ hahead
    obtain ⟨f', hrun, hleaves⟩ := forIter_leaves operand hstack hprogress
      (List.drop_eq_nil_iff.1 hahead.symm)
    exact .leave hrun hleaves
  | cons v ahead ih =>
    intro f i hstack hprogress h hahead
    obtain ⟨hi, hdrop⟩ := getElem?_of_drop hahead.symm
    refine .item (forIter_item operand hstack hprogress h hkind hsize hi) rfl ?_
    intro f' hspares
    have hnext := progress_proceeded hprogress
    exact ih (hspares.stack.trans hstack) ⟨hspares.progress.trans hnext.list, hnext.apart⟩
      (hspares.items _ (holds_proceeded h hprogress.apart _)) hdrop.symm

/-- The first instruction of a loop makes the list of the iteration, at the first index. -/
theorem getIter_progress (hstack : f.stack = container :: rest)
    (h : f.store.Holds container items) :
    ∃ f' ref, Act.getIter f = .ok () f' ∧ f'.stack = .list ref :: rest ∧
      Progress f'.store container ref 0 items.length ∧ f'.store.Holds container items := by
  have hiter : container.hasAttribute (.str "__iter__") f.store = .ok true f.store := by
    cases h <;> rfl
  have hlength : Value.length f.store container = .ok items.length := by
    cases h with
    | list h => simp [Value.length, Store.list, h]
    | tuple => rfl
    | str => simp [Value.length, String.length_toList]
    | dict h => simp [Value.length, Store.dict, h]
  let g : State := { f with stack := rest }
  let made : Store := { f.store with
    lists := f.store.lists.push #[container, .int 0, .int items.length] }
  have hdemand : Act.demand "GET_ITER" 1 f = .ok () f := Act.demand_of_le (by simp [hstack])
  have hpop : Act.pop f = .ok container g := Act.pop_cons hstack
  have hask : Act.ask (Value.length · container) g = .ok items.length g := Act.ask_ok hlength
  have hsees : Act.op (container.hasAttribute (.str "__iter__")) g = .ok true g := Act.op_ok hiter
  refine ⟨{ g with stack := .list f.store.lists.size :: rest, store := made },
    f.store.lists.size, ?_, rfl, ⟨by simp [made], ?_⟩, ?_⟩
  · rw [Act.getIter, bind_of_ok hdemand, bind_of_ok hpop, bind_of_ok hsees]
    simp only [if_true]
    rw [bind_of_ok hask]
    rfl
  · rintro rfl
    cases h with
    | list h => simp at h
  · cases h with
    | @list ref _ h =>
      have hplace : ref < f.store.lists.size := (Array.getElem?_eq_some_iff.1 h).1
      exact .list (by simp [made, Array.getElem?_push, Nat.ne_of_lt hplace, h])
    | tuple => exact .tuple _
    | str => exact .str _
    | dict h => exact .dict h

end Fast

/-- Over containers with the same items the loops of the two machines get these items and leave. -/
theorem loops_alike {v v' : Value} {items rest rest' : List Value} {w : Wide.State}
    {f : Fast.State} (hw : w.stack = v :: rest) (hf : f.stack = v' :: rest')
    (hv : w.store.Holds v items) (hv' : f.store.Holds v' items) (hkind : ¬ Fast.IsTable v')
    (hsize : items.length ≤ Value.sizeLimit) (operand : Datum) :
    (∃ w' kind ref, Wide.Act.getIter w = .ok () w' ∧ w'.stack = .iterator kind ref :: rest ∧
      Delivers (Wide.Act.forIter operand) Wide.State.stack (Wide.Spares v ref)
        (Wide.LeavesLoop operand) w' items) ∧
    ∃ f' ref, Fast.Act.getIter f = .ok () f' ∧ f'.stack = .list ref :: rest' ∧
      Delivers (Fast.Act.forIter operand) Fast.State.stack (Fast.Spares v' ref)
        (Fast.LeavesLoop operand) f' items := by
  obtain ⟨w', kind, ref, walk, hrun, hstack, hwalk, hahead⟩ := Wide.getIter_ahead hw hv
  obtain ⟨f', ref', hrun', hstack', hprogress, hholds⟩ := Fast.getIter_progress hf hv'
  exact ⟨⟨w', kind, ref, hrun, hstack, Wide.delivers_ahead operand items hstack hwalk hahead⟩,
    f', ref', hrun', hstack',
    Fast.delivers_progress operand hkind hsize items hstack' hprogress hholds rfl⟩

theorem loops_alike_pair :
    (∃ w' kind ref, Wide.Act.getIter { stack := [.tuple [.int 1, .int 2]] } = .ok () w' ∧
      w'.stack = [.iterator kind ref] ∧
      Delivers (Wide.Act.forIter (.int 9)) Wide.State.stack
        (Wide.Spares (.tuple [.int 1, .int 2]) ref) (Wide.LeavesLoop (.int 9)) w'
        [.int 1, .int 2]) ∧
    ∃ f' ref, Fast.Act.getIter { stack := [.list 0], store := { lists :=
        #[#[.int 1, .int 2]] } } = .ok () f' ∧ f'.stack = [.list ref] ∧
      Delivers (Fast.Act.forIter (.int 9)) Fast.State.stack (Fast.Spares (.list 0) ref)
        (Fast.LeavesLoop (.int 9)) f' [.int 1, .int 2] :=
  have hsize : 2 ≤ Value.sizeLimit := by rw [Value.sizeLimit]; omega
  loops_alike rfl rfl (.tuple [.int 1, .int 2]) (.list rfl) id hsize (.int 9)

/-- Whether a loop of the fast machine over the container on the stack fails at its first item. -/
def Fast.failsAtOnce (f : Fast.State) : Bool :=
  match Fast.Act.getIter f with
  | .ok _ f' => match Fast.Act.forIter (.int 9) f' with
    | .error _ _ => true
    | .ok _ _ => false
  | .error _ _ => false

theorem Fast.exists_of_failsAtOnce {f : Fast.State} (h : Fast.failsAtOnce f = true) :
    ∃ f', Fast.Act.getIter f = .ok () f' ∧
      ∃ e f'', Fast.Act.forIter (.int 9) f' = .error e f'' := by
  unfold Fast.failsAtOnce at h
  split at h <;> try cases h
  rename_i f' hrun
  split at h <;> try cases h
  rename_i e f'' hfail
  exact ⟨f', hrun, e, f'', hfail⟩

/-- Over a table with one key the loop of the wide machine gets the key; the fast machine looks for
the index among the keys, and fails. -/
theorem table_by_index :
    (∃ w' kind ref, Wide.Act.getIter { stack := [.dict 0], store := { dicts :=
        #[#[(.str "a", .int 1)]] } } = .ok () w' ∧ w'.stack = [.iterator kind ref] ∧
      Delivers (Wide.Act.forIter (.int 9)) Wide.State.stack (Wide.Spares (.dict 0) ref)
        (Wide.LeavesLoop (.int 9)) w' [.str "a"]) ∧
    ∃ f', Fast.Act.getIter { stack := [.dict 0], store := { dicts :=
        #[#[(.str "a", .int 1)]] } } = .ok () f' ∧
      ∃ e f'', Fast.Act.forIter (.int 9) f' = .error e f'' := by
  refine ⟨?_, ?_⟩
  · obtain ⟨w', kind, ref, walk, hrun, hstack, hwalk, hahead⟩ :=
      Wide.getIter_ahead (w := { stack := [.dict 0], store := { dicts :=
        #[#[(.str "a", .int 1)]] } }) rfl (.dict rfl)
    exact ⟨w', kind, ref, hrun, hstack, Wide.delivers_ahead _ _ hstack hwalk hahead⟩
  · exact Fast.exists_of_failsAtOnce (by decide +kernel)

end StackScript
