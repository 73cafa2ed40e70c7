import StackScript.Proofs.Machine.Mirror

/-!
# The instructions that both machines perform alike

Each instruction of `Opcode.common` has a handler on either machine, and the one mirrors the other.
A call is the exception: the fast machine knows functions that the wide one lacks, so that it must
not be a call of one of those.
-/

namespace StackScript

open Wide

/-- The instructions that both machines have and perform alike. -/
def Opcode.common : List Opcode :=
  [.loadConst, .loadVar, .storeVar, .loadGlobal, .storeGlobal, .loadLocal, .storeLocal, .dup, .add,
    .sub, .mul, .div, .mod, .pow, .eq, .ne, .lt, .gt, .le, .ge, .isIn, .both, .either, .negate,
    .jump, .jumpIfFalse, .jumpIfTrue, .call, .ret, .loadFunc, .rotTwo, .rotThree, .len, .getItem,
    .setItem, .buildList, .buildDict, .buildTuple, .formatValue, .halt]

/-! ## Instructions -/

/-- Where the first machine performs an instruction, the second one does the same. -/
def Mirrored (op : Opcode) (d : Datum) : Prop :=
  Mirrors (fun _ => True) (Act.perform ⟨op, d⟩) (Fast.Act.perform op d)

section Instructions

variable {d : Datum} (hd : d.IsCount)
include hd

theorem mirrors_constant :
    Mirrors (·.objectFree = true) (Act.constant d) (Fast.Act.constant d) := by
  refine .bind (.operandValue hd) fun index _ => .look fun w f ⟨_, _, h⟩ => ?_
  rw [h.lockstep.constants]
  exact .op ((Value.keeps_item _ index).imp fun _ hfit =>
    hfit (.inl (h.lockstep.constants ▸ h.classless.constants))) .value .value

theorem loadGlobal_eq {w : State} : Act.loadGlobal d w =
    (do Act.push (← Act.ofExcept (Value.arrayItem w.globals
      (← Act.operandValue d)))) w := by
  rcases hd with rfl | ⟨n, rfl⟩ <;> rfl

theorem mirrors_loadGlobal : Mirrored .loadGlobal d := by
  intro _ _ w f u w' h hrun
  have hrun := (loadGlobal_eq hd).symm.trans hrun
  have hglobals : w.globals.toList <+: f.globals.toList :=
    h.lockstep.globals ▸ List.prefix_refl _
  exact Mirrors.loadWithin "Global" hd hglobals h.classless.globals h hrun

theorem mirrors_putGlobal {y : Fast.Act Unit} {shownWide shownFast : String} {w w₁ w' : State}
    {f : Fast.State} {v : Value} {u : Unit} (h : Alike shownWide shownFast w f)
    (hy : ∀ (rest : List Value) (n : Nat) (globals : Array Value), d = .int n →
      f.stack = v :: rest → Value.arrayPut f.globals (.int n) v = .ok globals →
      y f = .ok () { f with stack := rest, globals })
    (hpop : Act.pop w = .ok v w₁) (hrun : Act.storeGlobal d v w₁ = .ok u w') :
    ∃ f', y f = .ok u f' ∧ Alike shownWide shownFast w' f' ∧ f'.debug = f.debug ∧ True := by
  obtain ⟨rest, hstack, rfl⟩ := Act.pop_eq_ok hpop
  obtain ⟨n, globals, rfl, hput, rfl⟩ :=
    Act.put_eq_ok (·.globals) (fun globals s => { s with globals }) hd hrun
  have hput : Value.arrayPut f.globals (.int n) v = .ok globals := h.lockstep.globals ▸ hput
  have hfast : f.stack = v :: rest := h.lockstep.stack.trans hstack
  exact ⟨_, hy rest n globals rfl hfast hput, h.putGlobal hfast hput, rfl, trivial⟩

theorem mirrors_storeGlobal : Mirrored .storeGlobal d := by
  intro _ _ w f u w' h hrun
  obtain ⟨v, w₁, hpop, hrun⟩ := bind_eq_ok hrun
  refine mirrors_putGlobal hd h (fun rest n globals hn hfast hput => ?_) hpop hrun
  rw [hn]
  exact Fast.Act.storeGlobal_run hfast (Value.arrayPut_natCast.1 hput).2.1 hput

omit hd in
theorem Fast.Act.get_run (f : State) : (get : Act State) f = .ok f f := rfl

theorem mirrors_loadLocal : Mirrored .loadLocal d := by
  refine .look fun w f ⟨_, _, h⟩ => ?_
  rcases h.frames with ⟨hw, hf⟩ | ⟨a, restWide, b, restFast, hw, hf, hframe, hrest⟩
  · rw [hw]
    exact .fails
  · rw [hw, hf]
    exact .loadWithin "Local" hd hframe.locals (h.classless.locals b (by simp [hf]))

theorem mirrors_loadVar : Mirrored .loadVar d := by
  intro _ _ w f u w' h hrun
  obtain ⟨_, _, ⟨⟩, hrun⟩ := bind_eq_ok hrun
  show ∃ f', Fast.Act.loadVar d f = _ ∧ _
  rw [Fast.Act.loadVar, bind_of_ok (Fast.Act.get_run f)]
  rcases h.frames with ⟨hw, hf⟩ | ⟨a, restWide, b, restFast, hw, hf, hframe, hrest⟩
  · rw [hw] at hrun
    rw [hf]
    have hrun := (loadGlobal_eq hd).symm.trans hrun
    have hglobals : w.globals.toList <+: f.globals.toList :=
      h.lockstep.globals ▸ List.prefix_refl _
    exact Mirrors.loadSlot hd hglobals h.classless.globals h hrun
  · rw [hw] at hrun
    rw [hf]
    exact Mirrors.loadSlot hd hframe.locals (h.classless.locals b (by simp [hf])) h hrun

theorem mirrors_putLocal {y : Fast.Act Unit}
    (hy : ∀ (f : Fast.State) (v : Value) (rest : List Value) (frame : Frame Nat)
      (frames : List (Frame Nat)) (n : Nat) (locals : Array Value), d = .int n →
      f.stack = v :: rest → f.frames = frame :: frames → n < frame.locals.size →
      Value.arrayPut frame.locals (.int n) v = .ok locals →
      y f = .ok () { f with stack := rest, frames := { frame with locals } :: frames })
    {shownWide shownFast : String} {w w₁ w' : State} {f : Fast.State} {v : Value} {u : Unit}
    {frame : Frame Wide.Routine} {frames : List (Frame Wide.Routine)}
    (h : Alike shownWide shownFast w f) (hframes : w.frames = frame :: frames)
    (hpop : Act.pop w = .ok v w₁) (hrun : Act.storeLocal frame d v w₁ = .ok u w') :
    ∃ f', y f = .ok u f' ∧ Alike shownWide shownFast w' f' ∧ f'.debug = f.debug ∧ True := by
  obtain ⟨rest, hstack, rfl⟩ := Act.pop_eq_ok hpop
  obtain ⟨n, locals, rfl, hput, rfl⟩ := Act.put_eq_ok (fun _ => frame.locals)
    (fun locals s => { s with frames := { frame with locals } :: s.frames.tail }) hd hrun
  have hfast : f.stack = v :: rest := h.lockstep.stack.trans hstack
  have hfree : ∀ u ∈ v :: rest, u.objectFree = true := hfast ▸ h.classless.stack
  rcases h.frames with ⟨hw, -⟩ | ⟨a, restWide, b, restFast, hw, hf, hframe, hrest⟩
  · rw [hframes] at hw
    cases hw
  · rw [hframes] at hw
    cases hw
    obtain ⟨locals', hput', hlocals⟩ := Value.arrayPut_prefix hframe.locals hput
    have hlt := (Value.arrayPut_natCast.1 hput').2.1
    refine ⟨_, hy f v rest b restFast n locals' rfl hfast hf hlt hput', ?_, rfl, trivial⟩
    have hrest' : ∀ u ∈ rest, u.objectFree = true := fun u hu => hfree u (List.mem_cons_of_mem _ hu)
    have halike := (h.withStack hrest').withFrames (a := { frame with locals } :: w.frames.tail)
      (b := { b with locals := locals' } :: restFast) ?_ ?_
    · exact halike
    · rw [hframes]
      exact .cons { hframe with locals := hlocals } hrest
    · intro c hc u hu
      rcases List.mem_cons.1 hc with rfl | hc
      · rcases Value.mem_arrayPut hput' hu with rfl | hu
        · exact hfree u List.mem_cons_self
        · exact h.classless.locals b (by simp [hf]) u hu
      · exact h.classless.locals c (by simp [hf, hc]) u hu

theorem mirrors_storeLocal : Mirrored .storeLocal d := by
  intro _ _ w f u w' h hrun
  cases hframes : w.frames with
  | nil =>
    cases w
    cases hframes
    cases hrun
  | cons frame frames =>
    have hcall : (Act.pop >>= Act.storeLocal frame d) w = .ok u w' := by
      cases w
      cases hframes
      exact hrun
    obtain ⟨v, w₁, hpop, hstore⟩ := bind_eq_ok hcall
    refine mirrors_putLocal hd (fun g v rest b restFast n locals hn => ?_) h hframes hpop hstore
    rw [hn]
    exact Fast.Act.storeLocal_run

theorem mirrors_storeVar : Mirrored .storeVar d := by
  intro _ _ w f u w' h hrun
  obtain ⟨v, w₁, hpop, hstore⟩ := bind_eq_ok hrun
  have hframes₁ : w₁.frames = w.frames := by
    obtain ⟨rest, -, rfl⟩ := Act.pop_eq_ok hpop
    rfl
  cases hframes : w.frames with
  | nil =>
    have hstore : Act.storeGlobal d v w₁ = .ok u w' := by
      cases w₁
      cases hframes₁.trans hframes
      exact hstore
    have hmain : f.frames = [] := by
      have := h.lockstep.frames
      rwa [hframes, List.forall₂_nil_left_iff] at this
    refine mirrors_putGlobal hd h (fun rest n globals hn hfast hput => ?_) hpop hstore
    rw [hn]
    exact Fast.Act.storeVar_main hfast hmain rfl hput
  | cons frame frames =>
    have hstore : Act.storeLocal frame d v w₁ = .ok u w' := by
      cases w₁
      cases hframes₁.trans hframes
      exact hstore
    refine mirrors_putLocal hd (fun g v rest b restFast n locals hn hg hb _ => ?_) h hframes hpop
      hstore
    rw [hn]
    exact Fast.Act.storeVar_call hg hb

end Instructions

section Operators

variable {a b : Value}

theorem mirrors_binary (label : String) {g : Value → Value → Act Value}
    {k : Value → Value → Fast.Act Value} (h : ∀ a b, a.objectFree = true → b.objectFree = true →
      Mirrors (·.objectFree = true) (g a b) (k a b)) :
    Mirrors (fun _ => True) (Act.binary g) (Fast.Act.binary label k) :=
  .demand label (.pop fun _ => .pop fun _ => .zero _)
    (.bind .pop fun _ hb => .bind .pop fun _ ha => .bind (h _ _ ha hb) fun _ hv => .push hv)

theorem mirrors_read {α : Type} (g : Store → α) (h : ∀ s cells, g (s.withRoutines cells) = g s) :
    Mirrors (fun _ => True) (do return g (← get).store : Act α)
      (do return g (← get).store : Fast.Act α) := by
  refine .look fun w f ⟨_, _, halike⟩ => ?_
  rw [halike.lockstep.store, h]
  exact .pure trivial

theorem mirrors_truth (v : Value) : Mirrors (fun _ => True) (Act.truth v) (Fast.Act.truth v) :=
  mirrors_read (v.truth ·) fun s cells => Value.truth_withRoutines s cells v

theorem mirrors_same (a b : Value) :
    Mirrors (fun _ => True) (Act.same a b) (Fast.Act.same a b) :=
  mirrors_read (Value.same · a b) fun s cells => Value.same_withRoutines s cells a b

theorem mirrors_arith (o : ArithOp) (ha : a.objectFree = true) (hb : b.objectFree = true) :
    Mirrors (·.objectFree = true) (Act.arith o a b) (Fast.Act.arith o a b) := by
  refine .look fun w f ⟨_, _, h⟩ => ?_
  rw [h.lockstep.store, Value.same_withRoutines]
  split
  · intro _ _ _ _ _ _ _ hrun
    cases hrun
  · exact .op (Value.keeps_arith o ha hb) .value _

theorem mirrors_order (o : OrderOp) (a b : Value) :
    Mirrors (·.objectFree = true) (Act.order o a b) (Fast.Act.order o a b) := by
  have hask : Op.Keeps .classless (fun _ => True) (Op.ask (Value.order · o a b)) :=
    .ask (fun s cells => Value.order_withRoutines s cells o a b)
  exact .bind (.op hask .value _) fun _ _ => .pure rfl

theorem mirrors_member (a b : Value) :
    Mirrors (·.objectFree = true) (Act.member a b) (Fast.Act.member a b) :=
  .bind (.op (Value.keeps_contains b a) _ _) fun _ _ => .pure rfl

theorem mirrors_jumpIf (label : String) (wanted : Bool) (d : Datum) :
    Mirrors (fun _ => True) (Act.jumpIf wanted d) (Fast.Act.jumpIf label wanted d) := by
  refine .demand label (.pop fun _ => .zero _) (.bind .pop fun v _ => .bind (mirrors_truth v) ?_)
  intro c _
  split
  · exact .jump _
  · exact .pure trivial

theorem mirrors_getItem : Mirrors (fun _ => True) Act.getItem Fast.Act.getItem :=
  mirrors_binary _ fun _ b ha _ => .op ((Value.keeps_item _ b).imp fun _ h => h (.inl ha)) _ _

theorem mirrors_setItem : Mirrors (fun _ => True) Act.setItem Fast.Act.setItem :=
  .demand _ (.pop fun _ => .pop fun _ => .pop fun _ => .zero _)
    (.bind .pop fun _ hvalue => .bind .pop fun _ _ => .bind .pop fun _ _ =>
      .op (Value.keeps_setItem (fun _ _ _ _ _ => trivial) trivial hvalue) _ _)

theorem mirrors_len : Mirrors (fun _ => True) Act.len Fast.Act.len := by
  refine .demand _ (.pop fun _ => .zero _) (.bind .pop fun v _ => ?_)
  have hask : Op.Keeps .classless (fun _ => True) (Op.ask (Value.length · v)) :=
    .ask (fun s cells => Value.length_withRoutines s cells v)
  exact .bind (.op hask _ _) fun _ _ => .push rfl

theorem mirrors_text (v : Value) :
    Mirrors (fun _ => True) (Act.ask (Value.text · v)) (Fast.Act.textOf v) :=
  .ask (fun s cells => Value.text_withRoutines s cells v)

end Operators

/-- Instructions that only change the order of values on the stack or repeat some. -/
theorem mirrors_shuffle {x : Act Unit} {y : Fast.Act Unit}
    (h : ∀ w u w', x w = .ok u w' → ∃ stack, (∀ v ∈ stack, v ∈ w.stack) ∧ w' = { w with stack } ∧
      ∀ f : Fast.State, f.stack = w.stack → y f = .ok () { f with stack }) :
    Mirrors (fun _ => True) x y := by
  intro _ _ w f u w' halike hrun
  obtain ⟨stack, hmem, rfl, hy⟩ := h w u w' hrun
  refine ⟨_, hy f halike.lockstep.stack, halike.withStack fun v hv => ?_, rfl, trivial⟩
  exact halike.classless.stack v (halike.lockstep.stack ▸ hmem v hv)

theorem mirrors_dup (d : Datum) : Mirrored .dup d := by
  refine mirrors_shuffle fun w u w' hrun => ?_
  obtain ⟨_, _, _, _, _, _, stack, _⟩ := w
  match stack, hrun with
  | v :: rest, hrun =>
    cases hrun
    refine ⟨v :: v :: rest, by simp, rfl, fun f hf => ?_⟩
    cases f
    cases hf
    rfl

theorem mirrors_rotTwo (d : Datum) : Mirrored .rotTwo d := by
  refine mirrors_shuffle fun w u w' hrun => ?_
  obtain ⟨_, _, _, _, _, _, stack, _⟩ := w
  match stack, hrun with
  | a :: b :: rest, hrun =>
    cases hrun
    refine ⟨b :: a :: rest, by simp; tauto, rfl, fun f hf => ?_⟩
    cases f
    cases hf
    rfl

theorem mirrors_rotThree (d : Datum) : Mirrored .rotThree d := by
  refine mirrors_shuffle fun w u w' hrun => ?_
  obtain ⟨_, _, _, _, _, _, stack, _⟩ := w
  match stack, hrun with
  | c :: b :: a :: rest, hrun =>
    cases hrun
    refine ⟨b :: a :: c :: rest, by simp; tauto, rfl, fun f hf => ?_⟩
    cases f
    cases hf
    rfl

/-! ## Containers -/

namespace Fast.Act

variable {n : Nat} {f : State}

theorem takeCounted_of_le {label : String} (h : n ≤ f.stack.length) :
    takeCounted label (.int n) f = popMany n f := by
  have hindex : operandValue (.int n) f = .ok (.int n) f := rfl
  unfold takeCounted
  rw [bind_of_ok hindex, bind_of_ok (get_run f), bind_of_ok (compare_int _ _ _ f),
    holds_lt_of_le (by omega)]
  rfl

theorem buildDict_of_le (h : 2 * n ≤ f.stack.length) :
    buildDict (.int n) f = (do push (← op (Op.newDict (← popPairs n #[])))) f := by
  have hindex : operandValue (.int n) f = .ok (.int n) f := rfl
  have hneeded : op (Value.mul (.int n) (.int 2)) f = .ok (.int (n * 2)) f := rfl
  unfold buildDict
  rw [bind_of_ok hindex, bind_of_ok hneeded, bind_of_ok (get_run f),
    bind_of_ok (compare_int _ _ _ f), holds_lt_of_le (by omega)]
  rfl

end Fast.Act

variable {f : Fast.State} {arguments : List Value} {d : Datum} {name shownFast shownWide : String}
  {u : Unit} {v : Value}

theorem mirrors_takeCounted (hd : d.IsCount) (label : String) :
    Mirrors (fun vs => ∀ v ∈ vs, v.objectFree = true)
      (do Act.popMany (← Act.operandCount d)) (Fast.Act.takeCounted label d) := by
  intro _ _ w f vs w' h hrun
  rcases hd with rfl | ⟨n, rfl⟩
  · cases hrun
  · have hrun : Act.popMany n w = .ok vs w' := hrun
    have hn : n ≤ f.stack.length := h.lockstep.stack ▸ (Act.popMany_eq_ok hrun).1
    rw [Fast.Act.takeCounted_of_le hn]
    exact Mirrors.popMany n h hrun

theorem mirrors_buildList (hd : d.IsCount) : Mirrored .buildList d := by
  have hnew : ∀ items : List Value, (∀ v ∈ items, v.objectFree = true) →
      Mirrors (·.objectFree = true) (Act.op (Op.newList items.toArray))
        (Fast.Act.op (Op.newList items.toArray)) := fun items hitems =>
    .op (.newList fun v hv => hitems v (by simpa using hv)) .value .value
  have h := (mirrors_takeCounted hd "BUILD_LIST").bind fun items hitems =>
    (hnew items hitems).bind (Q := fun _ => True) fun v hv => .push hv
  rwa [bind_assoc] at h

theorem mirrors_buildTuple (hd : d.IsCount) : Mirrored .buildTuple d := by
  have h := (mirrors_takeCounted hd "BUILD_TUPLE").bind (Q := fun _ => True) fun items hitems =>
    Mirrors.push (Value.objectFree_tuple.2 hitems)
  rwa [bind_assoc] at h

theorem Wide.Act.takes_popPairs (n : Nat) (t : Table) : Takes (2 * n) (popPairs n t) := by
  induction n generalizing t with
  | zero => exact .zero _
  | succ n ih =>
    have htakes : ∀ k v : Value,
        Takes (2 * n) (do popPairs n (t.put (← ofExcept k.asKey) v)) := by
      intro k v w a w' hrun
      obtain ⟨key, w₁, hkey, hpairs⟩ := bind_eq_ok hrun
      obtain ⟨-, rfl⟩ := ofExcept_eq_ok hkey
      exact ih _ _ _ _ hpairs
    exact .pop fun v => .pop fun k => htakes k v

theorem mirrors_popPairs (n : Nat) {t : Table} (ht : ∀ entry ∈ t, entry.2.objectFree = true) :
    Mirrors (fun t' => ∀ entry ∈ t', entry.2.objectFree = true) (Act.popPairs n t)
      (Fast.Act.popPairs n t) := by
  induction n generalizing t with
  | zero => exact .pure ht
  | succ n ih =>
    refine .bind .pop fun v hv => .bind .pop fun k _ => ?_
    refine .bind (P := fun _ => True) (.ofExcept fun key hkey => ⟨hkey, trivial⟩) fun key _ => ?_
    exact ih fun entry hentry => (Custody.Entries.put (C := .classless) trivial hv
      (fun entry h => ⟨trivial, ht entry h⟩) entry hentry).2

theorem mirrors_buildDict (hd : d.IsCount) : Mirrored .buildDict d := by
  intro _ _ w f u w' h hrun
  rcases hd with rfl | ⟨n, rfl⟩
  · cases hrun
  · have hrun : (do Act.push (← Act.op (Op.newDict (← Act.popPairs n #[])))) w =
      .ok u w' := hrun
    obtain ⟨entries, w₁, hpairs, -⟩ := bind_eq_ok hrun
    have hn : 2 * n ≤ f.stack.length :=
      h.lockstep.stack ▸ Act.takes_popPairs n #[] w entries w₁ hpairs
    show ∃ f', Fast.Act.buildDict _ f = _ ∧ _
    rw [Fast.Act.buildDict_of_le hn]
    have hmirror := (mirrors_popPairs n (t := #[]) (by simp)).bind fun entries hentries =>
      (Mirrors.op (Op.Keeps.newDict fun entry h => ⟨trivial, hentries entry h⟩) .value .value).bind (Q := fun _ => True)
        fun v hv => Mirrors.push hv
    exact hmirror h hrun

/-! ## Functions -/

/-- The functions that only the fast machine has. -/
def Fast.ownFunctions : List String := ["bool", "type", "abs", "min", "max", "sum", "round"]

theorem mirrors_print (line : String) :
    Mirrors (fun _ => True) (Act.print line) (Fast.Act.print line) := by
  intro _ _ w f u w' h hrun
  cases hrun
  obtain ⟨text, hwide, hfast⟩ := h.shown
  refine ⟨_, rfl, ⟨{ h.lockstep with }, { h.classless with }, text ++ line ++ "\n", ?_, ?_⟩, rfl,
    trivial⟩
  · simp only [hwide, String.append_assoc]
  · simp only [hfast, String.append_assoc]

theorem mirrors_mapM {α β : Type} {g : α → Act β} {k : α → Fast.Act β}
    (h : ∀ a, Mirrors (fun _ => True) (g a) (k a)) :
    ∀ items : List α, Mirrors (fun _ => True) (items.mapM g) (items.mapM k)
  | [] => .pure trivial
  | a :: rest => by
    rw [List.mapM_cons, List.mapM_cons]
    exact (h a).bind fun _ _ => (mirrors_mapM h rest).bind fun _ _ => .pure trivial

theorem mirrors_printAll (arguments : List Value) :
    Mirrors (·.objectFree = true) (printAll arguments) (Fast.printAll arguments) :=
  (mirrors_mapM mirrors_text arguments).bind fun _ _ =>
    (mirrors_print _).bind fun _ _ => .pure rfl

theorem mirrors_unary {owner : String} {g : Value → Act Value}
    {k : Value → Fast.Act Value} (h : ∀ v, Mirrors (·.objectFree = true) (g v) (k v)) :
    ∀ arguments : List Value, Mirrors (·.objectFree = true) (unary owner name g arguments)
      (Fast.unary name k arguments)
  | [] => .fails
  | [v] => h v
  | _ :: _ :: _ => .fails

theorem Value.toInt_of_whole {i : Int} (h : v.whole = .ok i) : v.toInt = .ok i := by
  cases v with
  | bool b | int j =>
    cases h
    rfl
  | _ => cases h

/-- A range that takes only whole numbers is the range of what they convert to. -/
theorem Value.range_toInt (arguments : List Value) : ∀ s v t,
    Value.range Value.whole arguments s = .ok v t →
      Value.range Value.toInt arguments s = .ok v t := by
  have hread : ∀ (u : Value) (k l : Int → Op Value),
      (∀ i s v t, k i s = .ok v t → l i s = .ok v t) → ∀ s v t,
      (Op.ofExcept u.whole >>= k) s = .ok v t → (Op.ofExcept u.toInt >>= l) s = .ok v t := by
    intro u k l hkl s v t hrun
    cases hu : u.whole with
    | error e =>
      rw [hu] at hrun
      cases hrun
    | ok i =>
      rw [hu] at hrun
      rw [toInt_of_whole hu]
      exact hkl i s v t hrun
  match arguments with
  | [] => exact fun _ _ _ h => h
  | [stop] => exact hread stop _ _ fun _ _ _ _ h => h
  | [start, stop] => exact hread start _ _ fun _ => hread stop _ _ fun _ _ _ _ h => h
  | [start, stop, step] =>
    exact hread start _ _ fun _ => hread stop _ _ fun _ => hread step _ _ fun _ _ _ _ h => h
  | _ :: _ :: _ :: _ :: _ => exact fun _ _ _ h => h

theorem mirrors_range (arguments : List Value) : Mirrors (·.objectFree = true)
    (Act.op (Value.range Value.whole arguments)) (Fast.range arguments) := by
  have hrange := fun rename => Mirrors.opOf (Value.range_toInt arguments)
    (Value.keeps_range Value.toInt arguments) .value rename
  match arguments with
  | [] =>
    intro _ _ _ _ _ _ _ hrun
    cases hrun
  | [_] | [_, _] | [_, _, _] => exact hrange _
  | _ :: _ :: _ :: _ :: _ =>
    intro _ _ _ _ _ _ _ hrun
    cases hrun

/-- Every function of the plain machine is one of the fast machine, and does the same. -/
theorem mirrors_function {g : Function} (h : plainFunction? name = some g) :
    ∃ k, Fast.function? name = some k ∧
      ∀ arguments, Mirrors (·.objectFree = true) (g arguments) (k arguments) := by
  unfold plainFunction? at h
  split at h
  · cases h
    exact ⟨_, rfl, mirrors_printAll⟩
  · cases h
    exact ⟨_, rfl, mirrors_unary fun v => (mirrors_text v).bind fun _ _ => .pure rfl⟩
  · cases h
    refine ⟨_, rfl, mirrors_unary fun v => ?_⟩
    exact (Mirrors.op (P := fun _ => True) (.ofExcept fun _ _ => trivial) _ _).bind
      fun _ _ => .pure rfl
  · cases h
    exact ⟨_, rfl, mirrors_unary fun v => .op (Value.keeps_toFloat v) _ _⟩
  · cases h
    refine ⟨_, rfl, mirrors_unary fun v => ?_⟩
    have hask : Op.Keeps .classless (fun _ => True) (Op.ask (Value.length · v)) :=
      .ask (fun s cells => Value.length_withRoutines s cells v)
    exact (Mirrors.op hask _ _).bind fun _ _ => .pure rfl
  · cases h
    exact ⟨_, rfl, mirrors_range⟩
  · cases h

theorem Fast.function?_none (h : plainFunction? name = none)
    (hown : name ∉ Fast.ownFunctions) : Fast.function? name = none := by
  unfold Fast.function?
  unfold plainFunction? at h
  split <;> simp_all [Fast.ownFunctions]

theorem Fast.callFunction_ok {g : Fast.Function} {f' : Fast.State} (h : g arguments f = .ok v f') :
    Fast.callFunction name g arguments f = .ok v f' := by
  show EStateM.tryCatch (g arguments) _ f = _
  rw [EStateM.tryCatch, h]

/-! ## Calls -/

namespace Wide.Act

variable {w w' : State} {u : Unit}

theorem lengthOf_eq_ok {n : Nat} (h : lengthOf d w = .ok n w') : d.length = .ok n ∧ w' = w := by
  unfold lengthOf at h
  unfold Datum.length
  cases hlisting : Listing.ofDatum? d with
  | none =>
    rw [hlisting] at h
    cases h
  | some listing =>
    rw [hlisting] at h
    cases h
    exact ⟨rfl, rfl⟩

/-- A call of a routine has as many arguments as parameters and a slot for each. -/
theorem enter_eq_ok {routine : Routine} (h : enter routine arguments w = .ok u w') :
    ∃ size, routine.parameters.length = .ok arguments.length ∧ routine.slots.length = .ok size ∧
      w' = { w with frames := { routine, returnTo := w.pc, locals := (arguments ++
        List.replicate (size - arguments.length) Value.none).toArray } :: w.frames } := by
  obtain ⟨wanted, w₁, hwanted, h₁⟩ := bind_eq_ok h
  obtain ⟨hparameters, rfl⟩ := lengthOf_eq_ok hwanted
  split at h₁
  · cases h₁
  · rename_i hcount
    obtain ⟨size, w₂, hsize, h₂⟩ := bind_eq_ok h₁
    obtain ⟨hslots, rfl⟩ := lengthOf_eq_ok hsize
    split at h₂
    · cases h₂
    · cases h₂
      exact ⟨size, by rw [hparameters, Decidable.not_not.1 hcount], hslots, rfl⟩

end Wide.Act

theorem Fast.Act.enter_run {ref size : Nat}
    (hparameters : (f.store.routines.getD ref default).parameters.length = .ok arguments.length)
    (hslots : (f.store.routines.getD ref default).slots.length = .ok size) :
    enter (.routine ref) arguments f = .ok () { f with
      frames := ⟨ref, f.pc, .at 0, (arguments ++ List.replicate size Value.none).toArray⟩ ::
        f.frames } := by
  have hcell : routineAt ref f = .ok (f.store.routines.getD ref default) f := rfl
  unfold enter lengthOf
  simp only
  rw [bind_of_ok hcell, bind_of_ok (ofExcept_ok hparameters f)]
  simp only [ne_eq, not_true_eq_false, if_false]
  rw [bind_of_ok (ofExcept_ok hslots f), Nat.add_sub_cancel_left]
  rfl

variable {w w' : State}

theorem alike_enter {routine : Wide.Routine} {ref : Nat} (h : Alike shownWide shownFast w f)
    (hroutine : routine.StandsIn (f.store.routines.getD ref default))
    (harguments : ∀ v ∈ arguments, v.objectFree = true)
    (hrun : Act.enter routine arguments w = .ok u w') :
    ∃ f', Fast.Act.enter (.routine ref) arguments f = .ok u f' ∧ Alike shownWide shownFast w' f' ∧
      f'.debug = f.debug := by
  obtain ⟨size, hparameters, hslots, rfl⟩ := Act.enter_eq_ok hrun
  rw [← hroutine.parameters] at hparameters
  rw [← hroutine.slots] at hslots
  refine ⟨_, Fast.Act.enter_run hparameters hslots, h.withFrames ?_ ?_, rfl⟩
  · refine .cons ⟨hroutine, h.lockstep.pc, rfl, ?_⟩ h.lockstep.frames
    refine ⟨List.replicate (size - (size - arguments.length)) Value.none, ?_⟩
    simp only [List.append_assoc, List.replicate_append_replicate]
    congr 2
    omega
  · intro frame hframe v hv
    rcases List.mem_cons.1 hframe with rfl | hframe
    · simp only [List.mem_toArray, List.mem_append, List.mem_replicate] at hv
      rcases hv with hv | ⟨-, rfl⟩
      · exact harguments v hv
      · rfl
    · exact h.classless.locals frame hframe v hv

theorem Fast.Act.call_of_lt {n : Nat} (h : n < f.stack.length) :
    call (.int n) f = (do
      let arguments ← popMany n
      let callee ← pop
      modify fun s =>
        if s.counting then { s with stats := { s.stats with calls := s.stats.calls + 1 } } else s
      callValue callee arguments : Act Unit) f := by
  have hindex : operandValue (.int n) f = .ok (.int n) f := rfl
  have hneeded : op (Value.add (.int n) (.int 1)) f = .ok (.int (n + 1)) f := rfl
  unfold call
  rw [bind_of_ok hindex, bind_of_ok hneeded, bind_of_ok (get_run f),
    bind_of_ok (compare_int _ _ _ f), holds_lt_of_le (by omega)]
  rfl

theorem Fast.Act.callValue_of_not_class {name : String}
    (hclass : f.classes.get? (.str name) = none) :
    Fast.Act.callValue (.str name) arguments f = (match Fast.function? name with
      | some k => (do Fast.Act.push (← Fast.callFunction name k arguments))
      | none =>
        match f.routines.lookup name with
        | some ref => Fast.Act.enter (.routine ref) arguments
        | none => Fast.Act.fail (.unknownRoutine name)) f := by
  unfold Fast.Act.callValue
  rw [bind_of_ok (Fast.Act.get_run f)]
  split
  · rename_i hfound
    rw [hclass] at hfound
    cases hfound
  · rfl

/-- What is under the arguments of a call is called by both machines, unless it names a function
that only one of them has. -/
theorem alike_dispatch
    {callee : Value} (h : Alike shownWide shownFast w f)
    (hown : ∀ name, callee = .str name → name ∉ Fast.ownFunctions)
    (harguments : ∀ v ∈ arguments, v.objectFree = true)
    (hrun : (match callee with
      | .str name =>
        match function? w.functions name with
        | some g => (do Act.push (← g arguments))
        | none =>
          match w.routines.lookup name with
          | some routine => Act.enter routine arguments
          | none => Act.fail (.unknownRoutine name)
      | other => Act.fault (.notCallable other.kind)) w = .ok u w') :
    ∃ f', Fast.Act.callValue callee arguments f = .ok u f' ∧ Alike shownWide shownFast w' f' ∧
      f'.debug = f.debug := by
  cases callee with
  | str name =>
    have hclass : f.classes.get? (.str name) = none := by
      rw [h.classless.classes]
      rfl
    rw [Fast.Act.callValue_of_not_class hclass]
    have hplain : function? w.functions name = plainFunction? name := by
      rw [h.lockstep.functions]
      rfl
    simp only [hplain] at hrun
    cases hname : plainFunction? name with
    | some g =>
      rw [hname] at hrun
      obtain ⟨k, hk, hmirror⟩ := mirrors_function hname
      obtain ⟨v, w₁, hg, hpush⟩ := bind_eq_ok hrun
      obtain ⟨f₁, hf₁, h₁, hdebug₁, hv⟩ := hmirror arguments h hg
      obtain ⟨f₂, hf₂, h₂, hdebug₂, -⟩ := Mirrors.push hv h₁ hpush
      refine ⟨f₂, ?_, h₂, hdebug₂.trans hdebug₁⟩
      rw [hk]
      exact (bind_of_ok (Fast.callFunction_ok hf₁)).trans hf₂
    | none =>
      rw [hname] at hrun
      rw [Fast.function?_none hname (hown name rfl)]
      have hrel := h.lockstep.routines name
      cases hroutine : w.routines.lookup name with
      | none =>
        simp only [hroutine] at hrun
        cases hrun
      | some routine =>
        simp only [hroutine] at hrun hrel
        cases href : f.routines.lookup name with
        | none =>
          rw [href] at hrel
          cases hrel
        | some ref =>
          rw [href] at hrel
          cases hrel with
          | some hstands => exact alike_enter h hstands harguments hrun
  | _ => cases hrun

theorem alike_call (hd : d.IsCount) (h : Alike shownWide shownFast w f)
    (hown : ∀ (n : Nat) name, d = .int n → w.stack[n]? = some (.str name) →
      name ∉ Fast.ownFunctions) (hrun : Act.call d w = .ok u w') :
    ∃ f', Fast.Act.call d f = .ok u f' ∧ Alike shownWide shownFast w' f' ∧ f'.debug = f.debug := by
  rcases hd with rfl | ⟨n, rfl⟩
  · cases hrun
  · have hcount : Act.operandCount (.int n) w = .ok n w := rfl
    unfold Act.call at hrun
    rw [bind_of_ok hcount] at hrun
    obtain ⟨arguments, w₁, hmany, hrest⟩ := bind_eq_ok hrun
    obtain ⟨callee, w₂, hpop, hdispatch⟩ := bind_eq_ok hrest
    obtain ⟨f₁, hf₁, h₁, hdebug₁, harguments⟩ := Mirrors.popMany n h hmany
    obtain ⟨f₂, hf₂, h₂, hdebug₂, -⟩ := Mirrors.pop h₁ hpop
    obtain ⟨hle, -, rfl⟩ := Act.popMany_eq_ok hmany
    obtain ⟨rest, hstack, -⟩ := Act.pop_eq_ok hpop
    have hcallee : w.stack[n]? = some callee := by
      have hstack : w.stack.drop n = callee :: rest := hstack
      rw [← List.head?_drop, hstack]
      rfl
    have hlt : n < f.stack.length := by
      rw [h.lockstep.stack]
      exact (List.getElem?_eq_some_iff.1 hcallee).1
    rw [Fast.Act.call_of_lt hlt, bind_of_ok hf₁, bind_of_ok hf₂]
    have h₃ : Alike shownWide shownFast w₂ (if f₂.counting then
        { f₂ with stats := { f₂.stats with calls := f₂.stats.calls + 1 } } else f₂) := by
      split
      · exact ⟨{ h₂.lockstep with }, { h₂.classless with }, h₂.shown⟩
      · exact h₂
    obtain ⟨f₄, hf₄, h₄, hdebug₄⟩ := alike_dispatch h₃
      (fun name hname => hown n name rfl (hname ▸ hcallee)) harguments hdispatch
    refine ⟨f₄, hf₄, h₄, ?_⟩
    rw [hdebug₄, ← hdebug₁, ← hdebug₂]
    split <;> rfl

namespace Wide.Act

variable {w : State} {v : Value} {rest : List Value}

theorem ret_main (hstack : w.stack = v :: rest) (hframes : w.frames = []) : ret w = .ok () w := by
  cases w
  cases hstack
  cases hframes
  rfl

theorem ret_call {frame : Frame Routine} {frames : List (Frame Routine)}
    (hstack : w.stack = v :: rest) (hframes : w.frames = frame :: frames) :
    ret w = .ok () { w with frames, pc := frame.returnTo } := by
  cases w
  cases hstack
  cases hframes
  rfl

end Wide.Act

namespace Fast.Act

variable {f : State} {v : Value} {rest : List Value}

theorem ret_main (hstack : f.stack = v :: rest) (hframes : f.frames = []) : ret f = .ok () f := by
  cases f
  cases hstack
  cases hframes
  rfl

/-- A constructor would leave its object on the stack, but there is none. -/
theorem ret_call {frame : Frame Nat} {frames : List (Frame Nat)} (hstack : f.stack = v :: rest)
    (hframes : f.frames = frame :: frames) (hfree : ∀ u ∈ rest, u.objectFree = true) :
    ret f = .ok () { f with frames, pc := frame.returnTo } := by
  cases f
  cases hstack
  cases hframes
  cases rest with
  | nil => cases v <;> rfl
  | cons u rest =>
    have hu := hfree u List.mem_cons_self
    cases u with
    | object ref => cases hu
    | _ => cases v <;> rfl

end Fast.Act

theorem mirrors_ret : Mirrors (fun _ => True) Act.ret Fast.Act.ret := by
  intro _ _ w f u w' h hrun
  obtain ⟨v, w₁, hpop, -⟩ := bind_eq_ok hrun
  obtain ⟨rest, hstack, -⟩ := Act.pop_eq_ok hpop
  have hfast : f.stack = v :: rest := h.lockstep.stack.trans hstack
  rcases h.frames with ⟨hw, hf⟩ | ⟨a, restWide, b, restFast, hw, hf, hframe, hframes⟩
  · rw [Act.ret_main hstack hw] at hrun
    cases hrun
    exact ⟨f, Fast.Act.ret_main hfast hf, h, rfl, trivial⟩
  · rw [Act.ret_call hstack hw] at hrun
    cases hrun
    have hfree : ∀ u ∈ rest, u.objectFree = true := fun u hu =>
      h.classless.stack u (hfast ▸ List.mem_cons_of_mem _ hu)
    refine ⟨_, Fast.Act.ret_call hfast hf hfree,
      ⟨{ h.lockstep with pc := hframe.returnTo, frames := hframes },
        { h.classless with locals := fun frame hmem => ?_ }, h.shown⟩, rfl, trivial⟩
    exact h.classless.locals frame (by simp [hf, hmem])

/-! ## Steps -/

/-- Every common instruction but a call is mirrored. -/
theorem mirrors_perform {op : Opcode} (hop : op ∈ Opcode.common) (hcall : op ≠ .call)
    (hd : d.IsCount) : Mirrored op d := by
  cases op with
  | loadConst | loadFunc => exact (mirrors_constant hd).bind fun _ hv => .push hv
  | loadVar => exact mirrors_loadVar hd
  | storeVar => exact mirrors_storeVar hd
  | loadGlobal => exact mirrors_loadGlobal hd
  | storeGlobal => exact mirrors_storeGlobal hd
  | loadLocal => exact mirrors_loadLocal hd
  | storeLocal => exact mirrors_storeLocal hd
  | dup => exact mirrors_dup d
  | add | sub | mul | div | mod | pow => exact mirrors_binary _ fun _ _ => mirrors_arith _
  | eq | ne => exact mirrors_binary _ fun a b _ _ => (mirrors_same a b).bind fun _ _ => .pure rfl
  | lt | gt | le | ge => exact mirrors_binary _ fun a b _ _ => mirrors_order _ a b
  | isIn => exact mirrors_binary _ fun a b _ _ => mirrors_member a b
  | both =>
    refine mirrors_binary _ fun a b ha hb => (mirrors_truth a).bind fun c _ => ?_
    cases c
    · exact .pure ha
    · exact .pure hb
  | either =>
    refine mirrors_binary _ fun a b ha hb => (mirrors_truth a).bind fun c _ => ?_
    cases c
    · exact .pure hb
    · exact .pure ha
  | negate =>
    exact .demand _ (.pop fun _ => .zero _)
      (Mirrors.pop.bind fun v _ => (mirrors_truth v).bind fun _ _ => .push rfl)
  | jump => exact .jump _
  | jumpIfFalse | jumpIfTrue => exact mirrors_jumpIf _ _ d
  | call => exact absurd rfl hcall
  | ret => exact mirrors_ret
  | rotTwo => exact mirrors_rotTwo d
  | rotThree => exact mirrors_rotThree d
  | len => exact mirrors_len
  | getItem => exact mirrors_getItem
  | setItem => exact mirrors_setItem
  | buildList => exact mirrors_buildList hd
  | buildDict => exact mirrors_buildDict hd
  | buildTuple => exact mirrors_buildTuple hd
  | formatValue =>
    exact .demand _ (.pop fun _ => .zero _)
      (Mirrors.pop.bind fun v _ => (mirrors_text v).bind fun _ _ => .push rfl)
  | halt =>
    intro _ _ _ _ _ _ _ hrun
    cases hrun
  | _ => simp [Opcode.common] at hop

/-- The second machine has and performs each common instruction as the first does. -/
theorem alike_perform {i : Instruction} (hop : i.op ∈ Opcode.common) (hoperand : i.operand.IsCount)
    (h : Alike shownWide shownFast w f)
    (hown : ∀ (n : Nat) name, i = ⟨.call, .int n⟩ → w.stack[n]? = some (.str name) →
      name ∉ Fast.ownFunctions) (hrun : Act.perform i w = .ok u w') :
    ∃ f', Fast.Act.perform i.op i.operand f = .ok u f' ∧ Alike shownWide shownFast w' f' ∧
      f'.debug = f.debug := by
  obtain ⟨op, operand⟩ := i
  by_cases hcall : op = .call
  · subst hcall
    refine alike_call hoperand h (fun n name hn => ?_) hrun
    exact hown n name (congrArg (Instruction.mk .call) hn)
  · obtain ⟨f', hf', halike, hdebug, -⟩ := mirrors_perform hop hcall hoperand h hrun
    exact ⟨f', hf', halike, hdebug⟩

end StackScript
