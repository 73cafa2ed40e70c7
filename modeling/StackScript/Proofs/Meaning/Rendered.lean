import StackScript.Proofs.Code.TryBlock
import StackScript.Proofs.Meaning.Planned
import StackScript.Proofs.Meaning.Simulation

/-!
# The value of a formatted literal

The code of a formatted literal puts the texts of all pieces on the stack and then joins them from the
right. `Denotes` says what an expression without calls means, formatted literals in it included: the
source of an expression between braces is scanned and read where the literal stands. A constant is
found in the pool by equality, so a literal has to be the only datum there that equals it, and so has
the zero from which `-x` subtracts.

* `formatted_value`: the code of a formatted literal puts the texts of its pieces, joined in order, or
  fails where one of its expressions fails.
-/

namespace StackScript.Meaning

open Wide
open Scanner (Piece)

/-- The texts of pieces, from left to right; the value of an expression is shown as a text. -/
def textsOf (value : String → Run Value) : List Piece → Run (List String)
  | [] => return []
  | .text s :: rest => do return s :: (← textsOf value rest)
  | .hole source :: rest => do
    let s ← act (Act.ask (Value.text · (← value source)))
    return s :: (← textsOf value rest)

/-- Nothing in a pool equals a datum but is another one. -/
def Unlike (pool : List Datum) (d : Datum) : Prop := ∀ c ∈ pool, c.same d = true → c = d

theorem unlike_str {pool : List Datum} {s : String} : Unlike pool (.str s) := by
  intro c _ hsame
  cases c <;> simp_all [Datum.same, Datum.sameLeaf, Datum.integral?]

section

variable (pool : List Datum) (place : Place)

/-- The meaning of an expression without calls, at a place with names of its own. -/
inductive Denotes : Expr → Run Value → Prop
  | literal {d : Datum} (h : Unlike pool d) : Denotes (.literal d) (act (Act.operandValue d))
  | name (word : String) : Denotes (.name word) (read place word)
  | binary {left right : Expr} {operator : String} {op : Opcode} {f : Value → Value → Act Value}
      {x y : Run Value} (hop : binaryOpcode? operator = some op) (hf : binary? operator = some f)
      (hl : Denotes left x) (hr : Denotes right y) :
      Denotes (.binary left operator right) (do act (f (← x) (← y)))
  | not {operand : Expr} {x : Run Value} (h : Denotes operand x) :
      Denotes (.unary "not" operand) (do return .bool !(← act (Act.truth (← x))))
  | minus {operand : Expr} {x : Run Value} (hzero : Unlike pool (.int 0))
      (h : Denotes operand x) :
      Denotes (.unary "-" operand) (do act (Act.arith .sub (.int 0) (← x)))
  | plus {operand : Expr} {x : Run Value} (h : Denotes operand x) : Denotes (.unary "+" operand) x
  | index {object index : Expr} {x y : Run Value} (ho : Denotes object x)
      (hi : Denotes index y) :
      Denotes (.index object index) (do act (itemOf (← x) (← y)))
  | formatted {pieces : List Piece} {tree : String → Expr} {value : String → Run Value}
      (hne : pieces ≠ []) (hread : ∀ s, .hole s ∈ pieces → Gen.expressionOf s = .ok (tree s))
      (h : ∀ s, .hole s ∈ pieces → Denotes (tree s) (value s)) :
      Denotes (.formatted (.list (pieces.map Piece.datum)))
        (do return .str (String.join (← textsOf value pieces)))

end

/-- A machine stands in code whose constants are those of a pool. -/
structure Hosts (im : Image) (spot : Spot) (pool : List Datum) : Prop where
  valid : im.Valid spot
  constants : ∀ (i : Nat) d, pool[i]? = some d →
    ∃ v, Act.operandValue d = pure v ∧ im.pool[i]? = some v

/-- The tables at a place are the beginning of those of the machine, and the names of the place are
the names that have a slot there. -/
structure Fits (im : Image) (spot : Spot) (place : Place) (pool : List Datum) (sc : Scope) :
    Prop where
  constants : sc.constants.toList <+: pool
  globals : sc.globals <+: im.globals
  locals : match spot with
    | .main => sc.locals = none ∧ place = none
    | .routine _ slots _ _ => ∃ own, sc.locals = some own ∧ own <+: slots ∧ place = some own.names

section Lays

variable {im : Image} {spot : Spot} {place : Place} {pool : List Datum} {α β : Type}
  {p q : Plan Shape} {pre : List Value} {push : α → List Value}

variable (im spot place pool) in
/-- If the tables behind a plan fit, then so do those before it. -/
def Restores (p : Plan Shape) : Prop :=
  ∀ sc a sc', p sc = .ok (a, sc') → Fits im spot place pool sc' → Fits im spot place pool sc

variable (im spot place pool) in
/-- Planned code, wherever it stands in the code of the machine, takes some values from the stack and
puts others there, as the value tells. -/
def Lays (pre : List Value) (push : α → List Value) (p : Plan Shape) (x : Run α) : Prop :=
  Restores im spot place pool p ∧
    ∀ sc a sc', p sc = .ok (a, sc') → Fits im spot place pool sc' →
      ∀ n, Placed (im.code spot) n a → ∀ w S, Good im [] w →
        Reaches (Good im []) (im.state spot w (pre ++ S) n)
          (fun v w' => im.state spot w' (push v ++ S) (n + a.size)) none (x w)

theorem Restores.op (opcode : Opcode) : Restores im spot place pool (Plan.op opcode) := by
  intro sc _ _ hplan hfits
  cases hplan
  exact hfits

theorem Restores.andThen (hp : Restores im spot place pool p) (hq : Restores im spot place pool q) :
    Restores im spot place pool (p.andThen q) := by
  intro sc _ sc' hplan hfits
  obtain ⟨a, sc₁, b, ha, hb, rfl⟩ := Plan.andThen_ok hplan
  exact hp _ _ _ ha (hq _ _ _ hb hfits)

namespace Lays

variable {x : Run α}

theorem andThen {k : α → Run β} {push' : β → List Value}
    (hp : Lays im spot place pool pre push p x) (hr : Restores im spot place pool q)
    (hq : ∀ v w w', x w = .ok v w' → Lays im spot place pool (push v) push' q (k v)) :
    Lays im spot place pool pre push' (p.andThen q) (x >>= k) := by
  refine ⟨hp.1.andThen hr, fun sc _ sc' hplan hfits n hplaced w S hw => ?_⟩
  obtain ⟨a, sc₁, b, ha, hb, rfl⟩ := Plan.andThen_ok hplan
  refine .bind (hp.2 _ _ _ ha (hr _ _ _ hb hfits) n hplaced.first w S hw) fun v w' hv hw' => ?_
  rw [Shape.size, ← Nat.add_assoc]
  exact (hq v w w' hv).2 _ _ _ hb hfits _ hplaced.rest w' S hw'

theorem onTop (h : Lays im spot place pool [] push p x) (under : List Value) :
    Lays im spot place pool under (fun v => push v ++ under) p x := by
  refine ⟨h.1, fun sc a sc' hplan hfits n hp w S hw => ?_⟩
  simpa using h.2 sc a sc' hplan hfits n hp w (under ++ S) hw

theorem map {f : α → β} {push' : β → List Value}
    (h : Lays im spot place pool pre push p x) (hpush : ∀ v, push' (f v) = push v) :
    Lays im spot place pool pre push' p (do return f (← x)) := by
  refine ⟨h.1, fun sc a sc' hplan hfits n hp w S hw =>
    .bind (h.2 sc a sc' hplan hfits n hp w S hw) fun v w' _ hw' => ⟨hw', ?_⟩⟩
  show Runs _ (im.state spot w' (push' (f v) ++ S) (n + a.size))
  rw [hpush]
  exact .refl _

theorem op {opcode : Opcode} (h : ∀ n w S, (im.code spot)[n]? = some ⟨opcode, .null⟩ →
      Good im [] w → Reaches (Good im []) (im.state spot w (pre ++ S) n)
        (fun v w' => im.state spot w' (push v ++ S) (n + 1)) none (x w)) :
    Lays im spot place pool pre push (Plan.op opcode) x := by
  refine ⟨.op opcode, fun sc _ _ hplan hfits n hp w S hw => ?_⟩
  cases hplan
  exact h n w S hp.one hw

/-- A constant is found under the index that is planned for it. -/
theorem constant (hh : Hosts im spot pool) {d : Datum} (hd : Unlike pool d)
    (h : ∀ v, Act.operandValue d = pure v → ∀ w, ∃ a, x w = .ok a w ∧ push a = [v]) :
    Lays im spot place pool [] push (Plan.loadConst d) x := by
  have hplanned : ∀ sc a sc', Plan.loadConst d sc = .ok (a, sc') → Fits im spot place pool sc' →
      Fits im spot place pool sc ∧ ∃ i, pool[i]? = some d ∧ a = .one (.to .loadConst i) := by
    intro sc a sc' hplan hfits
    obtain ⟨i, sc₁, hi, hplan⟩ := Plan.bind_ok.1 hplan
    cases hplan
    unfold Plan.constant at hi
    split at hi
    · rename_i j hj
      cases hi
      obtain ⟨hlt, hsame, -⟩ := Array.findIdx?_eq_some_iff_getElem.1 hj
      have hpool : pool[i]? = some sc.constants[i] := getElem?_mono hfits.constants (by simp [hlt])
      refine ⟨hfits, i, ?_, rfl⟩
      rw [hpool, hd _ (List.mem_of_getElem? hpool) hsame]
    · cases hi
      have hpush : sc.constants.toList <+: (sc.constants.push d).toList := ⟨[d], by simp⟩
      exact ⟨⟨hpush.trans hfits.constants, hfits.globals, hfits.locals⟩, _,
        getElem?_mono hfits.constants (by simp), rfl⟩
  refine ⟨fun sc a sc' hplan hfits => (hplanned sc a sc' hplan hfits).1, ?_⟩
  intro sc _ sc' hplan hfits n hp w S hw
  obtain ⟨-, i, hi, rfl⟩ := hplanned sc _ sc' hplan hfits
  obtain ⟨v, hv, hpool⟩ := hh.constants i d hi
  obtain ⟨a, ha, hpush⟩ := h v hv w
  rw [ha]
  refine ⟨hw, ?_⟩
  simpa [hpush, Shape.size] using runs_constant hh.valid (.inl rfl) hp.one hw.intact hpool

theorem name (hh : Hosts im spot pool) (word : String) :
    Lays im spot place pool [] (fun v => [v]) (Plan.loadName word) (read place word) := by
  have hplanned : ∀ sc a sc', Plan.loadName word sc = .ok (a, sc') → Fits im spot place pool sc' →
      Fits im spot place pool sc ∧
        ((∃ k, sc.locals.bind (·.slot? word) = some k ∧ a = .one (.to .loadLocal k)) ∨
          sc.locals.bind (·.slot? word) = none ∧
            ∃ k, im.globals.slot? word = some k ∧ a = .one (.to .loadGlobal k)) := by
    intro sc a sc' hplan hfits
    cases hbind : sc.locals.bind (·.slot? word) with
    | some k =>
      simp only [Plan.loadName, Plan.get_bind, hbind] at hplan
      cases hplan
      exact ⟨hfits, .inl ⟨k, rfl, rfl⟩⟩
    | none =>
      simp only [Plan.loadName, Plan.get_bind, hbind] at hplan
      obtain ⟨k, sc₁, hk, hplan⟩ := Plan.bind_ok.1 hplan
      cases hplan
      unfold Plan.globalSlot at hk
      split at hk
      · rename_i hslot
        cases hk
        exact ⟨hfits, .inr ⟨rfl, k, slot?_mono hfits.globals hslot, rfl⟩⟩
      · rename_i hnew
        cases hk
        exact ⟨⟨hfits.constants, (Slots.prefix_put hnew _).trans hfits.globals, hfits.locals⟩,
          .inr ⟨rfl, _, slot?_mono hfits.globals (Slots.slot?_put hnew _), rfl⟩⟩
  refine ⟨fun sc a sc' hplan hfits => (hplanned sc a sc' hplan hfits).1, ?_⟩
  intro sc _ sc' hplan hfits n hp w S hw
  obtain ⟨hbefore, ⟨k, hk, rfl⟩ | ⟨hnone, k, hk, rfl⟩⟩ := hplanned sc _ sc' hplan hfits
  · obtain ⟨own, hown, hslot⟩ := Option.bind_eq_some_iff.1 hk
    have hlocals := hbefore.locals
    cases spot with
    | main => simp [hown] at hlocals
    | routine r slots outer back =>
      obtain ⟨own', hown', hslots, rfl⟩ := hlocals
      rw [hown] at hown'
      cases hown'
      have hmem : word ∈ own.names := List.mem_map.2 ⟨_, Slots.mem_of_slot? hslot, rfl⟩
      have hread : read (some own.names) word w = .ok (w.locals word) w := by
        show (if word ∈ own.names then (pure (w.locals word) : Run Value) else _) w = _
        rw [if_pos hmem]
        rfl
      rw [hread]
      exact ⟨hw, runs_loadLocal hh.valid (slot?_mono hslots hslot) hp.one⟩
  · have hread : read place word w = .ok (w.globals word) w := by
      show (if word ∈ place.getD [] then _ else (pure (w.globals word) : Run Value)) w = _
      rw [if_neg]
      · rfl
      · have hlocals := hbefore.locals
        cases spot with
        | main => simp [hlocals.2]
        | routine =>
          obtain ⟨own, hown, -, rfl⟩ := hlocals
          rw [hown] at hnone
          exact Slots.slot?_eq_none.1 hnone
    rw [hread]
    exact ⟨hw, runs_loadGlobal hh.valid hk hp.one⟩

/-- The texts on the stack are joined from the right. -/
theorem additions (hh : Hosts im spot pool) : ∀ {marks : List Nat} {texts : List String} (last : String),
    marks.length = texts.length →
      Lays im spot place pool (.str last :: texts.map .str) (fun v => [v])
        (Plan.each (fun _ => Plan.op .add) marks)
        (pure (.str (String.join (texts.reverse ++ [last]))))
  | [], [], last, _ => by
    refine ⟨fun sc _ _ hplan hfits => by cases hplan; exact hfits, ?_⟩
    intro sc _ _ hplan hfits n hp w S hw
    cases hplan
    have hlast : String.join [last] = last := by simp [String.join_cons]
    exact ⟨hw, hlast ▸ .refl _⟩
  | mark :: marks, s :: texts, last, h => by
    have hadd : Lays im spot place pool (.str last :: .str s :: texts.map .str)
        (fun _ : Unit => .str (s ++ last) :: texts.map .str) (Plan.op .add) (pure ()) :=
      .op fun n w S hi hw => ⟨hw, .perform hh.valid hi rfl⟩
    have hmore := additions hh (s ++ last) (Nat.succ.inj h)
    have hjoin : String.join ((s :: texts).reverse ++ [last]) =
        String.join (texts.reverse ++ [s ++ last]) := by
      simp [String.join_append, String.join_cons]
    rw [hjoin]
    exact hadd.andThen hmore.1 fun _ _ _ _ => hmore

theorem joins (hh : Hosts im spot pool) {marks : List Nat} {texts : List String}
    (h : texts.length = marks.length + 1) :
    Lays im spot place pool (texts.map Value.str).reverse (fun v => [v])
      (Plan.each (fun _ => Plan.op .add) marks) (pure (.str (String.join texts))) := by
  obtain rfl | ⟨others, last, rfl⟩ := List.eq_nil_or_concat texts
  · simp at h
  · have hcount : marks.length = others.reverse.length := by
      simp at h ⊢
      omega
    simpa using additions hh last hcount

theorem piece (hh : Hosts im spot pool) {embedded : String → Plan Shape} {value : String → Run Value} :
    ∀ {pieces : List Piece}, (∀ s, .hole s ∈ pieces →
        Lays im spot place pool [] (fun v => [v]) (embedded s) (value s)) →
      Lays im spot place pool [] (fun texts => (texts.map Value.str).reverse)
        (Plan.each (Plan.piece embedded) (pieces.map Piece.datum)) (textsOf value pieces)
  | [], _ => by
    refine ⟨fun sc _ _ hplan hfits => by cases hplan; exact hfits, ?_⟩
    intro sc _ _ hplan hfits n hp w S hw
    cases hplan
    exact ⟨hw, .refl _⟩
  | p :: rest, h => by
    have hrest := piece hh fun source hs => h source (List.mem_cons_of_mem _ hs)
    have hmore (s : String) : Lays im spot place pool [.str s]
        (fun texts => (texts.map Value.str).reverse)
        (Plan.each (Plan.piece embedded) (rest.map Piece.datum))
        (do return s :: (← textsOf value rest)) :=
      (hrest.onTop [.str s]).map fun texts => by simp
    cases p with
    | text s =>
      have htext : Lays im spot place pool [] (fun s => [.str s]) (Plan.loadConst (.str s))
          (pure s) :=
        constant hh unlike_str fun v hv w => ⟨s, rfl, by cases congrFun hv {}; rfl⟩
      exact htext.andThen hrest.1 fun s _ _ _ => hmore s
    | hole source =>
      have hshown : Lays im spot place pool [] (fun s => [.str s])
          ((embedded source).andThen (Plan.op .formatValue))
          (do act (Act.ask (Value.text · (← value source)))) :=
        (h source List.mem_cons_self).andThen (.op _) fun v _ _ _ => .op fun n w S hi hw =>
          .perform hh.valid hi hw (.ask _) (k := fun s => Act.push (.str s)) rfl fun _ _ => rfl
      have hjoin := hshown.andThen hrest.1 fun s _ _ _ => hmore s
      rwa [bind_assoc] at hjoin

theorem length_textsOf {value : String → Run Value} : ∀ {pieces : List Piece} {texts : List String}
    {w w' : Memory}, textsOf value pieces w = .ok texts w' → texts.length = pieces.length
  | [], _, _, _, h => by
    cases h
    rfl
  | p :: rest, texts, w, w', h => by
    have hmore : ∀ {s w}, (do return s :: (← textsOf value rest) : Run (List String)) w =
        .ok texts w' → texts.length = rest.length + 1 := by
      intro s w h
      obtain ⟨more, _, hrest, h⟩ := bind_eq_ok h
      cases h
      rw [List.length_cons, length_textsOf hrest]
    cases p with
    | text s => exact hmore h
    | hole source =>
      obtain ⟨_, _, -, h⟩ := bind_eq_ok h
      obtain ⟨_, _, -, h⟩ := bind_eq_ok h
      exact hmore h

/-- The code of an expression without calls puts its value on the stack. -/
theorem expr (hh : Hosts im spot pool) {e : Expr} {x : Run Value} (h : Denotes pool place e x)
    {embedded : String → Plan Shape} (hembedded : ∀ s, ∃ fuel, embedded s = Plan.embeddedN fuel s) :
    Lays im spot place pool [] (fun v => [v]) (Plan.expr embedded e) x := by
  induction h generalizing embedded with
  | literal h =>
    refine constant hh h fun v hv w => ⟨v, ?_, rfl⟩
    rw [hv]
    rfl
  | name word => exact name hh word
  | @binary left right operator op f x y hop hf _ _ ihl ihr =>
    have hl := ihl hembedded
    have hr := ihr hembedded
    have hlast (a b : Value) : Lays im spot place pool [b, a] (fun v => [v]) (Plan.binaryOp operator)
        (act (f a b)) := by
      rw [Plan.binaryOp, hop]
      exact .op fun n w S hi hw => reaches_binary hh.valid hw hf hop hi a b
    exact hl.andThen (hr.1.andThen (hlast .none .none).1) fun a _ _ _ =>
      (hr.onTop [a]).andThen (hlast a a).1 fun b _ _ _ => hlast a b
  | not _ ih =>
    exact (ih hembedded).andThen (.op _) fun v _ _ _ =>
      .op fun n w S hi hw => ⟨hw, runs_negate hh.valid hi v⟩
  | minus hzero _ ih =>
    have hv := ih hembedded
    have hload : Lays im spot place pool [] (fun _ : Unit => [.int 0]) (Plan.loadConst (.int 0))
        (pure ()) :=
      constant hh hzero fun v hv w => ⟨(), rfl, by cases congrFun hv {}; rfl⟩
    have hminus : binary? "-" = some (Act.arith .sub) := rfl
    have hrest : Lays im spot place pool [.int 0] (fun v => [v])
        ((Plan.expr embedded _).andThen (Plan.op .sub)) _ :=
      (hv.onTop [.int 0]).andThen (.op _) fun v _ _ _ =>
        .op fun n w S hi hw => reaches_binary hh.valid hw hminus rfl hi (.int 0) v
    have hall := hload.andThen hrest.1 fun _ _ _ _ => hrest
    exact hall
  | plus _ ih => exact ih hembedded
  | index _ _ iho ihi =>
    have hi := ihi hembedded
    exact (iho hembedded).andThen (hi.1.andThen (.op _)) fun v _ _ _ =>
      (hi.onTop [v]).andThen (.op _) fun i _ _ _ =>
        .op fun n w S hcode hw => reaches_getItem hh.valid hw hcode v i
  | @formatted pieces tree value hne hread _ ih =>
    have hholes : ∀ s, .hole s ∈ pieces →
        Lays im spot place pool [] (fun v => [v]) (embedded s) (value s) := by
      intro s hs
      obtain ⟨fuel, hfuel⟩ := hembedded s
      rw [hfuel]
      cases fuel with
      | zero => exact ⟨nofun, nofun⟩
      | succ fuel =>
        have htree : Plan.embeddedN (fuel + 1) s = Plan.expr (Plan.embeddedN fuel) (tree s) := by
          rw [Plan.embeddedN, hread s hs]
          rfl
        rw [htree]
        exact ih s hs fun _ => ⟨fuel, rfl⟩
    have hcount : (List.range ((pieces.map Piece.datum).length - 1)).length + 1 = pieces.length := by
      have hpos := List.length_pos_iff.2 hne
      simp only [List.length_range, List.length_map]
      omega
    have htexts : (pieces.map fun _ => "").length = pieces.length := List.length_map ..
    exact (piece hh hholes).andThen (joins hh (htexts.trans hcount.symm)).1 fun texts _ _ h =>
      joins hh ((length_textsOf h).trans hcount.symm)

end Lays

end Lays

/-! ## Nothing but failures -/

/-- A part of a program that is left before its end only by a failure. -/
def Stops {α : Type} (x : Run α) : Prop :=
  ∀ w signal w', x w = .error signal w' → ∃ cause, signal = .stopped cause

theorem Stops.pure {α : Type} (a : α) : Stops (pure a) := by
  intro w signal w' h
  cases h

theorem Stops.bind {α β : Type} {x : Run α} {k : α → Run β} (hx : Stops x)
    (hk : ∀ a, Stops (k a)) : Stops (x >>= k) := by
  intro w signal w' h
  cases hrun : x w with
  | error e t =>
    rw [bind_of_error hrun] at h
    cases h
    exact hx _ _ _ hrun
  | ok a t =>
    rw [bind_of_ok hrun] at h
    exact hk a _ _ _ h

theorem stops_act {α : Type} (x : Act α) : Stops (act x) := by
  intro w signal w' h
  unfold act at h
  split at h
  · cases h
  · cases h
    exact ⟨_, rfl⟩

theorem stops_textsOf {value : String → Run Value} : ∀ {pieces : List Piece},
    (∀ s, .hole s ∈ pieces → Stops (value s)) → Stops (textsOf value pieces)
  | [], _ => .pure _
  | .text _ :: _, h =>
    (stops_textsOf fun s hs => h s (List.mem_cons_of_mem _ hs)).bind fun _ => .pure _
  | .hole s :: _, h => (h s List.mem_cons_self).bind fun _ => (stops_act _).bind fun _ =>
    (stops_textsOf fun s hs => h s (List.mem_cons_of_mem _ hs)).bind fun _ => .pure _

theorem Denotes.stops {pool : List Datum} {place : Place} {e : Expr} {x : Run Value}
    (h : Denotes pool place e x) : Stops x := by
  induction h with
  | literal => exact stops_act _
  | name word =>
    intro w signal w' h
    have hread : read place word w =
        (if word ∈ place.getD [] then pure (w.locals word) else pure (w.globals word) : Run Value) w :=
      rfl
    rw [hread] at h
    split at h <;> cases h
  | binary _ _ _ _ ihl ihr => exact ihl.bind fun _ => ihr.bind fun _ => stops_act _
  | not _ ih => exact ih.bind fun _ => (stops_act _).bind fun _ => .pure _
  | minus _ _ ih => exact ih.bind fun _ => stops_act _
  | plus _ ih => exact ih
  | index _ _ iho ihi => exact iho.bind fun _ => ihi.bind fun _ => stops_act _
  | formatted _ _ _ ih => exact (stops_textsOf ih).bind fun _ => .pure _

/-- The code of a formatted literal puts one text on the stack, that of its pieces from left to right;
if an expression of it fails, then so does the code, in the same way. -/
theorem formatted_value {im : Image} {spot : Spot} {place : Place} {pool : List Datum}
    (hh : Hosts im spot pool) {pieces : List Piece} {tree : String → Expr}
    {value : String → Run Value} (hne : pieces ≠ [])
    (hread : ∀ s, .hole s ∈ pieces → Gen.expressionOf s = .ok (tree s))
    (h : ∀ s, .hole s ∈ pieces → Denotes pool place (tree s) (value s)) {g g' : Generator}
    (hgen : Gen.expression (.formatted (.list (pieces.map Piece.datum))) g = .ok () g')
    (hfits : Fits im spot place pool g'.scope)
    (hcode : Stretch (im.code spot) g.code.size (g'.code.toList.drop g.code.size))
    {w : Memory} (hw : Good im [] w) (S : List Value) :
    (∃ texts w', textsOf value pieces w = .ok texts w' ∧ Runs (im.state spot w S g.code.size)
      (im.state spot w' (.str (String.join texts) :: S) g'.code.size)) ∨
    ∃ cause w', textsOf value pieces w = .error (.stopped cause) w' ∧
      Crashes (im.state spot w S g.code.size) cause w' := by
  obtain ⟨shape, sc, hplan, hemits⟩ := (follows_expression _).of_ok hgen
  have hplaced : Placed (im.code spot) g.code.size shape := by
    simpa [Placed, hemits.code] using hcode
  have hsize : g'.code.size = g.code.size + shape.size := by
    simpa using congrArg List.length hemits.code
  have hlays : Lays im spot place pool [] (fun v => [v]) (Plan.expression _) _ :=
    Lays.expr hh (.formatted hne hread h) fun s => ⟨s.length + 1, rfl⟩
  rw [hemits.scope] at hfits
  have hreaches := hlays.2 _ _ _ hplan hfits _ hplaced w S hw
  rw [hsize]
  cases hrun : textsOf value pieces w with
  | ok texts w' =>
    rw [bind_of_ok hrun] at hreaches
    exact .inl ⟨texts, w', rfl, hreaches.2⟩
  | error signal w' =>
    obtain ⟨cause, rfl⟩ := stops_textsOf (fun s hs => (h s hs).stops) _ _ _ hrun
    rw [bind_of_error hrun] at hreaches
    exact .inr ⟨cause, w', rfl, hreaches⟩

theorem expressionOf_name : Gen.expressionOf "x" = .ok (.name "x") := by
  have hscan : (Token.scan "x").toOption = some [⟨.name, "x", 1, 1⟩, ⟨.eof, "", 1, 2⟩] := by
    decide +kernel
  rw [Gen.expressionOf]
  cases h : Token.scan "x" with
  | error e =>
    rw [h] at hscan
    cases hscan
  | ok tokens =>
    rw [h] at hscan
    cases hscan
    rfl

/-- A machine with the code of a literal of a text and a name. -/
def greeting : Image where
  ref := 0
  pool := #[.str "hi "]
  globals := [("x", 0)]
  routines := []
  main := #[.to .loadConst 0, .to .loadGlobal 0, ⟨.formatValue, .null⟩, ⟨.add, .null⟩]

theorem formatted_value_greeting : ∃ (g' : Generator) (w : Memory), w.globals "x" = .str "there" ∧
    Gen.expression (.formatted (.list ([.text "hi ", .hole "x"].map Piece.datum))) {} = .ok () g' ∧
    Runs (greeting.state .main w [] 0) (greeting.state .main w [.str "hi there"] g'.code.size) := by
  have hembedded : Plan.embedded "x" = Plan.loadName "x" := by
    rw [Plan.embedded, Plan.embeddedN, expressionOf_name]
    rfl
  have hplan : Plan.expression (.formatted (.list ([.text "hi ", .hole "x"].map Piece.datum)))
      ({} : Generator).scope =
      ((Plan.loadConst (.str "hi ")).andThen (((Plan.embedded "x").andThen
        (Plan.op .formatValue)).andThen (pure .nothing))).andThen
          ((Plan.op .add).andThen (pure .nothing)) ({} : Generator).scope := rfl
  rw [hembedded] at hplan
  have hshape : Plan.expression (.formatted (.list ([.text "hi ", .hole "x"].map Piece.datum)))
      ({} : Generator).scope = .ok ((((Shape.one (.to .loadConst 0)).seq (((Shape.one
        (.to .loadGlobal 0)).seq (.one ⟨.formatValue, .null⟩)).seq .nothing)).seq
          ((Shape.one ⟨.add, .null⟩).seq .nothing)),
        { constants := #[.str "hi "], globals := [("x", 0)] }) := by
    with_unfolding_all exact hplan
  obtain ⟨g', hgen, hemits⟩ := (follows_expression _).ok hshape
  let w : Memory :=
    { store := { lists := #[#[.str "hi "]] }, globals := put (fun _ => .none) "x" (.str "there") }
  have hsound : greeting.Sound :=
    ⟨.append_new .nil rfl, by decide +kernel, by decide +kernel, by decide +kernel⟩
  have hhosts : Hosts greeting .main [.str "hi "] := by
    refine ⟨hsound, ?_⟩
    rintro (_ | i) d hd <;> cases hd
    exact ⟨_, rfl, rfl⟩
  have hgood : Good greeting [] w := by
    refine ⟨rfl, nofun, fun name hname => if_neg ?_⟩
    rintro rfl
    cases hname
  have hcode : Stretch greeting.main 0 (g'.code.toList.drop 0) := by
    rw [hemits.code]
    intro k i hk
    rw [Nat.zero_add, ← Array.getElem?_toList]
    exact hk
  obtain ⟨texts, w', htexts, hruns⟩ | ⟨_, _, htexts, _⟩ :=
    @formatted_value greeting .main none _ hhosts _ (fun _ => .name "x") (fun _ => read none "x")
      (List.cons_ne_nil _ _) (by simp [expressionOf_name]) (fun _ _ => .name "x") _ _ hgen
      (hemits.scope ▸ ⟨List.prefix_rfl, List.prefix_rfl, rfl, rfl⟩) hcode _ hgood []
  · cases htexts
    exact ⟨g', w, rfl, hgen, hruns⟩
  · cases htexts

end StackScript.Meaning
