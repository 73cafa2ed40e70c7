import StackScript.Proofs.Code.Growth
import StackScript.Proofs.Meaning.Core
import StackScript.Proofs.Meaning.Resolved

/-!
# Plans of the core language

Planning a part of the core language succeeds, and what is planned is the code of the part under all
final tables that extend those at its end. A constant is found in the pool by equality, so this needs
that equal literals are the same; a name is found in the tables by the order of its first uses, so it
needs that the names of a function are declared before they are used and are no global names.
-/

namespace StackScript.Meaning

/-- Rules under which names and literals are told apart. -/
structure Rules.Sound (r : Rules) : Prop where
  strings : ∀ s : String, r.literal (.str s)
  coherent : ∀ a b, r.literal a → r.literal b → a.same b = true → a = b
  apart : ∀ name ∈ r.place.getD [], ¬ r.isGlobal name
  functions : ∀ name ∈ r.functions, r.isGlobal name

/-- Tables that arise by planning under rules: in a function, the names that have a slot are those
that have been declared. -/
structure Rules.Ordered (r : Rules) (declared : List String) (sc : Scope) : Prop where
  constants : ∀ d ∈ sc.constants.toList, r.literal d
  globals : sc.globals.Proper
  known : ∀ name ∈ sc.globals.names, r.isGlobal name
  locals : r.place = none ∧ sc.locals = none ∨
    ∃ names slots, r.place = some names ∧ sc.locals = some slots ∧ slots.Proper ∧
      (∀ name, name ∈ slots.names ↔ name ∈ declared) ∧ ∀ name ∈ declared, name ∈ names

/-- Final tables that extend the tables at a place. -/
structure Tables.Covers (t : Tables) (r : Rules) (sc : Scope) : Prop where
  constants : sc.constants.toList <+: t.constants
  globals : sc.globals <+: t.globals
  locals : sc.locals = none ∧ t.locals = none ∨
    ∃ slots slots', sc.locals = some slots ∧ t.locals = some slots' ∧ slots <+: slots'
  own : ∀ slots ∈ t.locals, ∀ name ∈ slots.names, name ∈ r.place.getD []
  functions : t.functions = r.functions

theorem Tables.Covers.of_grows {t : Tables} {r : Rules} {sc sc' : Scope} (hg : sc.Grows sc')
    (h : t.Covers r sc') : t.Covers r sc :=
  ⟨hg.constants.trans h.constants, hg.globals.trans h.globals,
    Scope.Grows.locals_trans hg.locals h.locals, h.own, h.functions⟩

theorem slot?_mono {slots more : Slots} (h : slots <+: more) {name : String} {k : Nat}
    (hk : slots.slot? name = some k) : more.slot? name = some k := by
  obtain ⟨rest, rfl⟩ := h
  exact Slots.slot?_append_left hk

/-! ## What plans do -/

/-- From tables in order the plan succeeds and leaves tables in order, with no new routine, and its
result satisfies `P` with respect to all final tables. -/
def Rules.Plans {α : Type} (r : Rules) (before after : List String) (x : Plan α)
    (P : Tables → α → Prop) : Prop :=
  ∀ sc, r.Ordered before sc → ∃ a sc', x sc = .ok (a, sc') ∧ sc.Grows sc' ∧
    sc'.routines = sc.routines ∧ r.Ordered after sc' ∧ ∀ t : Tables, t.Covers r sc' → P t a

namespace Rules.Plans

variable {α β : Type} {r : Rules} {before mid after : List String}

variable {P : Tables → α → Prop} {x : Plan α}

theorem value {a : α} (h : ∀ t, P t a) : r.Plans before before (pure a) P :=
  fun sc hsc => ⟨a, sc, rfl, .refl sc, rfl, hsc, fun t _ => h t⟩

theorem bind {f : α → Plan β} {Q : α → Tables → β → Prop}
    {R : Tables → β → Prop} (hx : r.Plans before mid x P) (hf : ∀ a, r.Plans mid after (f a) (Q a))
    (h : ∀ t a b, P t a → Q a t b → R t b) : r.Plans before after (x >>= f) R := by
  intro sc hsc
  obtain ⟨a, sc₁, hx', hg₁, hr₁, hsc₁, ha⟩ := hx sc hsc
  obtain ⟨b, sc₂, hf', hg₂, hr₂, hsc₂, hb⟩ := hf a sc₁ hsc₁
  refine ⟨b, sc₂, Plan.bind_ok.2 ⟨a, sc₁, hx', hf'⟩, hg₁.trans hg₂, hr₂.trans hr₁, hsc₂, ?_⟩
  exact fun t ht => h t a b (ha t (ht.of_grows hg₂)) (hb t ht)

/-- What holds of the result may depend on the tables that are left. -/
theorem impIn {Q : Tables → α → Prop} (hx : r.Plans before after x P)
    (h : ∀ sc t a, r.Ordered after sc → t.Covers r sc → P t a → Q t a) :
    r.Plans before after x Q := by
  intro sc hsc
  obtain ⟨a, sc', hx', hg, hr, hsc', ha⟩ := hx sc hsc
  exact ⟨a, sc', hx', hg, hr, hsc', fun t ht => h sc' t a hsc' ht (ha t ht)⟩

theorem imp {Q : Tables → α → Prop} (hx : r.Plans before after x P)
    (h : ∀ t a, P t a → Q t a) : r.Plans before after x Q :=
  hx.impIn fun _ t a _ _ => h t a

theorem next {f : α → Plan β} {Q : α → Tables → β → Prop} (hx : r.Plans before mid x P)
    (hf : ∀ a, r.Plans mid after (f a) (Q a)) :
    r.Plans before after (x >>= f) (fun t b => ∃ a, P t a ∧ Q a t b) :=
  bind hx hf fun _ a _ ha hb => ⟨a, ha, hb⟩

theorem last {f : α → β} (hx : r.Plans before after x P) :
    r.Plans before after (do return f (← x)) (fun t b => ∃ a, P t a ∧ b = f a) :=
  hx.next fun _ => value fun _ => rfl

theorem andThen {p q : Plan Shape} {P Q : Tables → Shape → Prop} (hp : r.Plans before mid p P)
    (hq : r.Plans mid after q Q) :
    r.Plans before after (p.andThen q) (fun t s => ∃ a, P t a ∧ ∃ b, Q t b ∧ s = a.seq b) :=
  hp.next fun _ => hq.last

theorem into {frame : Shape → Shape} {p : Plan Shape} {P : Tables → Shape → Prop}
    (hp : r.Plans before after p P) :
    r.Plans before after (Plan.into frame p) (fun t s => ∃ a, P t a ∧ s = frame a) :=
  hp.last

theorem op (opcode : Opcode) :
    r.Plans before before (Plan.op opcode) (fun _ s => s = .one ⟨opcode, .null⟩) :=
  value fun _ => rfl

theorem opAt (opcode : Opcode) (n : Nat) :
    r.Plans before before (Plan.opAt opcode n) (fun _ s => s = .one (.to opcode n)) :=
  value fun _ => rfl

theorem opFound {x : Plan Nat} {opcode : Opcode} {P : Tables → Nat → Prop}
    (hx : r.Plans before after x P) :
    r.Plans before after (do Plan.opAt opcode (← x))
      (fun t s => ∃ k, P t k ∧ s = .one (.to opcode k)) :=
  hx.next fun k => opAt opcode k

end Rules.Plans

/-! ## Names and constants -/

namespace Rules.Plans

variable {r : Rules} {declared : List String}

variable {name : String} {d : Datum}

theorem constant (hr : r.Sound) (hd : r.literal d) :
    r.Plans declared declared (Plan.constant d) (fun t i => t.constants[i]? = some d) := by
  intro sc hsc
  unfold Plan.constant
  split
  · rename_i i hi
    obtain ⟨hlt, hsame, -⟩ := Array.findIdx?_eq_some_iff_getElem.1 hi
    have hmem : sc.constants[i] ∈ sc.constants.toList := by simp
    have heq := hr.coherent _ _ (hsc.constants _ hmem) hd hsame
    refine ⟨i, sc, rfl, .refl sc, rfl, hsc, fun t ht => getElem?_mono ht.constants ?_⟩
    simp [hlt, heq]
  · refine ⟨_, _, rfl, .pushConstant sc d, rfl, ⟨?_, hsc.globals, hsc.known, hsc.locals⟩, fun t ht => ?_⟩
    · intro c hc
      rcases List.mem_append.1 (by simpa using hc : c ∈ sc.constants.toList ++ [d]) with hc | hc
      · exact hsc.constants c hc
      · exact List.mem_singleton.1 hc ▸ hd
    · exact getElem?_mono ht.constants (by simp)

theorem loadConst (hr : r.Sound) (hd : r.literal d) : r.Plans declared declared (Plan.loadConst d)
      (fun t s => ∃ i, t.constants[i]? = some d ∧ s = .one (.to .loadConst i)) :=
  opFound (constant hr hd)

theorem globalSlot (h : r.isGlobal name) : r.Plans declared declared (Plan.globalSlot name)
      (fun t k => t.globals.slot? name = some k) := by
  intro sc hsc
  unfold Plan.globalSlot
  split
  · rename_i k hk
    exact ⟨k, sc, rfl, .refl sc, rfl, hsc, fun t ht => slot?_mono ht.globals hk⟩
  · rename_i hnew
    refine ⟨_, _, rfl, .putGlobal hnew, rfl,
      ⟨hsc.constants, hsc.globals.put_new hnew, fun other hother => ?_, hsc.locals⟩,
      fun t ht => slot?_mono ht.globals (Slots.slot?_put hnew _)⟩
    have hmem : other ∈ sc.globals.names ∨ other = name := by
      simpa [Slots.put_of_new hnew, Slots.names] using hother
    rcases hmem with hmem | rfl
    · exact hsc.known other hmem
    · exact h

/-- A name of a function gets a slot where it is declared. -/
theorem localSlot {names : List String} (hplace : r.place = some names) (h : name ∈ names) :
    r.Plans declared (declared ++ [name]) (Plan.localSlot name)
      (fun t k => ∃ slots, t.locals = some slots ∧ slots.slot? name = some k) := by
  intro sc hsc
  rcases hsc.locals with ⟨hn, -⟩ | ⟨names', slots, hplace', hs, hproper, hnames, hsub⟩
  · rw [hn] at hplace
    cases hplace
  obtain rfl : names' = names := by
    rw [hplace] at hplace'
    exact (Option.some.inj hplace').symm
  have hsub' : ∀ other ∈ declared ++ [name], other ∈ names' :=
    List.forall_mem_append.2 ⟨hsub, List.forall_mem_singleton.2 h⟩
  have hfinal : ∀ {sc' : Scope} {slots' : Slots} {k : Nat} (t : Tables), t.Covers r sc' →
      sc'.locals = some slots' → slots'.slot? name = some k →
      ∃ slots, t.locals = some slots ∧ slots.slot? name = some k := by
    intro sc' slots' k t ht hs' hk
    rcases ht.locals with ⟨hn, -⟩ | ⟨a, b, ha, hb, hab⟩
    · rw [hn] at hs'
      cases hs'
    · rw [ha] at hs'
      cases hs'
      exact ⟨b, hb, slot?_mono hab hk⟩
  unfold Plan.localSlot
  rw [hs]
  dsimp only
  split
  · rename_i k hk
    have hmem : name ∈ slots.names := List.mem_map.2 ⟨_, Slots.mem_of_slot? hk, rfl⟩
    refine ⟨k, sc, rfl, .refl sc, rfl, ⟨hsc.constants, hsc.globals, hsc.known, .inr
      ⟨names', slots, hplace, hs, hproper, fun other => ?_, hsub'⟩⟩,
      fun t ht => hfinal t ht hs hk⟩
    · rw [hnames other, List.mem_append, List.mem_singleton]
      refine ⟨.inl, ?_⟩
      rintro (hother | rfl)
      · exact hother
      · exact (hnames other).1 hmem
  · rename_i hnew
    refine ⟨_, _, rfl, .putLocal hs hnew, rfl, ⟨hsc.constants, hsc.globals, hsc.known, .inr
      ⟨names', _, hplace, rfl, hproper.put_new hnew, fun other => ?_, hsub'⟩⟩,
      fun t ht => hfinal t ht rfl (Slots.slot?_put hnew _)⟩
    · rw [Slots.put_of_new hnew, Slots.names, List.map_append, List.mem_append, List.mem_append, ← hnames other]
      rfl

/-- In the main program it does not matter what has been declared. -/
theorem anywhere {α : Type} {x : Plan α} {P : Tables → α → Prop} {before after others : List String}
    (hplace : r.place = none) (h : r.Plans before after x P) : r.Plans declared others x P := by
  have hfree : ∀ {some other : List String} {sc : Scope}, r.Ordered some sc → r.Ordered other sc := by
    intro some other sc hsc
    refine ⟨hsc.constants, hsc.globals, hsc.known, ?_⟩
    rcases hsc.locals with hl | ⟨names, -, hnames, -⟩
    · exact .inl hl
    · rw [hplace] at hnames
      cases hnames
  intro sc hsc
  obtain ⟨a, sc', hx, hg, hr, hsc', ha⟩ := h sc (hfree hsc)
  exact ⟨a, sc', hx, hg, hr, hfree hsc', ha⟩

/-- In the main program names are stored under their global slots. -/
theorem storeGlobal (hplace : r.place = none) (h : r.isGlobal name) :
    r.Plans declared declared (Plan.storeName name) (fun t s => ∃ k, t.locals = none ∧
      t.globals.slot? name = some k ∧ s = .one (.to .storeGlobal k)) := by
  intro sc hsc
  have hmain : ∀ {sc : Scope}, r.Ordered declared sc → sc.locals = none := by
    intro sc hsc
    rcases hsc.locals with ⟨-, hl⟩ | ⟨names, -, hnames, -⟩
    · exact hl
    · rw [hplace] at hnames
      cases hnames
  simp only [Plan.storeName, Plan.get_bind, hmain hsc]
  refine (opFound (globalSlot h)).impIn ?_ sc hsc
  rintro sc' t _ hsc' ht ⟨k, hk, rfl⟩
  refine ⟨k, ?_, hk, rfl⟩
  rcases ht.locals with ⟨-, hn⟩ | ⟨a, -, ha, -⟩
  · exact hn
  · rw [hmain hsc'] at ha
    cases ha

theorem storeName (h : r.Binds name) :
    r.Plans declared (declared ++ [name]) (Plan.storeName name) (fun t s => t.Stores name s) := by
  cases hplace : r.place with
  | none =>
    obtain ⟨hglobal, hname⟩ : r.isGlobal name ∧ name ∉ r.functions := by
      simpa [Rules.Binds, hplace] using h
    have hstores : r.Plans declared declared _ _ := storeGlobal hplace hglobal
    refine (anywhere hplace hstores).impIn ?_
    rintro _ t _ - ht ⟨k, hl, hk, rfl⟩
    exact .ofGlobal hl (ht.functions ▸ hname) hk
  | some names =>
    have hmem : name ∈ names := by simpa [Rules.Binds, hplace] using h
    intro sc hsc
    rcases hsc.locals with ⟨hnone, -⟩ | ⟨_, slots, -, hl, -⟩
    · rw [hplace] at hnone
      cases hnone
    simp only [Plan.storeName, Plan.get_bind, hl]
    refine (opFound (localSlot hplace hmem)).imp ?_ sc hsc
    rintro t _ ⟨k, ⟨slots, hs, hk⟩, rfl⟩
    exact .ofLocal hs hk

/-- A name that is no name of the function at the place has no slot there. -/
theorem bind_slot?_none {sc : Scope} (hsc : r.Ordered declared sc)
    (h : name ∉ r.place.getD []) : sc.locals.bind (·.slot? name) = none := by
  rcases hsc.locals with ⟨-, hl⟩ | ⟨names, slots, hplace, hl, -, hnames, hsub⟩
  · rw [hl]
    rfl
  · rw [hl]
    refine Slots.slot?_eq_none.2 fun hmem => h ?_
    rw [hplace]
    exact hsub name ((hnames name).1 hmem)

theorem loadName (h : r.Reads declared name) :
    r.Plans declared declared (Plan.loadName name) (fun t s => t.Loads name s) := by
  intro sc hsc
  by_cases hown : name ∈ r.place.getD []
  · rcases hsc.locals with ⟨hplace, -⟩ | ⟨names, slots, hplace, hl, -, hnames, -⟩
    · rw [hplace] at hown
      cases hown
    have hmem : name ∈ slots.names := (hnames name).2 (h.1 hown)
    cases hk : slots.slot? name with
    | none => exact absurd hmem (Slots.slot?_eq_none.1 hk)
    | some k =>
      have hbind : sc.locals.bind (·.slot? name) = some k := by
        rw [hl]
        exact hk
      simp only [Plan.loadName, Plan.get_bind, hbind]
      refine ⟨_, sc, rfl, .refl sc, rfl, hsc, fun t ht => ?_⟩
      rcases ht.locals with ⟨hn, -⟩ | ⟨a, b, ha, hb, hab⟩
      · rw [hl] at hn
        cases hn
      · rw [hl] at ha
        cases ha
        exact .ofLocal hb (slot?_mono hab hk)
  · simp only [Plan.loadName, Plan.get_bind, bind_slot?_none hsc hown]
    refine (opFound (globalSlot (h.2 hown))).impIn ?_ sc hsc
    rintro _ t _ - ht ⟨k, hk, rfl⟩
    exact .ofGlobal (fun slots hslots hmem => hown (ht.own slots hslots name hmem)) hk

theorem loadCallee (hr : r.Sound) (h : r.Calls name) :
    r.Plans declared declared (Plan.loadCallee name) (fun t s => t.Calls name s ∧
      (name ∈ t.functions ∨ (Wide.plainFunction? name).isSome)) := by
  intro sc hsc
  have hknown : name ∈ r.functions ∨ (Wide.plainFunction? name).isSome := h.imp id And.left
  have hown : name ∉ r.place.getD [] := by
    rcases h with h | ⟨-, -, h⟩
    · exact fun hmem => hr.apart name hmem (hr.functions name h)
    · exact h
  cases hk : sc.globals.slot? name with
  | some k =>
    have hglobal : r.isGlobal name :=
      hsc.known name (List.mem_map.2 ⟨_, Slots.mem_of_slot? hk, rfl⟩)
    have hname : name ∈ r.functions := by
      rcases h with h | ⟨-, h, -⟩
      · exact h
      · exact absurd hglobal h
    simp only [Plan.loadCallee, Plan.get_bind, bind_slot?_none hsc hown, hk]
    exact ⟨_, sc, rfl, .refl sc, rfl, hsc, fun t ht =>
      ⟨.ofGlobal (ht.functions ▸ hname) (slot?_mono ht.globals hk), ht.functions ▸ hknown⟩⟩
  | none =>
    simp only [Plan.loadCallee, Plan.get_bind, bind_slot?_none hsc hown, hk]
    refine (loadConst hr (hr.strings name)).impIn ?_ sc hsc
    rintro _ t _ - ht ⟨i, hi, rfl⟩
    exact ⟨.ofConstant hi, ht.functions ▸ hknown⟩

/-- An assigned name is one of the place, and in a function it has been declared. -/
theorem assignName (hr : r.Sound) (h : r.Binds name)
    (hdeclared : r.place.isSome → name ∈ declared) :
    r.Plans declared declared (Plan.assignName name) (fun t s => t.Stores name s) := by
  intro sc hsc
  -- both ways of storing a name plan the same code here
  have hsame : Plan.assignName name sc = Plan.storeName name sc := by
    rcases hsc.locals with ⟨-, hl⟩ | ⟨names, slots, hplace, hl, -⟩
    · simp [Plan.assignName, Plan.storeName, Plan.get_bind, hl]
    · have hmem : name ∈ r.place.getD [] := by simpa [Rules.Binds, hplace] using h
      have hnew : sc.globals.slot? name = none :=
        Slots.slot?_eq_none.2 fun hknown => hr.apart name hmem (hsc.known name hknown)
      simp [Plan.assignName, Plan.storeName, Plan.get_bind, hl, hnew]
  obtain ⟨s, sc', hrun, hg, hr', hsc', hs⟩ := storeName h sc hsc
  refine ⟨s, sc', hsame.trans hrun, hg, hr', ⟨hsc'.constants, hsc'.globals, hsc'.known, ?_⟩, hs⟩
  rcases hsc'.locals with hl | ⟨names, slots, hplace, hl, hproper, hnames, hsub⟩
  · exact .inl hl
  · have hmem : name ∈ declared := hdeclared (by simp [hplace])
    refine .inr ⟨names, slots, hplace, hl, hproper, fun other => ?_, fun other hother =>
      hsub other (by simp [hother])⟩
    rw [hnames other, List.mem_append, List.mem_singleton]
    refine ⟨?_, .inl⟩
    rintro (hother | rfl)
    · exact hother
    · exact hmem

end Rules.Plans

/-! ## Expressions -/

section Expressions

variable {r : Rules} {declared : List String} {embedded : String → Plan Shape}

theorem plans_exprs : ∀ es : List Expr,
    (∀ e ∈ es, r.Plans declared declared (Plan.expr embedded e) (fun t a => t.Codes e a)) →
    r.Plans declared declared (Plan.exprs embedded es) (fun t a => t.CodesAll es a)
  | [], _ => .value fun _ => .nil
  | e :: rest, h => by
    refine ((h e (by simp)).andThen (plans_exprs rest fun x hx => h x (by simp [hx]))).imp ?_
    rintro t _ ⟨a, ha, b, hb, rfl⟩
    exact .cons ha hb

theorem plans_comprehension {target : String} {source body : Plan Shape}
    {P Q R : Tables → Shape → Prop} (hplace : r.place = none) (htarget : r.Binds target)
    (hs : r.Plans declared declared source P) (hb : r.Plans declared declared body Q)
    (h : ∀ t a b c, P t a → t.Stores target b → Q t c → R t ((Shape.one (.to .buildList 0)).seq
        (a.seq ((Shape.one ⟨.getIter, .null⟩).seq (.forLoop (b.seq c)))))) :
    r.Plans declared declared
      ((Plan.opAt .buildList 0).andThen (source.andThen ((Plan.op .getIter).andThen
        (Plan.into .forLoop ((Plan.storeName target).andThen body))))) R := by
  have hbind : r.Plans declared (declared ++ [target]) (Plan.storeName target)
      (fun t s => t.Stores target s) := .storeName htarget
  have hstore : r.Plans declared declared (Plan.storeName target) (fun t s => t.Stores target s) :=
    hbind.anywhere hplace
  refine ((Rules.Plans.opAt .buildList 0).andThen (hs.andThen ((Rules.Plans.op .getIter).andThen
    (hstore.andThen hb).into))).imp ?_
  rintro t _ ⟨_, rfl, _, ⟨a, ha, _, ⟨_, rfl, _, ⟨_, ⟨b, hb, c, hc, rfl⟩, rfl⟩, rfl⟩, rfl⟩, rfl⟩
  exact h t a b c ha hb hc

theorem plans_expr (hr : r.Sound) {e : Expr} (h : r.Core declared e) :
    r.Plans declared declared (Plan.expr embedded e) (fun t a => t.Codes e a) := by
  induction h with
  | literal h =>
    refine (Rules.Plans.loadConst hr h).imp ?_
    rintro t _ ⟨i, hi, rfl⟩
    exact .literal hi
  | name h => exact (Rules.Plans.loadName h).imp fun _ _ ha => .name ha
  | @binary left right operator hop _ _ ihl ihr =>
    obtain ⟨op, hop⟩ := Option.isSome_iff_exists.1 hop
    have hlast : r.Plans declared declared (Plan.binaryOp operator)
        (fun _ s => s = .one ⟨op, .null⟩) := by
      unfold Plan.binaryOp
      rw [hop]
      exact .op op
    refine (ihl.andThen (ihr.andThen hlast)).imp ?_
    rintro t _ ⟨a, ha, _, ⟨b, hb, _, rfl, rfl⟩, rfl⟩
    exact .binary ha hb hop
  | not _ ih =>
    refine (ih.andThen (.op .negate)).imp ?_
    rintro t _ ⟨a, ha, _, rfl, rfl⟩
    exact .not ha
  | minus hzero _ ih =>
    refine ((Rules.Plans.loadConst hr hzero).andThen (ih.andThen (.op .sub))).imp ?_
    rintro t _ ⟨_, ⟨i, hi, rfl⟩, _, ⟨a, ha, _, rfl, rfl⟩, rfl⟩
    exact .minus hi ha
  | plus _ ih => exact ih.imp fun _ _ ha => .plus ha
  | index _ _ iho ihi =>
    refine (iho.andThen (ihi.andThen (.op .getItem))).imp ?_
    rintro t _ ⟨a, ha, _, ⟨b, hb, _, rfl, rfl⟩, rfl⟩
    exact .index ha hb
  | list _ ih =>
    refine ((plans_exprs _ ih).andThen (.opAt .buildList _)).imp ?_
    rintro t _ ⟨a, ha, _, rfl, rfl⟩
    exact .list ha
  | tuple _ ih =>
    refine ((plans_exprs _ ih).andThen (.opAt .buildTuple _)).imp ?_
    rintro t _ ⟨a, ha, _, rfl, rfl⟩
    exact .tuple ha
  | @comprehension element iterable target condition hplace htarget _ _ _ ihi ihc ihe =>
    have happend := ihe.andThen (.op .listAppend)
    cases condition with
    | none =>
      refine plans_comprehension hplace htarget ihi happend ?_
      rintro t a b _ ha hb ⟨c, hc, _, rfl, rfl⟩
      exact .comprehension ha hb hc
    | some test =>
      refine plans_comprehension hplace htarget ihi ((ihc test rfl).andThen happend.into) ?_
      rintro t a b _ ha hb ⟨d, hd, _, ⟨_, ⟨c, hc, _, rfl, rfl⟩, rfl⟩, rfl⟩
      exact .filtered ha hb hd hc
  | call hname _ ih =>
    refine ((Rules.Plans.loadCallee hr hname).andThen
      ((plans_exprs _ ih).andThen (.opAt .call _))).imp ?_
    rintro t _ ⟨a, ⟨ha, hknown⟩, _, ⟨b, hb, _, rfl, rfl⟩, rfl⟩
    exact .call hknown ha hb

end Expressions

/-! ## Statements -/

namespace Rules.Plans

variable {r : Rules} {before mid after : List String}

theorem withLoop {inWhile : Bool} {body : Plan Shape} {P : Tables → Shape → Prop}
    (h : r.Plans before after body P) : r.Plans before after (Plan.withLoop inWhile body) P := by
  intro sc hsc
  obtain ⟨s, sc', hrun, hg, hr, hsc', hs⟩ :=
    h { sc with inWhile } ⟨hsc.constants, hsc.globals, hsc.known, hsc.locals⟩
  refine ⟨s, { sc' with inWhile := sc.inWhile }, Plan.bind_ok.2 ⟨sc, sc, rfl,
    Plan.bind_ok.2 ⟨(), _, rfl, Plan.bind_ok.2 ⟨s, sc', hrun, rfl⟩⟩⟩,
    ⟨hg.constants, hg.globals, hg.locals, rfl⟩, hr,
    ⟨hsc'.constants, hsc'.globals, hsc'.known, hsc'.locals⟩, fun t ht => ?_⟩
  exact hs t ⟨ht.constants, ht.globals, ht.locals, ht.own, ht.functions⟩

end Rules.Plans

variable {r : Rules}

theorem plans_expression (hr : r.Sound) {declared : List String} {e : Expr}
    (h : r.Core declared e) :
    r.Plans declared declared (Plan.expression e) (fun t a => t.Codes e a) :=
  plans_expr hr h

theorem plans_branch {returns : Bool} {declared : List String} {condition : Expr} {body : List Stmt}
    {elifs : List (Expr × List Stmt)} {last : Option (List Stmt)}
    (hc : r.Plans declared declared (Plan.expression condition) (fun t a => t.Codes condition a))
    (hb : r.Plans declared (declared ++ declaredAll body) (Plan.statements body)
      (fun t a => t.CodesBody returns body a))
    (hm : r.Plans (declared ++ declaredAll body) (declared ++ declaredAll body ++ declaredElifs elifs)
      (Plan.elifClauses elifs) (fun t codes => t.CodesClauses returns elifs codes))
    (hl : r.Plans (declared ++ declaredAll body ++ declaredElifs elifs)
      (declared ++ declaredAll body ++ declaredElifs elifs ++ declaredAll (last.getD []))
      (Plan.statements (last.getD [])) (fun t a => t.CodesBody returns (last.getD []) a)) :
    r.Plans declared (declared ++ Meaning.declared (.branch condition body elifs last))
      (Plan.statement (.branch condition body elifs last))
      (fun t a => t.CodesStmt returns (.branch condition body elifs last) a) := by
  have hdeclared : declared ++ Meaning.declared (.branch condition body elifs last) =
      declared ++ declaredAll body ++ declaredElifs elifs ++ declaredAll (last.getD []) := by
    cases last <;> simp [Meaning.declared, declaredAll]
  have hplan : Plan.statement (.branch condition body elifs last) = (do
      let c ← Plan.expression condition
      let b ← Plan.statements body
      let more ← Plan.elifClauses elifs
      let l ← Plan.statements (last.getD [])
      if elifs.isEmpty && (last.getD []).isEmpty then return c.seq (.guarded b)
      else return .chain ((c, b) :: more) l) := by
    cases last <;> rfl
  rw [hdeclared, hplan]
  by_cases hempty : elifs.isEmpty && (last.getD []).isEmpty
  · simp only [if_pos hempty]
    refine (hc.next fun _ => hb.next fun _ => hm.next fun _ => hl.last).imp ?_
    rintro t _ ⟨a, ha, b, hb, _, -, _, -, rfl⟩
    obtain ⟨helifs, hnone⟩ := Bool.and_eq_true_iff.1 hempty
    rw [List.isEmpty_iff.1 helifs]
    exact .branch (.guarded ha hb (List.isEmpty_iff.1 hnone))
  · simp only [if_neg hempty]
    refine (hc.next fun _ => hb.next fun _ => hm.next fun _ => hl.last).imp ?_
    rintro t _ ⟨a, ha, b, hb, more, hmore, l, hl, rfl⟩
    exact .branch (.chain (.cons ha hb hmore) hl)

mutual

theorem plans_statement (hr : r.Sound) {returns : Bool} {declared : List String} : ∀ {s : Stmt},
    r.CoreStmt returns declared s →
    r.Plans declared (declared ++ Meaning.declared s) (Plan.statement s)
      (fun t a => t.CodesStmt returns s a)
  | .expression e, .expression h => by
    simp only [Meaning.declared, List.append_nil]
    refine ((plans_expression hr h).andThen (.op .pop)).imp ?_
    rintro t _ ⟨a, ha, _, rfl, rfl⟩
    exact .expression ha
  | .declare name (some e) hint, .declare h hname => by
    refine ((plans_expression hr h).andThen (.storeName hname)).imp ?_
    rintro t _ ⟨a, ha, b, hb, rfl⟩
    exact .declare ha hb
  | .assign name e, .assign h hname hdeclared => by
    simp only [Meaning.declared, List.append_nil]
    refine ((plans_expression hr h).andThen (.assignName hr hname hdeclared)).imp ?_
    rintro t _ ⟨a, ha, b, hb, rfl⟩
    exact .assign ha hb
  | .branch condition body elifs last, .branch (.cons h hbody hrest) hlast =>
    plans_branch (plans_expression hr h) (plans_body hr hbody) (plans_clauses hr hrest)
      (plans_body hr hlast)
  | .whileLoop condition body, .whileLoop h hbody => by
    rw [Meaning.declared]
    refine ((plans_expression hr h).next fun _ => (plans_body hr hbody).withLoop.last).imp ?_
    rintro t _ ⟨a, ha, b, hb, rfl⟩
    exact .whileLoop ha hb
  | .repeatLoop condition body, .repeatLoop hbody h => by
    refine ((plans_body hr hbody).andThen (plans_expression hr h)).into.imp ?_
    rintro t _ ⟨_, ⟨a, ha, b, hb, rfl⟩, rfl⟩
    exact .repeatLoop ha hb
  | .forLoop target iterable body, .forLoop h htarget hbody => by
    have hdeclared : declared ++ Meaning.declared (.forLoop target iterable body) =
        declared ++ [target] ++ declaredAll body := by
      simp [Meaning.declared]
    rw [hdeclared]
    refine ((plans_expression hr h).andThen ((Rules.Plans.op .getIter).andThen
      ((Rules.Plans.storeName htarget).andThen (plans_body hr hbody).withLoop).into)).imp ?_
    rintro t _ ⟨a, ha, _, ⟨_, rfl, _, ⟨_, ⟨b, hb, c, hc, rfl⟩, rfl⟩, rfl⟩, rfl⟩
    exact .forLoop ha hb hc
  | .returnValue (some e), .returnValue _ h _ => by
    simp only [Meaning.declared, List.append_nil]
    refine ((plans_expression hr (h e rfl)).andThen (.op .ret)).imp ?_
    rintro t _ ⟨a, ha, _, rfl, rfl⟩
    exact .returnValue ha
  | .returnValue none, .returnValue _ _ hnone => by
    simp only [Meaning.declared, List.append_nil]
    refine ((Rules.Plans.loadConst hr (hnone rfl)).andThen (.op .ret)).imp ?_
    rintro t _ ⟨_, ⟨i, hi, rfl⟩, _, rfl, rfl⟩
    exact .returnNothing hi

theorem plans_body (hr : r.Sound) {returns : Bool} {declared : List String} :
    ∀ {body : List Stmt}, r.CoreBody returns declared body →
    r.Plans declared (declared ++ declaredAll body) (Plan.statements body)
      (fun t a => t.CodesBody returns body a)
  | [], .nil => by
    simp only [declaredAll, List.append_nil]
    exact .value fun _ => .nil
  | s :: rest, .cons h hrest => by
    rw [declaredAll, ← List.append_assoc]
    refine ((plans_statement hr h).andThen (plans_body hr hrest)).imp ?_
    rintro t _ ⟨a, ha, b, hb, rfl⟩
    exact .cons ha hb

theorem plans_clauses (hr : r.Sound) {returns : Bool} {declared : List String} :
    ∀ {clauses : List (Expr × List Stmt)}, r.CoreClauses returns declared clauses →
    r.Plans declared (declared ++ declaredElifs clauses) (Plan.elifClauses clauses)
      (fun t codes => t.CodesClauses returns clauses codes)
  | [], .nil => by
    simp only [declaredElifs, List.append_nil]
    exact .value fun _ => .nil
  | (condition, body) :: rest, .cons h hbody hrest => by
    rw [declaredElifs, ← List.append_assoc]
    refine ((plans_expression hr h).next fun _ => (plans_body hr hbody).next fun _ =>
      (plans_clauses hr hrest).last).imp ?_
    rintro t _ ⟨a, ha, b, hb, more, hmore, rfl⟩
    exact .cons ha hb hmore

end

end StackScript.Meaning
