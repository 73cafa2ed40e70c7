import StackScript.Proofs.Code.Tidy

/-!
# Compiled programs are well formed

Whatever plain program is read from a text, the code that is generated for it is well formed: the
stack has one depth at each instruction, on every way to it, and every operand names something that
is there.

The operand of a method call holds two numbers, the arguments above sixteen bits for the name. Both
can be read back from it as long as the pool has no more names than sixteen bits count. For larger
pools the code is well formed with respect to the numbers that were put in.
-/

namespace StackScript

theorem MethodCoding.unpacked_of_packed {operand : Datum} {n k : Nat}
    (h : packed operand n k) (hk : k < 65536) : unpacked operand n k := by
  have hor : n <<< 16 ||| k = n * 65536 + k := by
    rw [← Nat.shiftLeft_add_eq_or_of_lt (i := 16) (by omega), Nat.shiftLeft_eq]
  refine ⟨_, h, ?_, ?_⟩
  · rw [hor, Nat.shiftRight_eq_div_pow]
    omega
  · rw [hor, show (0xFFFF : Nat) = 2 ^ 16 - 1 by rfl, Nat.and_two_pow_sub_one_eq_mod]
    omega

/-- Sixteen bits are enough for the names of a pool of that size. -/
theorem CodeUnit.WellFormed.unpacked {u : CodeUnit} (h : u.WellFormed .packed)
    (hsize : u.constants.length ≤ 65536) : u.WellFormed .unpacked := by
  have hm : ∀ operand n k, MethodCoding.packed operand n k → k < u.constants.length →
      MethodCoding.unpacked operand n k :=
    fun _ _ _ hp hk => MethodCoding.unpacked_of_packed hp (by omega)
  exact ⟨h.main.recode hm, fun r hr => (h.routines r hr).recode hm⟩

/-- A plain expression that was read obeys where there are no rules. -/
theorem Expr.Plain.tidy {e : Expr} (h : e.Plain) (hw : e.Woven) : ∀ b, e.Tidy .none b := by
  induction h with
  | literal => exact fun _ => .literal
  | @formatted pieces hne _ ih =>
    cases hw with
    | @formatted pieces =>
      refine fun _ => .formatted (fun h => hne (h ▸ rfl)) fun source hmem e he => ?_
      exact ih _ source rfl (List.mem_map_of_mem hmem) e he (Gen.woven_expressionOf he) _
  | name => exact fun _ => .name
  | binary _ _ ihl ihr =>
    cases hw with
    | binary hl hr => exact fun b => .binary (ihl hl b) (ihr hr _)
  | unary _ ih =>
    cases hw with
    | unary hw => exact fun b => .unary (ih hw _)
  | call _ _ ihf iha =>
    cases hw with
    | call hf ha =>
      exact fun b => .call trivial (fun _ _ _ => trivial) (ihf hf b) fun a h => iha a h (ha a h) _
  | member _ ih =>
    cases hw with
    | member hw => exact fun b => .member trivial (ih hw b)
  | index _ _ iho ihi =>
    cases hw with
    | index ho hi => exact fun b => .index (iho ho b) (ihi hi _)
  | list _ ih =>
    cases hw with
    | list hw => exact fun _ => .list fun e he => ih e he (hw e he) _
  | tuple _ ih =>
    cases hw with
    | tuple hw => exact fun _ => .tuple fun e he => ih e he (hw e he) _
  | dict _ _ ihk ihv =>
    cases hw with
    | dict hk hv =>
      exact fun _ => .dict (fun e he => ihk e he (hk e he) _) fun e he => ihv e he (hv e he) _
  | comprehension _ _ _ ihe ihi ihc =>
    cases hw with
    | comprehension he hi hc =>
      exact fun _ => .comprehension trivial (ihe he _) (ihi hi _) fun c h => ihc c h (hc c h) _

/-- The strict plans of plain statements that were read rise. -/
theorem Stmt.level_plain : Stmt.Level true (fun _ => .none)
    fun inFunction inWhile _ s => s.Plain Expr.Plain inFunction inWhile ∧ s.Each Expr.Woven where
  expression := fun ⟨h, hw⟩ => ⟨h.tidy hw _, trivial⟩
  declare := fun ⟨h, hw⟩ e he => (h e he).tidy (hw e he) _
  assign := fun ⟨h, hw⟩ => h.tidy hw _
  assignMember := fun ⟨h, hw⟩ => ⟨trivial, h.1.tidy hw.1 _, h.2.tidy hw.2 _⟩
  assignIndex := fun ⟨h, hw⟩ => ⟨h.1.tidy hw.1 _, h.2.1.tidy hw.2.1 _, h.2.2.tidy hw.2.2 _⟩
  function := fun ⟨h, hw⟩ => ⟨fun _ => h.1, fun s hs => ⟨h.2.mem s hs, eachOf_iff.1 hw s hs⟩⟩
  classDef := by
    refine fun ⟨h, hw⟩ => ⟨trivial, fun _ _ _ hmem => ?_⟩
    obtain ⟨hparameters, hinside⟩ := MethodsPlain.function h hmem
    have heach := eachOf_iff.1 hw _ hmem
    exact ⟨fun _ => hparameters, fun s hs => ⟨hinside.mem s hs, eachOf_iff.1 heach s hs⟩⟩
  branch {_ _ _ _ _ _ last} := by
    rintro ⟨h, hw⟩
    obtain ⟨hcondition, hbody, helifs, hlast⟩ := Stmt.Plain.eq_def .. ▸ h
    obtain ⟨hwcondition, hwbody, hwelifs, hwlast⟩ := Stmt.Each.eq_def .. ▸ hw
    refine ⟨hcondition.tidy hwcondition _, fun s hs => ⟨hbody.mem s hs, eachOf_iff.1 hwbody s hs⟩,
      fun clause hmem => ?_, ?_⟩
    · obtain ⟨hcondition, hbody⟩ := helifs.mem clause hmem
      obtain ⟨hwcondition, hwbody⟩ := eachElif_iff.1 hwelifs clause hmem
      exact ⟨hcondition.tidy hwcondition _, fun s hs => ⟨hbody.mem s hs, eachOf_iff.1 hwbody s hs⟩⟩
    · cases last with
      | none => exact nofun
      | some body => exact fun s hs => ⟨AllPlain.mem hlast s hs, eachOf_iff.1 hwlast s hs⟩
  forLoop := fun ⟨h, hw⟩ =>
    ⟨trivial, h.1.tidy hw.1 _, fun s hs => ⟨h.2.mem s hs, eachOf_iff.1 hw.2 s hs⟩⟩
  whileLoop := fun ⟨h, hw⟩ =>
    ⟨h.1.tidy hw.1 _, fun s hs => ⟨h.2.mem s hs, eachOf_iff.1 hw.2 s hs⟩⟩
  repeatLoop := fun ⟨h, hw⟩ =>
    ⟨h.1.tidy hw.1 _, fun s hs => ⟨h.2.mem s hs, eachOf_iff.1 hw.2 s hs⟩⟩
  importModule _ := ⟨trivial, .inr rfl⟩
  returnValue := fun ⟨h, hw⟩ => ⟨trivial, fun e he => (h.2 e he).tidy (hw e he) _⟩
  leaving := Or.rec (·.1) (·.1)
  flat := fun ⟨h, _⟩ =>
    ⟨fun _ _ _ hs => (hs ▸ h).elim, fun _ _ _ hs => (hs ▸ h).elim, fun _ hs => (hs ▸ h).elim⟩

/-- The planned code of a plain program that was read is well formed. -/
theorem Program.Plain.wellFormed {p : Program} (hp : p.Plain) (hw : Stmt.EachOf Expr.Woven p)
    {shape : Shape} {sc : Scope} (h : Plan.program p = .ok (shape, sc)) :
    (shape.unit sc).WellFormed .packed := by
  obtain ⟨hg, hrest⟩ := Stmt.level_plain.rises_all trivial (f := false) (b := true) p
    (fun s hs => ⟨Stmt.AllPlain.mem hp s hs, Stmt.eachOf_iff.1 hw s hs⟩) {} rfl shape sc h
  obtain ⟨hproper, hplaces⟩ := hrest ⟨fun _ => .nil, nofun, nofun⟩
  have hnone : sc.locals = none := by
    rcases hg.locals with ⟨-, h⟩ | ⟨_, _, h, -, -⟩
    · exact h
    · cases h
  have hunder : sc.Under true (some ⟨sc.constants.toList, sc.globals.length, none⟩) := by
    refine ⟨rfl, ?_⟩
    rintro _ ⟨⟩
    refine ⟨List.prefix_refl _, Nat.le_refl _, fun slots hslots => ?_⟩
    rw [hnone] at hslots
    cases hslots
  exact ⟨(hplaces _ hunder 0 fun _ => rfl).paced_halt.wellFormed,
    fun r hr => (hproper.routines _ rfl r hr).wellFormed⟩

/-- The code of a plain program is well formed. -/
theorem wellFormed_compile {source : String} {tokens : List Token} {p : Program} {c : Compiled}
    (hscan : Token.scan source = .ok tokens) (hread : Program.ofTokens tokens = .ok p)
    (hplain : p.Plain) (hcompile : p.compile = .ok c) :
    c.unit.WellFormed .packed ∧
      (c.unit.constants.length ≤ 65536 → c.unit.WellFormed .unpacked) := by
  obtain ⟨shape, sc, hplan, hunit, -⟩ := compile_eq_ok hcompile
  have h : c.unit.WellFormed .packed := by
    rw [hunit]
    exact hplain.wellFormed (Program.each_ofTokens hscan hread) hplan
  exact ⟨h, h.unpacked⟩

/-- A function that calls a method of its argument. -/
def Program.methodCall : Program :=
  [.function "f" ["x"] [.returnValue (some
    (.call (.member (.name "x") "g") [.literal (.bool true)]))]]

theorem Program.plain_methodCall : Program.methodCall.Plain := by
  refine ⟨⟨by simp, ⟨rfl, ?_⟩, trivial⟩, trivial⟩
  intro e he
  cases he
  exact .call (.member .name) (by simp [Expr.Plain.literal])

theorem wellFormed_compile_methodCall : ∃ tokens c,
    Token.scan "func f(x):\n    return x.g(True)\n" = .ok tokens ∧
      Program.ofTokens tokens = .ok .methodCall ∧ Program.methodCall.Plain ∧
      Program.methodCall.compile = .ok c ∧ c.unit.WellFormed .packed ∧
      (c.unit.constants.length ≤ 65536 → c.unit.WellFormed .unpacked) := by
  have htokens : (Token.scan "func f(x):\n    return x.g(True)\n").toOption =
      some [⟨.kwFunc, "func", 1, 1⟩, ⟨.name, "f", 1, 6⟩, ⟨.lparen, "(", 1, 7⟩, ⟨.name, "x", 1, 8⟩,
        ⟨.rparen, ")", 1, 9⟩, ⟨.colon, ":", 1, 10⟩, ⟨.newline, "\n", 1, 11⟩, ⟨.indent, "", 2, 1⟩,
        ⟨.kwReturn, "return", 2, 5⟩, ⟨.name, "x", 2, 12⟩, ⟨.dot, ".", 2, 13⟩, ⟨.name, "g", 2, 14⟩,
        ⟨.lparen, "(", 2, 15⟩, ⟨.kwTrue, "True", 2, 16⟩, ⟨.rparen, ")", 2, 20⟩,
        ⟨.newline, "\n", 2, 21⟩, ⟨.dedent, "", 3, 1⟩, ⟨.eof, "", 3, 1⟩] := by
    decide +kernel
  have hcompiled : Program.methodCall.compile.toBool = true := by decide +kernel
  cases hscan : Token.scan "func f(x):\n    return x.g(True)\n" with
  | error e =>
    rw [hscan] at htokens
    cases htokens
  | ok tokens =>
    cases hcompile : Program.methodCall.compile with
    | error e =>
      rw [hcompile] at hcompiled
      cases hcompiled
    | ok c =>
      have hread : Program.ofTokens tokens = .ok .methodCall := by
        rw [hscan] at htokens
        cases htokens
        rfl
      exact ⟨tokens, c, rfl, hread, Program.plain_methodCall, rfl,
        wellFormed_compile hscan hread Program.plain_methodCall hcompile⟩

end StackScript
