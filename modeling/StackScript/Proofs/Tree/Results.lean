import StackScript.Proofs.Computation
import StackScript.Proofs.Tree.Woven

/-!
# Results of readings

A reading takes formatted literals from the tokens only. `Yields` says of a reading that all its
results are of a kind, when it starts before tokens from which the pieces of formatted literals can
be read, and that it ends before such tokens; its rules follow the readings. What a reading is given
as fuel plays no part: a reading that lacks it has no result.
-/

namespace StackScript

namespace Reading

variable {α β : Type}

/-- The pieces of each formatted literal ahead can be read. -/
def Laced (t : Tape Token) : Prop := ∀ token ∈ t.rest, token.Woven

theorem Laced.advance {t : Tape Token} (h : Laced t) : Laced t.advance := by
  unfold Tape.advance
  cases hrest : t.rest with
  | nil => simp [Laced]
  | cons token rest => exact fun other hother => h other (hrest ▸ List.mem_cons_of_mem _ hother)

/-- On a laced tape, a reading that has a result has one of `Q`, and leaves a laced tape. -/
def Yields (Q : α → Prop) (x : Reading α) : Prop :=
  ∀ t a t', Laced t → x t = .ok a t' → Laced t' ∧ Q a

/-- Only the tape matters. -/
abbrev Passes (x : Reading α) : Prop := Yields (fun _ => True) x

/-- A reading of something that may be absent. -/
abbrev Offers (Q : α → Prop) (x : Reading (Option α)) : Prop := Yields (fun next => ∀ a ∈ next, Q a) x

/-- A reading of a statement. -/
abbrev States (x : Reading Stmt) : Prop := Yields (Stmt.Each Expr.Woven) x

namespace Yields

variable {Q Q' : α → Prop} {S : β → Prop} {x y : Reading α} {f : α → Reading β} {a : α} {b : Bool}
  {kinds : List TokenKind} {wanted : TokenKind}

theorem done (h : Q a) : Yields Q (pure a) := by
  intro t a t' ht hrun
  cases hrun
  exact ⟨ht, h⟩

theorem absent : Offers Q (pure none) := done nofun

theorem found (h : Q a) : Offers Q (pure (some a)) :=
  done fun b hb => by
    cases hb
    exact h

theorem failing {e : ParseError} : Yields Q (throw e) := fun _ _ _ _ hrun => nomatch hrun

theorem imp (h : Yields Q x) (hQ : ∀ a, Q a → Q' a) : Yields Q' x := fun t a t' ht hrun =>
  ⟨(h t a t' ht hrun).1, hQ a (h t a t' ht hrun).2⟩

/-- A reading and what follows: the results of the first are what the second starts from. -/
theorem bind (hx : Yields Q x) (hf : ∀ a, Q a → Yields S (f a)) : Yields S (x >>= f) := by
  intro t b t' ht hrun
  obtain ⟨a, t₁, hfirst, hrest⟩ := bind_eq_ok hrun
  obtain ⟨ht₁, ha⟩ := hx t a t₁ ht hfirst
  exact hf a ha t₁ b t' ht₁ hrest

theorem ite (hx : Yields Q x) (hy : Yields Q y) : Yields Q (if b then x else y) := by
  cases b
  · exact hy
  · exact hx

theorem discards (hx : Yields Q x) : Passes (discard x) :=
  bind hx fun _ _ => done trivial

theorem either {k : α → Reading β} (hx : Yields Q x) (hy : Yields Q y)
    (hk : ∀ a, Q a → Yields S (k a)) : Yields S (if b then x >>= k else y >>= k) :=
  ite (bind hx hk) (bind hy hk)

/-- A value that may be absent, and what is done with it. -/
theorem optional {k : Option α → Reading β} (hx : Yields Q x)
    (hk : ∀ found, (∀ a ∈ found, Q a) → Yields S (k found)) :
    Yields S (if b then x >>= fun a => pure (some a) >>= k else pure none >>= k) :=
  ite (bind hx fun _ ha => bind (found ha) hk) (hk none nofun)

/-! ## Looking at tokens -/

theorem current? : Yields (fun found => ∀ token ∈ found, token.Woven) Reading.current? := by
  intro t found t' ht hrun
  cases hrun
  exact ⟨ht, fun token htoken => ht token (List.mem_of_mem_head? htoken)⟩

theorem kind? : Passes Reading.kind? := bind current? fun _ _ => done trivial

theorem advance : Passes Reading.advance := by
  intro t found t' ht hrun
  cases hrun
  exact ⟨ht.advance, trivial⟩

theorem stepping {f : Unit → Reading α} (hf : Yields Q (f ())) : Yields Q (Reading.advance >>= f) :=
  bind advance fun _ _ => hf

theorem sees (kinds : List TokenKind) : Passes (Reading.sees kinds) := by
  refine bind kind? fun kind _ => ?_
  cases kind with
  | none => exact done trivial
  | some kind => exact done trivial

theorem take (note : String) : Passes (Reading.take wanted note) := by
  refine bind current? fun found _ => ?_
  cases found with
  | none => exact failing
  | some token =>
    dsimp only
    split
    · exact stepping (done trivial)
    · exact failing

theorem expect : Passes (Reading.expect wanted) := discards (take "")

theorem expecting {f : Unit → Reading β} (hf : Yields S (f ())) :
    Yields S (Reading.expect wanted >>= f) := bind expect fun _ _ => hf

theorem name : Passes Reading.name := bind (take "") fun _ _ => done trivial

theorem accept? : Passes (Reading.accept? kinds) := by
  refine bind current? fun found _ => ?_
  cases found with
  | none => exact done trivial
  | some token => exact ite (stepping (done trivial)) (done trivial)

theorem accepts : Passes (Reading.accepts kinds) :=
  bind accept? fun _ _ => done trivial

theorem taking {f : Option Token → Reading α} (hsome : ∀ token, Yields Q (f (some token)))
    (hnone : Yields Q (f none)) : Yields Q (Reading.accept? kinds >>= f) := by
  refine bind accept? fun found _ => ?_
  cases found with
  | none => exact hnone
  | some token => exact hsome token

theorem passing (hx : Yields Q x) (hy : Yields Q y) :
    Yields Q (Reading.accepts kinds >>= fun found => if found then x else y) :=
  bind accepts fun _ _ => ite hx hy

/-! ## Loops -/

theorem iterate_succ (m : Nat) (step : α → Reading (Option α)) (a : α) :
    iterate (m + 1) step a = step a >>= fun found =>
      match found with
      | some b => iterate m step b
      | none => pure a := by
  funext s
  show _ = EStateM.bind (step a) _ s
  rw [iterate, EStateM.bind]
  dsimp only
  cases step a s with
  | error e s => rfl
  | ok found s => cases found <;> rfl

/-- What each round of a loop keeps holds of its result. -/
theorem iterate {step : α → Reading (Option α)} {fuel : Nat}
    (hstep : ∀ a, Q a → Offers Q (step a)) (ha : Q a) :
    Yields Q (Reading.iterate fuel step a) := by
  induction fuel generalizing a with
  | zero => exact failing
  | succ fuel ih =>
    rw [iterate_succ]
    refine bind (hstep a ha) fun next hnext => ?_
    cases next with
    | none => exact done ha
    | some b => exact ih (hnext b rfl)

variable {fuel : Nat}

theorem many {item? : Reading (Option α)} (h : Offers Q item?) :
    Yields (fun items => ∀ a ∈ items, Q a) (Reading.many fuel item?) := by
  refine bind (iterate (Q := fun items => ∀ a ∈ items, Q a) (fun items hitems => ?_) nofun)
    fun items hitems => done (by simpa using hitems)
  refine bind h fun next hnext => done fun more hmore => ?_
  obtain ⟨a, ha, rfl⟩ := Option.map_eq_some_iff.1 hmore
  exact List.forall_mem_cons.2 ⟨hnext a ha, hitems⟩

theorem commaSeparated (h : Yields Q x) :
    Yields (fun items => ∀ a ∈ items, Q a) (Reading.commaSeparated fuel x) :=
  bind h fun _ hfirst => bind (many (Q := Q) (passing (bind h fun _ => found) absent))
    fun _ hmore => done (List.forall_mem_cons.2 ⟨hfirst, hmore⟩)

theorem afterCommas (h : Yields Q x) (close : TokenKind) :
    Yields (fun items => ∀ a ∈ items, Q a) (Reading.afterCommas fuel close x) :=
  many (passing (bind (sees _) fun _ _ => ite absent (bind h fun _ => found)) absent)

theorem skipLines : Passes (Reading.skipLines fuel) :=
  discards (many (Q := fun _ => True) (accept?.imp fun _ _ _ _ => trivial))

/-! ## Expressions -/

section Expressions

variable {expr : Reading Expr} (hexpr : Yields Expr.Woven expr)

theorem leftJoined {operand : Reading Expr} (h : Yields Expr.Woven operand)
    (operators : List TokenKind) :
    Yields Expr.Woven (Reading.leftJoined fuel operators operand) :=
  bind h fun _ he => iterate (fun _ hleft => taking
    (fun _ => bind h fun _ hright => found (.binary hleft hright)) absent) he

include hexpr

theorem lambda : Yields Expr.Woven (Reading.lambda fuel expr) := by
  refine expecting <| bind (sees _) fun _ _ => ?_
  refine either (done nofun) (commaSeparated name) fun _ _ => ?_
  exact expecting <| bind hexpr fun _ h => done (.lambda h)

theorem await : Yields Expr.Woven (Reading.await expr) :=
  expecting <| bind hexpr fun _ h => done (.await h)

theorem parenthesized : Yields Expr.Woven (Reading.parenthesized fuel expr) := by
  refine bind accepts fun _ _ => ite (done (.tuple nofun))
    (bind hexpr fun _ hfirst => bind (sees _) fun _ _ => ite ?_ ?_)
  · exact bind (afterCommas hexpr _) fun _ hmore =>
      expecting <| done (.tuple (List.forall_mem_cons.2 ⟨hfirst, hmore⟩))
  · exact expecting <| done hfirst

theorem bracketed : Yields Expr.Woven (Reading.bracketed fuel expr) := by
  refine bind accepts fun _ _ => ite (done (.list nofun))
    (bind hexpr fun _ hfirst => bind accepts fun _ _ => ite ?_ ?_)
  · refine bind name fun _ _ => expecting <| bind hexpr fun _ hiterable => ?_
    refine bind accepts fun _ _ => optional hexpr fun _ hcondition => ?_
    exact expecting <| done (.comprehension hfirst hiterable hcondition)
  · exact bind (afterCommas hexpr _) fun _ hmore =>
      expecting <| done (.list (List.forall_mem_cons.2 ⟨hfirst, hmore⟩))

theorem pair : Yields (fun entry => entry.1.Woven ∧ entry.2.Woven) (Reading.pair expr) :=
  bind hexpr fun _ hkey => expecting <| bind hexpr fun _ h => done ⟨hkey, h⟩

theorem braced : Yields Expr.Woven (Reading.braced fuel expr) := by
  refine bind accepts fun _ _ => ite (done (.dict nofun nofun))
    (bind (pair hexpr) fun first hfirst => ?_)
  refine bind (afterCommas (pair hexpr) _) fun more hmore => expecting <| done ?_
  have h : ∀ entry ∈ first :: more, entry.1.Woven ∧ entry.2.Woven :=
    List.forall_mem_cons.2 ⟨hfirst, hmore⟩
  exact .dict (fun entry he => (h entry he).1) fun entry he => (h entry he).2

theorem arguments : Yields (fun found => ∀ e ∈ found, e.Woven) (Reading.arguments fuel expr) := by
  refine bind (sees _) fun _ _ => ?_
  exact either (done nofun) (commaSeparated hexpr) fun _ h => expecting <| done h

theorem primary : Yields Expr.Woven (Reading.primary fuel expr) := by
  refine bind current? fun found hfound => ?_
  cases found with
  | none => exact failing
  | some token =>
    dsimp only
    split
    · exact lambda hexpr
    · exact expecting failing
    · exact await hexpr
    · split
      · rename_i hnumber
        exact stepping (done (.literal (scalar_numberOf hnumber)))
      · exact failing
    · exact stepping (done (.literal (.str _)))
    · rename_i hkind
      obtain ⟨pieces, htext⟩ := hfound token rfl hkind
      rw [htext, piecesOf_write]
      exact stepping (done .formatted)
    · exact stepping (done (.literal (.bool true)))
    · exact stepping (done (.literal (.bool false)))
    · exact stepping (done (.literal .null))
    iterate 6 exact stepping (done .name)
    · exact stepping (parenthesized hexpr)
    · exact stepping (bracketed hexpr)
    · exact stepping (braced hexpr)
    · exact failing

theorem suffix? {operand : Expr} (h : operand.Woven) :
    Offers Expr.Woven (Reading.suffix? fuel expr operand) := by
  refine bind kind? fun kind _ => ?_
  split
  · exact stepping (bind (arguments hexpr) fun _ ha => found (.call h ha))
  · exact stepping (bind name fun _ _ => found (.member h))
  · exact stepping (bind hexpr fun _ hi => expecting <| found (.index h hi))
  · exact absent

theorem postfixed : Yields Expr.Woven (Reading.postfixed fuel expr) :=
  bind (primary hexpr) fun _ h => iterate (fun _ h => suffix? hexpr h) h

theorem signed : Yields Expr.Woven (Reading.signed fuel expr) := by
  refine bind (many (Q := fun _ => True) (accept?.imp fun _ _ _ _ => trivial)) fun operators _ =>
    bind (postfixed hexpr) fun _ h => done ?_
  induction operators with
  | nil => exact h
  | cons token rest ih => exact .unary (ih fun _ _ => trivial)

theorem powers : Yields Expr.Woven (Reading.powers fuel expr) := by
  refine bind (signed hexpr) fun _ hfirst =>
    bind (many (Q := fun entry => entry.2.Woven) ?_) fun _ hmore =>
      done (Expr.woven_grouped hfirst hmore)
  exact taking (fun _ => bind (signed hexpr) fun _ h => found h) absent

theorem disjunctions : Yields Expr.Woven (Reading.disjunctions fuel expr) := by
  have products : Yields Expr.Woven (Reading.products fuel expr) := leftJoined (powers hexpr) _
  have sums : Yields Expr.Woven (Reading.sums fuel expr) := leftJoined products _
  have comparisons : Yields Expr.Woven (Reading.comparisons fuel expr) := leftJoined sums _
  have equalities : Yields Expr.Woven (Reading.equalities fuel expr) := leftJoined comparisons _
  exact leftJoined (leftJoined equalities _) _

end Expressions

theorem expressionN : ∀ n, Yields Expr.Woven (Reading.expressionN n)
  | 0 => failing
  | n + 1 => disjunctions (expressionN n)

/-! ## Statements -/

section Statements

variable {expr : Reading Expr} {stmt : Reading Stmt} (hexpr : Yields Expr.Woven expr)
  (hstmt : States stmt)

theorem hint : Passes Reading.hint := by
  refine bind current? fun found _ => ?_
  cases found with
  | none => exact failing
  | some token => exact ite (stepping (done trivial)) name

theorem parameter : Passes Reading.parameter := by
  have typed (word : String) : Passes (do
      if ← Reading.accepts [.colon] then discard Reading.hint
      return word) :=
    bind accepts fun _ _ => ite (bind (discards hint) fun _ _ => done trivial) (done trivial)
  exact taking (fun token => typed token.text) (bind name fun word _ => typed word)

theorem parameters {item : Reading String} (h : Passes item) :
    Passes (Reading.parameters fuel item) := by
  refine expecting <| bind (sees _) fun _ _ => ?_
  exact either (done nofun) (commaSeparated h) fun _ _ => expecting <| done trivial

theorem importRest (source : String) :
    States (Reading.importRest fuel source) := by
  refine bind (iterate (Q := fun _ => True) (fun state _ => ?_) trivial) fun _ _ => done trivial
  refine ite absent (passing ?_ absent)
  refine bind accepts fun _ _ => ite ?_ (bind name fun _ _ => found trivial)
  exact bind (commaSeparated name) fun _ _ => expecting <| found trivial

theorem importModule : States (Reading.importModule fuel) := by
  refine passing ?_ ?_
  · exact bind name fun _ _ => expecting <| bind (commaSeparated name) fun _ _ => done trivial
  · exact expecting <| bind name fun word _ => importRest word

theorem names {f : List String → Stmt} (hf : ∀ names, (f names).Each Expr.Woven) :
    States (do
      Reading.expect wanted
      return f (← Reading.commaSeparated fuel Reading.name)) :=
  expecting <| bind (commaSeparated name) fun names _ => done (hf names)

section Blocks

include hstmt

variable {skipped : List TokenKind}

theorem statementsUntil (stop : List TokenKind) :
    Yields (Stmt.EachOf Expr.Woven) (Reading.statementsUntil fuel stop skipped stmt) := by
  refine bind (iterate (Q := fun body => ∀ s ∈ body, s.Each Expr.Woven) (fun body hbody => ?_)
    nofun) fun body hbody => done (Stmt.eachOf_iff.2 (by simpa using hbody))
  refine bind (sees _) fun _ _ => ite absent (passing (found hbody) ?_)
  exact bind hstmt fun _ hs => bind skipLines fun _ _ =>
    found (List.forall_mem_cons.2 ⟨hs, hbody⟩)

theorem braceBlock : Yields (Stmt.EachOf Expr.Woven) (Reading.braceBlock fuel stmt) :=
  expecting <| bind skipLines fun _ _ => bind (discards accepts) fun _ _ =>
    bind (statementsUntil hstmt _) fun _ h => expecting <| done h

theorem indentedBody : Yields (Stmt.EachOf Expr.Woven) (Reading.indentedBody fuel skipped stmt) :=
  bind (statementsUntil hstmt _) fun _ h => bind (discards accepts) fun _ _ => done h

theorem colonBlock : Yields (Stmt.EachOf Expr.Woven) (Reading.colonBlock fuel skipped stmt) :=
  expecting <| bind skipLines fun _ _ => expecting <| indentedBody hstmt

theorem block : Yields (Stmt.EachOf Expr.Woven) (Reading.block fuel skipped stmt) :=
  bind (sees _) fun _ _ => ite (braceBlock hstmt) (colonBlock hstmt)

theorem function :
    Yields (fun found => Stmt.EachOf Expr.Woven found.2.2) (Reading.function fuel stmt) := by
  refine expecting <| bind name fun word _ => bind (parameters parameter) fun found _ => ?_
  have body : Yields (fun found => Stmt.EachOf Expr.Woven found.2.2) (do
      let body ← Reading.block fuel [.newline] stmt
      return (word, found, body)) :=
    bind (block hstmt) fun _ h => done h
  exact bind accepts fun _ _ => ite (bind (discards accepts) fun _ _ => body) body

theorem asyncFunction : States (Reading.asyncFunction fuel stmt) :=
  expecting <| expecting <| bind name fun _ _ => bind (parameters name) fun _ _ =>
    bind (block hstmt) fun _ _ => done trivial

theorem classDef : States (Reading.classDef fuel stmt) :=
  expecting <| bind name fun _ _ => bind (colonBlock hstmt) fun _ h => done h

theorem caseBody : Passes (Reading.caseBody fuel stmt) :=
  expecting <| bind skipLines fun _ _ => bind accepts fun _ _ =>
    ite ((indentedBody hstmt).imp fun _ _ => trivial) (done trivial)

theorem catchClause : Passes (Reading.catchClause fuel stmt) := by
  have body (type target : Option String) : Passes (do
      return (type, target, ← Reading.braceBlock fuel stmt)) :=
    bind (braceBlock hstmt) fun _ _ => done trivial
  refine expecting <| taking (fun token => ?_) (body none none)
  refine bind accepts fun _ _ => ite ?_ (body none (some token.text))
  exact bind name fun word _ => body (some token.text) (some word)

theorem tryBlock : States (Reading.tryBlock fuel stmt) := by
  refine expecting <| bind (braceBlock hstmt) fun body _ => ?_
  refine bind (many (Q := fun _ => True) ?_) fun catches _ => ?_
  · exact bind (sees _) fun _ _ => ite (bind (catchClause hstmt) fun _ h => found h) absent
  · refine bind accepts fun _ _ => optional (braceBlock hstmt) fun last _ => ?_
    exact ite (bind (Q := fun _ => True) failing fun _ _ => done trivial) (done trivial)

end Blocks

section Expressions

include hexpr

theorem declaration : States (Reading.declaration expr) :=
  expecting <| bind name fun _ _ => bind accepts fun _ _ => optional hint fun _ _ =>
    bind accepts fun _ _ => optional hexpr fun _ h => done h

theorem returnValue : States (Reading.returnValue expr) := by
  refine expecting <| bind (sees _) fun _ _ => ite (done ?_)
    (bind hexpr fun _ h => done fun e he => ?_)
  · exact fun e he => nomatch he
  · cases he
    exact h

theorem assertion : States (Reading.assertion expr) :=
  expecting <| bind hexpr fun _ _ => bind accepts fun _ _ => optional hexpr fun _ _ => done trivial

theorem throwValue : States (Reading.throwValue expr) :=
  expecting <| bind hexpr fun _ _ => done trivial

theorem deletion : States (Reading.deletion fuel expr) :=
  expecting <| bind (commaSeparated hexpr) fun _ _ => done trivial

theorem expressionOrAssignment :
    States (Reading.expressionOrAssignment fuel expr) := by
  refine bind (postfixed hexpr) fun target htarget => bind accepts fun _ _ => ?_
  refine ite (bind hexpr fun assigned hassigned => ?_) (done htarget)
  cases htarget with
  | name => exact done hassigned
  | member hobject => exact done ⟨hobject, hassigned⟩
  | index hobject hindex => exact done ⟨hobject, hindex, hassigned⟩
  | _ => exact failing

include hstmt

theorem decorated : States (Reading.decorated fuel expr stmt) := by
  refine bind (many (Q := fun _ => True) (passing ?_ absent)) fun _ _ =>
    bind (function hstmt) fun _ _ => done trivial
  refine bind name fun _ _ => bind accepts fun _ _ => ?_
  exact either (arguments hexpr) (done nofun) fun _ _ => bind skipLines fun _ _ => found trivial

theorem nextCase? (cases : Cases) :
    Offers (fun _ => True) (Reading.nextCase? fuel expr stmt cases) := by
  refine ite absent (bind kind? fun kind _ => ?_)
  split
  · exact absent
  · exact absent
  · exact stepping (found trivial)
  · exact stepping (found trivial)
  · exact stepping (bind hexpr fun _ _ => bind (caseBody hstmt) fun _ _ => found trivial)
  · exact stepping (bind (caseBody hstmt) fun _ _ => found trivial)
  · exact failing

theorem switch : States (Reading.switch fuel expr stmt) := by
  refine expecting <| bind hexpr fun _ _ => expecting <| bind skipLines fun _ _ => expecting ?_
  refine bind (iterate (fun cases _ => nextCase? hexpr hstmt cases) trivial) fun _ _ => ?_
  exact bind (discards accepts) fun _ _ => done trivial

theorem branch : States (Reading.branch fuel expr stmt) := by
  refine expecting <| bind hexpr fun _ hcondition => bind (block hstmt) fun _ hbody => ?_
  refine bind (many (Q := fun clause => clause.1.Woven ∧ Stmt.EachOf Expr.Woven clause.2)
    (passing ?_ absent)) fun elifs helifs => ?_
  · exact bind hexpr fun _ hc => bind (block hstmt) fun _ hb => found ⟨hc, hb⟩
  refine bind accepts fun _ _ => optional (block hstmt) fun last hlast => done ?_
  have helse := Stmt.eachElif_iff.2 helifs
  cases last with
  | none => exact ⟨hcondition, hbody, helse, trivial⟩
  | some lastBody => exact ⟨hcondition, hbody, helse, hlast lastBody rfl⟩

theorem forLoop : States (Reading.forLoop fuel expr stmt) :=
  expecting <| bind name fun _ _ => expecting <| bind hexpr fun _ he =>
    bind (block hstmt) fun _ hb => done ⟨he, hb⟩

theorem whileLoop : States (Reading.whileLoop fuel expr stmt) :=
  expecting <| bind hexpr fun _ he => bind (block hstmt) fun _ hb => done ⟨he, hb⟩

theorem repeatLoop : States (Reading.repeatLoop fuel expr stmt) :=
  expecting <| bind (colonBlock hstmt) fun _ hb => expecting <| bind hexpr fun _ he =>
    done ⟨he, hb⟩

theorem withBlock : States (Reading.withBlock fuel expr stmt) :=
  expecting <| bind hexpr fun _ _ => bind accepts fun _ _ => optional name fun _ _ =>
    bind (block hstmt) fun _ _ => done trivial

theorem statementWith : States (Reading.statementWith fuel expr stmt) := by
  refine bind kind? fun kind _ => ?_
  split
  · exact decorated hexpr hstmt
  · exact asyncFunction hstmt
  · exact bind (function hstmt) fun found h =>
      done (a := Stmt.function found.1 found.2.1 found.2.2) h
  · exact declaration hexpr
  · exact classDef hstmt
  · exact branch hexpr hstmt
  · exact forLoop hexpr hstmt
  · exact whileLoop hexpr hstmt
  · exact repeatLoop hexpr hstmt
  · exact switch hexpr hstmt
  · exact withBlock hexpr hstmt
  · exact importModule
  · exact importModule
  · exact returnValue hexpr
  · exact stepping (done trivial)
  · exact stepping (done trivial)
  · exact names (f := .globals) fun _ => trivial
  · exact names (f := .nonlocals) fun _ => trivial
  · exact assertion hexpr
  · exact deletion hexpr
  · exact stepping (done trivial)
  · exact tryBlock hstmt
  · exact throwValue hexpr
  · exact expressionOrAssignment hexpr

end Expressions

end Statements

theorem statementN : ∀ n, States (Reading.statementN n)
  | 0 => failing
  | n + 1 => statementWith (expressionN (n + 1)) (statementN n)

theorem programWith {stmt : Reading Stmt} (hstmt : States stmt) :
    Yields (Stmt.EachOf Expr.Woven) (Reading.programWith fuel stmt) := by
  refine bind skipLines fun _ _ => bind (iterate
    (Q := fun body => ∀ s ∈ body, s.Each Expr.Woven) (fun body hbody => ?_) nofun)
    fun body hbody => done (Stmt.eachOf_iff.2 (by simpa using hbody))
  refine bind kind? fun kind _ => ?_
  split
  · exact absent
  · exact absent
  · exact stepping (found hbody)
  · exact stepping (found hbody)
  · exact bind hstmt fun _ hs => bind skipLines fun _ _ =>
      found (List.forall_mem_cons.2 ⟨hs, hbody⟩)

theorem fueled {f : Nat → Reading α} (h : ∀ n, Yields Q (f n)) : Yields Q (Reading.fuel >>= f) := by
  intro t a t' ht hrun
  exact h _ t a t' ht hrun

end Yields

theorem yields_expression : Yields Expr.Woven expression :=
  .fueled fun n => .disjunctions (.expressionN n)

theorem yields_program : Yields (Stmt.EachOf Expr.Woven) program :=
  .fueled fun n => .programWith (.statementN n)

end Reading

variable {source : String} {tokens : List Token}

theorem Reading.laced_of_scan (h : Token.scan source = .ok tokens) :
    Reading.Laced (Tape.ofList tokens) := Token.woven_scan h

/-- The formatted literals of a program that was read from a text are lists of pieces. -/
theorem Program.each_ofTokens {p : Program}
    (hscan : Token.scan source = .ok tokens) (hp : Program.ofTokens tokens = .ok p) :
    Stmt.EachOf Expr.Woven p := by
  unfold Program.ofTokens at hp
  split at hp
  · rename_i hrun
    cases hp
    exact (Reading.yields_program _ _ _ (Reading.laced_of_scan hscan) hrun).2
  · cases hp

end StackScript
