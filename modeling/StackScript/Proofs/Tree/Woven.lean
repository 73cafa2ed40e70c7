import StackScript.Proofs.Datum.RoundTrip
import StackScript.Proofs.Token.Indentation
import StackScript.Tree.Statement

/-!
# Formatted literals in trees

The scanner writes the pieces of a formatted literal into the text of a token, and a reading takes them
from there. So the pieces in a tree are those that the scanner found: each is a text or the source of an
expression.
-/

namespace StackScript

open Scanner (Piece)

/-! ## Trees -/

/-- A datum without parts. -/
inductive Datum.Scalar : Datum → Prop
  | null : Scalar .null
  | bool (b : Bool) : Scalar (.bool b)
  | int (i : Int) : Scalar (.int i)
  | float (x : Float) : Scalar (.float x)
  | str (s : String) : Scalar (.str s)

/-- An expression whose formatted literals are lists of pieces. -/
inductive Expr.Woven : Expr → Prop
  | literal {d : Datum} (h : d.Scalar) : Woven (.literal d)
  | formatted {pieces : List Piece} : Woven (.formatted (.list (pieces.map Piece.datum)))
  | name {word : String} : Woven (.name word)
  | binary {left right : Expr} {operator : String} (hl : Woven left) (hr : Woven right) :
      Woven (.binary left operator right)
  | unary {operand : Expr} {operator : String} (h : Woven operand) : Woven (.unary operator operand)
  | call {function : Expr} {arguments : List Expr} (hf : Woven function)
      (ha : ∀ a ∈ arguments, Woven a) : Woven (.call function arguments)
  | member {object : Expr} {word : String} (h : Woven object) : Woven (.member object word)
  | index {object index : Expr} (ho : Woven object) (hi : Woven index) : Woven (.index object index)
  | list {elements : List Expr} (h : ∀ e ∈ elements, Woven e) : Woven (.list elements)
  | tuple {elements : List Expr} (h : ∀ e ∈ elements, Woven e) : Woven (.tuple elements)
  | dict {pairs : List (Expr × Expr)} (hk : ∀ entry ∈ pairs, Woven entry.1)
      (hv : ∀ entry ∈ pairs, Woven entry.2) : Woven (.dict pairs)
  | comprehension {element iterable : Expr} {target : String} {condition : Option Expr}
      (he : Woven element) (hi : Woven iterable) (hc : ∀ c ∈ condition, Woven c) :
      Woven (.comprehension element target iterable condition)
  | lambda {parameters : List String} {body : Expr} (h : Woven body) :
      Woven (.lambda parameters body)
  | await {operand : Expr} (h : Woven operand) : Woven (.await operand)

mutual

/-- Every expression of a statement is of a kind, also in its blocks. Statements that have no code,
or none that leaves the stack as it was, are left aside. -/
def Stmt.Each (ok : Expr → Prop) : Stmt → Prop
  | .expression e => ok e
  | .declare _ value _ => ∀ e ∈ value, ok e
  | .assign _ value => ok value
  | .assignMember object _ value => ok object ∧ ok value
  | .assignIndex object index value => ok object ∧ ok index ∧ ok value
  | .function _ _ body | .classDef _ body => Stmt.EachOf ok body
  | .branch condition thenBody elifs elseBody =>
    ok condition ∧ Stmt.EachOf ok thenBody ∧ Stmt.EachElif ok elifs ∧
      (match elseBody with
      | some body => Stmt.EachOf ok body
      | none => True)
  | .forLoop _ e body | .whileLoop e body | .repeatLoop e body => ok e ∧ Stmt.EachOf ok body
  | .returnValue value => ∀ e ∈ value, ok e
  | _ => True

/-- Every expression of statements is of a kind. -/
def Stmt.EachOf (ok : Expr → Prop) : List Stmt → Prop
  | [] => True
  | s :: rest => s.Each ok ∧ Stmt.EachOf ok rest

/-- Every expression of further alternatives is of a kind. -/
def Stmt.EachElif (ok : Expr → Prop) : List (Expr × List Stmt) → Prop
  | [] => True
  | (condition, body) :: rest => ok condition ∧ Stmt.EachOf ok body ∧ Stmt.EachElif ok rest

end

variable {ok : Expr → Prop}

theorem Stmt.eachOf_iff {body : List Stmt} : Stmt.EachOf ok body ↔ ∀ s ∈ body, s.Each ok := by
  induction body with
  | nil => simp [Stmt.EachOf]
  | cons s rest ih => simp [Stmt.EachOf, ih]

theorem Stmt.eachElif_iff {elifs : List (Expr × List Stmt)} :
    Stmt.EachElif ok elifs ↔ ∀ clause ∈ elifs, ok clause.1 ∧ Stmt.EachOf ok clause.2 := by
  induction elifs with
  | nil => simp [Stmt.EachElif]
  | cons clause rest ih => simp [Stmt.EachElif, ih, and_assoc]

/-! ## Readings -/

/-- A token from which pieces can be read, if it is a formatted literal. -/
def Token.Woven (token : Token) : Prop :=
  token.kind = .formatted →
    ∃ pieces : List Piece, token.text = (Datum.list (pieces.map Piece.datum)).write

theorem Scanner.Piece.storable (piece : Piece) : piece.datum.Storable := by
  have h : ∀ kind text, Datum.Storable (.dict
      ([("type", Datum.str kind), ("value", .str text)].map fun f => (.str f.1, f.2))) := by
    intro kind text
    exact .dict (by simp) (by simp [Datum.Storable.str])
  cases piece with
  | text s => exact h "text" s
  | hole s => exact h "expression" s

theorem Reading.piecesOf_write (pieces : List Piece) :
    Reading.piecesOf (Datum.list (pieces.map Piece.datum)).write =
      .ok (.list (pieces.map Piece.datum)) := by
  have h : (Datum.list (pieces.map Piece.datum)).Storable := by
    refine .list fun d hd => ?_
    obtain ⟨piece, -, rfl⟩ := List.mem_map.1 hd
    exact piece.storable
  rw [piecesOf, h.read_write]
  rfl

theorem Reading.scalar_numberOf {text : String} {d : Datum} (h : numberOf text = .ok d) :
    d.Scalar := by
  unfold numberOf at h
  split at h
  · split at h <;> cases h
    exact .float _
  · split at h <;> cases h
    exact .int _

theorem Expr.woven_grouped {left : Expr} (hleft : left.Woven) {more : List (String × Expr)}
    (h : ∀ entry ∈ more, entry.2.Woven) : (Reading.powers.grouped left more).Woven := by
  induction more generalizing left with
  | nil => exact hleft
  | cons entry rest ih =>
    obtain ⟨hentry, hrest⟩ := List.forall_mem_cons.1 h
    exact .binary hleft (ih hentry hrest)

/-! ## Tokens -/

theorem TokenKind.ofWord_ne_formatted (word : String) : ofWord word ≠ .formatted := by
  intro h
  cases hfind : keywords.find? fun entry => entry.1 == word with
  | none => simp [ofWord, hfind] at h
  | some entry =>
    have hkinds : ∀ entry ∈ keywords, entry.2 ≠ .formatted := by decide
    refine hkinds entry (List.mem_of_find?_eq_some hfind) ?_
    simpa [ofWord, hfind] using h

namespace Scanner

variable {s after : Scanner} {token : Token} {c : Char}

theorem woven_readMark? (h : s.readMark? = some (token, after)) : token.Woven := by
  obtain ⟨mark, hfind, heq⟩ := Option.map_eq_some_iff.1 h
  cases heq
  have hmarks : ∀ mark ∈ TokenKind.marks, mark.2 ≠ .formatted := by decide
  exact fun hkind => absurd hkind (hmarks mark (List.mem_of_find?_eq_some hfind))

theorem woven_readToken (h : s.readToken c = .ok (token, after)) : token.Woven := by
  unfold readToken at h
  split at h
  · cases h
    exact fun hkind => nomatch hkind
  split at h
  · cases h
    exact fun hkind => nomatch hkind
  split at h
  · cases h
    exact fun hkind => nomatch hkind
  split at h
  · cases h
    exact fun _ => ⟨_, rfl⟩
  split at h
  · cases h
    exact fun hkind => absurd hkind (TokenKind.ofWord_ne_formatted _)
  split at h
  · rename_i hmark
    cases h
    exact woven_readMark? hmark
  · cases h

theorem woven_indentTo {width : Nat} : ∀ token ∈ (s.indentTo width).1, token.Woven := by
  unfold indentTo
  dsimp only
  split
  · simp [Token.Woven]
  · intro token htoken
    obtain ⟨_, -, rfl⟩ := List.mem_map.1 htoken
    exact fun hkind => nomatch hkind

theorem woven_round {lineStart : Bool} {next : Round}
    (h : s.round lineStart c = .ok next) : ∀ token ∈ next.tokens, token.Woven := by
  rcases round_cases h with ⟨-, rfl⟩ | ⟨-, rfl⟩ | ⟨-, rfl⟩ | ⟨-, t, after, hread, rfl⟩
  · simp [Token.Woven, tokenAt]
  · unfold startLine
    dsimp only
    split
    · split
      · simp
      · exact woven_indentTo
    · simp
  · simp
  · simpa using woven_readToken hread

theorem woven_finish : ∀ token ∈ s.finish.1, token.Woven := by
  intro token htoken
  rcases List.mem_append.1 htoken with hclosed | hend
  · obtain ⟨_, -, rfl⟩ := List.mem_map.1 hclosed
    exact fun hkind => nomatch hkind
  · obtain rfl := List.mem_singleton.1 hend
    exact fun hkind => nomatch hkind

theorem woven_scanFrom (fuel : Nat) (lineStart : Bool) (found : List Token) (s : Scanner)
    (hfound : ∀ token ∈ found, token.Woven) {tokens : List Token}
    (h : (s.scanFrom fuel lineStart found).1 = .ok tokens) : ∀ token ∈ tokens, token.Woven := by
  fun_induction scanFrom fuel lineStart found s with
  | case1 => cases h
  | case2 lineStart found s fuel c hc next hround ih =>
    refine ih ?_ h
    intro token htoken
    rcases List.mem_append.1 htoken with hnew | hold
    · exact woven_round hround token (List.mem_reverse.1 hnew)
    · exact hfound token hold
  | case3 _ _ found s closing after hfinish =>
    cases h
    have hclosing := woven_finish (s := s)
    rw [hfinish] at hclosing
    intro token htoken
    rcases List.mem_append.1 htoken with hold | hnew
    · exact hfound token (List.mem_reverse.1 hold)
    · exact hclosing token hnew

end Scanner

theorem Token.woven_scan {source : String} {tokens : List Token}
    (h : Token.scan source = .ok tokens) : ∀ token ∈ tokens, token.Woven :=
  Scanner.woven_scanFrom _ _ [] _ (by simp) h

end StackScript
