import StackScript.Proofs.Code.Height

/-!
# Blocks of code and the heights around them

Code is put together from blocks. If all blocks can be given heights that obey some rules, so can
the code that is laid out from them.
-/

namespace StackScript

variable {rules : Rules} {limits : Option Limits}

/-! ## Blocks -/

/-- The instructions of a block that starts at `n` obey. -/
def Climbs.Block (rules : Rules) (limits : Option Limits) (lo hi : Nat) (height : Nat → Nat)
    (n : Nat) (block : List Instruction) : Prop :=
  ∀ k i, block[k]? = some i → Climbs rules limits lo hi height (instructionBefore block k) (n + k) i

namespace Climbs.Block

variable {lo hi lo' hi' n : Nat} {height height' : Nat → Nat} {a b : List Instruction}
  {i : Instruction}

theorem single (h : Climbs rules limits lo hi height none n i) :
    Block rules limits lo hi height n [i] := by
  intro k j hk
  cases k with
  | zero =>
    cases hk
    exact h
  | succ k => simp at hk

theorem append (ha : Block rules limits lo hi height n a)
    (hb : Block rules limits lo hi height (n + a.length) b) :
    Block rules limits lo hi height n (a ++ b) := by
  intro k i hk
  by_cases hlt : k < a.length
  · rw [List.getElem?_append_left hlt] at hk
    have hbefore : instructionBefore (a ++ b) k = instructionBefore a k := by
      cases k with
      | zero => rfl
      | succ k => exact List.getElem?_append_left (by omega)
    exact hbefore ▸ ha k i hk
  · obtain ⟨j, rfl⟩ := Nat.exists_eq_add_of_le (Nat.le_of_not_lt hlt)
    rw [List.getElem?_append_right (by omega), Nat.add_sub_cancel_left] at hk
    have hfit := hb j i hk
    rw [Nat.add_assoc] at hfit
    cases j with
    | zero => exact hfit.imp (fun _ _ hmoves => hmoves.of_none) (Nat.le_refl _) (Nat.le_refl _)
    | succ j =>
      have hbefore : instructionBefore (a ++ b) (a.length + (j + 1)) = b[j]? := by
        show (a ++ b)[a.length + j]? = _
        rw [List.getElem?_append_right (by omega), Nat.add_sub_cancel_left]
      exact hbefore ▸ hfit

theorem cons (hi' : Climbs rules limits lo hi height none n i)
    (hb : Block rules limits lo hi height (n + 1) b) : Block rules limits lo hi height n (i :: b) :=
  (single hi').append hb

theorem widen (hlo : lo' ≤ lo) (hhi : hi ≤ hi') (h : Block rules limits lo hi height n a) :
    Block rules limits lo' hi' height n a :=
  fun k i hk => (h k i hk).imp (fun _ _ => id) hlo hhi

theorem congr (hn : lo ≤ n) (hn' : n + a.length ≤ hi)
    (hd : ∀ k, lo ≤ k → k ≤ hi → height' k = height k) (h : Block rules limits lo hi height n a) :
    Block rules limits lo hi height' n a := by
  intro k i hk
  have := (List.getElem?_eq_some_iff.1 hk).1
  exact (h k i hk).congr (by omega) (by omega) hd

/-- Within a larger block only the heights of the smaller one matter to it. -/
theorem within (h : Block rules limits lo hi height n a)
    (hd : ∀ k, lo ≤ k → k ≤ hi → height' k = height k)
    (hn : lo ≤ n ∧ n + a.length ≤ hi ∧ lo' ≤ lo ∧ hi ≤ hi') : Block rules limits lo' hi' height' n a :=
  (h.congr hn.1 hn.2.1 hd).widen hn.2.2.1 hn.2.2.2

end Climbs.Block

theorem exists_glued (f g : Nat → Nat) (m : Nat) (h : f m = g m) :
    ∃ height : Nat → Nat, (∀ k, k ≤ m → height k = f k) ∧ (∀ k, m ≤ k → height k = g k) := by
  refine ⟨fun k => if k ≤ m then f k else g k, fun k hk => by simp [hk], fun k hk => ?_⟩
  by_cases hkm : k = m
  · simp [hkm, h]
  · simp [show ¬ k ≤ m by omega]

theorem exists_before (d n : Nat) (g : Nat → Nat) :
    ∃ height : Nat → Nat, height n = d ∧ (∀ k, n + 1 ≤ k → height k = g k) :=
  ⟨fun k => if k ≤ n then d else g k, by simp, fun k hk => by simp [show ¬ k ≤ n by omega]⟩

/-! ## Shapes -/

/-- Wherever the shape is laid out, it can be given heights that obey, from one to another. -/
def Shape.Places (rules : Rules) (limits : Option Limits) (s : Shape) (d e : Nat) : Prop :=
  ∀ n, ∃ height : Nat → Nat, height n = d ∧ height (n + s.size) = e ∧
    Climbs.Block rules limits n (n + s.size) height n (s.layout n)

namespace Shape.Places

variable {a b : Shape} {d e f : Nat}

theorem nothing : Places rules limits .nothing d d :=
  fun _ => ⟨fun _ => d, rfl, rfl, by simp [Climbs.Block, Shape.layout]⟩

theorem one {i : Instruction} (h : ∀ n height, height n = d → height (n + 1) = e →
    Climbs rules limits n (n + 1) height none n i) : (one i).Places rules limits d e := by
  intro n
  obtain ⟨height, h₀, h₁⟩ := exists_before d n fun _ => e
  have h₁ := h₁ (n + 1) (Nat.le_refl _)
  exact ⟨height, h₀, h₁, .single (h n height h₀ h₁)⟩

theorem seq (ha : a.Places rules limits d e) (hb : b.Places rules limits e f) :
    (a.seq b).Places rules limits d f := by
  intro n
  obtain ⟨fa, ha₀, ha₁, hfa⟩ := ha n
  obtain ⟨fb, hb₀, hb₁, hfb⟩ := hb (n + a.size)
  obtain ⟨height, hleft, hright⟩ := exists_glued fa fb (n + a.size) (ha₁.trans hb₀.symm)
  rw [Shape.size, ← Nat.add_assoc]
  refine ⟨height, (hleft n (by omega)).trans ha₀, (hright _ (by omega)).trans hb₁, ?_⟩
  refine .append ?_ ?_
  · exact hfa.within (fun k _ hk => hleft k hk) (by simp)
  · rw [Shape.length_layout]
    exact hfb.within (fun k hk _ => hright k hk) (by simp)

theorem guarded (ha : a.Places rules limits d d) : (guarded a).Places rules limits (d + 1) d := by
  intro n
  obtain ⟨f, h₀, h₁, hf⟩ := ha (n + 1)
  obtain ⟨height, hn, hheight⟩ := exists_before (d + 1) n f
  have hstart := (hheight (n + 1) (by omega)).trans h₀
  have hstop := (hheight (n + 1 + a.size) (by omega)).trans h₁
  rw [Shape.size, show n + (a.size + 1) = n + 1 + a.size by omega]
  refine ⟨height, hn, hstop, .cons ?_ ?_⟩
  · exact .branch (.inl rfl) (by omega) (by omega) (by omega) (by omega) (by omega)
  · exact hf.within (fun k hk _ => hheight k hk) (by simp)

theorem choice (ha : a.Places rules limits d e) (hb : b.Places rules limits d e) :
    (choice a b).Places rules limits (d + 1) e := by
  intro n
  obtain ⟨fb, hb₀, hb₁, hfb⟩ := ha (n + 1)
  obtain ⟨fo, ho₀, ho₁, hfo⟩ := hb (n + a.size + 2)
  -- the jump after the first block joins its height to that of the other
  obtain ⟨fj, hj, hother⟩ := exists_before e (n + 1 + a.size) fo
  obtain ⟨f, hbody, hrest⟩ := exists_glued fb fj (n + 1 + a.size) (hb₁.trans hj.symm)
  obtain ⟨height, hn, hheight⟩ := exists_before (d + 1) n f
  have hleft : ∀ k, n + 1 ≤ k → k ≤ n + 1 + a.size → height k = fb k := fun k hk hk' =>
    (hheight k hk).trans (hbody k hk')
  have hright : ∀ k, n + a.size + 2 ≤ k → height k = fo k := fun k hk =>
    (hheight k (by omega)).trans ((hrest k (by omega)).trans (hother k (by omega)))
  have hstart := (hleft (n + 1) (by omega) (by omega)).trans hb₀
  have hjump := (hleft (n + 1 + a.size) (by omega) (by omega)).trans hb₁
  have hstart' := (hright (n + a.size + 2) (by omega)).trans ho₀
  have hstop := (hright (n + a.size + 2 + b.size) (by omega)).trans ho₁
  rw [Shape.size, show n + (a.size + b.size + 2) = n + a.size + 2 + b.size by omega]
  refine ⟨height, hn, hstop, .append (.cons ?_ ?_) ?_⟩
  · exact .branch (.inl rfl) (by omega) (by omega) (by omega) (by omega) (by omega)
  · exact hfb.within hleft (by simp; omega)
  · rw [List.length_cons, Shape.length_layout, show n + (a.size + 1) = n + 1 + a.size by omega]
    refine .cons ?_ ?_
    · exact .jump (by omega) (by omega) (by omega)
    · rw [show n + 1 + a.size + 1 = n + a.size + 2 by omega]
      exact hfo.within (fun k hk _ => hright k hk) (by simp; omega)

theorem whileLoop (ha : a.Places rules limits d (d + 1)) (hb : b.Places rules limits d d) :
    (whileLoop a b).Places rules limits d d := by
  intro n
  obtain ⟨fc, hc₀, hc₁, hfc⟩ := ha n
  obtain ⟨fb, hb₀, hb₁, hfb⟩ := hb (n + a.size + 1)
  -- after the body the height stays, past the jump back
  obtain ⟨fe, hbody, hend⟩ := exists_glued fb (fun _ => d) (n + a.size + 1 + b.size) hb₁
  obtain ⟨fj, hj, hjump⟩ := exists_before (d + 1) (n + a.size) fe
  obtain ⟨height, hleft, hright⟩ := exists_glued fc fj (n + a.size) (hc₁.trans hj.symm)
  have hmiddle : ∀ k, n + a.size + 1 ≤ k → k ≤ n + a.size + 1 + b.size → height k = fb k :=
    fun k hk hk' => (hright k (by omega)).trans ((hjump k hk).trans (hbody k hk'))
  have hstop : ∀ k, n + a.size + 1 + b.size ≤ k → height k = d := fun k hk =>
    (hright k (by omega)).trans ((hjump k (by omega)).trans (hend k hk))
  have hn := (hleft n (by omega)).trans hc₀
  have htest := (hright (n + a.size) (by omega)).trans hj
  have hstart := (hmiddle (n + a.size + 1) (by omega) (by omega)).trans hb₀
  have hback := hstop (n + a.size + 1 + b.size) (by omega)
  have hlast := hstop (n + a.size + b.size + 2) (by omega)
  rw [Shape.size, show n + (a.size + b.size + 2) = n + a.size + b.size + 2 by omega]
  refine ⟨height, hn, hlast, .append (.append ?_ (.cons ?_ ?_)) (.single ?_)⟩
  · exact hfc.within (fun k _ hk => hleft k hk) (by simp; omega)
  · rw [Shape.length_layout]
    exact .branch (.inl rfl) (by omega) (by omega) (by omega) (by omega) (by omega)
  · rw [Shape.length_layout]
    exact hfb.within hmiddle (by simp; omega)
  · simp only [List.length_append, List.length_cons, Shape.length_layout]
    rw [show n + (a.size + (b.size + 1)) = n + a.size + 1 + b.size by omega]
    exact .jump (by omega) (by omega) (by omega)

theorem repeatLoop (ha : a.Places rules limits d (d + 1)) :
    (repeatLoop a).Places rules limits d d := by
  intro n
  obtain ⟨fb, h₀, h₁, hf⟩ := ha n
  obtain ⟨fe, he, hend⟩ := exists_before (d + 1) (n + a.size) fun _ => d
  obtain ⟨height, hleft, hright⟩ := exists_glued fb fe (n + a.size) (h₁.trans he.symm)
  have hn := (hleft n (by omega)).trans h₀
  have htest := (hright (n + a.size) (by omega)).trans he
  have hstop := (hright (n + a.size + 1) (by omega)).trans (hend _ (by omega))
  rw [Shape.size, ← Nat.add_assoc]
  refine ⟨height, hn, hstop, .append ?_ (.single ?_)⟩
  · exact hf.within (fun k _ hk => hleft k hk) (by simp)
  · rw [Shape.length_layout]
    exact .branch (.inr rfl) (by omega) (by omega) (by omega) (by omega) (by omega)

theorem forLoop (hrule : (rules.of .getIter).Holds 1 (d + 1))
    (ha : a.Places rules limits (d + 2) (d + 1)) : (forLoop a).Places rules limits (d + 1) d := by
  intro n
  obtain ⟨fb, h₀, h₁, hf⟩ := ha (n + 1)
  obtain ⟨fe, he, hend⟩ := exists_before (d + 1) (n + 1 + a.size) fun _ => d
  obtain ⟨fr, hbody, hrest⟩ := exists_glued fb fe (n + 1 + a.size) (h₁.trans he.symm)
  obtain ⟨height, hn, hheight⟩ := exists_before (d + 1) n fr
  have hmiddle : ∀ k, n + 1 ≤ k → k ≤ n + 1 + a.size → height k = fb k := fun k hk hk' =>
    (hheight k hk).trans (hbody k hk')
  have hstart := (hmiddle (n + 1) (by omega) (by omega)).trans h₀
  have hback := (hmiddle (n + 1 + a.size) (by omega) (by omega)).trans h₁
  have hstop := (hheight (n + a.size + 2) (by omega)).trans
    ((hrest (n + a.size + 2) (by omega)).trans (hend _ (by omega)))
  rw [Shape.size, show n + (a.size + 2) = n + a.size + 2 by omega]
  refine ⟨height, hn, hstop, .append (.cons ?_ ?_) (.single ?_)⟩
  · exact .forIter (hn ▸ hrule) (by omega) (by omega) (by omega) (by omega) (by omega)
  · exact hf.within hmiddle (by simp; omega)
  · rw [List.length_cons, Shape.length_layout, show n + (a.size + 1) = n + 1 + a.size by omega]
    exact .jump (by omega) (by omega) (by omega)

variable {s : Shape}

theorem paced (h : s.Places rules limits 0 e) : Paced rules limits (s.layout 0) := by
  obtain ⟨height, h₀, -, hblock⟩ := h 0
  refine ⟨height, h₀, fun k i hk => ?_⟩
  have hclimbs : Climbs rules limits _ _ height _ _ i := hblock k i hk
  simpa using hclimbs

/-- Code that keeps the stack still obeys with a halt at its end. -/
theorem paced_halt (h : s.Places rules limits 0 0) :
    Paced rules limits (s.layout 0 ++ [⟨.halt, .null⟩]) := by
  obtain ⟨height, h₀, h₁, hf⟩ := h 0
  refine ⟨height, h₀, fun k i hk => ?_⟩
  have hblock : Climbs.Block rules limits 0 (s.size + 1) height 0
      (s.layout 0 ++ [⟨.halt, .null⟩]) := by
    refine .append (hf.widen (Nat.le_refl 0) (by omega)) (.single (.halt ?_))
    simpa using h₁
  have hclimbs : Climbs rules limits _ _ height _ _ i := hblock k i hk
  simpa using hclimbs

/-- Names are fetched from a module: the constant before tells how many. -/
theorem importing {k count : Nat} {rest : Shape} (hlimits : limits.isSome)
    (hitems : ∀ l ∈ limits, ∃ items, l.constants[k]? = some (.list items) ∧ items.length = count)
    (hrest : rest.Places rules limits (d + count) e) :
    (Shape.seq (.one (.to .loadConst k)) (.seq (.one ⟨.importFrom, .null⟩) rest)).Places
      rules limits (d + 1) e := by
  intro n
  obtain ⟨f, h₀, h₁, hf⟩ := hrest (n + 2)
  obtain ⟨f₁, hf₁, hrest₁⟩ := exists_before (d + 2) (n + 1) f
  obtain ⟨height, hn, hrest₂⟩ := exists_before (d + 1) n f₁
  have hn₁ : height (n + 1) = d + 2 := (hrest₂ _ (by omega)).trans hf₁
  have hheight : ∀ k, n + 2 ≤ k → height k = f k := fun k hk =>
    (hrest₂ k (by omega)).trans (hrest₁ k (by omega))
  have hn₂ : height (n + 2) = d + count := (hheight _ (by omega)).trans h₀
  have hsize : n + (Shape.seq (.one (.to .loadConst k))
      (.seq (.one ⟨.importFrom, .null⟩) rest)).size = n + 2 + rest.size := by
    simp [Shape.size]
    omega
  have hfree : ∀ op ∉ Opcode.governed, ∀ needs height, (rules.of op).Holds needs height := by
    intro op hop needs height
    rw [rules.free op hop]
    trivial
  rw [hsize]
  refine ⟨height, hn, (hheight _ (by omega)).trans h₁, ?_⟩
  refine .append (a := [.to .loadConst k, ⟨.importFrom, .null⟩]) (b := rest.layout (n + 2)) ?_ ?_
  · intro j i hj
    rcases j with _ | _ | j
    · cases hj
      refine .step (.load (by decide) fun l hl => ?_) (hfree .loadConst (by decide) _ _) (by omega)
        (by simp; omega)
      obtain ⟨items, hk, -⟩ := hitems l hl
      exact (List.getElem?_eq_some_iff.1 hk).1
    · cases hj
      refine .step (.importFrom hlimits rfl hitems) (hfree .importFrom (by decide) _ _)
        (show 2 ≤ height (n + 1) by omega) ?_
      show height (n + 2) = height (n + 1) - 2 + count
      omega
    · cases hj
  · show Climbs.Block rules limits n (n + 2 + rest.size) height (n + 2) (rest.layout (n + 2))
    exact hf.within (fun k hk _ => hheight k hk) (by simp)

end Shape.Places

end StackScript
