import EventStore.Query.Compiler

/-!
# The compiler lowers expressions by recursion

`Expr.lower` says directly what criteria an expression stands for: a group is its content,
`and` and `or` join what their sides stand for. `compile_eq_lower`: the compiler, which hears
an expression call by call and keeps conditions and operators on stacks, comes to the same
criteria or the same problem.
-/

namespace EventStore.Query

/-- The criteria of an expression, or the first thing in it that has none. -/
def Expr.lower : Expr → Except CompileProblem Criteria
  | .group inner => inner.lower
  | .binary .and l r => do return .and (← l.lower) (← r.lower)
  | .binary .or l r => do return .or (← l.lower) (← r.lower)
  | .binary op l r => Compiler.comparison op l r
  | e => .error (.bareOperand e)

/-- How tightly the operators bind that an expression shows outside its groups. Comparisons show
none. -/
def Expr.strength : Expr → Nat
  | .binary op _ _ => if op.isLogical then op.precedence else 5
  | _ => 5

-- ---- frames --------------------------------------------------------------

namespace Frame

/-- A condition may come next, and operators binding as tightly as `strength` may come after it
without combining what is there. -/
structure Awaits (f : Frame) (strength : Nat) : Prop where
  balanced : f.operands.length = f.operators.length
  looser : ∀ op ∈ f.operators.head?, op.precedence < strength

/-- `g` is `f` with the condition `c` after it, some of it perhaps still to be combined by
operators that bind at least as tightly as `strength`. -/
structure Holds (f : Frame) (c : Criteria) (strength : Nat) (g : Frame) : Prop where
  balanced : g.operands.length = g.operators.length + 1
  reduces : ∀ s ≤ strength,
    reduceWhile s g.operators g.operands = reduceWhile s f.operators (c :: f.operands)

theorem awaits_empty (strength : Nat) : empty.Awaits strength := ⟨rfl, by simp [empty]⟩

theorem Awaits.mono (h : Awaits f s) (hs : s ≤ t) : f.Awaits t :=
  ⟨h.balanced, fun op hop => Nat.lt_of_lt_of_le (h.looser op hop) hs⟩

theorem reduceWhile_of_looser {ops : List Op} {operands : List Criteria}
    (h : ∀ op ∈ ops.head?, op.precedence < s) :
    reduceWhile s ops operands = .ok ⟨operands, ops⟩ := by
  cases ops with
  | nil => rfl
  | cons op ops => simp [reduceWhile, h op rfl]

theorem Awaits.pushOperand (h : Awaits f s) (c : Criteria) :
    ∃ g, f.pushOperand c = (g, none) ∧ ∀ t, f.Holds c t g := by
  refine ⟨{ f with operands := c :: f.operands }, by simp [Frame.pushOperand, h.balanced],
    fun t => ⟨?_, ?_⟩⟩
  · simp [h.balanced]
  · exact fun _ _ => rfl

theorem Holds.finish (h : Holds empty c s g) : g.finish = .ok c := by
  simp [Frame.finish, h.reduces 0 (Nat.zero_le s), empty, reduceWhile]

/-- An operator combines what binds more tightly in front of it and then waits. -/
theorem Holds.pushOperator (hf : Awaits f op.precedence) (h : Holds f c s g)
    (hs : op.precedence ≤ s) :
    g.pushOperator op = (⟨c :: f.operands, op :: f.operators⟩, none) := by
  simp [Frame.pushOperator, h.balanced, h.reduces _ hs, reduceWhile_of_looser hf.looser]

end Frame

-- ---- calls ---------------------------------------------------------------

namespace Compiler

/-- What hearing the calls of an expression comes to, if it has the criteria `r`. -/
def Lowers (r : Except CompileProblem Criteria) (strength : Nat) (calls : List Call) : Prop :=
  ∀ f outer, f.Awaits strength → match r with
    | .ok c => ∃ g, hearAll ⟨f, outer⟩ calls = .ok ⟨g, outer⟩ ∧ f.Holds c strength g
    | .error p => hearAll ⟨f, outer⟩ calls = .error p

theorem Lowers.group (h : Lowers r s calls) (t : Nat) :
    Lowers r t (.enter :: calls ++ [.exit]) := by
  intro f outer hf
  have h := h .empty (f :: outer) (Frame.awaits_empty s)
  have hh : hearAll ⟨f, outer⟩ (.enter :: calls ++ [.exit]) =
      (hearAll ⟨.empty, f :: outer⟩ calls).bind (·.hearAll [.exit]) := by
    rw [← hearAll_append]
    rfl
  cases r with
  | error p => simp only [hh, h, Except.bind]
  | ok c =>
    obtain ⟨g, hg, hc⟩ := h
    obtain ⟨g', hp, ho⟩ := hf.pushOperand c
    refine ⟨g', ?_, ho t⟩
    rw [hh, hg]
    simp [Except.bind, hearAll, hear, hc.finish, onCurrent, hp]

theorem Lowers.grouped (h : Lowers r s calls) (wanted : Bool) (ht : wanted = false → t ≤ s) :
    Lowers r t (Call.grouped wanted calls) := by
  cases wanted with
  | true => exact h.group t
  | false =>
    intro f outer hf
    have h := h f outer (hf.mono (ht rfl))
    cases r with
    | error p => exact h
    | ok c =>
      obtain ⟨g, hg, hc⟩ := h
      exact ⟨g, hg, hc.balanced, fun u hu => hc.reduces u (Nat.le_trans hu (ht rfl))⟩

/-- Two sides and an operator between them. What is in front binds more loosely than the operator,
and what is on its right more tightly. -/
theorem Lowers.logical (join : Criteria → Criteria → Criteria) (hop : op.isLogical = true)
    (hj : ∀ a b rest, Frame.combine op (b :: a :: rest) = .ok (join a b :: rest))
    (hl : Lowers rl op.precedence left) (hr : Lowers rr (op.precedence + 1) right) :
    Lowers (do return join (← rl) (← rr)) op.precedence (left ++ .logical op :: right) := by
  intro f outer hf
  have hl := hl f outer hf
  have hh : hearAll ⟨f, outer⟩ (left ++ .logical op :: right) =
      (hearAll ⟨f, outer⟩ left).bind (·.hearAll (.logical op :: right)) := hearAll_append ..
  cases rl with
  | error p =>
    rw [hl] at hh
    exact hh
  | ok a =>
    obtain ⟨g, hg, ha⟩ := hl
    have hpush := ha.pushOperator hf (Nat.le_refl _)
    have hear : (⟨g, outer⟩ : Compiler).hearAll (.logical op :: right) =
        hearAll ⟨⟨a :: f.operands, op :: f.operators⟩, outer⟩ right := by
      simp [hearAll, Compiler.hear, hop, onCurrent, hpush]
    have hr := hr ⟨a :: f.operands, op :: f.operators⟩ outer ⟨by simp [hf.balanced], by simp⟩
    rw [hg] at hh
    replace hh := hh.trans hear
    cases rr with
    | error p => exact hh.trans hr
    | ok b =>
      obtain ⟨g', hg', hb⟩ := hr
      refine ⟨g', hh.trans hg', by simpa using hb.balanced, fun t ht => ?_⟩
      rw [hb.reduces t (Nat.le_succ_of_le ht)]
      simp [Frame.reduceWhile, Nat.not_lt.mpr ht, hj]

theorem lowers_comparison (op : Op) (l r : Expr) (t : Nat) :
    Lowers (comparison op l r) t [.comparison op l r] := by
  intro f outer hf
  cases hc : comparison op l r with
  | error p => simp [hearAll, hear, hc]
  | ok c =>
    obtain ⟨g, hg, ho⟩ := hf.pushOperand c
    exact ⟨g, by simp [hearAll, hear, hc, onCurrent, hg], ho t⟩

end Compiler

theorem Expr.le_strength_left {l : Expr} (h : l.needsGroup op false = false) :
    op.precedence ≤ l.strength := by
  cases l with
  | binary o _ _ =>
    cases o <;> cases op <;>
      simp_all [needsGroup, strength, Op.isLogical, Op.isComparison, Op.precedence]
  | _ => cases op <;> simp [strength, Op.precedence]

theorem Expr.lt_strength_right {r : Expr} (h : r.needsGroup op true = false) :
    op.precedence < r.strength := by
  cases r with
  | binary o _ _ =>
    cases o <;> cases op <;>
      simp_all [needsGroup, strength, Op.isLogical, Op.isComparison, Op.precedence]
  | _ => cases op <;> simp [strength, Op.precedence]

theorem Expr.lowers_calls (e : Expr) : Compiler.Lowers e.lower e.strength e.calls := by
  induction e with
  | group inner ih => exact ih.group _
  | binary op l r ihl ihr =>
    have hl := ihl.grouped (l.needsGroup op false) Expr.le_strength_left
    have hr := ihr.grouped (r.needsGroup op true) Expr.lt_strength_right
    cases op with
    | equal | notEqual => exact Compiler.lowers_comparison _ l r _
    | and => exact hl.logical .and rfl (fun _ _ _ => rfl) hr
    | or => exact hl.logical .or rfl (fun _ _ _ => rfl) hr
  | _ => exact fun _ _ _ => rfl

theorem Expr.compile_eq_lower (e : Expr) : e.compile = e.lower := by
  have h := e.lowers_calls .empty [] (Frame.awaits_empty _)
  unfold compile
  cases hl : e.lower with
  | error p =>
    rw [hl] at h
    simp only [Compiler.fresh, h]
  | ok c =>
    rw [hl] at h
    obtain ⟨g, hg, hc⟩ := h
    simp [Compiler.fresh, hg, Compiler.finish, hc.finish]

end EventStore.Query
