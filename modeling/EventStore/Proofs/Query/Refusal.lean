import EventStore.Proofs.Query.Lowering

/-!
# Which expressions are compiled

An expression has criteria if it ends in comparisons of leaves wherever groups, `and` and `or` lead,
and then they are those that its shape says (`Expr.Denotes`). If not, it is refused for the first
place, in the order of its text, that ends in something else (`Expr.compile_denotes_or_offends`).
Nothing is ever wrong with the calls that the compiler hears.
-/

namespace EventStore.Query

namespace Expr

/-- The criteria that the shape of an expression says. -/
inductive Denotes : Expr → Criteria → Prop
  | group {e c} (h : Denotes e c) : Denotes (.group e) c
  | equal {l r field value} (hl : l.operandText? = some field) (hr : r.operandText? = some value) :
    Denotes (.binary .equal l r) (.equals (.ofProperty field value))
  | notEqual {l r field value} (hl : l.operandText? = some field)
    (hr : r.operandText? = some value) :
    Denotes (.binary .notEqual l r) (.notEquals (.ofProperty field value))
  | and {l r a b} (hl : Denotes l a) (hr : Denotes r b) : Denotes (.binary .and l r) (.and a b)
  | or {l r a b} (hl : Denotes l a) (hr : Denotes r b) : Denotes (.binary .or l r) (.or a b)

/-- Where groups, `and` and `or` lead, in the order of the text. -/
def ends : Expr → List Expr
  | .group inner => inner.ends
  | .binary .and l r | .binary .or l r => l.ends ++ r.ends
  | e => [e]

inductive IsCondition : Expr → Prop
  | comparison {op l r} (ho : op.isComparison = true) (hl : l.isLeaf = true)
    (hr : r.isLeaf = true) : IsCondition (.binary op l r)

/-- What is wrong with the end of an expression. The left side of a comparison is looked at first.
-/
def offence? : Expr → Option CompileProblem
  | .binary op l r =>
    if !l.isLeaf then some (.notAField op l)
    else if !r.isLeaf then some (.notAValue op r)
    else none
  | e => some (.bareOperand e)

end Expr

/-- The compiler has not heard the calls of a whole expression: an operator or a condition is
missing, or an end of a group. -/
def CompileProblem.IsOfCalls : CompileProblem → Prop
  | adjacentConditions | noLeftCondition _ | missingOperand _ | cannotCombine _ | emptyExpression
  | leftoverConditions _ | openGroups _ | groupNotOpened => True
  | _ => False

namespace Expr

variable {e l r : Expr} {op : Op} {c : Criteria} {p : CompileProblem}

theorem isLeaf_eq_true_iff : e.isLeaf = true ↔ ∃ s, e.operandText? = some s := by
  rw [isLeaf_iff_operandText?, Option.isSome_iff_exists]

theorem ends_of_isComparison (h : op.isComparison = true) :
    (binary op l r).ends = [.binary op l r] := by
  cases op <;> first | rfl | cases h

theorem IsCondition.offence? (h : e.IsCondition) : e.offence? = none := by
  obtain ⟨-, hl, hr⟩ := h
  simp [Expr.offence?, hl, hr]

/-- An end is a comparison or a leaf, so it is a condition if nothing is wrong with it. -/
theorem isCondition_iff {x : Expr} (hx : x ∈ e.ends) : x.IsCondition ↔ x.offence? = none := by
  refine ⟨IsCondition.offence?, fun h => ?_⟩
  induction e with
  | group inner ih => exact ih hx
  | binary op l r ihl ihr =>
    cases op with
    | and | or => exact (List.mem_append.mp hx).elim ihl ihr
    | equal | notEqual =>
      obtain rfl := List.mem_singleton.mp hx
      simp only [Expr.offence?] at h
      split at h
      · cases h
      split at h
      · cases h
      next hl hr => exact .comparison rfl (by simpa using hl) (by simpa using hr)
  | _ =>
    obtain rfl := List.mem_singleton.mp hx
    cases h

-- ---- comparisons ---------------------------------------------------------

theorem comparison_eq_error (h : (binary op l r).offence? = some p) :
    Compiler.comparison op l r = .error p := by
  simp only [offence?, isLeaf_iff_operandText?] at h
  unfold Compiler.comparison
  cases hl : l.operandText? with
  | none => simpa [hl] using h
  | some field =>
    cases hr : r.operandText? with
    | none => simpa [hl, hr] using h
    | some value => simp [hl, hr] at h

theorem exists_denotes_of_comparison (ho : op.isComparison = true)
    (h : (binary op l r).offence? = none) : ∃ c, (binary op l r).Denotes c := by
  obtain ⟨-, hl, hr⟩ :=
    (isCondition_iff (e := .binary op l r) (by simp [ends_of_isComparison ho])).mpr h
  obtain ⟨field, hl⟩ := isLeaf_eq_true_iff.mp hl
  obtain ⟨value, hr⟩ := isLeaf_eq_true_iff.mp hr
  cases op with
  | equal => exact ⟨_, .equal hl hr⟩
  | notEqual => exact ⟨_, .notEqual hl hr⟩
  | and | or => cases ho

-- ---- lowering ------------------------------------------------------------

theorem Denotes.lower_eq (h : e.Denotes c) : e.lower = .ok c := by
  induction h with
  | group _ ih => exact ih
  | equal hl hr => simp [lower, Compiler.comparison, hl, hr]
  | notEqual hl hr => simp [lower, Compiler.comparison, hl, hr]
  | and _ _ ihl ihr => rw [lower, ihl, ihr]; rfl
  | or _ _ ihl ihr => rw [lower, ihl, ihr]; rfl

theorem exists_denotes (h : e.ends.findSome? offence? = none) : ∃ c, e.Denotes c := by
  induction e with
  | group inner ih => exact (ih h).imp fun _ => .group
  | binary op l r ihl ihr =>
    cases op with
    | equal | notEqual =>
      rw [ends_of_isComparison rfl, List.findSome?_singleton] at h
      exact exists_denotes_of_comparison rfl h
    | and =>
      rw [ends, List.findSome?_append, Option.or_eq_none_iff] at h
      obtain ⟨a, ha⟩ := ihl h.1
      obtain ⟨b, hb⟩ := ihr h.2
      exact ⟨_, .and ha hb⟩
    | or =>
      rw [ends, List.findSome?_append, Option.or_eq_none_iff] at h
      obtain ⟨a, ha⟩ := ihl h.1
      obtain ⟨b, hb⟩ := ihr h.2
      exact ⟨_, .or ha hb⟩
  | _ => cases h

/-- Lowering ends with the first thing that is wrong. -/
theorem lower_eq_error (h : e.ends.findSome? offence? = some p) : e.lower = .error p := by
  induction e with
  | group inner ih => exact ih h
  | binary op l r ihl ihr =>
    cases op with
    | equal | notEqual =>
      rw [ends_of_isComparison rfl, List.findSome?_singleton] at h
      exact comparison_eq_error h
    | and | or =>
      -- What is wrong is on the left, or the left side has criteria.
      have hside : l.lower = .error p ∨ (∃ a, l.lower = .ok a) ∧ r.lower = .error p := by
        rw [ends, List.findSome?_append, Option.or_eq_some_iff] at h
        rcases h with h | ⟨hl, h⟩
        · exact .inl (ihl h)
        · exact .inr ⟨(exists_denotes hl).imp fun _ => Denotes.lower_eq, ihr h⟩
      rcases hside with hl | ⟨⟨a, ha⟩, hr⟩
      · rw [lower, hl]
        rfl
      · rw [lower, ha, hr]
        rfl
  | _ =>
    cases h
    rfl

theorem compile_eq_error_iff :
    e.compile = .error p ↔ e.ends.findSome? offence? = some p := by
  rw [compile_eq_lower]
  refine ⟨fun h => ?_, lower_eq_error⟩
  cases hp : e.ends.findSome? offence? with
  | some q => exact congrArg some (Except.error.inj ((lower_eq_error hp).symm.trans h))
  | none =>
    obtain ⟨c, hc⟩ := exists_denotes hp
    rw [hc.lower_eq] at h
    cases h

theorem compile_eq_ok_iff : e.compile = .ok c ↔ e.Denotes c := by
  rw [compile_eq_lower]
  refine ⟨fun h => ?_, Denotes.lower_eq⟩
  cases hp : e.ends.findSome? offence? with
  | some p =>
    rw [lower_eq_error hp] at h
    cases h
  | none =>
    obtain ⟨c', hc⟩ := exists_denotes hp
    rw [hc.lower_eq] at h
    exact Except.ok.inj h ▸ hc

theorem not_isOfCalls_of_offence? (h : e.offence? = some p) : ¬ p.IsOfCalls := by
  cases e with
  | binary op l r =>
    simp only [offence?] at h
    split at h
    · cases h
      exact id
    split at h
    · cases h
      exact id
    · cases h
  | _ =>
    cases h
    exact id

/-- An expression is compiled if all its ends are conditions, and then to what it denotes. If not,
the problem is that of the first end in the order of the text that is none, and never one of the
calls that the compiler has heard. -/
theorem compile_denotes_or_offends (e : Expr) :
    ((∃ c, e.compile = .ok c) ↔ ∀ x ∈ e.ends, x.IsCondition) ∧
    (∀ c, e.compile = .ok c ↔ e.Denotes c) ∧
    (∀ p, e.compile = .error p ↔ ∃ before x after, e.ends = before ++ x :: after ∧
      (∀ y ∈ before, y.IsCondition) ∧ x.offence? = some p) ∧
    ∀ p, e.compile = .error p → ¬ p.IsOfCalls := by
  have hfirst (p : CompileProblem) : e.compile = .error p ↔
      ∃ before x after, e.ends = before ++ x :: after ∧ (∀ y ∈ before, y.IsCondition) ∧
        x.offence? = some p := by
    rw [compile_eq_error_iff, List.findSome?_eq_some_iff]
    refine exists₃_congr fun before x after => and_congr_right fun he => ?_
    rw [and_comm]
    refine and_congr_left' (forall₂_congr fun y hy => (isCondition_iff (e := e) ?_).symm)
    rw [he]
    exact List.mem_append_left _ hy
  refine ⟨?_, fun _ => compile_eq_ok_iff, hfirst, fun p hp => ?_⟩
  · have hnone : (∃ c, e.compile = .ok c) ↔ e.ends.findSome? offence? = none := by
      cases hp : e.ends.findSome? offence? with
      | some p => simp [compile_eq_error_iff.mpr hp]
      | none => simpa [compile_eq_ok_iff] using exists_denotes hp
    rw [hnone, List.findSome?_eq_none_iff]
    exact forall₂_congr fun x hx => (isCondition_iff hx).symm
  · obtain ⟨before, x, after, -, -, hx⟩ := (hfirst p).mp hp
    exact not_isOfCalls_of_offence? hx

end Expr

end EventStore.Query
