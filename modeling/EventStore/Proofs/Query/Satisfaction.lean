import EventStore.Index.Basic
import EventStore.Proofs.Query.Lowering
import EventStore.Proofs.Results

/-!
# What satisfies a query

`Query.satisfies` says by recursion on the parsed expression which properties satisfy a query.
`holds_of_compile`: the criteria that a query compiles to hold of the same properties.
-/

namespace EventStore.Query

/-- Whether a comparison's field is there with exactly its value. -/
def Expr.carries (left right : Expr) (m : Properties) : Bool :=
  match left.operandText?, right.operandText? with
  | some field, some value => m[field]? == some value
  | _, _ => false

/-- Whether properties satisfy an expression. What carries no field with the value differs from
it. -/
def Expr.holds (m : Properties) : Expr → Bool
  | .group inner => inner.holds m
  | .binary .equal l r => l.carries r m
  | .binary .notEqual l r => !l.carries r m
  | .binary .and l r => l.holds m && r.holds m
  | .binary .or l r => l.holds m || r.holds m
  | .name _ | .quoted _ | .integer _ | .null => false

/-- Whether properties satisfy a query. A blank one is satisfied by all, and one that cannot be
read by none. -/
def satisfies (query : String) (m : Properties) : Bool :=
  query.toList.all Text.isBlank || match parse query with
    | .ok e => e.holds m
    | .error _ => false

-- ---- criteria ------------------------------------------------------------

/-- Whether properties have the key. The sentinel has no field, and nobody has it. -/
def Key.isIn (k : Key) (m : Properties) : Bool :=
  match k.field with
  | some field => m[field]? == some k.value
  | none => false

def Criteria.holds (m : Properties) : Criteria → Bool
  | .equals key => key.isIn m
  | .notEquals key => !key.isIn m
  | .and a b => a.holds m && b.holds m
  | .or a b => a.holds m || b.holds m

theorem operands_of_comparison (h : Compiler.comparison op l r = .ok c) :
    ∃ field value, l.operandText? = some field ∧ r.operandText? = some value ∧
      (op = .equal ∧ c = .equals (.ofProperty field value) ∨
        op = .notEqual ∧ c = .notEquals (.ofProperty field value)) := by
  unfold Compiler.comparison at h
  split at h
  · cases h
  · cases h
  · next field value hl hr => cases op <;> cases h <;> exact ⟨field, value, hl, hr, by simp⟩

theorem Expr.holds_of_lower {e : Expr} (h : e.lower = .ok c) (m : Properties) :
    c.holds m = e.holds m := by
  induction e generalizing c with
  | group inner ih => exact ih h
  | binary op l r ihl ihr =>
    cases op with
    | equal =>
      obtain ⟨field, value, hl, hr, ⟨-, rfl⟩ | ⟨ho, -⟩⟩ := operands_of_comparison h
      · simp [holds, carries, hl, hr, Criteria.holds, Key.isIn, Key.ofProperty]
      · cases ho
    | notEqual =>
      obtain ⟨field, value, hl, hr, ⟨ho, -⟩ | ⟨-, rfl⟩⟩ := operands_of_comparison h
      · cases ho
      · simp [holds, carries, hl, hr, Criteria.holds, Key.isIn, Key.ofProperty]
    | and =>
      simp only [lower, bind_ok, pure_ok] at h
      obtain ⟨a, ha, b, hb, rfl⟩ := h
      simp [holds, Criteria.holds, ihl ha, ihr hb]
    | or =>
      simp only [lower, bind_ok, pure_ok] at h
      obtain ⟨a, ha, b, hb, rfl⟩ := h
      simp [holds, Criteria.holds, ihl ha, ihr hb]
  | _ => cases h

theorem holds_of_compile (h : compile query = .ok c) (m : Properties) :
    c.holds m = satisfies query m := by
  unfold compile at h
  unfold satisfies
  split at h
  · next hb =>
    cases h
    simp [hb, Criteria.all, Criteria.holds, Key.isIn, Key.sentinel]
  · next hb =>
    cases hp : parse query with
    | error p => simp [hp] at h
    | ok e =>
      simp only [hp, e.compile_eq_lower] at h
      cases hl : e.lower with
      | error p => simp [hl] at h
      | ok c' =>
        simp only [hl, Except.ok.injEq] at h
        simp [hb, ← h, Expr.holds_of_lower hl]

end EventStore.Query
