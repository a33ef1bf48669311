import EventStore.Proofs.Query.Parsing

/-!
# Expressions as query text

The text of an expression is a query. It has the derivation that a query of that expression has,
with gaps, signs and integers written in the one way the text writes them (`Derivation.plain`). So a
query and the text of what it says are read alike.
-/

namespace EventStore.Query

open Text

/-- What the text sets around the sign. -/
def Op.gap (op : Op) : List Char := if op.isComparison then [] else [' ']

theorem Op.isGap_gap (op : Op) : IsGap op.gap := by
  cases op <;> simp [gap, isComparison, IsGap, isGap]

theorem Expr.chars_binary (op : Op) (l r : Expr) : (binary op l r).chars =
    l.chars ++ (op.gap ++ (op.text.toList ++ (op.gap ++ r.chars))) := by
  cases op <;> simp [chars, Op.gap, Op.isComparison]

mutual

/-- The derivation of the text, after `lead`. -/
def Derivation.plain : Derivation level → (lead : List Char) → Derivation level
  | .group _ inner _, lead => .group lead (inner.plain []) []
  | .quoted _ value, lead => .quoted lead value
  | .word _ _ meaning, lead => .word lead meaning.chars meaning
  | .chain first more, lead => .chain (first.plain lead) more.plain

def Links.plain : Links op → Links op
  | .nil => .nil
  | .cons _ _ right more => .cons op.gap op.text.toList (right.plain op.gap) more.plain

end

-- ---- it derives the text -------------------------------------------------

mutual

theorem Derivation.plain_expr {level : Option Op} :
    (d : Derivation level) → ∀ lead, (d.plain lead).expr = d.expr
  | .group _ inner _, _ => by
    rw [Derivation.plain, Derivation.expr, inner.plain_expr, Derivation.expr]
  | .quoted .., _ => rfl
  | .word .., _ => rfl
  | .chain first more, _ => by
    rw [Derivation.plain, Derivation.expr, first.plain_expr, more.plain_expr, Derivation.expr]

theorem Links.plain_expr {op : Op} : (m : Links op) → ∀ left, m.plain.expr left = m.expr left
  | .nil, _ => rfl
  | .cons _ _ right more, _ => by
    rw [Links.plain, Links.expr, right.plain_expr, more.plain_expr, Links.expr]

end

mutual

theorem Derivation.plain_text {level : Option Op} :
    (d : Derivation level) → ∀ lead, (d.plain lead).text = lead ++ d.expr.chars
  | .group _ inner _, lead => by
    simp [Derivation.plain, Derivation.text, inner.plain_text, Derivation.expr, Expr.chars]
  | .quoted _ value, lead => by
    simp [Derivation.plain, Derivation.text, Derivation.expr, Expr.chars]
  | .word .., _ => rfl
  | .chain first more, lead => by
    rw [Derivation.plain, Derivation.text, first.plain_text, Derivation.expr, more.plain_text,
      List.append_assoc]

theorem Links.plain_text {op : Op} :
    (m : Links op) → ∀ left, (m.expr left).chars = left.chars ++ m.plain.text
  | .nil, left => (List.append_nil _).symm
  | .cons _ _ right more, left => by
    rw [Links.expr, more.plain_text, Expr.chars_binary, Links.plain, Links.text, right.plain_text]
    simp

end

-- ---- it is spelled right -------------------------------------------------

variable {r rest : List Char}

theorem SpellsInteger.toString {word : List Char} {n : Int} (h : SpellsInteger word n) :
    SpellsInteger (toString n).toList n := by
  obtain ⟨-, -, -, -, -, -, hmin, hmax⟩ := h
  exact ⟨n < 0, Nat.toDigits 10 n.natAbs, Nat.toDigits_ne_nil,
    fun c hc => Nat.isDigit_of_mem_toDigits (by decide) (by decide) hc, toList_toString n,
    (integer_toDigits n).symm, hmin, hmax⟩

theorem Means.chars {word : List Char} {e : Expr} (h : Means word e) : Means e.chars e := by
  cases h with
  | integer h => exact .integer h.toString
  | null => exact .null rfl
  | name hw hc hd hi hn =>
    rw [Expr.chars, String.toList_ofList]
    exact .name hw hc hd hi hn

theorem Op.spelled_text (op : Op) (r : List Char) : op.Spelled op.text.toList (op.gap ++ r) := by
  cases op with
  | or => exact ⟨by decide, endsWord_cons (by decide)⟩
  | and => exact ⟨by decide, endsWord_cons (by decide)⟩
  | notEqual => exact .inl rfl
  | equal => exact rfl

theorem Links.endsWord_plain (m : Links op) (he : EndsWord r) : EndsWord (m.plain.text ++ r) := by
  cases m with
  | nil => exact he
  | cons => cases op <;> exact endsWord_cons (by decide)

mutual

theorem Derivation.plain_spelled {level : Option Op} {rest r : List Char} :
    (d : Derivation level) → d.Spelled rest → ∀ {lead}, IsGap lead → EndsWord r →
    (d.plain lead).Spelled r
  | .group _ inner _, h, _, hl, _ =>
    ⟨hl, inner.plain_spelled h.2.1 (List.forall_mem_nil _) (endsWord_cons (by decide)),
      List.forall_mem_nil _⟩
  | .quoted .., h, _, hl, _ => ⟨hl, h.2⟩
  | .word .., h, _, hl, he => ⟨hl, h.2.1.chars, he⟩
  | .chain first more, h, _, hl, he =>
    ⟨first.plain_spelled h.1 hl (more.endsWord_plain he), more.plain_spelled h.2 he⟩

theorem Links.plain_spelled {op : Op} {rest r : List Char} :
    (m : Links op) → m.Spelled rest → EndsWord r → m.plain.Spelled r
  | .nil, _, _ => trivial
  | .cons _ _ right more, h, he => by
    have hright := right.plain_spelled h.2.2.1 op.isGap_gap (more.endsWord_plain he)
    refine ⟨op.isGap_gap, ?_, hright, more.plain_spelled h.2.2.2 he⟩
    rw [right.plain_text, List.append_assoc]
    exact op.spelled_text _

end

theorem Derivation.Derives.plain {d : Derivation (some .or)} {s : List Char} (h : d.Derives s) :
    (d.plain []).Derives d.expr.chars := by
  obtain ⟨trail, -, hd, -⟩ := h
  have hend : EndsWord [] := by simp [EndsWord]
  exact ⟨[], by simp [d.plain_text], d.plain_spelled hd (List.forall_mem_nil _) hend,
    List.forall_mem_nil _⟩

/-- The text of what a query says is read as what the query says. -/
theorem parse_text {query : String} {e : Expr} (h : parse query = .ok e) :
    parse e.text = .ok e := by
  obtain ⟨d, hd, rfl⟩ := exists_derives_of_parse h
  have hplain := hd.plain
  rw [← String.toList_ofList (l := d.expr.chars)] at hplain
  exact hplain.parse.trans (congrArg _ (d.plain_expr []))

/-- What `a!b AND ( c = -007 )` says. -/
def unequalAndSeven : Expr :=
  .binary .and (.binary .notEqual (.name "a") (.name "b"))
    (.group (.binary .equal (.name "c") (.integer (-7))))

theorem parse_text_unequalAndSeven :
    parse "a!b AND ( c = -007 )" = .ok unequalAndSeven ∧
      unequalAndSeven.text = "a!=b and (c=-7)" ∧
      parse unequalAndSeven.text = .ok unequalAndSeven := by
  have h : parse "a!b AND ( c = -007 )" = .ok unequalAndSeven :=
    toOption_eq_some_iff.mp (by decide +kernel)
  exact ⟨h, by decide, parse_text h⟩

end EventStore.Query
