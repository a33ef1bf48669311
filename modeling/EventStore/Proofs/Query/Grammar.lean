import EventStore.Proofs.Query.Token

/-!
# The grammar of queries

A derivation shows how a query is put together: from words, quoted values and groups to chains of
operators, the loosest outside, with gaps between the tokens. `Derivation.Derives` says of which
text a derivation is one. No text has two (`Derivation.eq_of_derives`).
-/

namespace EventStore.Query

open Text

-- ---- derivations ---------------------------------------------------------

mutual

/-- With an operator, a chain of it; with `none` an operand. -/
inductive Derivation : Option Op → Type
  | group (gap : List Char) (inner : Derivation (some .or)) (closing : List Char) : Derivation none
  | quoted (gap value : List Char) : Derivation none
  | word (gap word : List Char) (meaning : Expr) : Derivation none
  | chain {op : Op} (first : Derivation op.tighter) (more : Links op) : Derivation (some op)

/-- The further operands of a chain, each after its sign. -/
inductive Links : Op → Type
  | nil {op : Op} : Links op
  | cons {op : Op} (gap sign : List Char) (right : Derivation op.tighter) (more : Links op) :
    Links op

end

mutual

def Derivation.text : Derivation level → List Char
  | .group gap inner closing => gap ++ '(' :: (inner.text ++ (closing ++ [')']))
  | .quoted gap value => gap ++ '"' :: (value ++ ['"'])
  | .word gap word _ => gap ++ word
  | .chain first more => first.text ++ more.text

def Links.text : Links op → List Char
  | .nil => []
  | .cons gap sign right more => gap ++ (sign ++ (right.text ++ more.text))

end

mutual

/-- The expression that is derived. Chains lean left. -/
def Derivation.expr : Derivation level → Expr
  | .group _ inner _ => .group inner.expr
  | .quoted _ value => .quoted (String.ofList value)
  | .word _ _ meaning => meaning
  | .chain first more => more.expr first.expr

def Links.expr : Links op → (left : Expr) → Expr
  | .nil, left => left
  | .cons _ _ right more, left => more.expr (.binary op left right.expr)

end

mutual

/-- All tokens are spelled as they have to be, in front of `rest`. -/
def Derivation.Spelled : Derivation level → (rest : List Char) → Prop
  | .group gap inner closing, rest =>
    IsGap gap ∧ inner.Spelled (closing ++ ')' :: rest) ∧ IsGap closing
  | .quoted gap value, _ => IsGap gap ∧ '"' ∉ value
  | .word gap word meaning, rest => IsGap gap ∧ Means word meaning ∧ EndsWord rest
  | .chain first more, rest => first.Spelled (more.text ++ rest) ∧ more.Spelled rest

def Links.Spelled : Links op → (rest : List Char) → Prop
  | .nil, _ => True
  | .cons gap sign right more, rest =>
    IsGap gap ∧ op.Spelled sign (right.text ++ (more.text ++ rest)) ∧
      right.Spelled (more.text ++ rest) ∧ more.Spelled rest

end

/-- `d` is a derivation of `s`, which may end in white space. -/
def Derivation.Derives (d : Derivation (some .or)) (s : List Char) : Prop :=
  ∃ trail, s = d.text ++ trail ∧ d.Spelled trail ∧ ∀ c ∈ trail, isBlank c = true

-- ---- where derivations begin and end -------------------------------------

variable {gap sign rest s r r' : List Char} {op : Op}

/-- After a gap, a derivation begins with a character that begins neither a gap nor a sign. -/
theorem Derivation.begins {level : Option Op} {rest : List Char} :
    (d : Derivation level) → d.Spelled rest →
    ∃ gap c t, d.text = gap ++ c :: t ∧ IsGap gap ∧ isBlank c = false ∧ c ≠ '='
  | .group gap _ _, h => ⟨gap, '(', _, rfl, h.1, by decide, by decide⟩
  | .quoted gap _, h => ⟨gap, '"', _, rfl, h.1, by decide, by decide⟩
  | .word gap _ _, h => by
    obtain ⟨c, cs, rfl, -, hc⟩ := h.2.1.begins
    refine ⟨gap, c, cs, rfl, h.1, ?_, ?_⟩
    · refine eq_false_of_ne_true fun hb => ?_
      rw [isNameChar_of_isBlank hb] at hc
      cases hc
    · rintro rfl
      exact absurd hc (by decide)
  | .chain first more, h => by
    obtain ⟨gap, c, t, ht, hb⟩ := first.begins h.1
    exact ⟨gap, c, t ++ more.text, by simp [text, ht], hb⟩

mutual

theorem Derivation.Spelled.congr {level : Option Op} {r r' : List Char} :
    {d : Derivation level} → d.Spelled r → (EndsWord r → EndsWord r') → d.Spelled r'
  | .group _ inner closing, h, _ =>
    ⟨h.1, h.2.1.congr (endsWord_append closing fun _ => endsWord_cons (by decide)), h.2.2⟩
  | .quoted .., h, _ => h
  | .word .., h, he => ⟨h.1, h.2.1, he h.2.2⟩
  | .chain first more, h, he => ⟨h.1.congr (endsWord_append more.text he), h.2.congr he⟩

theorem Links.Spelled.congr {op : Op} {r r' : List Char} :
    {m : Links op} → m.Spelled r → (EndsWord r → EndsWord r') → m.Spelled r'
  | .nil, _, _ => trivial
  | .cons _ _ right more, h, he =>
    have hmore := endsWord_append more.text he
    ⟨h.1, h.2.1.congr (endsWord_append right.text hmore), h.2.2.1.congr hmore, h.2.2.2.congr he⟩

end

theorem Derivation.ne_equal_cons {level : Option Op} {d : Derivation level} (h : d.Spelled rest) :
    ∀ t, d.text ++ s ≠ '=' :: t := by
  obtain ⟨gap, c, t, ht, hg, -, hc⟩ := d.begins h
  intro t' he
  rw [ht] at he
  cases gap with
  | nil => exact hc (List.cons.inj he).1
  | cons g gap =>
    have := hg g List.mem_cons_self
    rw [(List.cons.inj he).1] at this
    exact absurd this (by decide)

/-- No operator of a chain of this level or of a tighter one is read in front of `rest`. -/
def Stops (level : Option Op) (rest : List Char) : Prop :=
  ∀ op, Op.rank (some op) ≤ Op.rank level → op.strip? rest = none

theorem stops_of_isBlank {level : Option Op} (h : ∀ c ∈ s, isBlank c = true) : Stops level s := by
  refine fun op _ => Op.strip?_eq_none fun c hc => ?_
  have hb := h c ((List.dropWhile_sublist isGap).subset (List.mem_of_mem_head? hc))
  refine ⟨isNameChar_of_isBlank hb, ?_, ?_⟩ <;>
  · rintro rfl
    exact absurd hb (by decide)

theorem stops_closing {level : Option Op} (hg : IsGap gap) : Stops level (gap ++ ')' :: r) := by
  refine fun op _ => Op.strip?_eq_none ?_
  rw [skipGap_append hg (by decide)]
  rintro _ ⟨⟩
  decide

theorem Links.stops (m : Links op) (h : m.Spelled r) (hr : Stops (some op) r) :
    Stops op.tighter (m.text ++ r) := by
  intro op' hop
  have hlt := Nat.lt_of_le_of_lt hop op.rank_tighter
  cases m with
  | nil => exact hr op' (Nat.le_of_lt hlt)
  | cons gap sign right more =>
    -- The next sign is that of `op`, and the tighter operators have others.
    obtain ⟨hg, hs, -⟩ := h
    have hne : op' ≠ op := fun he => Nat.lt_irrefl _ (he ▸ hlt)
    simpa [text] using hs.strip?_eq_none hg hne

-- ---- no text has two derivations -----------------------------------------

theorem ne_quote_of_mem (h : '"' ∉ s) : ∀ c ∈ s, (c != '"') = true := by
  intro c hc
  refine bne_iff_ne.mpr ?_
  rintro rfl
  exact h hc

/-- The parenthesis or quote that an operand begins with. -/
def Derivation.opening : Derivation none → Option Char
  | .group .. => some '('
  | .quoted .. => some '"'
  | .word .. => none

theorem Derivation.opening_eq {d : Derivation none} (h : d.Spelled r) :
    d.opening = (skipGap (d.text ++ r)).head?.filter (!isNameChar ·) := by
  cases d with
  | group gap inner closing =>
    simp only [text, List.append_assoc, List.cons_append]
    rw [skipGap_append h.1 (by decide)]
    rfl
  | quoted gap value =>
    simp only [text, List.append_assoc, List.cons_append]
    rw [skipGap_append h.1 (by decide)]
    rfl
  | word gap word meaning =>
    obtain ⟨c, cs, rfl, hg, hc⟩ := h.2.1.begins
    simp only [text, List.append_assoc, List.cons_append]
    rw [skipGap_append h.1 hg]
    simp [opening, Option.filter, hc]

theorem Derivation.opening_unique {d d' : Derivation none} (h : d.Spelled r) (h' : d'.Spelled r')
    (he : d.text ++ r = d'.text ++ r') : d.opening = d'.opening := by
  rw [opening_eq h, opening_eq h', he]

theorem Links.strip?_cons {right : Derivation op.tighter} {more : Links op}
    (h : (Links.cons gap sign right more).Spelled r) :
    op.strip? ((Links.cons gap sign right more).text ++ r) =
      some (right.text ++ (more.text ++ r)) :=
  Op.strip?_eq_some_iff.mpr ⟨gap, sign, h.1, h.2.1, fun _ => Derivation.ne_equal_cons h.2.2.1,
    by simp [text]⟩

mutual

theorem Derivation.unique {level : Option Op} {r r' : List Char} :
    (d d' : Derivation level) → d.Spelled r → d'.Spelled r' → Stops level r → Stops level r' →
    d.text ++ r = d'.text ++ r' → d = d' ∧ r = r'
  | .chain first more, .chain first' more', h, h', hs, hs', he => by
    simp only [Derivation.text, List.append_assoc] at he
    obtain ⟨rfl, hmore⟩ :=
      first.unique first' h.1 h'.1 (more.stops h.2 hs) (more'.stops h'.2 hs') he
    obtain ⟨rfl, rfl⟩ := more.unique more' h.2 h'.2 hs hs' hmore
    exact ⟨rfl, rfl⟩
  | .group gap inner closing, .group gap' inner' closing', h, h', _, _, he => by
    simp only [Derivation.text, List.append_assoc, List.cons_append, List.nil_append] at he
    obtain ⟨rfl, -, hinner⟩ := span_unique h.1 h'.1 (by decide) (by decide) he
    obtain ⟨rfl, hclosing⟩ :=
      inner.unique inner' h.2.1 h'.2.1 (stops_closing h.2.2) (stops_closing h'.2.2) hinner
    obtain ⟨rfl, -, rfl⟩ := span_unique h.2.2 h'.2.2 (by decide) (by decide) hclosing
    exact ⟨rfl, rfl⟩
  | .quoted gap value, .quoted gap' value', h, h', _, _, he => by
    simp only [Derivation.text, List.append_assoc, List.cons_append, List.nil_append] at he
    obtain ⟨rfl, -, hvalue⟩ := span_unique h.1 h'.1 (by decide) (by decide) he
    obtain ⟨rfl, -, rfl⟩ :=
      span_unique (ne_quote_of_mem h.2) (ne_quote_of_mem h'.2) (by decide) (by decide) hvalue
    exact ⟨rfl, rfl⟩
  | .word gap word meaning, .word gap' word' meaning', h, h', _, _, he => by
    simp only [Derivation.text, List.append_assoc] at he
    obtain ⟨c, cs, rfl, hc⟩ := h.2.1.begins
    obtain ⟨c', cs', rfl, hc'⟩ := h'.2.1.begins
    obtain ⟨rfl, rfl, htail⟩ := span_unique h.1 h'.1 hc.1 hc'.1 he
    obtain ⟨hword, rfl⟩ :=
      word_unique h.2.1.isNameChar.2 h'.2.1.isNameChar.2 h.2.2 h'.2.2 (congrArg (c :: ·) htail)
    cases List.cons.inj hword |>.2
    cases h.2.1.unique h'.2.1
    exact ⟨rfl, rfl⟩
  -- What an operand opens with tells its kind.
  | .group .., .quoted .., h, h', _, _, he => nomatch Derivation.opening_unique h h' he
  | .group .., .word .., h, h', _, _, he => nomatch Derivation.opening_unique h h' he
  | .quoted .., .group .., h, h', _, _, he => nomatch Derivation.opening_unique h h' he
  | .quoted .., .word .., h, h', _, _, he => nomatch Derivation.opening_unique h h' he
  | .word .., .group .., h, h', _, _, he => nomatch Derivation.opening_unique h h' he
  | .word .., .quoted .., h, h', _, _, he => nomatch Derivation.opening_unique h h' he

theorem Links.unique {op : Op} {r r' : List Char} :
    (m m' : Links op) → m.Spelled r → m'.Spelled r' → Stops (some op) r → Stops (some op) r' →
    m.text ++ r = m'.text ++ r' → m = m' ∧ r = r'
  | .nil, .nil, _, _, _, _, he => ⟨rfl, he⟩
  | .nil, .cons .., _, h', hs, _, he =>
    nomatch (hs op (Nat.le_refl _)).symm.trans
      ((congrArg op.strip? he).trans (Links.strip?_cons h'))
  | .cons .., .nil, h, _, _, hs', he =>
    nomatch (hs' op (Nat.le_refl _)).symm.trans
      ((congrArg op.strip? he.symm).trans (Links.strip?_cons h))
  | .cons gap sign right more, .cons gap' sign' right' more', h, h', hs, hs', he => by
    simp only [Links.text, List.append_assoc] at he
    obtain ⟨c, cs, rfl, hc⟩ := h.2.1.head
    obtain ⟨c', cs', rfl, hc'⟩ := h'.2.1.head
    obtain ⟨rfl, rfl, htail⟩ := span_unique h.1 h'.1 hc hc' he
    obtain ⟨hsign, hright⟩ := h.2.1.unique h'.2.1 (Derivation.ne_equal_cons h.2.2.1)
      (Derivation.ne_equal_cons h'.2.2.1) (congrArg (c :: ·) htail)
    cases List.cons.inj hsign |>.2
    obtain ⟨rfl, hmore⟩ := right.unique right' h.2.2.1 h'.2.2.1 (more.stops h.2.2.2 hs)
      (more'.stops h'.2.2.2 hs') hright
    obtain ⟨rfl, rfl⟩ := more.unique more' h.2.2.2 h'.2.2.2 hs hs' hmore
    exact ⟨rfl, rfl⟩

end

theorem Derivation.eq_of_derives {d d' : Derivation (some .or)} (h : d.Derives s)
    (h' : d'.Derives s) : d = d' := by
  obtain ⟨trail, rfl, hs, hb⟩ := h
  obtain ⟨trail', he, hs', hb'⟩ := h'
  exact (d.unique d' hs hs' (stops_of_isBlank hb) (stops_of_isBlank hb') he).1

end EventStore.Query
