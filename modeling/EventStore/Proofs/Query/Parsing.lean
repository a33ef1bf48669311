import EventStore.Proofs.Query.Grammar
import Mathlib.Data.List.TakeWhile

/-!
# The reader reads the grammar

A query is read exactly when it has a derivation, as the expression that is derived. The equations
of the reader are stated for `Reads`, which leaves out that every rest is shorter; both directions
go through them.
-/

namespace EventStore.Query

open Text

/-- Reading at this level takes `e` off `s` and leaves `r`. -/
def Reads (level : Option Op) (s : List Char) (e : Expr) (r : List Char) : Prop :=
  ∃ h, readChain level s = .ok (e, ⟨r, h⟩)

def ReadsMore (op : Op) (left : Expr) (s : List Char) (e : Expr) (r : List Char) : Prop :=
  ∃ h, readMore op left s = .ok (e, ⟨r, h⟩)

variable {s r t : List Char} {e left : Expr} {op : Op} {level : Option Op}

-- ---- the equations of the reader -----------------------------------------

theorem Reads.shorter (h : Reads level s e r) : r.length < s.length := h.1

theorem reads_chain_iff : Reads (some op) s e r ↔
    ∃ first r₁, Reads op.tighter s first r₁ ∧ ReadsMore op first r₁ e r := by
  unfold Reads ReadsMore
  rw [readChain]
  constructor
  · rintro ⟨h, he⟩
    split at he
    · cases he
    · next first r₁ h₁ hfirst =>
      split at he
      · cases he
      · next e' r₂ h₂ hmore =>
        cases he
        exact ⟨first, r₁, ⟨h₁, hfirst⟩, h₂, hmore⟩
  · rintro ⟨first, r₁, ⟨h₁, hfirst⟩, h₂, hmore⟩
    refine ⟨Nat.lt_of_le_of_lt h₂ h₁, ?_⟩
    simp only [hfirst, hmore]

theorem readsMore_iff : ReadsMore op left s e r ↔
    op.strip? s = none ∧ left = e ∧ s = r ∨
      ∃ r₀ right r₁, op.strip? s = some r₀ ∧ Reads op.tighter r₀ right r₁ ∧
        ReadsMore op (.binary op left right) r₁ e r := by
  unfold Reads ReadsMore
  rw [readMore]
  constructor
  · rintro ⟨h, he⟩
    split at he
    · next hs =>
      cases he
      exact .inl ⟨hs, rfl, rfl⟩
    · next r₀ hs =>
      dsimp only at he
      split at he
      · cases he
      · next right r₁ h₁ hright =>
        split at he
        · cases he
        · next e' r₂ h₂ hmore =>
          cases he
          exact .inr ⟨r₀, right, r₁, hs, ⟨h₁, hright⟩, h₂, hmore⟩
  · rintro (⟨hs, rfl, rfl⟩ | ⟨r₀, right, r₁, hs, ⟨h₁, hright⟩, h₂, hmore⟩)
    · refine ⟨Nat.le_refl _, ?_⟩
      split
      · rfl
      · next hs' => cases hs.symm.trans hs'
    · have := Op.strip?_shorter hs
      have := h₁
      have := h₂
      refine ⟨by omega, ?_⟩
      split
      · next hs' => cases hs.symm.trans hs'
      · next hs' =>
        cases hs.symm.trans hs'
        simp only [hright, hmore]

theorem dropWhile_ne_quote {value : List Char} (h : '"' ∉ value) :
    (value ++ '"' :: r).takeWhile (· != '"') = value ∧
      (value ++ '"' :: r).dropWhile (· != '"') = '"' :: r := by
  rw [List.takeWhile_append_of_pos (ne_quote_of_mem h),
    List.dropWhile_append_of_pos (ne_quote_of_mem h)]
  simp

theorem dropWhile_ne_quote_eq_nil_iff : s.dropWhile (· != '"') = [] ↔ '"' ∉ s := by
  rw [List.dropWhile_eq_nil_iff]
  exact ⟨fun h hm => absurd (h _ hm) (by decide), ne_quote_of_mem⟩

theorem reads_group_iff (hs : skipGap s = '(' :: t) : Reads none s e r ↔
    ∃ inner r₁, Reads (some .or) t inner r₁ ∧ skipGap r₁ = ')' :: r ∧ .group inner = e := by
  unfold Reads
  rw [readChain, readOperand]
  constructor
  · rintro ⟨h, he⟩
    split at he
    · next t' hs' =>
      cases hs.symm.trans hs'
      split at he
      · cases he
      · next inner r₁ h₁ hinner =>
        split at he
        · next r₂ hr =>
          cases he
          exact ⟨inner, r₁, ⟨h₁, hinner⟩, hr, rfl⟩
        · cases he
    · next hs' => cases hs.symm.trans hs'
    · next hp _ => exact absurd hs (hp t)
  · rintro ⟨inner, r₁, ⟨h₁, hinner⟩, hr, rfl⟩
    have hl := length_skipGap_le s
    have hl₁ := length_skipGap_le r₁
    rw [hs] at hl
    rw [hr] at hl₁
    simp only [List.length_cons] at hl hl₁
    refine ⟨by omega, ?_⟩
    split
    · next t' hs' =>
      cases hs.symm.trans hs'
      simp only [hinner]
      split
      · next r₂ hr' =>
        cases hr.symm.trans hr'
        rfl
      · next hne => exact absurd hr (hne r)
    · next hs' => cases hs.symm.trans hs'
    · next hp _ => exact absurd hs (hp t)

theorem reads_quoted_iff (hs : skipGap s = '"' :: t) : Reads none s e r ↔
    ∃ value, t = value ++ '"' :: r ∧ '"' ∉ value ∧ .quoted (String.ofList value) = e := by
  unfold Reads
  rw [readChain, readOperand]
  constructor
  · rintro ⟨h, he⟩
    split at he
    · next hs' => cases hs.symm.trans hs'
    · next t' hs' =>
      cases hs.symm.trans hs'
      split at he
      · next c r₁ hr =>
        cases he
        have hhead := List.head?_dropWhile_not (· != '"') t
        rw [hr] at hhead
        obtain rfl : c = '"' := by simpa using hhead
        refine ⟨_, ?_, fun hq => ?_, rfl⟩
        · rw [← hr, List.takeWhile_append_dropWhile]
        · simpa using List.all_eq_true.mp List.all_takeWhile _ hq
      · cases he
    · next hq => exact absurd hs (hq t)
  · rintro ⟨value, rfl, hv, rfl⟩
    have hl := length_skipGap_le s
    rw [hs] at hl
    simp only [List.length_cons, List.length_append] at hl
    refine ⟨by omega, ?_⟩
    split
    · next hs' => cases hs.symm.trans hs'
    · next t' hs' =>
      cases hs.symm.trans hs'
      obtain ⟨htake, hdrop⟩ := dropWhile_ne_quote (r := r) hv
      split
      · next hr =>
        cases hdrop.symm.trans hr
        simp only [htake]
      · next hr => cases hdrop.symm.trans hr
    · next _ hq => exact absurd hs (hq _)

theorem reads_word_iff (hp : ∀ t, skipGap s ≠ '(' :: t) (hq : ∀ t, skipGap s ≠ '"' :: t) :
    Reads none s e r ↔ ∃ word, skipGap s = word ++ r ∧ Means word e ∧ EndsWord r := by
  have hall : ∀ c ∈ (skipGap s).takeWhile isNameChar, isNameChar c = true :=
    List.all_eq_true.mp List.all_takeWhile
  unfold Reads
  rw [readChain, readOperand]
  constructor
  · rintro ⟨h, he⟩
    split at he
    · next t hs => exact absurd hs (hp t)
    · next t hs => exact absurd hs (hq t)
    · split at he
      · next e' hw =>
        cases he
        exact ⟨_, List.takeWhile_append_dropWhile.symm, (ofWord?_eq_some_iff hall).mp hw,
          endsWord_dropWhile _⟩
      · cases he
  · rintro ⟨word, hs, hw, he⟩
    obtain ⟨hne, hname⟩ := hw.isNameChar
    have htake : (skipGap s).takeWhile isNameChar = word := hs ▸ takeWhile_word hname he
    have hdrop : (skipGap s).dropWhile isNameChar = r := hs ▸ dropWhile_word hname he
    have hl := length_skipGap_le s
    have := List.length_pos_iff.mpr hne
    rw [hs, List.length_append] at hl
    refine ⟨by omega, ?_⟩
    split
    · next t hs => exact absurd hs (hp t)
    · next t hs => exact absurd hs (hq t)
    · have hword := (ofWord?_eq_some_iff hname).mpr hw
      rw [← htake] at hword
      split
      · next hw' =>
        cases hword.symm.trans hw'
        simp only [hdrop]
      · next hw' => cases hword.symm.trans hw'

-- ---- what is derived is read ---------------------------------------------

mutual

theorem Derivation.reads {level : Option Op} {r : List Char} : (d : Derivation level) →
    d.Spelled r → Stops level r → Reads level (d.text ++ r) d.expr r
  | .chain first more, h, hs => by
    rw [Derivation.text, List.append_assoc]
    exact reads_chain_iff.mpr ⟨_, _, first.reads h.1 (more.stops h.2 hs), more.reads h.2 hs _⟩
  | .group gap inner closing, h, _ => by
    have hinner := inner.reads h.2.1 (stops_closing h.2.2)
    have hs := skipGap_append h.1 (c := '(') (by decide) (inner.text ++ (closing ++ ')' :: r))
    simp only [Derivation.text, List.append_assoc, List.cons_append, List.nil_append]
    exact (reads_group_iff hs).mpr ⟨_, _, hinner, skipGap_append h.2.2 (by decide) r, rfl⟩
  | .quoted gap value, h, _ => by
    have hs := skipGap_append h.1 (c := '"') (by decide) (value ++ '"' :: r)
    simp only [Derivation.text, List.append_assoc, List.cons_append, List.nil_append]
    exact (reads_quoted_iff hs).mpr ⟨value, rfl, h.2, rfl⟩
  | .word gap word meaning, h, _ => by
    obtain ⟨c, cs, rfl, hg, hc⟩ := h.2.1.begins
    have hs := skipGap_append h.1 hg (cs ++ r)
    have hne {d : Char} (hd : isNameChar d = false) (t : List Char) :
        skipGap (gap ++ c :: (cs ++ r)) ≠ d :: t := by
      intro he
      cases (List.cons.inj (hs.symm.trans he)).1
      cases hc.symm.trans hd
    simp only [Derivation.text, List.append_assoc, List.cons_append]
    exact (reads_word_iff (hne (by decide)) (hne (by decide))).mpr ⟨_, hs, h.2⟩

theorem Links.reads {op : Op} {r : List Char} : (m : Links op) →
    m.Spelled r → Stops (some op) r → ∀ left, ReadsMore op left (m.text ++ r) (m.expr left) r
  | .nil, _, hs, _ => readsMore_iff.mpr (.inl ⟨hs op (Nat.le_refl _), rfl, rfl⟩)
  | .cons _ _ right more, h, hs, _ =>
    readsMore_iff.mpr (.inr ⟨_, _, _, Links.strip?_cons h,
      right.reads h.2.2.1 (more.stops h.2.2.2 hs), more.reads h.2.2.2 hs _⟩)

end

-- ---- what is read is derived ---------------------------------------------

theorem exists_gap (h : skipGap s = t) : ∃ gap, IsGap gap ∧ s = gap ++ t :=
  ⟨s.takeWhile isGap, List.all_eq_true.mp List.all_takeWhile,
    h ▸ List.takeWhile_append_dropWhile.symm⟩

mutual

theorem Reads.exists_derivation {level : Option Op} {s r : List Char} {e : Expr}
    (h : Reads level s e r) :
    ∃ d : Derivation level, s = d.text ++ r ∧ d.Spelled r ∧ d.expr = e := by
  match level with
  | some op =>
    obtain ⟨first, r₁, hfirst, hmore⟩ := reads_chain_iff.mp h
    have := hfirst.shorter
    have := op.rank_tighter
    obtain ⟨d, rfl, hd, rfl⟩ := hfirst.exists_derivation
    obtain ⟨m, rfl, hm, rfl⟩ := hmore.exists_links
    exact ⟨.chain d m, (List.append_assoc ..).symm, ⟨hd, hm⟩, rfl⟩
  | none =>
    by_cases hp : ∃ t, skipGap s = '(' :: t
    · obtain ⟨t, ht⟩ := hp
      obtain ⟨inner, r₁, hinner, hr, rfl⟩ := (reads_group_iff ht).mp h
      have hlen : t.length < s.length := by
        have := length_skipGap_le s
        rwa [ht] at this
      obtain ⟨gap, hg, rfl⟩ := exists_gap ht
      obtain ⟨d, rfl, hd, rfl⟩ := hinner.exists_derivation
      obtain ⟨closing, hc, rfl⟩ := exists_gap hr
      exact ⟨.group gap d closing, by simp [Derivation.text], ⟨hg, hd, hc⟩, rfl⟩
    · by_cases hq : ∃ t, skipGap s = '"' :: t
      · obtain ⟨t, ht⟩ := hq
        obtain ⟨value, rfl, hv, rfl⟩ := (reads_quoted_iff ht).mp h
        obtain ⟨gap, hg, rfl⟩ := exists_gap ht
        exact ⟨.quoted gap value, by simp [Derivation.text], ⟨hg, hv⟩, rfl⟩
      · obtain ⟨word, hw, hm, he⟩ :=
          (reads_word_iff (fun t ht => hp ⟨t, ht⟩) (fun t ht => hq ⟨t, ht⟩)).mp h
        obtain ⟨gap, hg, rfl⟩ := exists_gap hw
        exact ⟨.word gap word e, by simp [Derivation.text], ⟨hg, hm, he⟩, rfl⟩
-- Reading an operand of a chain takes nothing off the text, but its level is a tighter one.
termination_by 6 * s.length + Op.rank level
decreasing_by
  · omega
  · omega
  · have : Op.rank (some .or) < Op.rank none + 6 := by decide
    omega

theorem ReadsMore.exists_links {op : Op} {left e : Expr} {s r : List Char}
    (h : ReadsMore op left s e r) :
    ∃ m : Links op, s = m.text ++ r ∧ m.Spelled r ∧ m.expr left = e := by
  obtain ⟨-, rfl, rfl⟩ | ⟨r₀, right, r₁, hs, hright, hmore⟩ := readsMore_iff.mp h
  · exact ⟨.nil, rfl, trivial, rfl⟩
  · have := Op.strip?_shorter hs
    have := hright.shorter
    have : Op.rank op.tighter ≤ 5 := by cases op <;> decide
    obtain ⟨d, rfl, hd, rfl⟩ := hright.exists_derivation
    obtain ⟨m, rfl, hm, rfl⟩ := hmore.exists_links
    obtain ⟨gap, sign, hg, hsign, -, rfl⟩ := Op.strip?_eq_some_iff.mp hs
    exact ⟨.cons gap sign d m, by simp [Links.text], ⟨hg, hsign, hd, hm⟩, rfl⟩
termination_by 6 * s.length

end

-- ---- whole queries -------------------------------------------------------

theorem parse_eq_ok_iff_reads {query : String} :
    parse query = .ok e ↔ ∃ r, Reads (some .or) query.toList e r ∧ ∀ c ∈ r, isBlank c = true := by
  have hnil {r : List Char} : (dropBlanks r).isEmpty = true ↔ ∀ c ∈ r, isBlank c = true := by
    rw [List.isEmpty_iff, dropBlanks_eq_nil_iff, List.all_eq_true]
  simp only [parse]
  constructor
  · intro h
    split at h
    · cases h
    · split at h
      · cases h
      · next e' r hreads =>
        split at h
        · next hr =>
          cases h
          exact ⟨r.1, ⟨r.2, hreads⟩, hnil.mp hr⟩
        · cases h
  · rintro ⟨r, hreads, hb⟩
    obtain ⟨d, hs, hd, -⟩ := hreads.exists_derivation
    obtain ⟨gap, c, t, ht, -, hc, -⟩ := d.begins hd
    have hall : ¬query.toList.all isBlank = true := by
      rw [hs, ht, List.all_eq_true]
      exact fun h => absurd (h c (by simp)) (Bool.eq_false_iff.mp hc)
    obtain ⟨_, hok⟩ := hreads
    simp only [if_neg hall, hok, if_pos (hnil.mpr hb)]

theorem Derivation.Derives.parse {d : Derivation (some .or)} {query : String}
    (h : d.Derives query.toList) : parse query = .ok d.expr := by
  obtain ⟨trail, hs, hd, hb⟩ := h
  exact parse_eq_ok_iff_reads.mpr ⟨trail, hs ▸ d.reads hd (stops_of_isBlank hb), hb⟩

theorem exists_derives_of_parse {query : String} (h : parse query = .ok e) :
    ∃ d : Derivation (some .or), d.Derives query.toList ∧ d.expr = e := by
  obtain ⟨trail, hreads, hb⟩ := parse_eq_ok_iff_reads.mp h
  obtain ⟨d, hs, hd, he⟩ := hreads.exists_derivation
  exact ⟨d, ⟨trail, hs, hd, hb⟩, he⟩

/-- A query is read as `e` just when it has a derivation of `e`. It has at most one derivation. -/
theorem parse_eq_ok_iff (query : String) :
    (∀ e, parse query = .ok e ↔
        ∃ d : Derivation (some .or), d.Derives query.toList ∧ d.expr = e) ∧
      Subsingleton { d : Derivation (some .or) // d.Derives query.toList } := by
  refine ⟨fun e => ⟨exists_derives_of_parse, ?_⟩,
    ⟨fun d d' => Subtype.ext (Derivation.eq_of_derives d.2 d'.2)⟩⟩
  rintro ⟨d, hd, rfl⟩
  exact hd.parse

end EventStore.Query
