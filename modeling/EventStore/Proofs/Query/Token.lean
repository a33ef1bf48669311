import EventStore.Proofs.Results
import EventStore.Proofs.Text.Number
import EventStore.Query.Parser

/-!
# The tokens of queries

Gaps, words and operator signs, and what stands between one token and the next. For each, what the
reader takes off a text is what is spelled there: `Op.strip?_eq_some_iff`, `ofWord?_eq_some_iff`.
-/

namespace EventStore.Query

open Text

-- ---- characters ----------------------------------------------------------

theorem isBlank_of_isGap {c : Char} (h : isGap c = true) : isBlank c = true := by
  simp only [isGap, Bool.or_eq_true, beq_iff_eq] at h
  rcases h with ((rfl | rfl) | rfl) | rfl <;> decide

theorem isNameChar_of_isBlank {c : Char} (h : isBlank c = true) : isNameChar c = false := by
  simp [isNameChar, h]

theorem isGap_of_isNameChar {c : Char} (h : isNameChar c = true) : isGap c = false := by
  refine eq_false_of_ne_true fun hg => ?_
  rw [isNameChar_of_isBlank (isBlank_of_isGap hg)] at h
  cases h

theorem isNameChar_of_toNat {c : Char} (h : 42 ≤ c.toNat) (h' : c.toNat ≤ 126) (hne : c ≠ '=') :
    isNameChar c = true := by
  have hb : isBlank c = false := by
    simp only [isBlank, Bool.or_eq_false_iff, Bool.and_eq_false_iff, decide_eq_false_iff_not,
      beq_eq_false_iff_ne]
    omega
  have hc {d : Char} (hd : d.toNat < 42) : c ≠ d := by
    rintro rfl
    omega
  simp [isNameChar, hb, hne, hc (d := '(') (by decide), hc (d := ')') (by decide),
    hc (d := '"') (by decide), hc (d := '!') (by decide)]

theorem isNameChar_of_isDigit {c : Char} (h : c.isDigit = true) : isNameChar c = true := by
  have h : 48 ≤ c.toNat ∧ c.toNat ≤ 57 := Char.isDigit_iff_toNat.mp h
  refine isNameChar_of_toNat (by omega) (by omega) ?_
  rintro rfl
  exact absurd h (by decide)

theorem toLower_cases (c : Char) :
    c.toLower = c ∨ 65 ≤ c.toNat ∧ c.toNat ≤ 90 ∧ c.toLower.toNat = c.toNat + 32 := by
  unfold Char.toLower
  split
  · next h =>
    have h : 65 ≤ c.toNat ∧ c.toNat ≤ 90 := h
    refine .inr ⟨h.1, h.2, ?_⟩
    show (c.val + 32).toNat = c.val.toNat + 32
    have : c.val.toNat ≤ 90 := h.2
    rw [UInt32.toNat_add, Nat.mod_eq_of_lt]
    · rfl
    · show c.val.toNat + 32 < 4294967296
      omega
  · exact .inl rfl

theorem isNameChar_toLower (c : Char) : isNameChar c.toLower = isNameChar c := by
  rcases toLower_cases c with h | ⟨h₁, h₂, h⟩
  · rw [h]
  · have hne {d : Char} (hd : 65 ≤ d.toNat) : d ≠ '=' := by
      rintro rfl
      exact absurd hd (by decide)
    rw [isNameChar_of_toNat (by omega) (by omega) (hne (by omega)),
      isNameChar_of_toNat (by omega) (by omega) (hne h₁)]

-- ---- words ---------------------------------------------------------------

def IsGap (gap : List Char) : Prop := ∀ c ∈ gap, isGap c = true

/-- A word can end in front of `rest`. -/
def EndsWord (rest : List Char) : Prop := ∀ c ∈ rest.head?, isNameChar c = false

/-- Digits, perhaps after a minus sign, for an integer of 64 bits. -/
def SpellsInteger (word : List Char) (n : Int) : Prop :=
  ∃ negative digits, digits ≠ [] ∧ (∀ c ∈ digits, c.isDigit = true) ∧
    word = signed negative digits ∧ n = integer negative digits ∧ minInt64 ≤ n ∧ n ≤ maxInt64

def SpellsNull (word : List Char) : Prop := word.map Char.toLower = ['n', 'u', 'l', 'l']

/-- What a word stands for in an operand's place. -/
inductive Means : (word : List Char) → Expr → Prop
  | integer (h : SpellsInteger word n) : Means word (.integer n)
  | null (h : SpellsNull word) : Means word .null
  | name (hw : word ≠ []) (hc : ∀ c ∈ word, isNameChar c = true)
    (hd : ∀ c ∈ word.head?, c.isDigit = false) (hi : ∀ n, ¬SpellsInteger word n)
    (hn : ¬SpellsNull word) : Means word (.name (String.ofList word))

/-- The sign stands for the operator in front of `rest`. -/
def Op.Spelled : Op → (sign rest : List Char) → Prop
  | .or, sign, rest => sign.map Char.toLower = ['o', 'r'] ∧ EndsWord rest
  | .and, sign, rest => sign.map Char.toLower = ['a', 'n', 'd'] ∧ EndsWord rest
  | .notEqual, sign, _ => sign = ['!', '='] ∨ sign = ['!']
  | .equal, sign, _ => sign = ['=']

-- ---- where tokens end ----------------------------------------------------

variable {gap gap' sign sign' word word' rest rest' s s' r r' : List Char} {op op' : Op}

theorem skipGap_append {c : Char} (hg : IsGap gap) (hc : isGap c = false) (r : List Char) :
    skipGap (gap ++ c :: r) = c :: r := by
  rw [skipGap, List.dropWhile_append_of_pos hg]
  simp [hc]

theorem takeWhile_word (hw : ∀ c ∈ word, isNameChar c = true) (he : EndsWord rest) :
    (word ++ rest).takeWhile isNameChar = word := by
  rw [List.takeWhile_append_of_pos hw]
  cases rest with
  | nil => simp
  | cons c rest => simp [he c rfl]

theorem dropWhile_word (hw : ∀ c ∈ word, isNameChar c = true) (he : EndsWord rest) :
    (word ++ rest).dropWhile isNameChar = rest := by
  rw [List.dropWhile_append_of_pos hw]
  cases rest with
  | nil => rfl
  | cons c rest => simp [he c rfl]

theorem endsWord_dropWhile (s : List Char) : EndsWord (s.dropWhile isNameChar) := by
  intro c hc
  have := List.head?_dropWhile_not isNameChar s
  rwa [Option.mem_def.mp hc] at this

theorem endsWord_cons {c : Char} (hc : isNameChar c = false) : EndsWord (c :: r) := by
  rintro _ ⟨⟩
  exact hc

theorem endsWord_append_of_isBlank (hg : ∀ c ∈ gap, isBlank c = true) (h : EndsWord r) :
    EndsWord (gap ++ r) := by
  cases gap with
  | nil => exact h
  | cons c gap => exact endsWord_cons (isNameChar_of_isBlank (hg c List.mem_cons_self))

theorem endsWord_append (s : List Char) (h : EndsWord r → EndsWord r') :
    EndsWord (s ++ r) → EndsWord (s ++ r') := by
  cases s with
  | nil => exact h
  | cons c s => exact fun hc => endsWord_cons (hc c rfl)

theorem span_unique {p : Char → Bool} {c c' : Char} (hs : ∀ d ∈ s, p d = true)
    (hs' : ∀ d ∈ s', p d = true) (hc : p c = false) (hc' : p c' = false)
    (h : s ++ c :: r = s' ++ c' :: r') : s = s' ∧ c = c' ∧ r = r' := by
  have he := congrArg (List.takeWhile p) h
  rw [List.takeWhile_append_of_pos hs, List.takeWhile_append_of_pos hs'] at he
  simp only [List.takeWhile_cons, hc, hc', Bool.false_eq_true, if_false, List.append_nil] at he
  subst he
  cases List.append_cancel_left h
  exact ⟨rfl, rfl, rfl⟩

theorem word_unique (hw : ∀ c ∈ word, isNameChar c = true) (hw' : ∀ c ∈ word', isNameChar c = true)
    (he : EndsWord rest) (he' : EndsWord rest') (h : word ++ rest = word' ++ rest') :
    word = word' ∧ rest = rest' := by
  have hword := congrArg (List.takeWhile isNameChar) h
  rw [takeWhile_word hw he, takeWhile_word hw' he'] at hword
  subst hword
  exact ⟨rfl, List.append_cancel_left h⟩

-- ---- operators -----------------------------------------------------------

theorem isNameChar_of_map_toLower (hw : ∀ c ∈ word, isNameChar c = true)
    (h : sign.map Char.toLower = word) : ∀ c ∈ sign, isNameChar c = true := by
  intro c hc
  rw [← isNameChar_toLower]
  exact hw _ (h ▸ List.mem_map_of_mem hc)

theorem keyword?_eq_some_iff (hw : ∀ c ∈ word, isNameChar c = true) :
    keyword? word s = some r ↔
      ∃ sign, sign.map Char.toLower = word ∧ EndsWord r ∧ s = sign ++ r := by
  constructor
  · intro h
    unfold keyword? at h
    split at h
    · next hl =>
      cases h
      exact ⟨_, hl, endsWord_dropWhile s, List.takeWhile_append_dropWhile.symm⟩
    · cases h
  · rintro ⟨sign, hl, he, rfl⟩
    have hs := isNameChar_of_map_toLower hw hl
    rw [keyword?, takeWhile_word hs he, dropWhile_word hs he, if_pos hl]

theorem isNameChar_or : ∀ c ∈ ['o', 'r'], isNameChar c = true := List.all_eq_true.mp rfl

theorem isNameChar_and : ∀ c ∈ ['a', 'n', 'd'], isNameChar c = true := List.all_eq_true.mp rfl

theorem isNameChar_null : ∀ c ∈ ['n', 'u', 'l', 'l'], isNameChar c = true := List.all_eq_true.mp rfl

theorem Op.Spelled.head (h : op.Spelled sign rest) : ∃ c cs, sign = c :: cs ∧ isGap c = false := by
  have hword {word : List Char} (hw : ∀ c ∈ word, isNameChar c = true) (hne : word ≠ [])
      (h : sign.map Char.toLower = word) : ∃ c cs, sign = c :: cs ∧ isGap c = false := by
    obtain ⟨c, cs, rfl⟩ := List.exists_cons_of_ne_nil (l := sign) (by rintro rfl; exact hne h.symm)
    exact ⟨c, cs, rfl, isGap_of_isNameChar (isNameChar_of_map_toLower hw h c List.mem_cons_self)⟩
  cases op with
  | or => exact hword isNameChar_or (by simp) h.1
  | and => exact hword isNameChar_and (by simp) h.1
  | notEqual =>
    rcases h with rfl | rfl
    · exact ⟨_, _, rfl, by decide⟩
    · exact ⟨_, _, rfl, by decide⟩
  | equal => exact ⟨_, _, h, by decide⟩

theorem Op.Spelled.congr (h : op.Spelled sign r) (he : EndsWord r → EndsWord r') :
    op.Spelled sign r' := by
  cases op with
  | or | and => exact ⟨h.1, he h.2⟩
  | notEqual | equal => exact h

theorem Op.strip?_eq_some_iff : op.strip? s = some r ↔ ∃ gap sign, IsGap gap ∧ op.Spelled sign r ∧
    (sign = ['!'] → ∀ t, r ≠ '=' :: t) ∧ s = gap ++ (sign ++ r) := by
  constructor
  · intro h
    have hg : IsGap (s.takeWhile isGap) := fun c hc => List.all_eq_true.mp List.all_takeWhile c hc
    have hs : s.takeWhile isGap ++ skipGap s = s := List.takeWhile_append_dropWhile
    suffices hsign : ∃ sign, op.Spelled sign r ∧ (sign = ['!'] → ∀ t, r ≠ '=' :: t) ∧
        skipGap s = sign ++ r by
      obtain ⟨sign, hsp, hne, hskip⟩ := hsign
      exact ⟨_, sign, hg, hsp, hne, hskip ▸ hs.symm⟩
    clear hg hs
    unfold Op.strip? at h
    split at h
    · obtain ⟨sign, hl, he, hskip⟩ := (keyword?_eq_some_iff isNameChar_or).mp h
      exact ⟨sign, ⟨hl, he⟩, (by rintro rfl; cases hl), hskip⟩
    · obtain ⟨sign, hl, he, hskip⟩ := (keyword?_eq_some_iff isNameChar_and).mp h
      exact ⟨sign, ⟨hl, he⟩, (by rintro rfl; cases hl), hskip⟩
    · next hskip =>
      cases h
      exact ⟨_, .inl rfl, nofun, hskip⟩
    · next hne hskip =>
      cases h
      exact ⟨_, .inr rfl, fun _ => hne, hskip⟩
    · next hskip =>
      cases h
      exact ⟨_, rfl, nofun, hskip⟩
    · cases h
  · rintro ⟨gap, sign, hg, hsp, hne, rfl⟩
    obtain ⟨c, cs, rfl, hc⟩ := hsp.head
    unfold Op.strip?
    rw [List.cons_append, skipGap_append hg hc, ← List.cons_append]
    cases op with
    | or => exact (keyword?_eq_some_iff isNameChar_or).mpr ⟨_, hsp.1, hsp.2, rfl⟩
    | and => exact (keyword?_eq_some_iff isNameChar_and).mpr ⟨_, hsp.1, hsp.2, rfl⟩
    | notEqual =>
      rcases hsp with hsp | hsp <;> cases hsp
      · rfl
      -- A mere `!` is not the beginning of `!=`.
      · cases r with
        | nil => rfl
        | cons c r =>
          have hc : c ≠ '=' := fun hc => hne rfl r (hc ▸ rfl)
          simp [hc]
    | equal =>
      cases hsp
      rfl

theorem Op.strip?_eq_none
    (h : ∀ c ∈ (skipGap s).head?, isNameChar c = false ∧ c ≠ '!' ∧ c ≠ '=') :
    op.strip? s = none := by
  unfold Op.strip?
  generalize skipGap s = t at h
  cases t with
  | nil => cases op <;> rfl
  | cons c t =>
    obtain ⟨hc, hn, he⟩ := h c rfl
    cases op <;> simp [keyword?, hc, hn, he]

/-- The operator whose sign `s` begins with after a gap. -/
def Op.leading? (s : List Char) : Option Op :=
  match skipGap s with
  | '!' :: _ => some .notEqual
  | '=' :: _ => some .equal
  | t =>
    if (t.takeWhile isNameChar).map Char.toLower = ['o', 'r'] then some .or
    else if (t.takeWhile isNameChar).map Char.toLower = ['a', 'n', 'd'] then some .and
    else none

theorem Op.Spelled.leading? (h : op.Spelled sign rest) (hg : IsGap gap) :
    Op.leading? (gap ++ (sign ++ rest)) = some op := by
  obtain ⟨c, cs, rfl, hc⟩ := h.head
  have hskip : skipGap (gap ++ (c :: cs ++ rest)) = c :: (cs ++ rest) := skipGap_append hg hc _
  have hword {word : List Char} (hw : ∀ c ∈ word, isNameChar c = true)
      (h : (c :: cs).map Char.toLower = word ∧ EndsWord rest) :
      c ≠ '!' ∧ c ≠ '=' ∧ ((c :: (cs ++ rest)).takeWhile isNameChar).map Char.toLower = word := by
    have hn := isNameChar_of_map_toLower hw h.1
    have hc := hn c List.mem_cons_self
    refine ⟨?_, ?_, (congrArg _ (takeWhile_word hn h.2)).trans h.1⟩ <;>
    · rintro rfl
      exact absurd hc (by decide)
  unfold Op.leading?
  rw [hskip]
  cases op with
  | or =>
    obtain ⟨hn, he, hw⟩ := hword isNameChar_or h
    simp [hn, he, hw]
  | and =>
    obtain ⟨hn, he, hw⟩ := hword isNameChar_and h
    simp [hn, he, hw]
  | notEqual => rcases h with h | h <;> cases h <;> rfl
  | equal =>
    cases h
    rfl

theorem Op.Spelled.strip?_eq_none (h : op.Spelled sign rest) (hg : IsGap gap) (hne : op' ≠ op) :
    op'.strip? (gap ++ (sign ++ rest)) = none := by
  refine Option.eq_none_iff_forall_ne_some.mpr fun r hr => ?_
  obtain ⟨gap', sign', hg', h', -, he⟩ := Op.strip?_eq_some_iff.mp hr
  exact hne (Option.some.inj ((h'.leading? hg').symm.trans (he ▸ h.leading? hg)))

theorem Op.Spelled.unique (h : op.Spelled sign rest) (h' : op.Spelled sign' rest')
    (hr : ∀ t, rest ≠ '=' :: t) (hr' : ∀ t, rest' ≠ '=' :: t)
    (he : sign ++ rest = sign' ++ rest') : sign = sign' ∧ rest = rest' := by
  cases op with
  | or =>
    exact word_unique (isNameChar_of_map_toLower isNameChar_or h.1)
      (isNameChar_of_map_toLower isNameChar_or h'.1) h.2 h'.2 he
  | and =>
    exact word_unique (isNameChar_of_map_toLower isNameChar_and h.1)
      (isNameChar_of_map_toLower isNameChar_and h'.1) h.2 h'.2 he
  | notEqual =>
    rcases h with rfl | rfl <;> rcases h' with rfl | rfl
    · exact ⟨rfl, List.append_cancel_left he⟩
    · exact absurd (List.cons.inj he).2.symm (hr' _)
    · exact absurd (List.cons.inj he).2 (hr _)
    · exact ⟨rfl, List.append_cancel_left he⟩
  | equal =>
    cases h
    cases h'
    exact ⟨rfl, List.append_cancel_left he⟩

-- ---- operands ------------------------------------------------------------

theorem SpellsInteger.isNameChar {n : Int} (h : SpellsInteger word n) :
    word ≠ [] ∧ ∀ c ∈ word, isNameChar c = true := by
  obtain ⟨negative, digits, hne, hd, rfl, -⟩ := h
  have hd : ∀ c ∈ digits, Query.isNameChar c = true := fun c hc => isNameChar_of_isDigit (hd c hc)
  cases negative with
  | true => exact ⟨by simp [signed], List.forall_mem_cons.mpr ⟨by decide, hd⟩⟩
  | false => exact ⟨by simpa [signed], hd⟩

theorem Means.isNameChar {e : Expr} (h : Means word e) :
    word ≠ [] ∧ ∀ c ∈ word, isNameChar c = true := by
  cases h with
  | integer h => exact h.isNameChar
  | null h =>
    refine ⟨?_, isNameChar_of_map_toLower isNameChar_null h⟩
    rintro rfl
    cases h
  | name hw hc => exact ⟨hw, hc⟩

theorem Means.begins {e : Expr} (h : Means word e) :
    ∃ c cs, word = c :: cs ∧ isGap c = false ∧ Query.isNameChar c = true := by
  obtain ⟨hne, hw⟩ := h.isNameChar
  obtain ⟨c, cs, rfl⟩ := List.exists_cons_of_ne_nil hne
  have hc := hw c List.mem_cons_self
  exact ⟨c, cs, rfl, isGap_of_isNameChar hc, hc⟩

theorem exists_signed (word : List Char) : ∃ negative digits,
    word = signed negative digits ∧ (negative = false → digits.head? ≠ some '-') := by
  cases word with
  | nil => exact ⟨false, [], rfl, nofun⟩
  | cons c word =>
    by_cases hc : c = '-'
    · exact ⟨true, word, by rw [hc]; rfl, nofun⟩
    · exact ⟨false, c :: word, rfl, fun _ h => hc (Option.some.inj h)⟩

theorem integer?_signed {negative : Bool} {digits : List Char}
    (h : negative = false → digits.head? ≠ some '-') : integer? (signed negative digits) =
      if digits.isEmpty then none
      else if digits.all Char.isDigit then
        (readInt minInt64 maxInt64 (signed negative digits)).toOption
      else none := by
  cases negative with
  | true => rfl
  | false =>
    cases digits with
    | nil => rfl
    | cons c digits =>
      have hc : c ≠ '-' := fun hc => h rfl (congrArg some hc)
      simp [integer?, signed, hc]

theorem integer?_eq_some_iff {n : Int} : integer? word = some n ↔ SpellsInteger word n := by
  have hread {negative : Bool} {digits : List Char} (hne : digits ≠ [])
      (hd : ∀ c ∈ digits, c.isDigit = true) :
      (readInt minInt64 maxInt64 (signed negative digits)).toOption = some n ↔
        n = integer negative digits ∧ minInt64 ≤ n ∧ n ≤ maxInt64 := by
    rw [toOption_eq_some_iff]
    exact readInt_signed hne hd (by decide) (by decide) negative
  constructor
  · intro h
    obtain ⟨negative, digits, rfl, hhead⟩ := exists_signed word
    rw [integer?_signed hhead] at h
    split at h
    · cases h
    · next hne =>
      split at h
      · next hd =>
        have hne : digits ≠ [] := by simpa using hne
        have hd : ∀ c ∈ digits, c.isDigit = true := List.all_eq_true.mp hd
        exact ⟨negative, digits, hne, hd, rfl, (hread hne hd).mp h⟩
      · cases h
  · rintro ⟨negative, digits, hne, hd, rfl, hn⟩
    have hhead : digits.head? ≠ some '-' := by
      intro h
      exact absurd (hd _ (List.mem_of_mem_head? h)) (by decide)
    rw [integer?_signed fun _ => hhead, if_neg (by simpa using hne),
      if_pos (List.all_eq_true.mpr hd), hread hne hd]
    exact hn

theorem SpellsInteger.exists_isDigit {n : Int} (h : SpellsInteger word n) :
    ∃ c ∈ word, c.isDigit = true := by
  obtain ⟨negative, digits, hne, hd, rfl, -⟩ := h
  obtain ⟨c, cs, rfl⟩ := List.exists_cons_of_ne_nil hne
  refine ⟨c, ?_, hd c List.mem_cons_self⟩
  cases negative <;> simp [signed]

theorem SpellsNull.isDigit_eq_false (h : SpellsNull word) : ∀ c ∈ word, c.isDigit = false := by
  intro c hc
  have hm : c.toLower ∈ ['n', 'u', 'l', 'l'] := h ▸ List.mem_map_of_mem hc
  rcases toLower_cases c with hl | ⟨h₁, h₂, -⟩
  · have hall : ['n', 'u', 'l', 'l'].all (!·.isDigit) = true := by decide
    simpa using List.all_eq_true.mp hall c (hl ▸ hm)
  · refine eq_false_of_ne_true fun hd => ?_
    have : c.toNat ≤ 57 := (Char.isDigit_iff_toNat.mp hd).2
    omega

theorem not_spellsInteger_of_spellsNull (h : SpellsNull word) (n : Int) :
    ¬SpellsInteger word n := by
  intro hi
  obtain ⟨c, hc, hd⟩ := hi.exists_isDigit
  exact absurd hd (Bool.eq_false_iff.mp (h.isDigit_eq_false c hc))

theorem ofWord?_eq_some_iff {e : Expr} (hc : ∀ c ∈ word, isNameChar c = true) :
    Expr.ofWord? word = some e ↔ Means word e := by
  have hnone (hi : ∀ n, ¬SpellsInteger word n) : integer? word = none :=
    Option.eq_none_iff_forall_ne_some.mpr fun n hn => hi n (integer?_eq_some_iff.mp hn)
  unfold Expr.ofWord?
  constructor
  · intro h
    split at h
    · next n hi =>
      cases h
      exact .integer (integer?_eq_some_iff.mp hi)
    · next hi =>
      have hi : ∀ n, ¬SpellsInteger word n := fun n hn => by
        rw [integer?_eq_some_iff.mpr hn] at hi
        cases hi
      split at h
      · next hn =>
        cases h
        exact .null hn
      · next hn =>
        split at h
        · cases h
        · next c cs =>
          split at h
          · cases h
          · next hd =>
            cases h
            refine .name nofun hc ?_ hi hn
            rintro _ ⟨⟩
            exact eq_false_of_ne_true hd
  · intro h
    cases h with
    | integer h => rw [integer?_eq_some_iff.mpr h]
    | null h =>
      rw [hnone (not_spellsInteger_of_spellsNull h)]
      exact if_pos h
    | name hw hc hd hi hn =>
      obtain ⟨c, cs, rfl⟩ := List.exists_cons_of_ne_nil hw
      rw [hnone hi]
      refine (if_neg hn).trans ?_
      simp [hd c rfl]

theorem Means.unique {e e' : Expr} (h : Means word e) (h' : Means word e') : e = e' := by
  have hc := h.isNameChar.2
  exact Option.some.inj
    (((ofWord?_eq_some_iff hc).mpr h).symm.trans ((ofWord?_eq_some_iff hc).mpr h'))

end EventStore.Query
