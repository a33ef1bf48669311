import EventStore.Proofs.Query.Parsing

/-!
# White space in queries

A query is a sequence of lexemes with white space in front of each. Queries of the same lexemes are
read alike where that white space is made of gaps, and no other query is read
(`parse_alike_iff_of_lexemes`). So the white space that ends a name need not be white space that may
follow it (`parse_noBreakSpace`).
-/

namespace EventStore.Query

open Text

-- ---- lexemes -------------------------------------------------------------

/-- A longest run of name characters, a quoted value, a quote that is not closed, or a character
that stands by itself. -/
inductive Lexeme where
  | word (chars : List Char)
  | quoted (value : List Char)
  | unclosed (value : List Char)
  | mark (c : Char)
  deriving DecidableEq

def Lexeme.text : Lexeme → List Char
  | .word chars => chars
  | .quoted value => '"' :: (value ++ ['"'])
  | .unclosed value => '"' :: value
  | .mark c => [c]

/-- In front of `rest`, the text of the lexeme is that lexeme. -/
def Lexeme.Fits : Lexeme → (rest : List Char) → Prop
  | .word chars, rest => chars ≠ [] ∧ (∀ c ∈ chars, isNameChar c = true) ∧ EndsWord rest
  | .quoted value, _ => '"' ∉ value
  | .unclosed value, rest => '"' ∉ value ∧ rest = []
  | .mark c, _ => c ≠ '"' ∧ isNameChar c = false ∧ isBlank c = false

/-- The lexeme that begins with `c`, and what follows it. -/
def Lexeme.read (c : Char) (r : List Char) : Lexeme × List Char :=
  if c = '"' then
    match r.dropWhile (· != '"') with
    | [] => (.unclosed r, [])
    | _ :: rest => (.quoted (r.takeWhile (· != '"')), rest)
  else if isNameChar c then (.word (c :: r.takeWhile isNameChar), r.dropWhile isNameChar)
  else (.mark c, r)

theorem Lexeme.length_read_le (c : Char) (r : List Char) : (read c r).2.length ≤ r.length := by
  unfold read
  split
  · split
    · simp
    · next rest h =>
      have := length_dropWhile_le (· != '"') r
      rw [h] at this
      exact Nat.le_of_succ_le this
  · split
    · exact length_dropWhile_le ..
    · exact Nat.le_refl _

theorem Lexeme.read_shorter {s r : List Char} {c : Char} (h : dropBlanks s = c :: r) :
    (read c r).2.length < s.length := by
  have := length_read_le c r
  have : (dropBlanks s).length ≤ s.length := length_dropWhile_le ..
  rw [h, List.length_cons] at this
  omega

/-- A lexeme with the white space in front of it. -/
structure Spaced where
  blanks : List Char
  lexeme : Lexeme

/-- The lexemes of a text, up to white space at its end. -/
def layout (s : List Char) : List Spaced :=
  match h : dropBlanks s with
  | [] => []
  | c :: r =>
    have := Lexeme.read_shorter h
    ⟨s.takeWhile isBlank, (Lexeme.read c r).1⟩ :: layout (Lexeme.read c r).2
termination_by s.length

def lexemes (s : List Char) : List Lexeme := (layout s).map Spaced.lexeme

/-- In front of every lexeme stands a gap, but nothing between `!` and `=`. -/
def Gapped : List Spaced → Prop
  | [] => True
  | l :: ls => IsGap l.blanks ∧
      (l.lexeme = .mark '!' → ∀ l' ∈ ls.head?, l'.lexeme = .mark '=' → l'.blanks = []) ∧ Gapped ls

instance : DecidablePred IsGap := fun gap => List.decidableBAll (isGap · = true) gap

instance Gapped.decidable : DecidablePred Gapped
  | [] => inferInstanceAs (Decidable True)
  | _ :: ls =>
    have := Gapped.decidable ls
    inferInstanceAs (Decidable (_ ∧ _ ∧ _))

/-- What the sign of an operator is laid out as. -/
def Op.layout : Op → (gap sign : List Char) → List Spaced
  | .or, gap, sign | .and, gap, sign => [⟨gap, .word sign⟩]
  | .notEqual, gap, ['!'] => [⟨gap, .mark '!'⟩]
  | .notEqual, gap, _ => [⟨gap, .mark '!'⟩, ⟨[], .mark '='⟩]
  | .equal, gap, _ => [⟨gap, .mark '='⟩]

mutual

def Derivation.layout : Derivation level → List Spaced
  | .group gap inner closing =>
    ⟨gap, .mark '('⟩ :: (inner.layout ++ [⟨closing, .mark ')'⟩])
  | .quoted gap value => [⟨gap, .quoted value⟩]
  | .word gap word _ => [⟨gap, .word word⟩]
  | .chain first more => first.layout ++ more.layout

def Links.layout : Links op → List Spaced
  | .nil => []
  | .cons gap sign right more => op.layout gap sign ++ (right.layout ++ more.layout)

end

-- ---- a text and its lexemes ----------------------------------------------

variable {blanks gap sign rest s r r' : List Char} {l : Lexeme} {ls : List Spaced} {c : Char}
  {op : Op} {ts : List Lexeme}

theorem Lexeme.Fits.begins (h : l.Fits rest) : ∃ c t, l.text = c :: t ∧ isBlank c = false := by
  cases l with
  | word chars =>
    obtain ⟨hne, hn, -⟩ := h
    obtain ⟨c, cs, rfl⟩ := List.exists_cons_of_ne_nil hne
    refine ⟨c, cs, rfl, eq_false_of_ne_true fun hb => ?_⟩
    cases (isNameChar_of_isBlank hb).symm.trans (hn c List.mem_cons_self)
  | quoted value => exact ⟨'"', _, rfl, by decide⟩
  | unclosed value => exact ⟨'"', _, rfl, by decide⟩
  | mark c => exact ⟨c, [], rfl, h.2.2⟩

theorem Lexeme.fits_of_read (hc : isBlank c = false) (h : read c r = (l, rest)) :
    l.Fits rest ∧ c :: r = l.text ++ rest := by
  unfold read at h
  split at h
  · next hq =>
    subst hq
    split at h
    · next hd =>
      cases h
      exact ⟨⟨dropWhile_ne_quote_eq_nil_iff.mp hd, rfl⟩, by simp [text]⟩
    · next d rest' hd =>
      cases h
      have hquote : d = '"' := by simpa [hd] using List.head?_dropWhile_not (· != '"') r
      have hr := List.takeWhile_append_dropWhile (p := (· != '"')) (l := r)
      rw [hd, hquote] at hr
      refine ⟨fun hm => absurd (List.all_eq_true.mp List.all_takeWhile _ hm) (by decide), ?_⟩
      simp [text, hr]
  · next hq =>
    split at h
    · next hn =>
      cases h
      refine ⟨⟨nofun, List.forall_mem_cons.mpr ⟨hn, ?_⟩, endsWord_dropWhile r⟩, by simp [text]⟩
      exact List.all_eq_true.mp List.all_takeWhile
    · next hn =>
      cases h
      exact ⟨⟨hq, eq_false_of_ne_true hn, hc⟩, rfl⟩

theorem Lexeme.Fits.read_eq (hf : l.Fits rest) (he : c :: r = l.text ++ rest) :
    read c r = (l, rest) := by
  cases l with
  | word chars =>
    obtain ⟨hne, hn, hend⟩ := hf
    obtain ⟨d, cs, rfl⟩ := List.exists_cons_of_ne_nil hne
    rw [text, List.cons_append] at he
    obtain ⟨rfl, rfl⟩ := List.cons.inj he
    obtain ⟨hd, hcs⟩ := List.forall_mem_cons.mp hn
    have hq : c ≠ '"' := by
      rintro rfl
      exact absurd hd (by decide)
    rw [read, if_neg hq, if_pos hd, takeWhile_word hcs hend, dropWhile_word hcs hend]
  | quoted value =>
    obtain ⟨rfl, rfl⟩ := List.cons.inj he
    obtain ⟨htake, hdrop⟩ := dropWhile_ne_quote (r := rest) hf
    simp [read, htake, hdrop]
  | unclosed value =>
    obtain ⟨hv, rfl⟩ := hf
    obtain ⟨rfl, rfl⟩ := List.cons.inj he
    rw [← dropWhile_ne_quote_eq_nil_iff] at hv
    simp [read, hv]
  | mark d =>
    obtain ⟨rfl, rfl⟩ := List.cons.inj he
    rw [read, if_neg hf.1, if_neg (by simp [hf.2.1])]

theorem layout_eq_nil_iff : layout s = [] ↔ ∀ c ∈ s, isBlank c = true := by
  rw [← List.all_eq_true, ← dropBlanks_eq_nil_iff, layout]
  split
  · next h => simp [h]
  · next h => simp [h]

theorem layout_eq_cons_iff : layout s = ⟨blanks, l⟩ :: ls ↔ ∃ rest,
    (∀ c ∈ blanks, isBlank c = true) ∧ l.Fits rest ∧ s = blanks ++ (l.text ++ rest) ∧
      layout rest = ls := by
  constructor
  · intro h
    rw [layout] at h
    split at h
    · cases h
    · next c r hs =>
      dsimp only at h
      have hc : isBlank c = false := by
        have := List.head?_dropWhile_not isBlank s
        rwa [show s.dropWhile isBlank = c :: r from hs] at this
      obtain ⟨l, rest, hread⟩ : ∃ l rest, Lexeme.read c r = (l, rest) := ⟨_, _, rfl⟩
      obtain ⟨hf, ht⟩ := Lexeme.fits_of_read hc hread
      rw [hread] at h
      cases h
      refine ⟨rest, List.all_eq_true.mp List.all_takeWhile, hf, ?_, rfl⟩
      rw [← ht, ← hs]
      exact List.takeWhile_append_dropWhile.symm
  · rintro ⟨rest, hb, hf, rfl, rfl⟩
    obtain ⟨c, t, ht, hc⟩ := hf.begins
    have hread : Lexeme.read c (t ++ rest) = (l, rest) := hf.read_eq (by rw [ht]; rfl)
    have hs : dropBlanks (blanks ++ (l.text ++ rest)) = c :: (t ++ rest) := by
      rw [dropBlanks, List.dropWhile_append_of_pos hb, ht]
      simp [hc]
    have hblanks : (blanks ++ (l.text ++ rest)).takeWhile isBlank = blanks := by
      rw [List.takeWhile_append_of_pos hb, ht]
      simp [hc]
    rw [layout]
    split
    · next h => cases hs.symm.trans h
    · next h =>
      cases hs.symm.trans h
      dsimp only
      rw [hread, hblanks]

theorem layout_append (hg : IsGap gap) (hf : l.Fits r) :
    layout (gap ++ (l.text ++ r)) = ⟨gap, l⟩ :: layout r :=
  layout_eq_cons_iff.mpr ⟨r, fun c hc => isBlank_of_isGap (hg c hc), hf, rfl, rfl⟩

theorem exists_of_lexemes_eq_cons (h : lexemes s = l :: ts) (hs : Gapped (layout s)) :
    ∃ gap r, IsGap gap ∧ l.Fits r ∧ s = gap ++ (l.text ++ r) ∧ layout s = ⟨gap, l⟩ :: layout r ∧
      lexemes r = ts ∧ Gapped (layout r) := by
  obtain ⟨⟨gap, l'⟩, ls, hl, rfl, rfl⟩ := List.map_eq_cons_iff.mp h
  obtain ⟨r, -, hf, rfl, rfl⟩ := layout_eq_cons_iff.mp hl
  rw [hl] at hs
  exact ⟨gap, r, hs.1, hf, rfl, hl, rfl, hs.2.2⟩

-- ---- a derivation and its lexemes ----------------------------------------

theorem fits_mark (h : c ∈ ['(', ')', '=', '!']) : (Lexeme.mark c).Fits r := by
  simp only [List.mem_cons, List.not_mem_nil, or_false] at h
  rcases h with rfl | rfl | rfl | rfl <;> exact ⟨by decide, by decide, by decide⟩

theorem Op.Spelled.fits (h : op.Spelled sign r) (hop : op = .or ∨ op = .and) :
    (Lexeme.word sign).Fits r := by
  have hword {word : List Char} (hne : word ≠ []) (hw : ∀ c ∈ word, isNameChar c = true)
      (h : sign.map Char.toLower = word ∧ EndsWord r) : (Lexeme.word sign).Fits r := by
    refine ⟨?_, isNameChar_of_map_toLower hw h.1, h.2⟩
    rintro rfl
    exact hne h.1.symm
  rcases hop with rfl | rfl
  · exact hword (by simp) isNameChar_or h
  · exact hword (by simp) isNameChar_and h

theorem Op.Spelled.layout_append (h : op.Spelled sign r) (hg : IsGap gap) :
    Query.layout (gap ++ (sign ++ r)) = op.layout gap sign ++ Query.layout r := by
  cases op with
  | or => exact Query.layout_append hg (h.fits (.inl rfl))
  | and => exact Query.layout_append hg (h.fits (.inr rfl))
  | notEqual =>
    rcases h with rfl | rfl
    · refine (Query.layout_append hg (l := .mark '!') (fits_mark (by simp))).trans ?_
      exact congrArg (_ :: ·)
        (Query.layout_append (List.forall_mem_nil _) (l := .mark '=') (fits_mark (by simp)))
    · exact Query.layout_append hg (l := .mark '!') (fits_mark (by simp))
  | equal =>
    cases h
    exact Query.layout_append hg (l := .mark '=') (fits_mark (by simp))

mutual

theorem Derivation.layout_append {level : Option Op} {r : List Char} : (d : Derivation level) →
    d.Spelled r → Query.layout (d.text ++ r) = d.layout ++ Query.layout r
  | .group gap inner closing, h => by
    have hopen := Query.layout_append h.1 (l := .mark '(')
      (r := inner.text ++ (closing ++ ')' :: r)) (fits_mark (by simp))
    have hclose := Query.layout_append h.2.2 (l := .mark ')') (r := r) (fits_mark (by simp))
    simp only [Lexeme.text, List.cons_append, List.nil_append] at hopen hclose
    simp [Derivation.text, Derivation.layout, hopen, inner.layout_append h.2.1, hclose]
  | .quoted gap value, h => by
    simpa [Lexeme.text, Derivation.text, Derivation.layout] using
      Query.layout_append h.1 (l := .quoted value) (r := r) h.2
  | .word gap word meaning, h => by
    simpa [Lexeme.text, Derivation.text, Derivation.layout] using
      Query.layout_append h.1 (l := .word word) ⟨h.2.1.isNameChar.1, h.2.1.isNameChar.2, h.2.2⟩
  | .chain first more, h => by
    rw [Derivation.text, List.append_assoc, first.layout_append h.1, more.layout_append h.2,
      Derivation.layout, List.append_assoc]

theorem Links.layout_append {op : Op} {r : List Char} : (m : Links op) →
    m.Spelled r → Query.layout (m.text ++ r) = m.layout ++ Query.layout r
  | .nil, _ => rfl
  | .cons gap sign right more, h => by
    simp only [Links.text, Links.layout, List.append_assoc]
    rw [h.2.1.layout_append h.1, right.layout_append h.2.2.1, more.layout_append h.2.2.2]

end

theorem Derivation.layout_eq_cons {level : Option Op} {r : List Char} : (d : Derivation level) →
    d.Spelled r → ∃ l ls, d.layout = l :: ls ∧ l.lexeme ≠ .mark '='
  | .group .., _ => ⟨_, _, rfl, by simp⟩
  | .quoted .., _ => ⟨_, _, rfl, nofun⟩
  | .word .., _ => ⟨_, _, rfl, nofun⟩
  | .chain first more, h => by
    obtain ⟨l, ls, hl, hne⟩ := first.layout_eq_cons h.1
    exact ⟨l, ls ++ more.layout, by simp [layout, hl], hne⟩

-- ---- what is read is gapped ----------------------------------------------

theorem Op.Spelled.gapped (h : op.Spelled sign r) (hg : IsGap gap) (hls : Gapped ls)
    (hne : ∀ l ∈ ls.head?, l.lexeme ≠ .mark '=') : Gapped (op.layout gap sign ++ ls) := by
  have hnil : IsGap [] := List.forall_mem_nil _
  cases op with
  | or | and => exact ⟨hg, by simp, hls⟩
  | notEqual =>
    rcases h with rfl | rfl
    · exact ⟨hg, by simp, hnil, by simp, hls⟩
    · exact ⟨hg, fun _ l hl he => absurd he (hne l hl), hls⟩
  | equal =>
    cases h
    exact ⟨hg, by simp, hls⟩

mutual

theorem Derivation.gapped {level : Option Op} {r : List Char} {ls : List Spaced} :
    (d : Derivation level) → d.Spelled r → Gapped ls → Gapped (d.layout ++ ls)
  | .group gap inner closing, h, hls => by
    have hclose : Gapped (⟨closing, .mark ')'⟩ :: ls) := ⟨h.2.2, by simp, hls⟩
    have hinner := inner.gapped h.2.1 hclose
    simp only [Derivation.layout, List.cons_append, List.append_assoc, List.nil_append]
    exact ⟨h.1, by simp, hinner⟩
  | .quoted .., h, hls => ⟨h.1, nofun, hls⟩
  | .word .., h, hls => ⟨h.1, nofun, hls⟩
  | .chain first more, h, hls => by
    rw [Derivation.layout, List.append_assoc]
    exact first.gapped h.1 (more.gapped h.2 hls)

theorem Links.gapped {op : Op} {r : List Char} {ls : List Spaced} :
    (m : Links op) → m.Spelled r → Gapped ls → Gapped (m.layout ++ ls)
  | .nil, _, hls => hls
  | .cons gap sign right more, h, hls => by
    simp only [Links.layout, List.append_assoc]
    refine h.2.1.gapped h.1 (right.gapped h.2.2.1 (more.gapped h.2.2.2 hls)) ?_
    obtain ⟨l, ls, hl, hne⟩ := right.layout_eq_cons h.2.2.1
    simpa [hl] using hne

end

-- ---- the same lexemes in other gaps --------------------------------------

theorem Op.Spelled.respaced (h : op.Spelled sign r)
    (he : lexemes s = (op.layout gap sign).map Spaced.lexeme ++ ts) (hs : Gapped (Query.layout s)) :
    ∃ gap' r', IsGap gap' ∧ op.Spelled sign r' ∧ s = gap' ++ (sign ++ r') ∧ lexemes r' = ts ∧
      Gapped (Query.layout r') := by
  cases op with
  | or | and =>
    obtain ⟨gap', r', hg, hf, rfl, -, hr⟩ := exists_of_lexemes_eq_cons he hs
    exact ⟨gap', r', hg, ⟨h.1, hf.2.2⟩, rfl, hr⟩
  | notEqual =>
    rcases h with rfl | rfl
    · obtain ⟨gap', r', hg, -, rfl, hl, hr, hr'⟩ := exists_of_lexemes_eq_cons he hs
      obtain ⟨gap₁, r₁, -, -, rfl, hl₁, hr₁⟩ := exists_of_lexemes_eq_cons hr hr'
      -- Nothing stands between the two characters of the sign.
      rw [hl, hl₁] at hs
      cases hs.2.1 rfl _ rfl rfl
      exact ⟨gap', r₁, hg, .inl rfl, rfl, hr₁⟩
    · obtain ⟨gap', r', hg, -, rfl, -, hr⟩ := exists_of_lexemes_eq_cons he hs
      exact ⟨gap', r', hg, .inr rfl, rfl, hr⟩
  | equal =>
    cases h
    obtain ⟨gap', r', hg, -, rfl, -, hr⟩ := exists_of_lexemes_eq_cons he hs
    exact ⟨gap', r', hg, rfl, rfl, hr⟩

mutual

/-- A text that begins with the lexemes of a derivation has one of the same expression. -/
theorem Derivation.respaced {level : Option Op} {r s : List Char} {ts : List Lexeme} :
    (d : Derivation level) → d.Spelled r → lexemes s = d.layout.map Spaced.lexeme ++ ts →
    Gapped (layout s) → ∃ (d' : Derivation level) (r' : List Char), d'.Spelled r' ∧
      d'.expr = d.expr ∧ s = d'.text ++ r' ∧ lexemes r' = ts ∧ Gapped (layout r')
  | .group gap inner closing, h, he, hs => by
    simp only [Derivation.layout, List.map_cons, List.map_append, List.cons_append,
      List.append_assoc] at he
    obtain ⟨gap', r₁, hg, -, rfl, -, he₁, hs₁⟩ := exists_of_lexemes_eq_cons he hs
    obtain ⟨d, r₂, hd, hexpr, rfl, he₂, hs₂⟩ := inner.respaced h.2.1 he₁ hs₁
    obtain ⟨closing', r₃, hc, -, rfl, -, hr⟩ := exists_of_lexemes_eq_cons he₂ hs₂
    refine ⟨.group gap' d closing', r₃, ⟨hg, hd, hc⟩, ?_, ?_, hr⟩
    · rw [Derivation.expr, hexpr, Derivation.expr]
    · simp [Derivation.text, Lexeme.text]
  | .quoted gap value, h, he, hs => by
    obtain ⟨gap', r', hg, -, rfl, -, hr⟩ := exists_of_lexemes_eq_cons he hs
    exact ⟨.quoted gap' value, r', ⟨hg, h.2⟩, rfl, by simp [Derivation.text, Lexeme.text], hr⟩
  | .word gap word meaning, h, he, hs => by
    obtain ⟨gap', r', hg, hf, rfl, -, hr⟩ := exists_of_lexemes_eq_cons he hs
    exact ⟨.word gap' word meaning, r', ⟨hg, h.2.1, hf.2.2⟩, rfl,
      by simp [Derivation.text, Lexeme.text], hr⟩
  | .chain first more, h, he, hs => by
    rw [Derivation.layout, List.map_append, List.append_assoc] at he
    obtain ⟨d, r₁, hd, hexpr, rfl, he₁, hs₁⟩ := first.respaced h.1 he hs
    obtain ⟨m, r', hm, hexpr', rfl, hr⟩ := more.respaced h.2 he₁ hs₁
    refine ⟨.chain d m, r', ⟨hd, hm⟩, ?_, ?_, hr⟩
    · rw [Derivation.expr, hexpr, hexpr', Derivation.expr]
    · rw [Derivation.text, List.append_assoc]

theorem Links.respaced {op : Op} {r s : List Char} {ts : List Lexeme} :
    (m : Links op) → m.Spelled r → lexemes s = m.layout.map Spaced.lexeme ++ ts →
    Gapped (layout s) → ∃ (m' : Links op) (r' : List Char), m'.Spelled r' ∧
      (∀ left, m'.expr left = m.expr left) ∧ s = m'.text ++ r' ∧ lexemes r' = ts ∧
      Gapped (layout r')
  | .nil, _, he, hs => ⟨.nil, _, trivial, fun _ => rfl, rfl, he, hs⟩
  | .cons gap sign right more, h, he, hs => by
    simp only [Links.layout, List.map_append, List.append_assoc] at he
    obtain ⟨gap', r₁, hg, hsign, rfl, he₁, hs₁⟩ := h.2.1.respaced he hs
    obtain ⟨d, r₂, hd, hexpr, rfl, he₂, hs₂⟩ := right.respaced h.2.2.1 he₁ hs₁
    obtain ⟨m, r', hm, hexpr', rfl, hr⟩ := more.respaced h.2.2.2 he₂ hs₂
    refine ⟨.cons gap' sign d m, r', ⟨hg, hsign, hd, hm⟩, fun left => ?_, ?_, hr⟩
    · rw [Links.expr, hexpr, hexpr', Links.expr]
    · simp [Links.text]

end

-- ---- whole queries -------------------------------------------------------

variable {query query' : String} {e : Expr}

theorem Derivation.Derives.layout {d : Derivation (some .or)} (h : d.Derives s) :
    Query.layout s = d.layout ∧ Gapped d.layout := by
  obtain ⟨trail, rfl, hd, hb⟩ := h
  have hgapped := d.gapped hd (show Gapped [] from trivial)
  rw [List.append_nil] at hgapped
  rw [d.layout_append hd, layout_eq_nil_iff.mpr hb, List.append_nil]
  exact ⟨rfl, hgapped⟩

theorem Derivation.Derives.respaced {d : Derivation (some .or)} (h : d.Derives s)
    (he : lexemes s = lexemes r) (hr : Gapped (Query.layout r)) :
    ∃ d' : Derivation (some .or), d'.Derives r ∧ d'.expr = d.expr := by
  have hl : lexemes r = d.layout.map Spaced.lexeme ++ [] := by
    rw [← he, List.append_nil, lexemes, h.layout.1]
  obtain ⟨trail, -, hd, -⟩ := h
  obtain ⟨d', trail', hd', hexpr, rfl, htrail, -⟩ := d.respaced hd hl hr
  exact ⟨d', ⟨trail', rfl, hd', layout_eq_nil_iff.mp (List.map_eq_nil_iff.mp htrail)⟩, hexpr⟩

theorem gapped_of_parse (h : parse query = .ok e) : Gapped (layout query.toList) := by
  obtain ⟨d, hd, -⟩ := exists_derives_of_parse h
  exact hd.layout.1 ▸ hd.layout.2

theorem parse_respaced (hl : lexemes query.toList = lexemes query'.toList)
    (hg : Gapped (layout query'.toList)) (h : parse query = .ok e) : parse query' = .ok e := by
  obtain ⟨d, hd, rfl⟩ := exists_derives_of_parse h
  obtain ⟨d', hd', hexpr⟩ := hd.respaced hl hg
  exact hexpr ▸ hd'.parse

/-- Queries of the same lexemes are read alike exactly if, one of them being read, there are only gaps
in front of the lexemes of both. -/
theorem parse_alike_iff_of_lexemes (hl : lexemes query.toList = lexemes query'.toList) :
    (∀ e, parse query = .ok e ↔ parse query' = .ok e) ↔
      ∀ e, parse query = .ok e ∨ parse query' = .ok e →
        Gapped (layout query.toList) ∧ Gapped (layout query'.toList) := by
  constructor
  · intro h e he
    rw [← h e, or_self] at he
    exact ⟨gapped_of_parse he, gapped_of_parse ((h e).mp he)⟩
  · intro h e
    exact ⟨fun he => parse_respaced hl (h e (.inl he)).2 he,
      fun he => parse_respaced hl.symm (h e (.inr he)).1 he⟩

theorem parse_alike_of_comparisons :
    lexemes "a=1 OR(b!\"x  y\")".toList =
        lexemes "\n a = 1\tOR ( b ! \"x  y\" )\u2003".toList ∧
      ∀ e, parse "a=1 OR(b!\"x  y\")" = .ok e ↔
        parse "\n a = 1\tOR ( b ! \"x  y\" )\u2003" = .ok e := by
  have hl : lexemes "a=1 OR(b!\"x  y\")".toList =
      lexemes "\n a = 1\tOR ( b ! \"x  y\" )\u2003".toList := by decide +kernel
  exact ⟨hl, (parse_alike_iff_of_lexemes hl).mpr fun _ _ => by decide +kernel⟩

/-- A no-break space in front of the `=` is an error. -/
theorem parse_noBreakSpace :
    lexemes "A\u00a0=\"1\"".toList = lexemes "A=\"1\"".toList ∧
      parse "A=\"1\"" = .ok (.binary .equal (.name "A") (.quoted "1")) ∧
      parse "A\u00a0=\"1\"" = .error (.malformed 3 (.unexpectedRest "=\"1\"")) := by
  decide +kernel

end EventStore.Query
