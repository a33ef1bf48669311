import EventStore.Proofs.Query.Parsing

/-!
# Where a query goes wrong

Everything in front of the position of a syntax error is right: it can be gone on with to a query
that is read (`parse_error_position`). Where the reader gets stuck it has read the beginning of a
derivation.
-/

namespace EventStore.Query

open Text

variable {s t r rest before text : List Char} {k : Stuck} {op : Op} {left : Expr}
  {level : Option Op}

-- ---- where the reader gets stuck -----------------------------------------

theorem readChain_error (h : readChain (some op) s = .error k) :
    readChain op.tighter s = .error k ∨
      ∃ first r, Reads op.tighter s first r ∧ readMore op first r = .error k := by
  rw [readChain] at h
  split at h
  · next hfirst =>
    cases h
    exact .inl hfirst
  · next first r hr hfirst =>
    split at h
    · next hmore =>
      cases h
      exact .inr ⟨first, r, ⟨hr, hfirst⟩, hmore⟩
    · cases h

theorem readMore_error (h : readMore op left s = .error k) :
    ∃ r, op.strip? s = some r ∧ (readChain op.tighter r = .error k ∨ ∃ right r₁,
      Reads op.tighter r right r₁ ∧ readMore op (.binary op left right) r₁ = .error k) := by
  rw [readMore] at h
  split at h
  · cases h
  · next r hs =>
    refine ⟨r, hs, ?_⟩
    dsimp only at h
    split at h
    · next hright =>
      cases h
      exact .inl hright
    · next right r₁ hr hright =>
      split at h
      · next hmore =>
        cases h
        exact .inr ⟨right, r₁, ⟨hr, hright⟩, hmore⟩
      · cases h

theorem readOperand_error (h : readChain none s = .error k) :
    (∃ t, skipGap s = '(' :: t ∧ (readChain (some .or) t = .error k ∨
      ∃ inner r, Reads (some .or) t inner r ∧ skipGap r = k.rest)) ∨
    (∃ t, skipGap s = '"' :: t ∧ '"' ∉ t ∧ k.rest = []) ∨ skipGap s = k.rest := by
  rw [readChain, readOperand] at h
  split at h
  · next t hs =>
    refine .inl ⟨t, hs, ?_⟩
    split at h
    · next hinner =>
      cases h
      exact .inl hinner
    · next inner r hr hinner =>
      split at h
      · cases h
      · cases h
        exact .inr ⟨inner, r, ⟨hr, hinner⟩, rfl⟩
  · next t hs =>
    split at h
    · cases h
    · next hquote =>
      cases h
      exact .inr (.inl ⟨t, hs, dropWhile_ne_quote_eq_nil_iff.mp hquote, rfl⟩)
  · split at h
    · cases h
    · cases h
      exact .inr (.inr rfl)

-- ---- how it could go on --------------------------------------------------

/-- Up to where `rest` begins in `s`, the text is `s`. A word that can end in front of `s` can also
end in front of the text. -/
structure GoesOn (s rest text : List Char) : Prop where
  same : ∃ before, s = before ++ rest ∧ before <+: text
  ends : EndsWord s → EndsWord text

theorem goesOn_of_prefix (hne : before ≠ []) (h : before <+: text) :
    GoesOn (before ++ r) r text := by
  refine ⟨⟨before, rfl, h⟩, ?_⟩
  obtain ⟨c, cs, rfl⟩ := List.exists_cons_of_ne_nil hne
  obtain ⟨after, rfl⟩ := h
  exact fun hc => endsWord_cons (hc c rfl)

theorem GoesOn.within (h : GoesOn s rest text) (hne : r ≠ []) (t : List Char) :
    GoesOn (r ++ s) rest (r ++ (text ++ t)) := by
  obtain ⟨⟨before, rfl, after, rfl⟩, -⟩ := h
  rw [← List.append_assoc]
  exact goesOn_of_prefix (by simp [hne]) ⟨after ++ t, by simp⟩

theorem exists_operand {gap : List Char} (hg : IsGap gap) :
    ∃ d : Derivation none, d.Spelled [] ∧ GoesOn (gap ++ rest) rest d.text := by
  have hspace : IsGap [' '] := List.forall_mem_singleton.mpr rfl
  have hname : Means ['a'] (.name "a") := (ofWord?_eq_some_iff (List.all_eq_true.mp rfl)).mp rfl
  refine ⟨.word (gap ++ [' ']) ['a'] (.name "a"),
    ⟨List.forall_mem_append.mpr ⟨hg, hspace⟩, hname, nofun⟩, ⟨gap, rfl, ?_⟩, fun _ => ?_⟩
  · exact ⟨[' ', 'a'], by simp [Derivation.text]⟩
  · simp only [Derivation.text, List.append_assoc]
    exact endsWord_append_of_isBlank (fun c hc => isBlank_of_isGap (hg c hc))
      (endsWord_cons (by decide))

mutual

theorem exists_derivation_of_error {level : Option Op} {s : List Char} {k : Stuck}
    (h : readChain level s = .error k) :
    ∃ d : Derivation level, d.Spelled [] ∧ GoesOn s k.rest d.text := by
  match level with
  | some op =>
    have := op.rank_tighter
    obtain hfirst | ⟨first, r, hfirst, hmore⟩ := readChain_error h
    · obtain ⟨d, hd, hgoes⟩ := exists_derivation_of_error hfirst
      refine ⟨.chain d .nil, ⟨hd, trivial⟩, ?_⟩
      simpa [Derivation.text, Links.text] using hgoes
    · have := hfirst.shorter
      obtain ⟨d, rfl, hd, -⟩ := hfirst.exists_derivation
      obtain ⟨m, hm, hgoes⟩ := exists_links_of_error hmore
      have hne : d.text ≠ [] := by
        obtain ⟨gap, c, t, ht, -⟩ := d.begins hd
        simp [ht]
      refine ⟨.chain d m, ⟨hd.congr (by simpa using hgoes.ends), hm⟩, ?_⟩
      simpa [Derivation.text] using hgoes.within hne []
  | none =>
    obtain ⟨t, ht, hinner⟩ | ⟨t, ht, hquote, hrest⟩ | hrest := readOperand_error h
    · have hlen : t.length < s.length := by
        have := length_skipGap_le s
        rwa [ht] at this
      obtain ⟨gap, hg, rfl⟩ := exists_gap ht
      obtain hinner | ⟨inner, r, hinner, hr⟩ := hinner
      · obtain ⟨d, hd, hgoes⟩ := exists_derivation_of_error hinner
        refine ⟨.group gap d [], ⟨hg, hd.congr fun _ => endsWord_cons (by decide), nofun⟩, ?_⟩
        simpa [Derivation.text] using hgoes.within (r := gap ++ ['(']) (by simp) [')']
      · obtain ⟨d, rfl, hd, -⟩ := hinner.exists_derivation
        obtain ⟨closing, hc, rfl⟩ := exists_gap hr
        have hends : EndsWord (closing ++ [')']) :=
          endsWord_append_of_isBlank (fun c h => isBlank_of_isGap (hc c h))
            (endsWord_cons (by decide))
        refine ⟨.group gap d closing, ⟨hg, hd.congr fun _ => hends, hc⟩, ?_⟩
        have hprefix : gap ++ '(' :: (d.text ++ closing) <+: (Derivation.group gap d closing).text :=
          ⟨[')'], by simp [Derivation.text]⟩
        simpa using goesOn_of_prefix (r := k.rest) (by simp) hprefix
    · obtain ⟨gap, hg, rfl⟩ := exists_gap ht
      refine ⟨.quoted gap t, ⟨hg, hquote⟩, ?_⟩
      have hprefix : gap ++ '"' :: t <+: (Derivation.quoted gap t).text :=
        ⟨['"'], by simp [Derivation.text]⟩
      simpa [hrest] using goesOn_of_prefix (r := []) (by simp) hprefix
    · obtain ⟨gap, hg, rfl⟩ := exists_gap hrest
      exact exists_operand hg
termination_by 6 * s.length + Op.rank level
decreasing_by
  · omega
  · omega
  · have : Op.rank (some .or) < Op.rank none + 6 := by decide
    omega

theorem exists_links_of_error {op : Op} {left : Expr} {s : List Char} {k : Stuck}
    (h : readMore op left s = .error k) :
    ∃ m : Links op, m.Spelled [] ∧ GoesOn s k.rest m.text := by
  obtain ⟨r, hs, hright⟩ := readMore_error h
  have := Op.strip?_shorter hs
  have : Op.rank op.tighter ≤ 5 := by cases op <;> decide
  obtain ⟨gap, sign, hg, hsign, -, rfl⟩ := Op.strip?_eq_some_iff.mp hs
  have hne : gap ++ sign ≠ [] := by
    obtain ⟨c, cs, rfl, -⟩ := hsign.head
    simp
  obtain hright | ⟨right, r₁, hright, hmore⟩ := hright
  · obtain ⟨d, hd, hgoes⟩ := exists_derivation_of_error hright
    refine ⟨.cons gap sign d .nil, ⟨hg, hsign.congr ?_, hd, trivial⟩, ?_⟩
    · simpa [Links.text] using hgoes.ends
    · simpa [Links.text] using hgoes.within hne []
  · have := hright.shorter
    obtain ⟨d, rfl, hd, -⟩ := hright.exists_derivation
    obtain ⟨m, hm, hgoes⟩ := exists_links_of_error hmore
    have hends : EndsWord r₁ → EndsWord (m.text ++ []) := by simpa using hgoes.ends
    refine ⟨.cons gap sign d m,
      ⟨hg, hsign.congr (endsWord_append d.text hends), hd.congr hends, hm⟩, ?_⟩
    simpa [Links.text] using hgoes.within (r := gap ++ (sign ++ d.text)) (by simp_all) []
termination_by 6 * s.length

end

-- ---- whole queries -------------------------------------------------------

theorem utf8ByteSize_ofList (s : List Char) : (String.ofList s).utf8ByteSize = byteLength s := by
  induction s with
  | nil => rfl
  | cons c s ih =>
    rw [← List.singleton_append, String.ofList_append, String.utf8ByteSize_append, ih,
      ← String.singleton_eq_ofList, String.utf8ByteSize_singleton]
    rfl

/-- A query can have these characters at its beginning. -/
def IsBeginning (before : List Char) : Prop :=
  ∃ completion e, parse (String.ofList (before ++ completion)) = .ok e

theorem Derivation.isBeginning {d : Derivation (some .or)} (hd : d.Spelled t)
    (hb : ∀ c ∈ t, isBlank c = true) (h : before <+: d.text ++ t) : IsBeginning before := by
  obtain ⟨completion, hc⟩ := h
  refine ⟨completion, d.expr, Derivation.Derives.parse ⟨t, ?_, hd, hb⟩⟩
  rw [String.toList_ofList, hc]

/-- An error of the reader is one of syntax, in front of the rest of the query, and the query can
begin as it does up to there. -/
theorem exists_beginning_of_error {query : String} {x : QueryError} (h : parse query = .error x) :
    ∃ before rest problem, query.toList = before ++ rest ∧
      x = .malformed (byteLength before) problem ∧ IsBeginning before := by
  have hlength {s before rest : List Char} (hs : s = before ++ rest) :
      byteLength s - byteLength rest = byteLength before := by
    rw [hs, byteLength_append, Nat.add_sub_cancel]
  simp only [parse] at h
  split at h
  · cases h
    have hname : parse "a" = .ok (.name "a") := toOption_eq_some_iff.mp (by decide +kernel)
    exact ⟨[], query.toList, _, rfl, rfl, ['a'], _, hname⟩
  · split at h
    · next k hread =>
      cases h
      obtain ⟨d, hd, ⟨before, hs, hprefix⟩, -⟩ := exists_derivation_of_error hread
      refine ⟨before, k.rest, k.problem, hs, by rw [hlength hs], ?_⟩
      have hbefore := hprefix.trans (List.prefix_append _ [])
      exact Derivation.isBeginning hd (List.forall_mem_nil _) hbefore
    · next e r hread =>
      split at h
      · cases h
      cases h
      obtain ⟨d, hs, hd, -⟩ := Reads.exists_derivation ⟨r.2, hread⟩
      have hr : r.1.takeWhile isBlank ++ dropBlanks r.1 = r.1 := List.takeWhile_append_dropWhile
      have hblank : ∀ c ∈ r.1.takeWhile isBlank, isBlank c = true :=
        List.all_eq_true.mp List.all_takeWhile
      rw [← hr, ← List.append_assoc] at hs
      refine ⟨_, _, _, hs, by rw [hlength hs],
        Derivation.isBeginning (hd.congr fun _ => ?_) hblank (List.prefix_refl _)⟩
      have hend : EndsWord [] := by simp [EndsWord]
      simpa using endsWord_append_of_isBlank hblank hend

/-- A query that is not read has an error of syntax, at a position that is one of its characters or
its end. All in front of that position is right: some query begins so that is read. -/
theorem parse_error_position {query : String} {x : QueryError} (h : parse query = .error x) :
    ∃ position problem, x = .malformed position problem ∧ position ≤ query.utf8ByteSize ∧
      String.Pos.Raw.IsValid query ⟨position⟩ ∧
      ∃ before after completion e, query = before ++ after ∧ before.utf8ByteSize = position ∧
        parse (before ++ completion) = .ok e := by
  obtain ⟨before, rest, problem, hs, rfl, completion, e, he⟩ := exists_beginning_of_error h
  have hquery : query = String.ofList before ++ String.ofList rest := by
    rw [← String.ofList_append, ← hs, String.ofList_toList]
  have hsize := utf8ByteSize_ofList before
  have hvalid : String.Pos.Raw.IsValid query ⟨byteLength before⟩ :=
    String.Pos.Raw.isValid_iff_exists_append.mpr ⟨_, _, hquery, by rw [← hsize]; rfl⟩
  exact ⟨_, problem, rfl, hvalid.le_utf8ByteSize, hvalid, _, _, String.ofList completion, e, hquery,
    hsize, by rwa [← String.ofList_append]⟩

/-- In `(é="x" or B=` an operand is missing at the end, behind thirteen bytes. -/
theorem parse_error_position_of_openGroup :
    parse "(é=\"x\" or B=" = .error (.malformed 13 .endOfQuery) ∧
      ∃ before after completion e, "(é=\"x\" or B=" = before ++ after ∧ before.utf8ByteSize = 13 ∧
        parse (before ++ completion) = .ok e := by
  have h : parse "(é=\"x\" or B=" = .error (.malformed 13 .endOfQuery) := by decide +kernel
  obtain ⟨position, problem, hx, -, -, hbefore⟩ := parse_error_position h
  cases hx
  exact ⟨h, hbefore⟩

end EventStore.Query
