import EventStore.Time.Hour

/-!
# Hours and their names

The hours that hold events have keys of ten digits, which are read back as the hours they come
from (`Hour.ofKey?_key`). So maps of different hours have different names, and a map of events
is never taken for one of options.
-/

namespace EventStore

open Text

-- ---- numbers with zeros in front -----------------------------------------

namespace Text

theorem toList_zeroPadded (width n : Nat) : (zeroPadded width n).toList =
    List.replicate (width - (Nat.toDigits 10 n).length) '0' ++ Nat.toDigits 10 n := by
  have hl : (toString n).length = (Nat.toDigits 10 n).length := by
    rw [← String.length_toList, Nat.toString_eq_ofList_toDigits, String.toList_ofList]
  rw [zeroPadded, padLeft, String.toList_append, String.toList_ofList, hl,
    Nat.toString_eq_ofList_toDigits, String.toList_ofList]

theorem decimal_zeroPadded (width n : Nat) : decimal (zeroPadded width n).toList = n := by
  rw [toList_zeroPadded, decimal, Nat.ofDigitChars_append, Nat.ofDigitChars_replicate_zero,
    Nat.mul_zero, Nat.ofDigitChars_ten_toDigits]

theorem length_zeroPadded {width n : Nat} (h : (Nat.toDigits 10 n).length ≤ width) :
    (zeroPadded width n).toList.length = width := by
  rw [toList_zeroPadded, List.length_append, List.length_replicate, Nat.sub_add_cancel h]

theorem isDigit_of_mem_zeroPadded {width n : Nat} {c : Char} (h : c ∈ (zeroPadded width n).toList) :
    c.isDigit = true := by
  rw [toList_zeroPadded, List.mem_append] at h
  rcases h with h | h
  · rw [List.eq_of_mem_replicate h]
    decide
  · exact Nat.isDigit_of_mem_toDigits (by decide) (by decide) h

end Text

-- ---- days ----------------------------------------------------------------

namespace Date

/-- A month that begins `months` after March is as long as the days up to the next tell. -/
theorem monthLength_eq {year months : Int} (h : 0 ≤ months) (h' : months < 11) :
    monthLength year (if months < 10 then months + 3 else months - 9) =
      daysFromMarch (months + 1) - daysFromMarch months := by
  have : months = 0 ∨ months = 1 ∨ months = 2 ∨ months = 3 ∨ months = 4 ∨ months = 5 ∨
      months = 6 ∨ months = 7 ∨ months = 8 ∨ months = 9 ∨ months = 10 := by omega
  rcases this with rfl | rfl | rfl | rfl | rfl | rfl | rfl | rfl | rfl | rfl | rfl <;>
    simp [monthLength, daysFromMarch]

theorem monthLength_le (year month : Int) : monthLength year month ≤ 31 := by
  unfold monthLength
  split
  · split <;> decide
  · split <;> decide

theorem monthLength_february (year : Int) :
    monthLength year 2 = daysToMarch year - daysToMarch (year - 1) - daysFromMarch 11 := by
  unfold monthLength daysToMarch daysFromMarch
  cases hl : isLeap year with
  | true =>
    have := isLeap_iff.mp hl
    simp only [↓reduceIte]
    omega
  | false =>
    have : ¬ (year % 4 = 0 ∧ (year % 100 ≠ 0 ∨ year % 400 = 0)) := fun h => by
      rw [isLeap_iff.mpr h] at hl
      cases hl
    simp only [↓reduceIte, Bool.false_eq_true]
    omega

/-- Days of a year that is counted from March. -/
theorem isValid_ofMarch {year rest : Int} (h : 0 ≤ rest)
    (h' : rest < daysToMarch (year + 1) - daysToMarch year) :
    (ofMarch year rest).isValid = true := by
  have hlt : rest < 366 := by
    unfold daysToMarch at h'
    omega
  rw [isValid_iff, ofMarch]
  generalize hm : (5 * rest + 2) / 153 = months
  have hd : daysFromMarch months ≤ rest ∧ rest < daysFromMarch (months + 1) := by
    unfold daysFromMarch
    omega
  have hn : 0 ≤ months ∧ months ≤ 11 := by omega
  rcases Int.lt_or_eq_of_le hn.2 with h₁₁ | rfl
  · have hl (y : Int) : monthLength y _ = _ := monthLength_eq hn.1 h₁₁
    split
    · next h₁₀ =>
      simp only [if_pos h₁₀] at hl
      simp only [hl]
      omega
    · next h₁₀ =>
      simp only [if_neg h₁₀] at hl
      simp only [hl]
      omega
  · have hl := monthLength_february (year + 1)
    rw [Int.add_sub_cancel] at hl
    show 1 ≤ (2 : Int) ∧ (2 : Int) ≤ 12 ∧ 1 ≤ rest - daysFromMarch 11 + 1 ∧
      rest - daysFromMarch 11 + 1 ≤ monthLength (year + 1) 2
    omega

theorem isValid_ofNumber (n : Int) : (ofNumber n).isValid = true := by
  have hl := daysToMarch_marchYear_le (n + epoch)
  have hg := lt_daysToMarch_marchYear (n + epoch)
  exact isValid_ofMarch (by omega) (by omega)

end Date

-- ---- keys ----------------------------------------------------------------

namespace Hour

theorem two_spec {n : Int} (h : 0 ≤ n) (h' : n < 100) : ∃ a b, (Instant.two n).toList = [a, b] ∧
    a.isDigit = true ∧ b.isDigit = true ∧ (decimal [a, b] : Int) = n := by
  have hl : (Instant.two n).toList.length = 2 := by
    refine length_zeroPadded ((Nat.length_toDigits_le_iff (by decide) (by decide)).mpr ?_)
    show n.toNat < 100
    omega
  have hd := decimal_zeroPadded 2 n.toNat
  have hc (c : Char) (hc : c ∈ (Instant.two n).toList) : c.isDigit = true :=
    isDigit_of_mem_zeroPadded hc
  change decimal (Instant.two n).toList = n.toNat at hd
  generalize (Instant.two n).toList = l at hl hd hc
  match l, hl with
  | [a, b], _ =>
    refine ⟨a, b, rfl, hc a (by simp), hc b (by simp), ?_⟩
    rw [hd]
    omega

theorem yearText_spec {n : Int} (h : 0 ≤ n) (h' : n ≤ 9999) :
    ∃ a b c d, (Instant.yearText n).toList = [a, b, c, d] ∧
      (a.isDigit = true ∧ b.isDigit = true ∧ c.isDigit = true ∧ d.isDigit = true) ∧
      (decimal [a, b, c, d] : Int) = n := by
  have hy : Instant.yearText n = zeroPadded 4 n.toNat := if_pos ⟨h, h'⟩
  have hl : (Instant.yearText n).toList.length = 4 := by
    rw [hy]
    refine length_zeroPadded ((Nat.length_toDigits_le_iff (by decide) (by decide)).mpr ?_)
    show n.toNat < 10000
    omega
  have hd := decimal_zeroPadded 4 n.toNat
  have hc (c : Char) (hc : c ∈ (Instant.yearText n).toList) : c.isDigit = true :=
    isDigit_of_mem_zeroPadded (hy ▸ hc)
  rw [← hy] at hd
  generalize (Instant.yearText n).toList = l at hl hd hc
  match l, hl with
  | [a, b, c, d], _ =>
    refine ⟨a, b, c, d, rfl, ⟨hc a (by simp), hc b (by simp), hc c (by simp), hc d (by simp)⟩, ?_⟩
    rw [hd]
    omega

theorem ofKey?_key {h : Hour} (hy : 0 ≤ (Date.ofNumber (h.startSeconds / 86400)).year)
    (hy' : (Date.ofNumber (h.startSeconds / 86400)).year ≤ 9999) :
    ofKey? h.key = some h ∧ h.key.toList.length = 10 := by
  have hk :
      h.key.toList = (Instant.yearText (Date.ofNumber (h.startSeconds / 86400)).year).toList ++
        (Instant.two (Date.ofNumber (h.startSeconds / 86400)).month).toList ++
        (Instant.two (Date.ofNumber (h.startSeconds / 86400)).day).toList ++
        (Instant.two (h.startSeconds % 86400 / 3600)).toList := by
    simp [key, String.toList_append]
  have hv := Date.isValid_ofNumber (h.startSeconds / 86400)
  have hn := Date.number_ofNumber (h.startSeconds / 86400)
  generalize Date.ofNumber (h.startSeconds / 86400) = date at *
  obtain ⟨hm, hm', hd, hd'⟩ := Date.isValid_iff.mp hv
  have hlen := Date.monthLength_le date.year date.month
  obtain ⟨y₁, y₂, y₃, y₄, hyl, ⟨hy₁, hy₂, hy₃, hy₄⟩, hyd⟩ := yearText_spec hy hy'
  obtain ⟨m₁, m₂, hml, hm₁, hm₂, hmd⟩ := two_spec (n := date.month) (by omega) (by omega)
  obtain ⟨d₁, d₂, hdl, hd₁, hd₂, hdd⟩ := two_spec (n := date.day) (by omega) (by omega)
  obtain ⟨h₁, h₂, hhl, hh₁, hh₂, hhd⟩ :=
    two_spec (n := h.startSeconds % 86400 / 3600) (by omega) (by omega)
  have hk : h.key.toList = [y₁, y₂, y₃, y₄, m₁, m₂, d₁, d₂, h₁, h₂] := by
    rw [hk, hyl, hml, hdl, hhl]
    rfl
  refine ⟨?_, by rw [hk]; rfl⟩
  have hdate : (⟨decimal [y₁, y₂, y₃, y₄], decimal [m₁, m₂], decimal [d₁, d₂]⟩ : Date) = date := by
    rw [hyd, hmd, hdd]
  have hall : [y₁, y₂, y₃, y₄, m₁, m₂, d₁, d₂, h₁, h₂].all Char.isDigit = true := by
    simp [hy₁, hy₂, hy₃, hy₄, hm₁, hm₂, hd₁, hd₂, hh₁, hh₂]
  unfold ofKey?
  rw [hk]
  simp only [hall, ↓reduceIte, hdate]
  rw [if_pos ⟨hv, by omega⟩, hhd, hn]
  cases h with
  | mk number =>
    simp only [startSeconds, Option.some.injEq, Hour.mk.injEq]
    omega

theorem toNat_token {h : Hour} (ht : h.tokenSeconds? = some t) :
    (t.toNat : Int) = h.startSeconds := by
  unfold tokenSeconds? at ht
  split at ht
  · next hs =>
    have hlt : h.startSeconds.toNat < UInt32.size := by
      show h.startSeconds.toNat < 4294967296
      omega
    rw [← Option.some.inj ht, Nat.toUInt32_eq, UInt32.toNat_ofNat_of_lt' hlt]
    omega
  · cases ht

/-- The hours that a token can name have an end. -/
theorem contains?_of_token {h : Hour} (ht : h.tokenSeconds? = some t) (ms : Int) :
    h.contains? ms = some (h.contains ms) := by
  have hs := toNat_token ht
  have hlt : t.toNat < 4294967296 := t.toNat_lt
  have ha : h.after? = some ⟨h.startSeconds + 3600, 0⟩ := by
    have hin : Instant.leastSeconds ≤ h.startSeconds + 3600 ∧
        h.startSeconds + 3600 ≤ Instant.greatestSeconds := by
      unfold Instant.leastSeconds Instant.greatestSeconds
      omega
    simp [after?, start, Instant.shift?, Instant.ofSeconds?, hin]
  have he : Instant.millis ⟨h.startSeconds + 3600, 0⟩ = h.endMillis := by
    simp only [Instant.millis, endMillis, startMillis]
    omega
  rw [contains?, ha, Option.map_some, he]
  by_cases hms : ms < h.startMillis
  · simp [contains, hms, Int.not_le.mpr hms]
  · simp [contains, hms, Int.not_lt.mp hms]

/-- The hours that a token can name have years of four digits. -/
theorem year_of_token {h : Hour} (ht : h.tokenSeconds? = some t) :
    1969 ≤ (Date.ofNumber (h.startSeconds / 86400)).year ∧
      (Date.ofNumber (h.startSeconds / 86400)).year ≤ 2107 := by
  have hs := toNat_token ht
  have hlt : t.toNat < 4294967296 := t.toNat_lt
  have hl := Date.daysToMarch_marchYear_le (h.startSeconds / 86400 + Date.epoch)
  have hg := Date.lt_daysToMarch_marchYear (h.startSeconds / 86400 + Date.epoch)
  generalize hy : Date.marchYear (h.startSeconds / 86400 + Date.epoch) = year at hl hg
  have hyear : 1969 ≤ year ∧ year ≤ 2106 := by
    unfold Date.daysToMarch Date.epoch at *
    omega
  rw [Date.ofNumber, hy, Date.ofMarch]
  split
  · show 1969 ≤ year ∧ year ≤ 2107
    omega
  · show 1969 ≤ year + 1 ∧ year + 1 ≤ 2107
    omega

theorem ofKey?_key_of_token {h : Hour} (ht : h.tokenSeconds? = some t) :
    ofKey? h.key = some h ∧ h.key.toList.length = 10 := by
  have := year_of_token ht
  exact ofKey?_key (by omega) (by omega)

-- ---- names of maps -------------------------------------------------------

theorem ofEventsMap?_eventsMap_of_key {h : Hour} (hk : ofKey? h.key = some h) :
    ofEventsMap? h.eventsMap = some h := by
  have hl : h.eventsMap.toList = mapLead.toList ++ h.key.toList := String.toList_append
  have hd : h.eventsMap.toList.drop mapLead.length = h.key.toList := by
    rw [hl, ← String.length_toList, List.drop_left]
  have hp : mapLead.toList.isPrefixOf h.eventsMap.toList = true := by
    rw [hl, List.isPrefixOf_iff_prefix]
    exact List.prefix_append ..
  rw [ofEventsMap?, if_pos hp, hd, String.ofList_toList]
  exact hk

theorem ofEventsMap?_eventsMap {h : Hour} (ht : h.tokenSeconds? = some t) :
    ofEventsMap? h.eventsMap = some h :=
  ofEventsMap?_eventsMap_of_key (ofKey?_key_of_token ht).1

theorem digits_of_ofKey? {key : String} {h : Hour} (hk : ofKey? key = some h) :
    key.toList.length = 10 ∧ ∀ c ∈ key.toList, c.isDigit = true := by
  unfold ofKey? at hk
  split at hk
  · next hl =>
    split at hk
    · next hd => exact ⟨by rw [hl]; rfl, List.all_eq_true.mp hd⟩
    · cases hk
  · cases hk

theorem ofEventsMap?_optionsMap_of_key {h : Hour} (hk : ofKey? h.key = some h) :
    ofEventsMap? h.optionsMap = none := by
  have hl : h.optionsMap.toList = mapLead.toList ++ (h.key ++ optionsTail).toList := by
    simp only [optionsMap, String.toList_append, List.append_assoc]
  have hd : h.optionsMap.toList.drop mapLead.length = (h.key ++ optionsTail).toList := by
    rw [hl, ← String.length_toList, List.drop_left]
  unfold ofEventsMap?
  split
  · rw [hd, String.ofList_toList]
    refine Option.eq_none_iff_forall_ne_some.mpr fun h' hk' => ?_
    have hlen := (digits_of_ofKey? hk').1
    rw [String.toList_append, List.length_append, (digits_of_ofKey? hk).1] at hlen
    cases hlen
  · rfl

theorem ofEventsMap?_optionsMap {h : Hour} (ht : h.tokenSeconds? = some t) :
    ofEventsMap? h.optionsMap = none :=
  ofEventsMap?_optionsMap_of_key (ofKey?_key_of_token ht).1

theorem eventsMap_inj {h h' : Hour} (ht : h.tokenSeconds? = some t)
    (ht' : h'.tokenSeconds? = some t') (he : h.eventsMap = h'.eventsMap) :
    h = h' := by
  have := congrArg ofEventsMap? he
  rw [ofEventsMap?_eventsMap ht, ofEventsMap?_eventsMap ht'] at this
  exact Option.some.inj this

theorem optionsMap_inj {h h' : Hour} (ht : h.tokenSeconds? = some t)
    (ht' : h'.tokenSeconds? = some t') (he : h.optionsMap = h'.optionsMap) :
    h = h' := by
  have he : h.eventsMap.toList ++ optionsTail.toList =
      h'.eventsMap.toList ++ optionsTail.toList := by
    rw [← String.toList_append, ← String.toList_append]
    exact congrArg String.toList he
  exact eventsMap_inj ht ht' (String.toList_inj.mp (List.append_cancel_right he))

theorem eventsMap_ne_optionsMap {h h' : Hour} (ht : h.tokenSeconds? = some t)
    (ht' : h'.tokenSeconds? = some t') :
    h.eventsMap ≠ h'.optionsMap := by
  intro he
  have he := congrArg String.length he
  have hk := (ofKey?_key_of_token ht).2
  have hk' := (ofKey?_key_of_token ht').2
  rw [String.length_toList] at hk hk'
  simp [eventsMap, optionsMap, String.length_append, hk, hk', optionsTail] at he

end Hour

end EventStore
