import EventStore.Proofs.Text.Number
import EventStore.Proofs.Time.Key

/-!
# Dates, hours and keys in order

Days are numbered as their dates follow each other (`Date.number_lt_iff`), so a date is found again
from the number of its day (`Date.ofNumber_number`). In the years 0 to 9999 the keys of hours are
digits, and therefore in the order of the hours (`Hour.key_lt_iff`); what is read as the key of an
hour is what that hour writes (`Hour.key_of_ofKey?`).
-/

namespace EventStore

open Text

-- ---- dates ---------------------------------------------------------------

namespace Date

/-- Months from March of the year 0 to the month of the date. -/
def months (d : Date) : Int := d.year * 12 + d.month - 3

/-- Days from 1 March of the year 0 to the first of the month that is `n` months later. -/
def daysToMonth (n : Int) : Int := daysToMarch (n / 12) + daysFromMarch (n % 12)

theorem daysToMonth_le {m n : Int} (h : m ≤ n) : daysToMonth m ≤ daysToMonth n := by
  obtain ⟨k, rfl⟩ := Int.le.dest h
  clear h
  induction k with
  | zero => simp
  | succ k ih =>
    refine Int.le_trans ih ?_
    -- The next month is in the same year from March, or it is the March after.
    have : (m + ↑(k + 1)) / 12 = (m + k) / 12 ∧ (m + ↑(k + 1)) % 12 = (m + k) % 12 + 1 ∨
        (m + ↑(k + 1)) / 12 = (m + k) / 12 + 1 ∧ (m + ↑(k + 1)) % 12 = 0 ∧ (m + k) % 12 = 11 := by
      omega
    unfold daysToMonth daysToMarch daysFromMarch
    omega

theorem number_eq {d : Date} (h : 1 ≤ d.month) (h' : d.month ≤ 12) :
    d.number = daysToMonth d.months + d.day - 1 - epoch := by
  unfold number daysToMonth months
  split
  · rw [show (d.year * 12 + d.month - 3) / 12 = d.year - 1 by omega,
      show (d.year * 12 + d.month - 3) % 12 = d.month + 9 by omega]
  · rw [show (d.year * 12 + d.month - 3) / 12 = d.year by omega,
      show (d.year * 12 + d.month - 3) % 12 = d.month - 3 by omega]

theorem monthLength_eq_sub {d : Date} (h : 1 ≤ d.month) (h' : d.month ≤ 12) :
    monthLength d.year d.month = daysToMonth (d.months + 1) - daysToMonth d.months := by
  unfold daysToMonth months
  by_cases hf : d.month = 2
  · rw [hf, monthLength_february, show (d.year * 12 + 2 - 3) / 12 = d.year - 1 by omega,
      show (d.year * 12 + 2 - 3) % 12 = 11 by omega,
      show (d.year * 12 + 2 - 3 + 1) / 12 = d.year by omega,
      show (d.year * 12 + 2 - 3 + 1) % 12 = 0 by omega, show daysFromMarch 0 = 0 from rfl]
    omega
  · generalize hk : (d.year * 12 + d.month - 3) % 12 = k
    have hmonth : (if k < 10 then k + 3 else k - 9) = d.month := by
      split <;> omega
    have hl : monthLength d.year (if k < 10 then k + 3 else k - 9) = _ :=
      monthLength_eq (by omega) (by omega)
    rw [hmonth] at hl
    rw [hl, show (d.year * 12 + d.month - 3 + 1) / 12 = (d.year * 12 + d.month - 3) / 12 by omega,
      show (d.year * 12 + d.month - 3 + 1) % 12 = k + 1 by omega]
    omega

/-- The number that year, month and day make when they are written in a row. -/
def numeral (d : Date) : Int := d.year * 10000 + d.month * 100 + d.day

variable {d d' : Date}

theorem eq_of_numeral_eq (hv : d.isValid = true) (hv' : d'.isValid = true)
    (h : d.numeral = d'.numeral) : d = d' := by
  obtain ⟨hm₁, hm₂, hd₁, hd₂⟩ := isValid_iff.mp hv
  obtain ⟨hm₁', hm₂', hd₁', hd₂'⟩ := isValid_iff.mp hv'
  have hl := monthLength_le d.year d.month
  have hl' := monthLength_le d'.year d'.month
  obtain ⟨year, month, day⟩ := d
  obtain ⟨year', month', day'⟩ := d'
  simp only [numeral, mk.injEq] at *
  omega

/-- An earlier month ends before a later one begins; within a month the days count. -/
theorem number_lt_of_numeral_lt (hv : d.isValid = true) (hv' : d'.isValid = true)
    (h : d.numeral < d'.numeral) : d.number < d'.number := by
  obtain ⟨hm₁, hm₂, hd₁, hd₂⟩ := isValid_iff.mp hv
  obtain ⟨hm₁', hm₂', hd₁', hd₂'⟩ := isValid_iff.mp hv'
  have hl := monthLength_le d.year d.month
  have hl' := monthLength_le d'.year d'.month
  rw [number_eq hm₁ hm₂, number_eq hm₁' hm₂']
  have hmonths : d.months < d'.months ∨ d.months = d'.months ∧ d.day < d'.day := by
    simp only [numeral, months] at *
    omega
  rcases hmonths with hlt | ⟨heq, hlt⟩
  · have hnext := daysToMonth_le (Int.add_one_le_of_lt hlt)
    rw [monthLength_eq_sub hm₁ hm₂] at hd₂
    omega
  · rw [heq]
    omega

theorem number_lt_iff (hv : d.isValid = true) (hv' : d'.isValid = true) :
    d.number < d'.number ↔ d.numeral < d'.numeral := by
  refine ⟨fun h => ?_, number_lt_of_numeral_lt hv hv'⟩
  rcases Int.lt_trichotomy d.numeral d'.numeral with hlt | heq | hgt
  · exact hlt
  · rw [eq_of_numeral_eq hv hv' heq] at h
    omega
  · have := number_lt_of_numeral_lt hv' hv hgt
    omega

theorem eq_of_number_eq (hv : d.isValid = true) (hv' : d'.isValid = true)
    (h : d.number = d'.number) : d = d' := by
  have h₁ := number_lt_iff hv hv'
  have h₂ := number_lt_iff hv' hv
  exact eq_of_numeral_eq hv hv' (by omega)

theorem ofNumber_number (hv : d.isValid = true) : ofNumber d.number = d :=
  eq_of_number_eq (isValid_ofNumber _) hv (number_ofNumber _)

end Date

-- ---- hours ---------------------------------------------------------------

namespace Hour

def date (h : Hour) : Date := Date.ofNumber (h.startSeconds / 86400)

def hourOfDay (h : Hour) : Int := h.startSeconds % 86400 / 3600

/-- The number that date and hour make when they are written in a row. -/
def numeral (h : Hour) : Int := h.date.numeral * 100 + h.hourOfDay

variable {h h' : Hour}

theorem numeral_lt_iff : h.numeral < h'.numeral ↔ h.number < h'.number := by
  have hdate := Date.number_lt_iff (Date.isValid_ofNumber (h.startSeconds / 86400))
    (Date.isValid_ofNumber (h'.startSeconds / 86400))
  have hdate' := Date.number_lt_iff (Date.isValid_ofNumber (h'.startSeconds / 86400))
    (Date.isValid_ofNumber (h.startSeconds / 86400))
  rw [Date.number_ofNumber, Date.number_ofNumber] at hdate hdate'
  simp only [numeral, date, hourOfDay, startSeconds] at *
  omega

theorem decimal_parts (y₁ y₂ y₃ y₄ m₁ m₂ d₁ d₂ h₁ h₂ : Char) :
    decimal [y₁, y₂, y₃, y₄, m₁, m₂, d₁, d₂, h₁, h₂] =
      ((decimal [y₁, y₂, y₃, y₄] * 100 + decimal [m₁, m₂]) * 100 + decimal [d₁, d₂]) * 100 +
        decimal [h₁, h₂] := by
  simp only [decimal, Nat.ofDigitChars_cons, Nat.ofDigitChars_nil]
  omega

theorem decimal_of_ofKey? {text : String} (hk : ofKey? text = some h) :
    (decimal text.toList : Int) = h.numeral ∧ 0 ≤ h.date.year ∧ h.date.year ≤ 9999 := by
  have hdigits := (digits_of_ofKey? hk).2
  unfold ofKey? at hk
  split at hk
  · next y₁ y₂ y₃ y₄ m₁ m₂ d₁ d₂ h₁ h₂ hl =>
    rw [hl] at hk hdigits ⊢
    rw [if_pos (List.all_eq_true.mpr hdigits)] at hk
    dsimp only at hk
    have hyear : decimal [y₁, y₂, y₃, y₄] < tenTo 4 := decimal_lt fun c hc =>
      hdigits c (List.mem_append_left [m₁, m₂, d₁, d₂, h₁, h₂] hc)
    rw [show tenTo 4 = 10000 from rfl] at hyear
    rw [decimal_parts]
    generalize decimal [y₁, y₂, y₃, y₄] = y at *
    generalize decimal [m₁, m₂] = m at *
    generalize decimal [d₁, d₂] = d at *
    generalize decimal [h₁, h₂] = hour at *
    split at hk
    · next hv =>
      cases hk
      have hday : startSeconds ⟨Date.number ⟨y, m, d⟩ * 24 + hour⟩ / 86400 =
          Date.number ⟨y, m, d⟩ := by
        simp only [startSeconds]
        omega
      have hhour : hourOfDay ⟨Date.number ⟨y, m, d⟩ * 24 + hour⟩ = hour := by
        simp only [hourOfDay, startSeconds]
        omega
      rw [numeral, hhour, date, hday, Date.ofNumber_number hv.1]
      simp only [Date.numeral]
      omega
    · cases hk
  · cases hk

/-- In the years of four digits keys are in the order of their hours. -/
theorem key_lt_iff (hy : 0 ≤ h.date.year ∧ h.date.year ≤ 9999)
    (hy' : 0 ≤ h'.date.year ∧ h'.date.year ≤ 9999) : h.key < h'.key ↔ h.number < h'.number := by
  have hk := (ofKey?_key hy.1 hy.2).1
  have hk' := (ofKey?_key hy'.1 hy'.2).1
  obtain ⟨hl, hd⟩ := digits_of_ofKey? hk
  obtain ⟨hl', hd'⟩ := digits_of_ofKey? hk'
  have hn := (decimal_of_ofKey? hk).1
  have hn' := (decimal_of_ofKey? hk').1
  rw [String.lt_iff, lt_iff_decimal_lt (hl.trans hl'.symm) hd hd', ← numeral_lt_iff, ← hn, ← hn',
    Int.ofNat_lt]

theorem key_of_ofKey? {text : String} (hk : ofKey? text = some h) : h.key = text := by
  obtain ⟨hn, hy, hy'⟩ := decimal_of_ofKey? hk
  have hk' := (ofKey?_key hy hy').1
  obtain ⟨hl, hd⟩ := digits_of_ofKey? hk
  obtain ⟨hl', hd'⟩ := digits_of_ofKey? hk'
  have hn' := (decimal_of_ofKey? hk').1
  refine String.toList_inj.mp (eq_of_decimal_eq (hl'.trans hl.symm) hd' hd ?_)
  omega

end Hour

end EventStore
