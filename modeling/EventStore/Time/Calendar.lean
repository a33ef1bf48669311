/-!
# The calendar

Days of the proleptic Gregorian calendar and their numbers from 1 January 1970. Years are counted from
March, so that the leap day is the last of its year and the months before it follow one linear rule.
-/

namespace EventStore

structure Date where
  year : Int
  month : Int
  day : Int
  deriving DecidableEq, Repr

namespace Date

def isLeap (year : Int) : Bool := year % 4 = 0 && (year % 100 ≠ 0 || year % 400 = 0)

def monthLength (year month : Int) : Int :=
  if month = 2 then (if isLeap year then 29 else 28)
  else if month = 4 ∨ month = 6 ∨ month = 9 ∨ month = 11 then 30
  else 31

def isValid (d : Date) : Bool :=
  1 ≤ d.month && d.month ≤ 12 && 1 ≤ d.day && d.day ≤ monthLength d.year d.month

/-- Days from 1 March of the year 0 to 1 March of `year`. -/
def daysToMarch (year : Int) : Int := 365 * year + year / 4 - year / 100 + year / 400

/-- Days from 1 March to the first of the month that is `months` later. -/
def daysFromMarch (months : Int) : Int := (153 * months + 2) / 5

/-- Days from 1 March of the year 0 to 1 January 1970. -/
def epoch : Int := 719468

/-- The number of a day, from 1 January 1970. -/
def number (d : Date) : Int :=
  let year := if d.month ≤ 2 then d.year - 1 else d.year
  let months := if d.month ≤ 2 then d.month + 9 else d.month - 3
  daysToMarch year + daysFromMarch months + d.day - 1 - epoch

/-- The year from March that holds a day counted from 1 March of the year 0, from a guess that is off by
at most one. -/
def nearYear (guess n : Int) : Int :=
  if daysToMarch (guess + 1) ≤ n then guess + 1
  else if n < daysToMarch guess then guess - 1
  else guess

/-- The mean length of a year leads to the year or to one of its neighbours. -/
def marchYear (n : Int) : Int := nearYear (400 * n / 146097) n

/-- The day that is `rest` days after 1 March of `year`. -/
def ofMarch (year rest : Int) : Date :=
  let months := (5 * rest + 2) / 153
  let day := rest - daysFromMarch months + 1
  if months < 10 then ⟨year, months + 3, day⟩ else ⟨year + 1, months - 9, day⟩

def ofNumber (n : Int) : Date :=
  let year := marchYear (n + epoch)
  ofMarch year (n + epoch - daysToMarch year)

theorem daysToMarch_marchYear_le (n : Int) : daysToMarch (marchYear n) ≤ n := by
  unfold marchYear
  generalize hg : 400 * n / 146097 = guess
  unfold nearYear daysToMarch
  split
  · assumption
  · split <;> omega

theorem lt_daysToMarch_marchYear (n : Int) : n < daysToMarch (marchYear n + 1) := by
  unfold marchYear
  generalize hg : 400 * n / 146097 = guess
  unfold nearYear daysToMarch
  split
  · omega
  · split <;> omega

theorem daysToMarch_le {y z : Int} (h : y ≤ z) : daysToMarch y ≤ daysToMarch z := by
  obtain ⟨k, rfl⟩ := Int.le.dest h
  clear h
  induction k with
  | zero => simp
  | succ k ih =>
    refine Int.le_trans ih ?_
    unfold daysToMarch
    omega

/-- A day lies in one year only. -/
theorem marchYear_eq {n year : Int} (h : daysToMarch year ≤ n) (h' : n < daysToMarch (year + 1)) :
    marchYear n = year := by
  have hl := daysToMarch_marchYear_le n
  have hg := lt_daysToMarch_marchYear n
  rcases Int.lt_trichotomy (marchYear n) year with hlt | heq | hgt
  · have := daysToMarch_le (show marchYear n + 1 ≤ year by omega)
    omega
  · exact heq
  · have := daysToMarch_le (show year + 1 ≤ marchYear n by omega)
    omega

theorem number_ofMarch {year rest : Int} (h : 0 ≤ rest) (h' : rest < 366) :
    (ofMarch year rest).number = daysToMarch year + rest - epoch := by
  unfold ofMarch number daysFromMarch
  by_cases hm : (5 * rest + 2) / 153 < 10
  · simp only [hm, ↓reduceIte]
    rw [if_neg (by omega), if_neg (by omega)]
    omega
  · simp only [hm, ↓reduceIte]
    rw [if_pos (by omega), if_pos (by omega), Int.add_sub_cancel]
    omega

theorem number_ofNumber (n : Int) : (ofNumber n).number = n := by
  have hl := daysToMarch_marchYear_le (n + epoch)
  have hg := lt_daysToMarch_marchYear (n + epoch)
  rw [ofNumber, number_ofMarch (by omega)]
  · omega
  · unfold daysToMarch at *
    omega

theorem isLeap_iff {year : Int} :
    isLeap year = true ↔ year % 4 = 0 ∧ (year % 100 ≠ 0 ∨ year % 400 = 0) := by
  simp [isLeap]

theorem isValid_iff {d : Date} : d.isValid = true ↔
    1 ≤ d.month ∧ d.month ≤ 12 ∧ 1 ≤ d.day ∧ d.day ≤ monthLength d.year d.month := by
  simp [isValid, and_assoc]

end Date

end EventStore
