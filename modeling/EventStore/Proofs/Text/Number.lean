import EventStore.Text.Number

/-!
# What numbers mean

Digits with or without a minus sign in front stand for an integer. That integer is what is read, if
it lies within the bounds (`readInt_signed`), and every integer can be written so
(`toList_toString`). Texts of equally many digits are in the order of their numbers
(`lt_iff_decimal_lt`).
-/

namespace EventStore.Text

/-- Digits, after a minus sign if the number is negative. -/
def signed (negative : Bool) (digits : List Char) : List Char :=
  if negative then '-' :: digits else digits

/-- The integer that such a text stands for. -/
def integer (negative : Bool) (digits : List Char) : Int :=
  if negative then -decimal digits else decimal digits

variable {digits : List Char} {least most k : Int} {n : Nat}

-- ---- reading -------------------------------------------------------------

theorem digit?_of_isDigit {c : Char} (h : c.isDigit = true) :
    digit? c = some (c.toNat - '0'.toNat) := by
  simp [digit?, h]

theorem le_ofDigitChars (digits : List Char) (n : Nat) : n ≤ Nat.ofDigitChars 10 digits n := by
  induction digits generalizing n with
  | nil => exact Nat.le_refl n
  | cons c digits ih =>
    rw [Nat.ofDigitChars_cons]
    have := ih (10 * n + (c.toNat - '0'.toNat))
    omega

/-- The digits before the last stay within the bound if all of them together do. -/
theorem readUp_eq_ok_iff (hd : ∀ c ∈ digits, c.isDigit = true) (hn : n ≤ most) :
    readUp most n digits = .ok k ↔ k = Nat.ofDigitChars 10 digits n ∧ k ≤ most := by
  induction digits generalizing n with
  | nil =>
    simp only [readUp, Except.ok.injEq, Nat.ofDigitChars_nil]
    constructor
    · rintro rfl
      exact ⟨rfl, hn⟩
    · exact fun h => h.1.symm
  | cons c digits ih =>
    obtain ⟨hc, hd⟩ := List.forall_mem_cons.mp hd
    simp only [readUp, digit?_of_isDigit hc, Nat.ofDigitChars_cons]
    generalize c.toNat - '0'.toNat = d
    have hcast : (n : Int) * 10 + d = (10 * n + d : Nat) := by push_cast; omega
    rw [hcast]
    split
    · next hle => exact ih hd hle
    · next hle =>
      have := le_ofDigitChars digits (10 * n + d)
      simp only [reduceCtorEq, false_iff, not_and]
      omega

theorem readDown_eq_ok_iff (hd : ∀ c ∈ digits, c.isDigit = true) (hn : least ≤ -n) :
    readDown least (-n) digits = .ok k ↔ k = -Nat.ofDigitChars 10 digits n ∧ least ≤ k := by
  induction digits generalizing n with
  | nil =>
    simp only [readDown, Except.ok.injEq, Nat.ofDigitChars_nil]
    constructor
    · rintro rfl
      exact ⟨rfl, hn⟩
    · exact fun h => h.1.symm
  | cons c digits ih =>
    obtain ⟨hc, hd⟩ := List.forall_mem_cons.mp hd
    simp only [readDown, digit?_of_isDigit hc, Nat.ofDigitChars_cons]
    generalize c.toNat - '0'.toNat = d
    have hcast : -(n : Int) * 10 - d = -(10 * n + d : Nat) := by push_cast; omega
    rw [hcast]
    split
    · next hle => exact ih hd hle
    · next hle =>
      have := le_ofDigitChars digits (10 * n + d)
      simp only [reduceCtorEq, false_iff, not_and]
      omega

theorem readInt_signed (hn : digits ≠ []) (hd : ∀ c ∈ digits, c.isDigit = true)
    (hl : least < 0) (hm : 0 ≤ most) (negative : Bool) :
    readInt least most (signed negative digits) = .ok k ↔
      k = integer negative digits ∧ least ≤ k ∧ k ≤ most := by
  obtain ⟨c, cs, rfl⟩ := List.exists_cons_of_ne_nil hn
  cases negative with
  | true =>
    have hr : readDown least (-(0 : Nat)) (c :: cs) = .ok k ↔ _ := readDown_eq_ok_iff hd (by omega)
    simp only [signed, integer, if_true, readInt, if_pos hl]
    rw [show (0 : Int) = -(0 : Nat) from rfl, hr, decimal]
    constructor
    · rintro ⟨rfl, h⟩
      exact ⟨rfl, h, by omega⟩
    · exact fun h => ⟨h.1, h.2.1⟩
  | false =>
    have hr : readUp most (0 : Nat) (c :: cs) = .ok k ↔ _ := readUp_eq_ok_iff hd hm
    have hc : c.isDigit = true := hd c List.mem_cons_self
    have hplus : c ≠ '+' := fun h => absurd (h ▸ hc) (by decide)
    have hminus : c ≠ '-' := fun h => absurd (h ▸ hc) (by decide)
    have hread : readInt least most (c :: cs) = readUp most 0 (c :: cs) := by
      simp [readInt, hplus, hminus]
    simp only [signed, integer, Bool.false_eq_true, if_false]
    rw [hread, show (0 : Int) = (0 : Nat) from rfl, hr, decimal]
    constructor
    · rintro ⟨rfl, h⟩
      exact ⟨rfl, by omega, h⟩
    · exact fun h => ⟨h.1, h.2.2⟩

-- ---- writing -------------------------------------------------------------

theorem toList_toString (n : Int) :
    (toString n).toList = signed (n < 0) (Nat.toDigits 10 n.natAbs) := by
  rw [Int.toString_eq_repr]
  cases n with
  | ofNat m => simp [Int.repr, signed, Nat.toList_repr]
  | negSucc m => simp [Int.repr, signed, Int.negSucc_lt_zero, Nat.toList_repr]

theorem integer_toDigits (n : Int) : integer (n < 0) (Nat.toDigits 10 n.natAbs) = n := by
  rw [integer, decimal, Nat.ofDigitChars_ten_toDigits]
  simp only [decide_eq_true_eq]
  omega

-- ---- comparing -----------------------------------------------------------

theorem tenTo_succ (n : Nat) : tenTo (n + 1) = tenTo n * 10 := rfl

theorem decimal_cons (c : Char) (digits : List Char) :
    decimal (c :: digits) = (c.toNat - '0'.toNat) * tenTo digits.length + decimal digits := by
  have h (n : Nat) : Nat.ofDigitChars 10 digits n = n * tenTo digits.length + decimal digits := by
    induction digits generalizing n with
    | nil => simp [decimal, tenTo]
    | cons d digits ih =>
      rw [decimal, Nat.ofDigitChars_cons, Nat.ofDigitChars_cons, ih, ih, List.length_cons,
        tenTo_succ]
      grind
  rw [decimal, Nat.ofDigitChars_cons, h, Nat.mul_zero, Nat.zero_add]

theorem toNat_sub_le {c : Char} (h : c.isDigit = true) :
    '0'.toNat ≤ c.toNat ∧ c.toNat - '0'.toNat ≤ 9 := by
  have := Char.isDigit_iff_toNat.mp h
  simp only [Char.reduceToNat] at *
  omega

theorem decimal_lt (hd : ∀ c ∈ digits, c.isDigit = true) :
    decimal digits < tenTo digits.length := by
  induction digits with
  | nil => decide
  | cons c digits ih =>
    obtain ⟨hc, hd⟩ := List.forall_mem_cons.mp hd
    have hrest := ih hd
    have hfirst := Nat.mul_le_mul_right (tenTo digits.length) (toNat_sub_le hc).2
    rw [decimal_cons, List.length_cons, tenTo_succ]
    omega

theorem mul_add_lt_iff {x y a b p : Nat} (ha : a < p) (hb : b < p) :
    x * p + a < y * p + b ↔ x < y ∨ x = y ∧ a < b := by
  rcases Nat.lt_trichotomy x y with h | rfl | h
  · have := Nat.mul_le_mul_right p (Nat.succ_le_of_lt h)
    rw [Nat.succ_mul] at this
    omega
  · omega
  · have := Nat.mul_le_mul_right p (Nat.succ_le_of_lt h)
    rw [Nat.succ_mul] at this
    omega

theorem lt_iff_decimal_lt {a b : List Char} (hl : a.length = b.length)
    (ha : ∀ c ∈ a, c.isDigit = true) (hb : ∀ c ∈ b, c.isDigit = true) :
    a < b ↔ decimal a < decimal b := by
  induction a generalizing b with
  | nil =>
    obtain rfl : b = [] := List.eq_nil_of_length_eq_zero hl.symm
    simp
  | cons c a ih =>
    cases b with
    | nil => cases hl
    | cons d b =>
      have hl : a.length = b.length := Nat.succ.inj hl
      obtain ⟨hc, ha⟩ := List.forall_mem_cons.mp ha
      obtain ⟨hd, hb⟩ := List.forall_mem_cons.mp hb
      have hc := toNat_sub_le hc
      have hd := toNat_sub_le hd
      have hlt : c < d ↔ c.toNat < d.toNat := Iff.rfl
      rw [List.cons_lt_cons_iff, ih hl ha hb, decimal_cons, decimal_cons, hl,
        mul_add_lt_iff (hl ▸ decimal_lt ha) (decimal_lt hb), hlt, ← Char.toNat_inj]
      omega

theorem eq_of_decimal_eq {a b : List Char} (hl : a.length = b.length)
    (ha : ∀ c ∈ a, c.isDigit = true) (hb : ∀ c ∈ b, c.isDigit = true)
    (h : decimal a = decimal b) : a = b := by
  have hab : ¬ a < b := by rw [lt_iff_decimal_lt hl ha hb]; omega
  have hba : ¬ b < a := by rw [lt_iff_decimal_lt hl.symm hb ha]; omega
  exact List.le_antisymm hba hab

end EventStore.Text
