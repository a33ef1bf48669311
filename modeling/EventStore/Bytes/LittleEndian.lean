/-!
# Numbers as bytes

Numbers of a fixed count of bytes with the lowest byte first. Reading inverts writing for every number
that fits.
-/

namespace EventStore

abbrev Bytes := List UInt8

namespace Bytes

/-- The lowest `width` bytes of `n`. -/
def littleEndian : (width n : Nat) → Bytes
  | 0, _ => []
  | width + 1, n => UInt8.ofNat n :: littleEndian width (n / 256)

def number : Bytes → Nat
  | [] => 0
  | b :: rest => b.toNat + 256 * number rest

/-- How many numbers `width` bytes can tell apart. -/
def room : (width : Nat) → Nat
  | 0 => 1
  | width + 1 => 256 * room width

/-- The first `count` bytes and what follows them. -/
def split? (count : Nat) (s : Bytes) : Option (Bytes × Bytes) :=
  if count ≤ s.length then some (s.splitAt count) else none

/-- A number of `width` bytes in front of `s`. -/
def takeNumber? (width : Nat) (s : Bytes) : Option (Nat × Bytes) :=
  match s.split? width with
  | some (front, rest) => some (number front, rest)
  | none => none

theorem toNat_ofNat {n : Nat} (h : n < 256) : (UInt8.ofNat n).toNat = n := by
  have hm : (UInt8.ofNat n).toNat = n % 256 := UInt8.toNat_ofNat'
  omega

theorem length_littleEndian (width n : Nat) : (littleEndian width n).length = width := by
  induction width generalizing n with
  | zero => rfl
  | succ width ih => simp [littleEndian, ih]

theorem number_littleEndian (width n : Nat) : number (littleEndian width n) = n % room width := by
  induction width generalizing n with
  | zero => simp [littleEndian, number, room, Nat.mod_one]
  | succ width ih =>
    have hb : (UInt8.ofNat n).toNat = n % 256 := UInt8.toNat_ofNat'
    rw [littleEndian, number, ih, hb, room, Nat.mod_mul]

theorem number_lt (s : Bytes) : number s < room s.length := by
  induction s with
  | nil => simp [number, room]
  | cons b rest ih =>
    have hb := UInt8.toNat_lt b
    simp only [number, List.length_cons, room]
    omega

theorem littleEndian_number (s : Bytes) : littleEndian s.length (number s) = s := by
  induction s with
  | nil => rfl
  | cons b rest ih =>
    have hb := UInt8.toNat_lt b
    have hd : (b.toNat + 256 * number rest) / 256 = number rest := by omega
    have hm : UInt8.ofNat (b.toNat + 256 * number rest) = b := by
      apply UInt8.toNat_inj.1
      simp only [UInt8.toNat_ofNat']
      omega
    simp only [List.length_cons, littleEndian, number, hd, hm, ih]

theorem split?_append (front rest : Bytes) : split? front.length (front ++ rest) = some (front, rest) := by
  simp [split?, List.splitAt_eq]

theorem split?_eq_some_iff {count : Nat} {s front rest : Bytes} :
    s.split? count = some (front, rest) ↔ s = front ++ rest ∧ front.length = count := by
  constructor
  · intro h
    simp only [split?, List.splitAt_eq, Option.ite_none_right_eq_some, Option.some.injEq,
      Prod.mk.injEq] at h
    obtain ⟨hcount, rfl, rfl⟩ := h
    exact ⟨(List.take_append_drop ..).symm, List.length_take_of_le hcount⟩
  · rintro ⟨rfl, rfl⟩
    exact split?_append front rest

theorem split?_eq_none_iff {count : Nat} {s : Bytes} : s.split? count = none ↔ s.length < count := by
  simp [split?]

theorem takeNumber?_littleEndian_append {width n : Nat} (h : n < room width) (rest : Bytes) :
    takeNumber? width (littleEndian width n ++ rest) = some (n, rest) := by
  have := split?_append (littleEndian width n) rest
  rw [length_littleEndian] at this
  simp [takeNumber?, this, number_littleEndian, Nat.mod_eq_of_lt h]

end Bytes

end EventStore
