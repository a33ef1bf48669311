import EventStore.Proofs.Text.Number
import EventStore.Time.Timestamp

/-!
# Instants that can be represented, and shifts

A shift has a result just when that can be represented (`Instant.exists_shift?_iff`), and a shift
back comes to the exact time (`Instant.inNanos_of_shift?`). What is read as an instant can be
represented (`Timestamp.representable_of_read?`).
-/

namespace EventStore

namespace Instant

variable {t u : Instant} {seconds : Int} {nanos : Nat}

/-- In one of the years that have instants; no second is longer than a leap second. -/
structure Representable (t : Instant) : Prop where
  least : leastSeconds ≤ t.seconds
  greatest : t.seconds ≤ greatestSeconds
  nanos : t.nanos < 2000000000

instance (t : Instant) : Decidable t.Representable :=
  decidable_of_iff (leastSeconds ≤ t.seconds ∧ t.seconds ≤ greatestSeconds ∧ t.nanos < 2000000000)
    ⟨fun h => ⟨h.1, h.2.1, h.2.2⟩, fun h => ⟨h.1, h.2, h.3⟩⟩

/-- Nanoseconds from the start of 1970, where a leap second counts as the second after it. -/
def inNanos (t : Instant) : Int := t.seconds * 1000000000 + t.nanos

theorem ofSeconds?_eq_some_iff : ofSeconds? seconds nanos = some u ↔
    (leastSeconds ≤ seconds ∧ seconds ≤ greatestSeconds) ∧ u = ⟨seconds, nanos⟩ := by
  unfold ofSeconds?
  split
  · next h => simp [h, eq_comm]
  · next h => simp [h]

theorem of_ofSeconds? (h : ofSeconds? seconds nanos = some u) : u = ⟨seconds, nanos⟩ :=
  (ofSeconds?_eq_some_iff.mp h).2

theorem exists_ofSeconds?_iff : (∃ u, ofSeconds? seconds nanos = some u) ↔
    leastSeconds ≤ seconds ∧ seconds ≤ greatestSeconds := by
  simp [ofSeconds?_eq_some_iff]

theorem of_shift? (h : t.shift? seconds = some u) :
    (t.nanos < 1000000000 ∨ seconds = 0) ∧ u = ⟨t.seconds + seconds, t.nanos⟩ ∨
      1000000000 ≤ t.nanos ∧ 0 < seconds ∧
        u = ⟨t.seconds + seconds, t.nanos - 1000000000⟩ ∨
      1000000000 ≤ t.nanos ∧ seconds < 0 ∧
        u = ⟨t.seconds + 1 + seconds, t.nanos - 1000000000⟩ := by
  unfold shift? at h
  split at h
  · next hn => exact .inl ⟨hn, of_ofSeconds? h⟩
  next hn =>
  obtain ⟨hn, h0⟩ := not_or.mp hn
  split at h
  · next hp => exact .inr (.inl ⟨Nat.le_of_not_lt hn, hp, of_ofSeconds? h⟩)
  · next hp => exact .inr (.inr ⟨Nat.le_of_not_lt hn, by omega, of_ofSeconds? h⟩)

theorem exists_shift?_iff (ht : t.Representable) : (∃ u, t.shift? seconds = some u) ↔
    leastSeconds * 1000000000 ≤ t.inNanos + seconds * 1000000000 ∧
      t.seconds + seconds ≤ greatestSeconds := by
  obtain ⟨hl, hg, hn⟩ := ht
  unfold shift? inNanos
  split
  · rw [exists_ofSeconds?_iff]
    omega
  · split
    · rw [exists_ofSeconds?_iff]
      omega
    · rw [exists_ofSeconds?_iff]
      omega

theorem inNanos_of_shift? (h : t.shift? seconds = some u) (hs : seconds ≤ 0) :
    u.inNanos = t.inNanos + seconds * 1000000000 := by
  unfold inNanos
  rcases of_shift? h with ⟨-, rfl⟩ | ⟨hn, hp, rfl⟩ | ⟨hn, hp, rfl⟩ <;> dsimp only <;> omega

end Instant

-- ---- what is read --------------------------------------------------------

namespace Timestamp

open Text

variable {s r : List Char}

theorem bind_eq_some_iff {x : Reading α} {f : α → Reading β} {b : β} :
    (x >>= f) s = some (b, r) ↔ ∃ a r', x s = some (a, r') ∧ f a r' = some (b, r) := by
  show (x s).bind (fun p => f p.1 p.2) = some (b, r) ↔ _
  rw [Option.bind_eq_some_iff]
  exact ⟨fun ⟨(a, r'), h⟩ => ⟨a, r', h⟩, fun ⟨a, r', h⟩ => ⟨(a, r'), h⟩⟩

theorem digitsUpTo_spec {most : Nat} {ds : List Char} (h : digitsUpTo most s = some (ds, r)) :
    ds.length ≤ most ∧ ∀ c ∈ ds, c.isDigit = true := by
  unfold digitsUpTo at h
  dsimp only at h
  split at h
  · cases h
  · cases h
    exact ⟨Nat.le_trans (List.takeWhile_sublist _).length_le (List.length_take_le ..),
      List.all_eq_true.mp List.all_takeWhile⟩

theorem fraction_lt {n : Nat} (h : fraction s = some (n, r)) : n < 1000000000 := by
  obtain ⟨t, _, -, h⟩ := bind_eq_some_iff.mp h
  split at h
  · obtain ⟨_, _, -, h⟩ := bind_eq_some_iff.mp h
    obtain ⟨ds, _, hds, h⟩ := bind_eq_some_iff.mp h
    obtain ⟨_, _, -, h⟩ := bind_eq_some_iff.mp h
    cases h
    obtain ⟨hl, hd⟩ := digitsUpTo_spec hds
    have hten : tenTo ds.length * tenTo (9 - ds.length) = 1000000000 := by
      show 10 ^ ds.length * 10 ^ (9 - ds.length) = 10 ^ 9
      rw [← Nat.pow_add, Nat.add_sub_cancel' hl]
    rw [← hten]
    exact Nat.mul_lt_mul_of_pos_right (decimal_lt hd) (Nat.pow_pos (by decide))
  · cases h
    decide

theorem timeOfDay_lt {time : Int} {nanos : Nat} (h : timeOfDay s = some ((time, nanos), r)) :
    nanos < 2000000000 := by
  obtain ⟨hours, _, -, h⟩ := bind_eq_some_iff.mp h
  obtain ⟨_, _, -, h⟩ := bind_eq_some_iff.mp h
  obtain ⟨minutes, _, -, h⟩ := bind_eq_some_iff.mp h
  obtain ⟨_, _, -, h⟩ := bind_eq_some_iff.mp h
  obtain ⟨seconds, _, -, h⟩ := bind_eq_some_iff.mp h
  obtain ⟨f, _, hf, h⟩ := bind_eq_some_iff.mp h
  have := fraction_lt hf
  split at h
  · cases h
    omega
  · cases h
    omega

theorem representable_of_instant {t : Instant} (h : instant s = some (t, r)) :
    t.Representable := by
  obtain ⟨d, _, -, h⟩ := bind_eq_some_iff.mp h
  obtain ⟨_, _, -, h⟩ := bind_eq_some_iff.mp h
  obtain ⟨⟨time, nanos⟩, _, htime, h⟩ := bind_eq_some_iff.mp h
  dsimp only at h
  obtain ⟨_, _, -, h⟩ := bind_eq_some_iff.mp h
  obtain ⟨ahead, _, -, h⟩ := bind_eq_some_iff.mp h
  obtain ⟨_, _, -, h⟩ := bind_eq_some_iff.mp h
  cases ht : Instant.ofSeconds? (d.number * 86400 + time - ahead) nanos with
  | none =>
    rw [ht] at h
    cases h
  | some u =>
    rw [ht] at h
    cases h
    obtain ⟨⟨hl, hg⟩, rfl⟩ := Instant.ofSeconds?_eq_some_iff.mp ht
    exact ⟨hl, hg, timeOfDay_lt htime⟩

theorem representable_of_read? {text : String} {t : Instant} (h : read? text = some t) :
    t.Representable := by
  unfold read? at h
  split at h
  · next hread =>
    cases h
    exact representable_of_instant hread
  · cases h

end Timestamp

end EventStore
