import EventStore.Engine.Seek
import EventStore.Proofs.Engine.Outcomes

/-!
# What a seek finds

Where times do not decrease a seek ends at the first position from the time wanted on
(`position_sorted`), and in a small window it passes nothing from that time on
(`position_small`). Where it has to ask for the times it goes the way that it goes on the times
alone (`seek_told`), and so it does in an engine (`seek_result`).
-/

namespace EventStore.Seek

variable {time : Nat → Int} {wanted : Int} {low high count k : Nat}

-- ---- on times alone ------------------------------------------------------

def walked (time : Nat → Int) (wanted : Int) (k : Nat) : Nat := walkBack (m := Id) time wanted k

def scanned (time : Nat → Int) (wanted : Int) (low count : Nat) : Nat :=
  scan (m := Id) time wanted low count

def found (time : Nat → Int) (wanted : Int) (low high : Nat) : Nat :=
  within (m := Id) time wanted low high

def position (time : Nat → Int) (wanted : Int) (count : Nat) : Nat := found time wanted 0 count

theorem walked_succ :
    walked time wanted (k + 1) = if time k = wanted then walked time wanted k else k + 1 := rfl

theorem scanned_succ : scanned time wanted low (count + 1) =
    if wanted ≤ time low then low else scanned time wanted (low + 1) count := rfl

theorem found_eq (time : Nat → Int) (wanted : Int) (low high : Nat) : found time wanted low high =
    if smallWindow < high - low then
      if time (low + (high - low) / 2) < wanted then
        found time wanted (low + (high - low) / 2 + 1) high
      else if wanted < time (low + (high - low) / 2) then
        found time wanted low (low + (high - low) / 2)
      else walked time wanted (low + (high - low) / 2)
    else scanned time wanted low (high - low) := by
  unfold found
  rw [within]
  rfl

theorem walked_spec (time : Nat → Int) (wanted : Int) (k : Nat) : walked time wanted k ≤ k ∧
    (∀ i, walked time wanted k ≤ i → i < k → time i = wanted) ∧
      ∀ i, i + 1 = walked time wanted k → time i ≠ wanted := by
  induction k with
  | zero => exact ⟨Nat.le_refl _, nofun, nofun⟩
  | succ k ih =>
    rw [walked_succ]
    split
    · next hk =>
      obtain ⟨hle, heq, hne⟩ := ih
      refine ⟨Nat.le_succ_of_le hle, fun i hi hlt => ?_, hne⟩
      rcases Nat.lt_succ_iff_lt_or_eq.mp hlt with hlt | rfl
      · exact heq i hi hlt
      · exact hk
    · next hk =>
      refine ⟨Nat.le_refl _, fun i hi hlt => absurd hlt (Nat.not_lt.mpr hi), fun i hi => ?_⟩
      obtain rfl : i = k := Nat.succ.inj hi
      exact hk

theorem scanned_spec (time : Nat → Int) (wanted : Int) (low count : Nat) :
    low ≤ scanned time wanted low count ∧ scanned time wanted low count ≤ low + count ∧
      (∀ i, low ≤ i → i < scanned time wanted low count → time i < wanted) ∧
        (scanned time wanted low count < low + count →
          wanted ≤ time (scanned time wanted low count)) := by
  induction count generalizing low with
  | zero =>
    refine ⟨Nat.le_refl _, Nat.le_refl _, fun i hi hlt => absurd hlt (Nat.not_lt.mpr hi), ?_⟩
    exact fun h => absurd h (Nat.lt_irrefl _)
  | succ count ih =>
    rw [scanned_succ]
    split
    · next hl =>
      exact ⟨Nat.le_refl _, Nat.le_add_right .., fun i hi hlt => absurd hlt (Nat.not_lt.mpr hi),
        fun _ => hl⟩
    · next hl =>
      obtain ⟨hle, hge, hlt, hat⟩ := ih (low + 1)
      rw [Nat.add_right_comm] at hge hat
      refine ⟨Nat.le_of_succ_le hle, hge, fun i hi hi' => ?_, hat⟩
      rcases Nat.eq_or_lt_of_le hi with rfl | hi
      · exact Int.not_le.mp hl
      · exact hlt i hi hi'

theorem found_le (h : low ≤ high) : found time wanted low high ≤ high := by
  induction low, high using within.induct with
  | case1 low high hw middle ihr ihl =>
    have hm : middle < high := by omega
    rw [found_eq, if_pos hw]
    split
    · exact ihr hm
    · split
      · exact Nat.le_trans (ihl (Nat.le_add_right ..)) (Nat.le_of_lt hm)
      · exact Nat.le_trans (walked_spec ..).1 (Nat.le_of_lt hm)
  | case2 low high hw =>
    rw [found_eq, if_neg hw]
    exact Nat.le_trans (scanned_spec ..).2.1 (Nat.le_of_eq (Nat.add_sub_cancel' h))

-- ---- where times do not decrease -----------------------------------------

/-- Everything before `k` is too early, and everything from `k` on, up to `count`, is not. -/
def Parts (time : Nat → Int) (wanted : Int) (count k : Nat) : Prop :=
  (∀ i < k, time i < wanted) ∧ ∀ i, k ≤ i → i < count → wanted ≤ time i

theorem Parts.lt_iff {i : Nat} (h : Parts time wanted count k) (hi : i < count) :
    i < k ↔ time i < wanted :=
  ⟨h.1 i, fun ht => Nat.lt_of_not_le fun hk => Int.not_le.mpr ht (h.2 i hk hi)⟩

theorem Parts.countP_eq {α : Type} {l : List α} {f : α → Int}
    (h : Parts time wanted l.length k) (hk : k ≤ l.length)
    (hf : ∀ i (hi : i < l.length), f l[i] = time i) : l.countP (f · < wanted) = k := by
  have hfront : (l.take k).countP (f · < wanted) = k := by
    refine (List.countP_eq_length.mpr fun x hx => ?_).trans (List.length_take_of_le hk)
    obtain ⟨i, hi, rfl⟩ := List.mem_take_iff_getElem.mp hx
    simpa [hf] using h.1 i (by omega)
  have hback : (l.drop k).countP (f · < wanted) = 0 := by
    refine List.countP_eq_zero.mpr fun x hx => ?_
    obtain ⟨i, hi, rfl⟩ := List.mem_drop_iff_getElem.mp hx
    simpa [hf] using h.2 (k + i) (by omega) (by omega)
  rw [← List.take_append_drop k l, List.countP_append, hfront, hback, Nat.add_zero]

variable (hs : ∀ i j, i ≤ j → j < count → time i ≤ time j)
include hs

theorem walked_parts (hk : k < count) (ht : time k = wanted) :
    Parts time wanted count (walked time wanted k) := by
  obtain ⟨hle, heq, hne⟩ := walked_spec time wanted k
  constructor
  · intro i hi
    have hp : walked time wanted k - 1 + 1 = walked time wanted k := by omega
    have hb : time (walked time wanted k - 1) < wanted :=
      Int.lt_iff_le_and_ne.mpr ⟨Int.le_trans (hs _ k (by omega) hk) (Int.le_of_eq ht), hne _ hp⟩
    exact Int.lt_of_le_of_lt (hs i _ (by omega) (by omega)) hb
  · intro i hi hic
    rcases Nat.lt_or_ge i k with hik | hik
    · exact Int.le_of_eq (heq i hi hik).symm
    · exact ht ▸ hs k i hik hic

/-- If all in front of the window is too early and nothing behind it is, the place found in the
window parts the two. -/
theorem found_parts (hlh : low ≤ high) (hh : high ≤ count) (hlow : ∀ i < low, time i < wanted)
    (hhigh : ∀ i, high ≤ i → i < count → wanted ≤ time i) :
    Parts time wanted count (found time wanted low high) := by
  induction low, high using within.induct with
  | case1 low high hw middle ihr ihl =>
    have hm : middle < high := by omega
    have hmc : middle < count := Nat.lt_of_lt_of_le hm hh
    rw [found_eq, if_pos hw]
    split
    · next ht =>
      refine ihr hm hh (fun i hi => ?_) hhigh
      exact Int.lt_of_le_of_lt (hs i middle (Nat.le_of_lt_succ hi) hmc) ht
    · next ht =>
      split
      · next ht' =>
        refine ihl (Nat.le_add_right ..) (Nat.le_of_lt hmc) hlow fun i hi hic => ?_
        exact Int.le_of_lt (Int.lt_of_lt_of_le ht' (hs middle i hi hic))
      · exact walked_parts hs hmc (by omega)
  | case2 low high hw =>
    obtain ⟨hle, hge, hlt, hat⟩ := scanned_spec time wanted low (high - low)
    rw [Nat.add_sub_cancel' hlh] at hge hat
    rw [found_eq, if_neg hw]
    constructor
    · intro i hi
      rcases Nat.lt_or_ge i low with hil | hil
      · exact hlow i hil
      · exact hlt i hil hi
    · intro i hi hic
      rcases Nat.eq_or_lt_of_le hge with he | hlt'
      · exact hhigh i (he ▸ hi) hic
      · exact Int.le_trans (hat hlt') (hs _ i hi hic)

/-- Where times do not decrease, a seek parts what is too early from what is not. -/
theorem position_sorted : Parts time wanted count (position time wanted count) :=
  found_parts hs (Nat.zero_le _) (Nat.le_refl _) nofun
    fun _ hi hic => absurd hic (Nat.not_lt.mpr hi)

omit hs

-- ---- elsewhere -----------------------------------------------------------

/-- In a small window nothing is passed by that is not too early, in whatever order times are. -/
theorem position_small (h : count ≤ smallWindow) :
    ∀ i < position time wanted count, time i < wanted := by
  intro i hi
  rw [position, found_eq, if_neg (by omega)] at hi
  exact (scanned_spec time wanted 0 (count - 0)).2.2.1 i (Nat.zero_le _) hi

-- ---- whatever times are told ---------------------------------------------

/-- What is true of answers, and stays true when a time is asked for before, is true of a seek. -/
theorem seek_induction {m : Type → Type u} [Monad m] {timeAt : Nat → m Int} {wanted : Int}
    {P : m Nat → Prop} (count : Nat) (hp : ∀ n, P (pure n))
    (hb : ∀ i < count, ∀ f, (∀ t, P (f t)) → P (timeAt i >>= f)) :
    P (seek timeAt wanted count) := by
  have hwalk (k : Nat) (hk : k ≤ count) : P (walkBack timeAt wanted k) := by
    induction k with
    | zero => exact hp 0
    | succ k ih =>
      refine hb k hk _ fun t => ?_
      split
      · exact ih (Nat.le_of_lt hk)
      · exact hp _
  have hscan (low n : Nat) (hn : low + n ≤ count) : P (scan timeAt wanted low n) := by
    induction n generalizing low with
    | zero => exact hp low
    | succ n ih =>
      refine hb low (by omega) _ fun t => ?_
      split
      · exact hp _
      · exact ih _ (by omega)
  have hwithin (low high : Nat) (hl : low ≤ high) (hh : high ≤ count) :
      P (within timeAt wanted low high) := by
    induction low, high using within.induct with
    | case1 low high hw middle ihr ihl =>
      rw [within, if_pos hw]
      refine hb middle (by omega) _ fun t => ?_
      split
      · exact ihr (by omega) hh
      · split
        · exact ihl (by omega) (by omega)
        · exact hwalk middle (by omega)
    | case2 low high hw =>
      rw [within, if_neg hw]
      exact hscan low (high - low) (by omega)
  exact hwithin 0 count (Nat.zero_le _) (Nat.le_refl _)

-- ---- as times are told ---------------------------------------------------

section Told

variable {m : Type → Type u} [Monad m] {timeAt : Nat → m Int} {P : m Nat → Prop}
  (hb : ∀ i < count, ∀ f, P (f (time i)) → P (timeAt i >>= f))
include hb

theorem walkBack_told (hk : k ≤ count) (hp : P (pure (walked time wanted k))) :
    P (walkBack timeAt wanted k) := by
  induction k with
  | zero => exact hp
  | succ k ih =>
    rw [walked_succ] at hp
    refine hb k hk _ ?_
    split
    · next ht =>
      rw [if_pos ht] at hp
      exact ih (Nat.le_of_lt hk) hp
    · next ht =>
      rw [if_neg ht] at hp
      exact hp

theorem scan_told {n : Nat} (hn : low + n ≤ count) (hp : P (pure (scanned time wanted low n))) :
    P (scan timeAt wanted low n) := by
  induction n generalizing low with
  | zero => exact hp
  | succ n ih =>
    rw [scanned_succ] at hp
    refine hb low (by omega) _ ?_
    split
    · next ht =>
      rw [if_pos ht] at hp
      exact hp
    · next ht =>
      rw [if_neg ht] at hp
      exact ih (by omega) hp

theorem within_told (hl : low ≤ high) (hh : high ≤ count)
    (hp : P (pure (found time wanted low high))) : P (within timeAt wanted low high) := by
  induction low, high using within.induct with
  | case1 low high hw middle ihr ihl =>
    rw [found_eq, if_pos hw] at hp
    rw [within, if_pos hw]
    refine hb middle (by omega) _ ?_
    split
    · next ht =>
      rw [if_pos ht] at hp
      exact ihr (by omega) hh hp
    · next ht =>
      rw [if_neg ht] at hp
      split
      · next ht' =>
        rw [if_pos ht'] at hp
        exact ihl (by omega) (by omega) hp
      · next ht' =>
        rw [if_neg ht'] at hp
        exact walkBack_told hb (by omega) hp
  | case2 low high hw =>
    rw [found_eq, if_neg hw] at hp
    rw [within, if_neg hw]
    exact scan_told hb (by omega) hp

/-- What is true of the place found on the times alone, and stays true when one of these times is
told before, is true of a seek. -/
theorem seek_told (hp : P (pure (position time wanted count))) : P (seek timeAt wanted count) :=
  within_told hb (Nat.zero_le _) (Nat.le_refl _) hp

end Told

theorem seek_result {timeAt : Nat → Operation Int} {e : Engine} {rounds count : Nat}
    (h : ∀ i < count, (timeAt i).result rounds e = some (.ok (time i), e)) :
    (seek timeAt wanted count).result rounds e = some (.ok (position time wanted count), e) := by
  refine seek_told (P := fun op : Operation Nat => op.result rounds e = some (.ok _, e))
    (fun i hi f hf => ?_) (Operation.result_pure ..)
  rw [Operation.result_bind, h i hi]
  exact hf

end EventStore.Seek
