import EventStore.Bytes.Block
import EventStore.Proofs.Results

/-!
# How far blocks expand

The size in front of a block is a bound: whatever the block holds, it expands to no more bytes than
that (`length_le_of_expand`), and so to less than can be counted in four bytes
(`length_lt_of_decompress`).
-/

namespace EventStore.Block

variable {o o' : Output} {s s' : Bytes}

/-- The bytes are counted, and there are not too many of them. -/
structure Output.Bounded (o : Output) : Prop where
  count : o.bytes.length = o.count
  room : o.count ≤ o.most

theorem length_copyBytes (offset n : Nat) (s : Bytes) :
    (Output.copyBytes offset n s).length = s.length + n := by
  induction n generalizing s with
  | zero => rfl
  | succ n ih =>
    rw [Output.copyBytes, ih, List.length_cons]
    omega

theorem Output.checkRoom_ok {n : Nat} {u : Unit} (h : o.checkRoom n = .ok u) :
    o.count + n ≤ o.most := by
  unfold checkRoom at h
  split at h
  · assumption
  · cases h

theorem Output.Bounded.push (h : o.Bounded) (hp : o.push s = .ok o') :
    o'.Bounded ∧ o'.most = o.most := by
  obtain ⟨u, hr, hp⟩ := bind_ok.mp hp
  cases hp
  refine ⟨⟨?_, Output.checkRoom_ok hr⟩, rfl⟩
  simp [h.count, Nat.add_comm]

theorem Output.Bounded.copy {offset n : Nat} (h : o.Bounded) (hc : o.copy offset n = .ok o') :
    o'.Bounded ∧ o'.most = o.most := by
  obtain ⟨u, hr, hc⟩ := bind_ok.mp hc
  split at hc
  · cases hc
  · cases hc
    refine ⟨⟨?_, Output.checkRoom_ok hr⟩, rfl⟩
    rw [length_copyBytes, h.count]

theorem Output.Bounded.step {token : Nat} {last : Bool} (h : o.Bounded)
    (hs : step token s o = .ok (s', o', last)) : o'.Bounded ∧ o'.most = o.most := by
  unfold Block.step at hs
  obtain ⟨⟨n, s₁⟩, -, hs⟩ := bind_ok.mp hs
  obtain ⟨⟨run, s₂⟩, -, hs⟩ := bind_ok.mp hs
  obtain ⟨o₁, hpush, hs⟩ := bind_ok.mp hs
  obtain ⟨h₁, hm₁⟩ := h.push hpush
  dsimp only at hs
  split at hs
  · cases hs
    exact ⟨h₁, hm₁⟩
  · obtain ⟨⟨offset, s₃⟩, -, hs⟩ := bind_ok.mp hs
    obtain ⟨⟨m, s₄⟩, -, hs⟩ := bind_ok.mp hs
    obtain ⟨o₂, hcopy, hs⟩ := bind_ok.mp hs
    obtain ⟨h₂, hm₂⟩ := h₁.copy hcopy
    cases hs
    exact ⟨h₂, hm₂.trans hm₁⟩

theorem length_le_of_expand {fuel : Nat} {content : Bytes} (h : o.Bounded)
    (he : expand fuel s o = .ok content) : content.length ≤ o.most := by
  induction fuel generalizing s o with
  | zero => cases he
  | succ fuel ih =>
    cases s with
    | nil => cases he
    | cons token s =>
      unfold expand at he
      split at he
      · cases he
      · next hs =>
        cases he
        obtain ⟨h', hm⟩ := h.step hs
        rw [List.length_reverse, h'.count, ← hm]
        exact h'.room
      · next hs =>
        obtain ⟨h', hm⟩ := h.step hs
        exact hm ▸ ih h' he

theorem length_lt_of_decompress {content : Bytes} (h : decompress s = .ok content) :
    content.length < Bytes.room 4 := by
  unfold decompress Bytes.takeNumber? at h
  split at h
  · next most block hm =>
    split at hm
    · next front rest hsplit =>
      cases hm
      have hmost := Bytes.number_lt front
      rw [(Bytes.split?_eq_some_iff.mp hsplit).2] at hmost
      exact Nat.lt_of_le_of_lt (length_le_of_expand ⟨rfl, Nat.zero_le _⟩ h) hmost
    · cases hm
  · cases h

end EventStore.Block
