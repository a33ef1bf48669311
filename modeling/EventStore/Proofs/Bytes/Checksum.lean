import EventStore.Bytes.Checksum
import Mathlib.Logic.Function.Basic

/-!
# What checksums tell apart

The highest bit of the polynomial is set, so a step of the checksum can be undone
(`bitStep_injective`), and neither the remainder nor the byte that is taken in gets lost. Hence two
texts that differ in one byte have different checksums (`checksum_set_ne`).
-/

namespace EventStore.Bytes

open Function

/-- After a step the highest bit tells what the lowest one was. -/
theorem getLsbD_bitStep (r : BitVec 32) : (bitStep r).getLsbD 31 = r.getLsbD 0 := by
  have hp : polynomial.getLsbD 31 = true := by decide
  have hs : (r >>> 1).getLsbD 31 = false := by simp
  unfold bitStep
  split
  · next h => rw [BitVec.getLsbD_xor, hs, hp, h, Bool.false_xor]
  · next h => rw [hs, (Bool.not_eq_true _).mp h]

theorem bitStep_injective : Injective bitStep := by
  intro r r' h
  have hlow : r.getLsbD 0 = r'.getLsbD 0 := by
    rw [← getLsbD_bitStep, ← getLsbD_bitStep, h]
  have hshift : r >>> 1 = r' >>> 1 := by
    unfold bitStep at h
    rw [hlow] at h
    split at h
    · exact (BitVec.xor_left_inj _).mp h
    · exact h
  refine BitVec.eq_of_getLsbD_eq fun i _ => ?_
  cases i with
  | zero => exact hlow
  | succ i =>
    have := congrArg (BitVec.getLsbD · i) hshift
    simpa [BitVec.getLsbD_ushiftRight, Nat.add_comm 1 i] using this

theorem repeat_injective {f : α → α} (h : Injective f) (n : Nat) : Injective (Nat.repeat f n) := by
  induction n with
  | zero => exact injective_id
  | succ n ih => exact h.comp ih

theorem byteStep_injective_left (b : UInt8) : Injective (byteStep · b) :=
  (repeat_injective bitStep_injective 8).comp fun _ _ h => (BitVec.xor_left_inj _).mp h

theorem byteStep_injective_right (r : BitVec 32) : Injective (byteStep r) := by
  refine (repeat_injective bitStep_injective 8).comp fun b b' h => ?_
  have hwide : b.toBitVec.zeroExtend 32 = b'.toBitVec.zeroExtend 32 :=
    (BitVec.xor_right_inj _).mp h
  have hnum := congrArg BitVec.toNat hwide
  have hb := UInt8.toNat_lt b
  have hb' := UInt8.toNat_lt b'
  refine UInt8.toNat_inj.mp ?_
  simp only [BitVec.truncate_eq_setWidth, BitVec.toNat_setWidth, UInt8.toNat_toBitVec] at hnum
  omega

theorem foldl_byteStep_injective (s : Bytes) : Injective fun r => s.foldl byteStep r := by
  induction s with
  | nil => exact injective_id
  | cons b s ih => exact ih.comp (byteStep_injective_left b)

/-- A single byte that is different makes another checksum, wherever it stands. -/
theorem checksum_set_ne (front : Bytes) {s : Bytes} {i : Nat} {b : UInt8} (h : i < s.length)
    (hb : b ≠ s[i]) : checksum (front ++ s.set i b) ≠ checksum (front ++ s) := by
  intro he
  have hs : s = s.take i ++ s[i] :: s.drop (i + 1) := by
    rw [List.getElem_cons_drop, List.take_append_drop]
  rw [List.set_eq_take_append_cons_drop, if_pos h] at he
  conv at he => rhs; rw [hs]
  simp only [checksum, List.foldl_append, List.foldl_cons] at he
  have hfold := foldl_byteStep_injective (s.drop (i + 1)) (BitVec.not_inj.mp he)
  exact hb (byteStep_injective_right _ hfold)

end EventStore.Bytes
