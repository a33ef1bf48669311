import EventStore.Proofs.Bytes.Checksum
import EventStore.Proofs.Store.Oversize
import EventStore.Proofs.Store.Readable

/-!
# Damaged frames

When one byte of a frame behind its length is not what was written, the frame is not read
(`Frame.decode_damaged`). So a replay finds what stands in front of the damaged frame and cuts the
file off there (`MapLog.replayed_before_damage`), however payloads are compressed.
-/

namespace EventStore

namespace Frame

variable {compress : Bytes → Bytes} {rs : List Record} {txs : List (List Record)} {p : Bytes}

-- ---- one frame -----------------------------------------------------------

theorem checksum_of_sealed {length length' p p' : Bytes} (h : sealed length p = sealed length' p') :
    Bytes.checksum (length ++ p) = Bytes.checksum (length' ++ p') := by
  have hroom : Bytes.room 4 = 2 ^ 32 := by decide
  have hn := congrArg Bytes.number h
  simp only [sealed, Bytes.number_littleEndian, hroom] at hn
  rw [Nat.mod_eq_of_lt (BitVec.isLt _), Nat.mod_eq_of_lt (BitVec.isLt _)] at hn
  exact BitVec.eq_of_toNat_eq hn

theorem decode_of_mark_ne {length mark : Bytes} (hlen : length = Bytes.littleEndian 4 p.length)
    (h : p.length ≤ longest) (hl : mark.length = 4) (hm : mark ≠ sealed length p) (rest : Bytes) :
    decode (length ++ (p ++ (mark ++ rest))) = .error .badChecksum := by
  subst hlen
  have hlength : (Bytes.littleEndian 4 p.length).length = 4 := Bytes.length_littleEndian ..
  simp only [decode, payload, split?_append_of_length hlength, number_length h,
    if_neg (Nat.not_lt.mpr h), split?_append_of_length rfl, split?_append_of_length hl, if_neg hm]

theorem decode_damaged {j : Nat} {b : UInt8} (h : p.length ≤ longest) (hj : 4 ≤ j)
    (hj' : j < (framed p).length) (hb : b ≠ (framed p)[j]) (rest : Bytes) :
    decode ((framed p).set j b ++ rest) = .error .badChecksum := by
  generalize hlen : Bytes.littleEndian 4 p.length = length
  have hlength : length.length = 4 := hlen ▸ Bytes.length_littleEndian ..
  have hmark : (sealed length p).length = 4 := Bytes.length_littleEndian ..
  have hframed : framed p = length ++ (p ++ sealed length p) := by
    rw [framed, hlen, List.append_assoc]
  obtain ⟨i, rfl⟩ : ∃ i, j = length.length + i := ⟨j - 4, by omega⟩
  simp only [hframed, List.getElem_append_right (Nat.le_add_right ..), Nat.add_sub_cancel_left,
    List.set_append_right _ _ (Nat.le_add_right ..)] at hb ⊢
  -- The byte is in the payload, whose checksum is another one now, or in the mark.
  rcases Nat.lt_or_ge i p.length with hi | hi
  · rw [List.getElem_append_left hi] at hb
    rw [List.set_append_left _ _ hi, List.append_assoc, List.append_assoc]
    refine decode_of_mark_ne ?_ ?_ hmark (fun he => ?_) rest
    · rw [List.length_set, hlen]
    · rwa [List.length_set]
    · exact Bytes.checksum_set_ne length hi hb (checksum_of_sealed he).symm
  · rw [List.getElem_append_right hi] at hb
    rw [List.set_append_right _ _ hi, List.append_assoc, List.append_assoc]
    refine decode_of_mark_ne hlen.symm h ?_ (fun he => ?_) rest
    · rwa [List.length_set]
    · have hk : i - p.length < ((sealed length p).set (i - p.length) b).length := by
        have := length_framed p
        rw [List.length_set]
        omega
      exact hb ((List.getElem_set_self hk).symm.trans (List.getElem_of_eq he hk))

-- ---- logs ----------------------------------------------------------------

/-- The payload is not too long to be read, and can be expanded again. -/
structure Written (compress : Bytes → Bytes) (rs : List Record) : Prop where
  short : (packed compress rs).length ≤ longest
  expands : Block.decompress (packed compress rs) = .ok (Binary.records rs)

theorem written_of_fits (h : Fits rs) : Written Block.compress rs :=
  ⟨h, Block.decompress_compress h.records_lt⟩

theorem frames_logWith (h : ∀ rs ∈ txs, Written compress rs) :
    Frames (logWith compress txs) txs :=
  .flatMap fun rs hrs => decode_framed (h rs hrs).short (h rs hrs).expands

/-- What is damaged stands behind the frames in front of it, and is not read. -/
theorem logWith_damaged {k j : Nat} {b : UInt8} (hk : k < txs.length)
    (hs : (packed compress txs[k]).length ≤ longest) (hj : 4 ≤ j)
    (hj' : j < (encodeWith compress txs[k]).length) (hb : b ≠ (encodeWith compress txs[k])[j]) :
    ∃ rest, (logWith compress txs).set ((logWith compress (txs.take k)).length + j) b =
      logWith compress (txs.take k) ++ rest ∧ decode rest = .error .badChecksum := by
  have hsplit : logWith compress txs = logWith compress (txs.take k) ++
      (encodeWith compress txs[k] ++ logWith compress (txs.drop (k + 1))) := by
    conv => lhs; rw [← List.take_append_drop k txs, ← List.getElem_cons_drop hk]
    rw [logWith_append]
    rfl
  refine ⟨_, ?_, decode_damaged hs hj hj' hb (logWith compress (txs.drop (k + 1)))⟩
  rw [hsplit, List.set_append_right _ _ (Nat.le_add_right ..), Nat.add_sub_cancel_left,
    List.set_append_left _ _ hj']
  rfl

end Frame

namespace MapLog

variable {compress : Bytes → Bytes} {txs : List (List Record)} {d : Disk} {path : Path}
  {n k j : Nat} {b : UInt8}

/-- However payloads are compressed, as long as they can be expanded again and are not too long:
when one byte of a log, in the payload or in the mark of some frame, is not what was written, a
replay finds exactly the transactions in front of that frame, and cuts the file off behind them. -/
theorem replayed_before_damage (hw : ∀ rs ∈ txs, Frame.Written compress rs) (hk : k < txs.length)
    (hj : 4 ≤ j) (hj' : j < (Frame.encodeWith compress txs[k]).length)
    (hb : b ≠ (Frame.encodeWith compress txs[k])[j]) (hf : d.find path = .ok n)
    (hs : d.bytes n = (Frame.logWith compress txs).set
      ((Frame.logWith compress (txs.take k)).length + j) b) :
    ∃ log d', replay d path = .ok (log, d') ∧
      log.entries = Record.applyAll ∅ (txs.take k).flatten ∧
      log.validLength = (Frame.logWith compress (txs.take k)).length ∧
      d'.read path = .ok (Frame.logWith compress (txs.take k)) := by
  have hfront : Frame.Frames (Frame.logWith compress (txs.take k)) (txs.take k) :=
    Frame.frames_logWith fun rs hrs => hw rs (List.mem_of_mem_take hrs)
  obtain ⟨rest, hrest, hd⟩ :=
    Frame.logWith_damaged hk (hw _ (List.getElem_mem hk)).short hj hj' hb
  have hbytes : d.bytes n = Frame.logWith compress (txs.take k) ++ rest := hs.trans hrest
  have hr : Frame.replay (d.bytes n) = (Record.applyAll ∅ (txs.take k).flatten,
      (Frame.logWith compress (txs.take k)).length) := by
    rw [hbytes, Frame.replay, hfront.replayFrom_append, Frame.replayFrom_of_error hd, Nat.zero_add]
  obtain ⟨d', hreplay, hfind, hread⟩ := replay_front hf hbytes hr
  refine ⟨_, d', hreplay, rfl, rfl, ?_⟩
  rw [Disk.read, hfind, Except.map, hread]

/-- In the second of two frames one byte of the payload is changed. -/
theorem replayed_before_damage_in_second :
    let txs : List (List Record) := [[.set [1] [10]], [.set [2] [20], .remove [1]]]
    (∀ rs ∈ txs, Frame.Written Block.compress rs) ∧
    let d := Disk.withFile "events.log" ((Frame.logWith Block.compress txs).set (44 + 20) 7)
    ∃ log d', replay d ["events.log"] = .ok (log, d') ∧
      log.entries[([1] : Bytes)]? = some [10] ∧ log.entries[([2] : Bytes)]? = none ∧
      log.validLength = 44 ∧ d'.read ["events.log"] = .ok (Frame.encode [.set [1] [10]]) := by
  intro txs
  have hfits : ∀ rs ∈ txs, Frame.Fits rs := by decide +kernel
  have hw : ∀ rs ∈ txs, Frame.Written Block.compress rs :=
    fun rs hrs => Frame.written_of_fits (hfits rs hrs)
  have hk : 1 < txs.length := by decide
  have hlength : (Frame.logWith Block.compress (txs.take 1)).length = 44 := by decide +kernel
  have hj : 20 < (Frame.encodeWith Block.compress [.set [2] [20], .remove [1]]).length := by
    decide +kernel
  have hb : (7 : UInt8) ≠
      (Frame.encodeWith Block.compress [.set [2] [20], .remove [1]])[20] := fun he =>
    absurd (List.getElem?_eq_getElem hj) (by rw [← he]; decide +kernel)
  refine ⟨hw, ?_⟩
  intro d
  have hs : d.bytes 0 = (Frame.logWith Block.compress txs).set
      ((Frame.logWith Block.compress (txs.take 1)).length + 20) 7 := by
    rw [hlength]
    exact Disk.bytes_withFile ..
  obtain ⟨log, d', hr, hentries, hvalid, hread⟩ :=
    replayed_before_damage hw hk (by decide) hj hb (Disk.find_withFile ..) hs
  refine ⟨log, d', hr, ?_, ?_, hvalid.trans hlength, ?_⟩
  · rw [hentries]
    decide +kernel
  · rw [hentries]
    decide +kernel
  · rw [hread, List.take_succ_cons, List.take_zero, Frame.logWith, List.flatMap_singleton]
    rfl

end MapLog

end EventStore
