import EventStore.Proofs.Store.Recovery

/-!
# Files with anything in them

Whatever bytes the file of a log holds, a replay finds the longest part in front that consists of
frames, cuts the file off behind it, and finds the same when it is done again
(`MapLog.replayed_anything`). It reads only where there are bytes, and is done after as many frames
as there is room for (`Frame.replayAt_eq`).
-/

namespace EventStore

namespace Frame

variable {es : Entries} {offset : Nat}

theorem exists_frames (s : Bytes) : ∃ front back txs p, s = front ++ back ∧ Frames front txs ∧
    decode back = .error p := by
  induction hl : s.length using Nat.strongRecOn generalizing s with
  | _ l ih =>
    cases hd : decode s with
    | error p => exact ⟨[], s, [], p, rfl, .nil, hd⟩
    | ok r =>
      obtain ⟨rs, n⟩ := r
      obtain ⟨f, rest, rfl, rfl, hf⟩ := decode_eq_ok hd
      have hn := (size_of_decode hd).1
      rw [List.length_append] at hl
      obtain ⟨front, back, txs, p, rfl, hfront, hback⟩ := ih rest.length (by omega) rest rfl
      have hhead : decode f = .ok (rs, f.length) := by
        have := hf []
        rwa [List.append_nil] at this
      exact ⟨f ++ front, back, rs :: txs, p, (List.append_assoc ..).symm, .cons hhead hfront, hback⟩

/-- A replay reads the longest part in front that is made of frames. -/
theorem exists_longest (s : Bytes) : ∃ front back txs, s = front ++ back ∧ Frames front txs ∧
    replay s = (Record.applyAll ∅ txs.flatten, front.length) ∧
    ∀ front' back' txs', s = front' ++ back' → Frames front' txs' →
      front'.length ≤ front.length := by
  obtain ⟨front, back, txs, p, rfl, hfront, hback⟩ := exists_frames s
  have hr : replay (front ++ back) = (Record.applyAll ∅ txs.flatten, front.length) := by
    rw [replay, hfront.replayFrom_append, replayFrom_of_error hback, Nat.zero_add]
  refine ⟨front, back, txs, rfl, hfront, hr, fun front' back' txs' hs h => ?_⟩
  have hle := le_replayFrom_snd (0 + front'.length) (Record.applyAll ∅ txs'.flatten) back'
  rw [← h.replayFrom_append, ← hs, ← replay, hr] at hle
  omega

-- ---- reading by position -------------------------------------------------

/-- What must not happen to who reads by position. -/
inductive Fault
  /-- A byte is asked for that is not there. -/
  | outOfRange
  | unfinished
  deriving DecidableEq, Repr

/-- The bytes from one position up to another, for who knows that they are there. -/
def slice (s : Bytes) (start stop : Nat) : Except Fault Bytes :=
  if start ≤ stop ∧ stop ≤ s.length then .ok ((s.take stop).drop start) else .error .outOfRange

/-- The payload in front, part by part by their positions. -/
def payloadAt (s : Bytes) : Except Fault (Except Problem (Bytes × Nat)) :=
  if s.length < 4 then return .error .cutOff
  else do
    let length ← slice s 0 4
    let n := length.number
    if longest < n then return .error (.tooLong n)
    else if s.length < 4 + n + 4 then return .error .cutOff
    else
      let payload ← slice s 4 (4 + n)
      let mark ← slice s (4 + n) (4 + n + 4)
      if mark = sealed length payload then
        match Block.decompress payload with
        | .ok content => return .ok (content, n + 8)
        | .error p => return .error (.badBlock p)
      else return .error .badChecksum

def decodeAt (s : Bytes) : Except Fault (Except Problem (List Record × Nat)) := do
  match ← payloadAt s with
  | .error p => return .error p
  | .ok (content, n) =>
    match Binary.takeRecords.run content with
    | some (rs, _) => return .ok (rs, n)
    | none => return .error .badRecords

/-- Reads frame after frame from a position on while there are bytes, at most `fuel` times. -/
def replayAt (s : Bytes) : (fuel offset : Nat) → Entries → Except Fault (Entries × Nat)
  | 0, _, _ => .error .unfinished
  | fuel + 1, offset, es =>
    if offset < s.length then do
      match ← decodeAt (← slice s offset s.length) with
      | .ok (rs, n) => replayAt s fuel (offset + n) (Record.applyAll es rs)
      | .error _ => return (es, offset)
    else return (es, offset)

theorem slice_append (a b c : Bytes) :
    slice (a ++ (b ++ c)) a.length (a.length + b.length) = .ok b := by
  have hle : a.length + b.length ≤ (a ++ (b ++ c)).length := by
    simp only [List.length_append]
    omega
  rw [slice, if_pos ⟨Nat.le_add_right .., hle⟩, ← List.append_assoc, ← List.length_append,
    List.take_left, List.drop_left]

theorem slice_drop {s : Bytes} (h : offset ≤ s.length) :
    slice s offset s.length = .ok (s.drop offset) := by
  rw [slice, if_pos ⟨h, Nat.le_refl _⟩, List.take_length]

/-- Every part is asked for only where it is. -/
theorem payloadAt_eq (s : Bytes) : payloadAt s = .ok (payload s) := by
  unfold payloadAt payload
  cases h₁ : Bytes.split? 4 s with
  | none => rw [if_pos (Bytes.split?_eq_none_iff.mp h₁)]; rfl
  | some r =>
    obtain ⟨length, rest₁⟩ := r
    obtain ⟨rfl, hlength⟩ := Bytes.split?_eq_some_iff.mp h₁
    have hfront : slice (length ++ rest₁) 0 4 = .ok length := by
      have := slice_append [] length rest₁
      rwa [List.nil_append, List.length_nil, Nat.zero_add, hlength] at this
    simp only [List.length_append, hlength, hfront, bind, Except.bind, pure, Except.pure]
    rw [if_neg (by omega)]
    by_cases hn : longest < length.number
    · simp only [if_pos hn]
    simp only [if_neg hn]
    cases h₂ : Bytes.split? length.number rest₁ with
    | none =>
      have := Bytes.split?_eq_none_iff.mp h₂
      rw [if_pos (by omega)]
    | some r =>
      obtain ⟨p, rest₂⟩ := r
      obtain ⟨rfl, hp⟩ := Bytes.split?_eq_some_iff.mp h₂
      dsimp only
      cases h₃ : Bytes.split? 4 rest₂ with
      | none =>
        have := Bytes.split?_eq_none_iff.mp h₃
        rw [List.length_append, if_pos (by omega)]
      | some r =>
        obtain ⟨mark, rest⟩ := r
        obtain ⟨rfl, hmark⟩ := Bytes.split?_eq_some_iff.mp h₃
        have hmid : slice (length ++ (p ++ (mark ++ rest))) 4 (4 + length.number) = .ok p := by
          rw [← hlength, ← hp]
          exact slice_append ..
        have hend : slice (length ++ (p ++ (mark ++ rest))) (4 + length.number)
            (4 + length.number + 4) = .ok mark := by
          have := slice_append (length ++ p) mark rest
          rwa [List.length_append, hlength, hp, hmark, List.append_assoc] at this
        simp only [List.length_append, hp, hmark, hmid, hend]
        rw [if_neg (by omega)]
        split
        · cases Block.decompress p <;> rfl
        · rfl

theorem decodeAt_eq (s : Bytes) : decodeAt s = .ok (decode s) := by
  simp only [decodeAt, payloadAt_eq, bind, Except.bind, pure, Except.pure, decode]
  cases payload s with
  | error p => rfl
  | ok r =>
    dsimp only
    cases Binary.takeRecords.run r.1 <;> rfl

/-- There are never more frames than there is room for. -/
theorem replayAt_eq {s : Bytes} {fuel : Nat} (h : offset ≤ s.length)
    (hf : (s.length - offset) / 8 < fuel) :
    replayAt s fuel offset es = .ok (replayFrom offset es (s.drop offset)) := by
  induction fuel generalizing offset es with
  | zero => omega
  | succ fuel ih =>
    unfold replayAt
    split
    · simp only [slice_drop h, decodeAt_eq, bind, Except.bind, pure, Except.pure]
      cases hd : decode (s.drop offset) with
      | error p => rw [replayFrom_of_error hd]
      | ok r =>
        obtain ⟨rs, n⟩ := r
        have hn := size_of_decode hd
        rw [List.length_drop] at hn
        rw [replayFrom_of_ok hd, List.drop_drop]
        exact ih (by omega) (by omega)
    · rw [List.drop_of_length_le (by omega), replayFrom_of_error decode_nil]
      rfl

end Frame

namespace MapLog

/-- Whatever the file of a log holds, it is replayed, without asking for bytes that are not there,
and every frame that is read takes eight bytes at least and no more than are left. What is found are
the records of the longest part in front that consists of frames. The file is cut off behind it, and
another replay finds the same and leaves the file as it is. -/
theorem replayed_anything {d : Disk} {path : Path} {n : Nat} (hf : d.find path = .ok n) :
    (∀ offset rs m, Frame.decode ((d.bytes n).drop offset) = .ok (rs, m) →
      8 ≤ m ∧ m ≤ ((d.bytes n).drop offset).length) ∧
    ∃ log d', replay d path = .ok (log, d') ∧
      Frame.replayAt (d.bytes n) ((d.bytes n).length / 8 + 1) 0 ∅ =
        .ok (log.entries, log.validLength) ∧
      ∃ front back txs, d.bytes n = front ++ back ∧ Frame.Frames front txs ∧
        (∀ front' back' txs', d.bytes n = front' ++ back' → Frame.Frames front' txs' →
          front'.length ≤ front.length) ∧
        log.entries = Record.applyAll ∅ txs.flatten ∧ log.validLength = front.length ∧
        d'.read path = .ok front ∧ replay d' path = .ok (log, d') := by
  refine ⟨fun offset rs m => Frame.size_of_decode, ?_⟩
  obtain ⟨front, back, txs, hs, hfront, hr, hlongest⟩ := Frame.exists_longest (d.bytes n)
  obtain ⟨d', hd', hfind, hbytes⟩ := replay_front hf hs hr
  refine ⟨_, d', hd', ?_, front, back, txs, hs, hfront, hlongest, rfl, rfl, ?_, ?_⟩
  · rw [Frame.replayAt_eq (Nat.zero_le _) (by omega), List.drop_zero, ← Frame.replay, hr]
  · rw [Disk.read, hfind, Except.map, hbytes]
  · simp only [replay, hfind, hbytes, hfront.replay, Nat.lt_irrefl, if_false]

/-- Behind a frame stand bytes that could be the front of another, but end too early. -/
theorem replayed_anything_of_debris :
    let d := Disk.withFile "events.log" (Frame.encode [.set [1] [10]] ++ [2, 0, 0, 0, 7])
    d.find ["events.log"] = .ok 0 ∧
    ∃ log d', replay d ["events.log"] = .ok (log, d') ∧ log.entries[([1] : Bytes)]? = some [10] ∧
      d'.read ["events.log"] = .ok (Frame.encode [.set [1] [10]]) ∧
      replay d' ["events.log"] = .ok (log, d') := by
  intro d
  have hfile : d.find ["events.log"] = .ok 0 := Disk.find_withFile ..
  have hbytes : d.bytes 0 = Frame.encode [.set [1] [10]] ++ [2, 0, 0, 0, 7] :=
    Disk.bytes_withFile ..
  have hreplay : Frame.replay (d.bytes 0) =
      (Record.applyAll ∅ [.set [1] [10]], (Frame.encode [.set [1] [10]]).length) := by
    have hcut : Frame.decode [2, 0, 0, 0, 7] = .error .cutOff := by rfl
    rw [hbytes, Frame.replay, Frame.replayFrom_encode (by decide +kernel),
      Frame.replayFrom_of_error hcut, Nat.zero_add]
  obtain ⟨-, log, d', hr, hat, front, back, txs, hs, -, -, -, hv, hread, hagain⟩ :=
    replayed_anything hfile
  rw [Frame.replayAt_eq (Nat.zero_le _) (by omega), List.drop_zero, ← Frame.replay, hreplay] at hat
  obtain ⟨hentries, hvalid⟩ := Prod.mk.inj (Except.ok.inj hat)
  have hfront : front = Frame.encode [.set [1] [10]] := by
    rw [hbytes] at hs
    exact (List.append_inj hs (hvalid.trans hv)).1.symm
  refine ⟨hfile, log, d', hr, ?_, hfront ▸ hread, hagain⟩
  rw [← hentries]
  decide +kernel

end MapLog

end EventStore
