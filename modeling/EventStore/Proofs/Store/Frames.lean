import EventStore.Proofs.Bytes.Block
import EventStore.Proofs.Event.Binary
import EventStore.Store.Frame

/-!
# Frames one after the other

A frame whose payload is not too long is read back (`decode_encode`), and no part of it is read as
anything (`decode_take`). So what is left of a log that was cut off somewhere replays to the
transactions whose frames are whole (`replay_take`), and a log that was not cut off to all of them.
-/

namespace EventStore

namespace Binary

-- ---- records -------------------------------------------------------------

theorem length_le_flatMap {f : α → Bytes} {l : List α} {a : α} (h : a ∈ l) :
    (f a).length ≤ (l.flatMap f).length := by
  rw [List.flatMap_def]
  exact (List.sublist_flatten_of_mem (List.mem_map_of_mem h)).length_le

theorem length_le_records (rs : List Record) : rs.length ≤ (records rs).length := by
  have hr (r : Record) : 1 ≤ (record r).length := by
    cases r <;> simp [record, Bytes.length_littleEndian] <;> omega
  have hm : rs.length ≤ (rs.flatMap record).length := by
    induction rs with
    | nil => exact Nat.le_refl _
    | cons r rs ih =>
      have := hr r
      rw [List.length_cons, List.flatMap_cons, List.length_append]
      omega
  rw [records, List.length_append]
  omega

theorem takeRecord_record {r : Record} (h : (record r).length < Bytes.room 8) (rest : Bytes) :
    takeRecord.run (record r ++ rest) = some (r, rest) := by
  cases r with
  | set key value =>
    simp only [record, block, List.length_append] at h
    have h0 : 0 < Bytes.room 4 := by decide
    simp only [takeRecord, record, List.append_assoc, StateT.run_bind, takeNumber_littleEndian h0,
      Option.bind_eq_bind, Option.bind_some,
      takeBlock_block (show key.length < Bytes.room 8 by omega),
      takeBlock_block (show value.length < Bytes.room 8 by omega)]
    rfl
  | remove key =>
    simp only [record, block, List.length_append] at h
    have h1 : 1 < Bytes.room 4 := by decide
    simp only [takeRecord, record, List.append_assoc, StateT.run_bind, takeNumber_littleEndian h1,
      Option.bind_eq_bind, Option.bind_some,
      takeBlock_block (show key.length < Bytes.room 8 by omega)]
    rfl

theorem takeRecords_records {rs : List Record} (h : (records rs).length < Bytes.room 8) :
    takeRecords.run (records rs) = some (rs, []) := by
  have hlen : rs.length < Bytes.room 8 := Nat.lt_of_le_of_lt (length_le_records rs) h
  have hr : ∀ r ∈ rs, ∀ rest, takeRecord.run (record r ++ rest) = some (r, rest) := by
    intro r hr rest
    refine takeRecord_record (Nat.lt_of_le_of_lt ?_ h) rest
    rw [records, List.length_append]
    exact Nat.le_trans (length_le_flatMap hr) (Nat.le_add_left ..)
  have := takeMany_flatMap takeRecord record hlen hr []
  rwa [List.append_nil] at this

end Binary

theorem Block.length_lt_compress (s : Bytes) : s.length < (compress s).length := by
  unfold compress literals
  rw [List.length_append, Bytes.length_littleEndian]
  split
  · rw [List.length_cons]
    omega
  · rw [List.length_append]
    omega

namespace Frame

variable {rs : List Record} {txs more : List (List Record)} {es : Entries} {n offset : Nat}

-- ---- one frame -----------------------------------------------------------

/-- The payload is not too long to be read. -/
def Fits (rs : List Record) : Prop := (Block.compress (Binary.records rs)).length ≤ longest

instance (rs : List Record) : Decidable (Fits rs) := inferInstanceAs (Decidable (_ ≤ _))

theorem longest_lt_room : longest < Bytes.room 4 := by decide

theorem Fits.records_lt (h : Fits rs) : (Binary.records rs).length < Bytes.room 4 :=
  Nat.lt_trans (Nat.lt_of_lt_of_le (Block.length_lt_compress _) h) longest_lt_room

/-- A payload with its length in front and the mark of both behind. -/
def framed (p : Bytes) : Bytes :=
  Bytes.littleEndian 4 p.length ++ p ++ sealed (Bytes.littleEndian 4 p.length) p

theorem encode_eq (rs : List Record) :
    encode rs = framed (Block.compress (Binary.records rs)) := rfl

theorem length_framed (p : Bytes) : (framed p).length = p.length + 8 := by
  simp only [framed, sealed, List.length_append, Bytes.length_littleEndian]
  omega

theorem split?_append_of_length {front : Bytes} (h : front.length = n) (rest : Bytes) :
    Bytes.split? n (front ++ rest) = some (front, rest) := h ▸ Bytes.split?_append front rest

section

variable {p content : Bytes} (h : p.length ≤ longest)
include h

theorem number_length : (Bytes.littleEndian 4 p.length).number = p.length := by
  rw [Bytes.number_littleEndian]
  exact Nat.mod_eq_of_lt (Nat.lt_of_le_of_lt h longest_lt_room)

theorem payload_framed (hd : Block.decompress p = .ok content) (rest : Bytes) :
    payload (framed p ++ rest) = .ok (content, (framed p).length) := by
  have hlength : (Bytes.littleEndian 4 p.length).length = 4 := Bytes.length_littleEndian ..
  have hmark : (sealed (Bytes.littleEndian 4 p.length) p).length = 4 := Bytes.length_littleEndian ..
  rw [length_framed]
  simp only [payload, framed, List.append_assoc, split?_append_of_length hlength, number_length h,
    if_neg (Nat.not_lt.mpr h), split?_append_of_length rfl, split?_append_of_length hmark, if_true,
    hd]

theorem payload_take (hn : n < (framed p).length) :
    payload ((framed p).take n) = .error .cutOff := by
  have hlength : (Bytes.littleEndian 4 p.length).length = 4 := Bytes.length_littleEndian ..
  rw [length_framed] at hn
  unfold payload
  -- The cut is in the length, in the payload or in the mark.
  rcases Nat.lt_or_ge n 4 with h4 | h4
  · rw [Bytes.split?_eq_none_iff.mpr (Nat.lt_of_le_of_lt (List.length_take_le ..) h4)]
  rw [framed, List.append_assoc, List.take_append, List.take_of_length_le (hlength ▸ h4),
    split?_append_of_length hlength, hlength]
  simp only [number_length h, if_neg (Nat.not_lt.mpr h)]
  rcases Nat.lt_or_ge (n - 4) p.length with hp | hp
  · rw [Bytes.split?_eq_none_iff.mpr (Nat.lt_of_le_of_lt (List.length_take_le ..) hp)]
  rw [List.take_append, List.take_of_length_le hp, split?_append_of_length rfl]
  have hm : n - 4 - p.length < 4 := by omega
  simp only [Bytes.split?_eq_none_iff.mpr (Nat.lt_of_le_of_lt (List.length_take_le ..) hm)]

end

/-- What is read in front is a payload with its length and its mark. -/
theorem payload_eq_ok {s content : Bytes} (h : payload s = .ok (content, n)) :
    ∃ p rest, s = framed p ++ rest ∧ n = (framed p).length ∧ p.length ≤ longest ∧
      Block.decompress p = .ok content := by
  unfold payload at h
  split at h
  · cases h
  next length rest₁ h₁ =>
  obtain ⟨rfl, hlength⟩ := Bytes.split?_eq_some_iff.mp h₁
  simp only at h
  split at h
  · cases h
  next hle =>
  split at h
  · cases h
  next p rest₂ h₂ =>
  obtain ⟨rfl, hp⟩ := Bytes.split?_eq_some_iff.mp h₂
  split at h
  · cases h
  next mark rest h₃ =>
  obtain ⟨rfl, -⟩ := Bytes.split?_eq_some_iff.mp h₃
  split at h
  · next hmark =>
    split at h
    · next hd =>
      cases h
      have hfront : Bytes.littleEndian 4 p.length = length := by
        have := Bytes.littleEndian_number length
        rwa [hlength, ← hp] at this
      refine ⟨p, rest, ?_, ?_, hp ▸ Nat.not_lt.mp hle, hd⟩
      · rw [framed, hfront, hmark, List.append_assoc, List.append_assoc]
      · rw [length_framed, hp]
    · cases h
  · cases h

/-- A frame is read by itself, whatever follows it. -/
theorem decode_eq_ok {s : Bytes} (h : decode s = .ok (rs, n)) :
    ∃ f rest, s = f ++ rest ∧ f.length = n ∧ ∀ other, decode (f ++ other) = .ok (rs, n) := by
  unfold decode at h
  split at h
  · cases h
  next content m hpayload =>
  split at h
  · next left hr =>
    cases h
    obtain ⟨p, rest, rfl, rfl, hp, hd⟩ := payload_eq_ok hpayload
    refine ⟨framed p, rest, rfl, rfl, fun other => ?_⟩
    simp only [decode, payload_framed hp hd, hr]
  · cases h

/-- However its payload has been compressed, a frame is read back if the payload is not too long and
can be expanded again. -/
theorem decode_framed {p : Bytes} (h : p.length ≤ longest)
    (hd : Block.decompress p = .ok (Binary.records rs)) (rest : Bytes) :
    decode (framed p ++ rest) = .ok (rs, (framed p).length) := by
  have hr : (Binary.records rs).length < Bytes.room 8 :=
    Nat.lt_trans (Block.length_lt_of_decompress hd) (by decide)
  simp only [decode, payload_framed h hd, Binary.takeRecords_records hr]

theorem decode_encode (h : Fits rs) (rest : Bytes) :
    decode (encode rs ++ rest) = .ok (rs, (encode rs).length) :=
  decode_framed h (Block.decompress_compress h.records_lt) rest

theorem decode_take (h : Fits rs) (hn : n < (encode rs).length) :
    decode ((encode rs).take n) = .error .cutOff := by
  rw [encode_eq] at hn ⊢
  rw [decode, payload_take h hn]

-- ---- logs ----------------------------------------------------------------

/-- The log of some transactions. -/
def log (txs : List (List Record)) : Bytes := txs.flatMap encode

theorem log_append (txs more : List (List Record)) : log (txs ++ more) = log txs ++ log more :=
  List.flatMap_append

theorem log_singleton (rs : List Record) : log [rs] = encode rs := List.flatMap_singleton ..

theorem log_concat (txs : List (List Record)) (rs : List Record) :
    log (txs ++ [rs]) = log txs ++ encode rs := by
  rw [log_append, log_singleton]

theorem log_eq_nil_iff : log txs = [] ↔ txs = [] := by
  refine ⟨fun h => ?_, fun h => by rw [h]; rfl⟩
  refine List.eq_nil_iff_forall_not_mem.mpr fun rs hrs => ?_
  have hlength := length_framed (Block.compress (Binary.records rs))
  rw [← encode_eq, List.flatMap_eq_nil_iff.mp h rs hrs] at hlength
  cases hlength

/-- How many transactions have their frames among the first `n` bytes. -/
def whole (n : Nat) : List (List Record) → Nat
  | [] => 0
  | rs :: txs => if (encode rs).length ≤ n then whole (n - (encode rs).length) txs + 1 else 0

theorem whole_le (n : Nat) (txs : List (List Record)) : whole n txs ≤ txs.length := by
  induction txs generalizing n with
  | nil => exact Nat.le_refl _
  | cons rs txs ih =>
    unfold whole
    split
    · exact Nat.succ_le_succ (ih _)
    · exact Nat.zero_le _

theorem le_whole_iff {k : Nat} (hk : k ≤ txs.length) :
    k ≤ whole n txs ↔ (log (txs.take k)).length ≤ n := by
  induction txs generalizing n k with
  | nil =>
    obtain rfl : k = 0 := by simpa using hk
    simp [log]
  | cons rs txs ih =>
    cases k with
    | zero => simp [log]
    | succ k =>
      have hk : k ≤ txs.length := Nat.le_of_succ_le_succ hk
      rw [List.take_succ_cons, log, List.flatMap_cons, List.length_append, ← log, whole]
      split
      · next hn =>
        rw [Nat.succ_le_succ_iff, ih hk]
        omega
      · next hn => omega

theorem replayFrom_of_ok {s : Bytes} (h : decode s = .ok (rs, n)) : replayFrom offset es s =
    replayFrom (offset + n) (Record.applyAll es rs) (s.drop n) := by
  rw [replayFrom]
  split
  · next hp =>
    rw [h] at hp
    cases hp
  · next hn =>
    rw [h] at hn
    cases hn
    rfl

theorem replayFrom_encode (h : Fits rs) (s : Bytes) : replayFrom offset es (encode rs ++ s) =
    replayFrom (offset + (encode rs).length) (Record.applyAll es rs) s := by
  rw [replayFrom_of_ok (decode_encode h s), List.drop_left]

theorem replayFrom_of_error {s : Bytes} {p : Problem} (h : decode s = .error p) :
    replayFrom offset es s = (es, offset) := by
  rw [replayFrom]
  split
  · rfl
  · next hn =>
    rw [h] at hn
    cases hn

theorem decode_nil : decode [] = .error .cutOff := rfl

theorem decode_append {f : Bytes} (h : decode f = .ok (rs, f.length)) (rest : Bytes) :
    decode (f ++ rest) = .ok (rs, f.length) := by
  obtain ⟨f', rest', hs, hn, hd⟩ := decode_eq_ok h
  have hrest : rest' = [] := by
    have := congrArg List.length hs
    rw [List.length_append, hn] at this
    exact List.eq_nil_of_length_eq_zero (by omega)
  rw [hrest, List.append_nil] at hs
  exact hs ▸ hd rest

/-- Frames one after the other, and what is in each of them. -/
inductive Frames : Bytes → List (List Record) → Prop
  | nil : Frames [] []
  | cons {f s : Bytes} {rs : List Record} {txs : List (List Record)}
    (head : decode f = .ok (rs, f.length)) (tail : Frames s txs) : Frames (f ++ s) (rs :: txs)

namespace Frames

theorem replayFrom_append {front : Bytes} (h : Frames front txs) (s : Bytes) :
    replayFrom offset es (front ++ s) =
      replayFrom (offset + front.length) (Record.applyAll es txs.flatten) s := by
  induction h generalizing offset es with
  | nil => rfl
  | cons head tail ih =>
    rw [List.append_assoc, replayFrom_of_ok (decode_append head _), List.drop_left, ih,
      List.flatten_cons, Record.applyAll_append, List.length_append, Nat.add_assoc]

theorem replay {front : Bytes} (h : Frames front txs) :
    Frame.replay front = (Record.applyAll ∅ txs.flatten, front.length) := by
  rw [Frame.replay, ← List.append_nil front, h.replayFrom_append, replayFrom_of_error decode_nil,
    Nat.zero_add, List.append_nil]

theorem flatMap {frame : List Record → Bytes}
    (h : ∀ rs ∈ txs, ∀ rest, decode (frame rs ++ rest) = .ok (rs, (frame rs).length)) :
    Frames (txs.flatMap frame) txs := by
  induction txs with
  | nil => exact .nil
  | cons rs txs ih =>
    obtain ⟨hrs, htxs⟩ := List.forall_mem_cons.mp h
    have hhead := hrs []
    rw [List.append_nil] at hhead
    exact .cons hhead (ih htxs)

end Frames

theorem frames_log (h : ∀ rs ∈ txs, Fits rs) : Frames (log txs) txs :=
  .flatMap fun rs hrs => decode_encode (h rs hrs)

theorem le_replayFrom_snd (offset : Nat) (es : Entries) (s : Bytes) :
    offset ≤ (replayFrom offset es s).2 := by
  fun_induction replayFrom offset es s with
  | case1 => exact Nat.le_refl _
  | case2 offset es s rs n hn _ ih => exact Nat.le_trans (Nat.le_add_right ..) ih

theorem replayFrom_snd_eq_iff (offset : Nat) (es : Entries) (s : Bytes) :
    (replayFrom offset es s).2 = offset ↔ ∃ p, decode s = .error p := by
  cases hd : decode s with
  | error p => simp [replayFrom_of_error hd]
  | ok r =>
    obtain ⟨rs, n⟩ := r
    have hn := (size_of_decode hd).1
    have hle := le_replayFrom_snd (offset + n) (Record.applyAll es rs) (s.drop n)
    rw [replayFrom]
    split
    · next hd' => cases hd.symm.trans hd'
    · next hd' =>
      cases hd.symm.trans hd'
      simp only [reduceCtorEq, exists_false, iff_false]
      omega

/-- A log that ends anywhere is replayed up to the end of its last whole frame. -/
theorem replayFrom_take (h : ∀ rs ∈ txs, Fits rs) (n : Nat) :
    replayFrom offset es ((log txs).take n) =
      (Record.applyAll es (txs.take (whole n txs)).flatten,
        offset + (log (txs.take (whole n txs))).length) := by
  induction txs generalizing offset es n with
  | nil =>
    rw [log, List.flatMap_nil, List.take_nil, replayFrom_of_error decode_nil]
    rfl
  | cons rs txs ih =>
    have hrs : Fits rs := h rs List.mem_cons_self
    rw [log, List.flatMap_cons, ← log, whole]
    -- Either the first frame is whole, or reading stops in it.
    split
    · next hn =>
      rw [List.take_append, List.take_of_length_le hn, replayFrom_encode hrs,
        ih fun rs hrs => h rs (List.mem_cons_of_mem _ hrs), List.take_succ_cons,
        List.flatten_cons, Record.applyAll_append, log, log, List.flatMap_cons, List.length_append,
        Nat.add_assoc]
    · next hn =>
      have hn := Nat.not_le.mp hn
      rw [List.take_append_of_le_length (Nat.le_of_lt hn),
        replayFrom_of_error (decode_take hrs hn)]
      simp [Record.applyAll, log]

theorem replay_take (h : ∀ rs ∈ txs, Fits rs) (n : Nat) : replay ((log txs).take n) =
    (Record.applyAll ∅ (txs.take (whole n txs)).flatten,
      (log (txs.take (whole n txs))).length) := by
  rw [replay, replayFrom_take h, Nat.zero_add]

theorem replay_log (h : ∀ rs ∈ txs, Fits rs) :
    replay (log txs) = (Record.applyAll ∅ txs.flatten, (log txs).length) :=
  (frames_log h).replay

end Frame

end EventStore
