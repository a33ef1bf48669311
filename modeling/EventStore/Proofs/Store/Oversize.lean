import EventStore.Proofs.Store.Recovery
import Mathlib.Data.List.TakeWhile

/-!
# Frames that are too long to be read

Writing a frame does not look at its length, reading refuses one whose payload is longer than
`Frame.longest`. So transactions of any length are acknowledged, and of these a replay finds those
in front of the first whose payload is too long (`MapLog.replayed_until_oversized`): that one is
lost, and with it every later one. How payloads are compressed does not matter, as long as they can
be expanded again.
-/

namespace EventStore

namespace Frame

variable {compress : Bytes → Bytes} {rs : List Record} {txs : List (List Record)} {es : Entries}
  {offset : Nat}

-- ---- one frame -----------------------------------------------------------

/-- What can be counted in four bytes can be expanded again. -/
def Expands (compress : Bytes → Bytes) : Prop :=
  ∀ s, s.length < Bytes.room 4 → Block.decompress (compress s) = .ok s

def packed (compress : Bytes → Bytes) (rs : List Record) : Bytes := compress (Binary.records rs)

/-- A frame with a payload that is compressed in any way. -/
def encodeWith (compress : Bytes → Bytes) (rs : List Record) : Bytes := framed (packed compress rs)

theorem encode_eq_encodeWith (rs : List Record) : encode rs = encodeWith Block.compress rs := rfl

/-- The length of the records and that of the payload can be counted in four bytes. -/
structure Counted (compress : Bytes → Bytes) (rs : List Record) : Prop where
  records : (Binary.records rs).length < Bytes.room 4
  packed : (packed compress rs).length < Bytes.room 4

def isReadable (compress : Bytes → Bytes) (rs : List Record) : Bool :=
  (packed compress rs).length ≤ longest

theorem payload_of_tooLong {p : Bytes} (hl : longest < p.length) (hr : p.length < Bytes.room 4)
    (rest : Bytes) : payload (framed p ++ rest) = .error (.tooLong p.length) := by
  have hlength : (Bytes.littleEndian 4 p.length).length = 4 := Bytes.length_littleEndian ..
  have hnumber : (Bytes.littleEndian 4 p.length).number = p.length := by
    rw [Bytes.number_littleEndian]
    exact Nat.mod_eq_of_lt hr
  simp only [payload, framed, List.append_assoc, split?_append_of_length hlength, hnumber,
    if_pos hl]

/-- A frame is read back exactly if its payload is not too long, whatever follows it. -/
theorem decode_encodeWith (he : Expands compress) (hc : Counted compress rs) (rest : Bytes) :
    decode (encodeWith compress rs ++ rest) =
      if isReadable compress rs then .ok (rs, (encodeWith compress rs).length)
      else .error (.tooLong (packed compress rs).length) := by
  unfold isReadable encodeWith
  by_cases hl : (packed compress rs).length ≤ longest
  · simp only [decode_framed hl (he _ hc.records), hl, decide_true, if_true]
  · simp only [decode, payload_of_tooLong (Nat.not_le.mp hl) hc.packed, hl, decide_false,
      Bool.false_eq_true, if_false]

-- ---- logs ----------------------------------------------------------------

def logWith (compress : Bytes → Bytes) (txs : List (List Record)) : Bytes :=
  txs.flatMap (encodeWith compress)

/-- The transactions in front of the first that cannot be read. -/
def readable (compress : Bytes → Bytes) (txs : List (List Record)) : List (List Record) :=
  txs.takeWhile (isReadable compress)

theorem logWith_append (compress : Bytes → Bytes) (txs more : List (List Record)) :
    logWith compress (txs ++ more) = logWith compress txs ++ logWith compress more :=
  List.flatMap_append

theorem eq_nil_of_logWith (h : logWith compress txs = []) : txs = [] := by
  refine List.eq_nil_iff_forall_not_mem.mpr fun rs hrs => ?_
  have hlength := length_framed (packed compress rs)
  rw [← encodeWith, List.flatMap_eq_nil_iff.mp h rs hrs] at hlength
  cases hlength

theorem logWith_readable_append (compress : Bytes → Bytes) (txs : List (List Record)) :
    logWith compress (readable compress txs) ++
      logWith compress (txs.dropWhile (isReadable compress)) = logWith compress txs := by
  rw [← logWith_append, readable, List.takeWhile_append_dropWhile]

theorem logWith_readable_iff : logWith compress (readable compress txs) = logWith compress txs ↔
    ∀ rs ∈ txs, isReadable compress rs = true := by
  have hsplit := logWith_readable_append compress txs
  constructor
  · intro h
    rw [h] at hsplit
    exact List.dropWhile_eq_nil_iff.mp (eq_nil_of_logWith (List.append_right_eq_self.mp hsplit))
  · intro h
    rw [List.dropWhile_eq_nil_iff.mpr h] at hsplit
    exact (List.append_nil _).symm.trans hsplit

theorem frames_readable (he : Expands compress) (hc : ∀ rs ∈ txs, Counted compress rs) :
    Frames (logWith compress (readable compress txs)) (readable compress txs) :=
  .flatMap fun rs hrs rest => by
    have hmem : rs ∈ txs := (List.takeWhile_prefix _).subset hrs
    rw [decode_encodeWith he (hc rs hmem), if_pos (List.mem_takeWhile_imp hrs)]

theorem decode_unreadable (he : Expands compress) (hc : ∀ rs ∈ txs, Counted compress rs) :
    ∃ p, decode (logWith compress (txs.dropWhile (isReadable compress))) = .error p := by
  cases hd : txs.dropWhile (isReadable compress) with
  | nil => exact ⟨.cutOff, decode_nil⟩
  | cons rs rest =>
    have hmem : rs ∈ txs := (List.dropWhile_suffix _).subset (hd ▸ List.mem_cons_self)
    have hr : isReadable compress rs = false := by
      have := List.head?_dropWhile_not (isReadable compress) txs
      rwa [hd] at this
    refine ⟨.tooLong (packed compress rs).length, ?_⟩
    rw [logWith, List.flatMap_cons, decode_encodeWith he (hc rs hmem), hr]
    rfl

/-- Replaying stops at the first frame that is too long. -/
theorem replayFrom_logWith (he : Expands compress) (hc : ∀ rs ∈ txs, Counted compress rs) :
    replayFrom offset es (logWith compress txs) =
      (Record.applyAll es (readable compress txs).flatten,
        offset + (logWith compress (readable compress txs)).length) := by
  obtain ⟨p, hp⟩ := decode_unreadable he hc
  rw [← logWith_readable_append compress txs, (frames_readable he hc).replayFrom_append,
    replayFrom_of_error hp]

end Frame

namespace MapLog

variable {compress : Bytes → Bytes} {txs : List (List Record)} {log log₀ : MapLog}
  {d d₀ d₁ : Disk} {path : Path}

/-- Appending a transaction whose payload is compressed in any way, when nothing goes wrong. -/
def appendWith (compress : Bytes → Bytes) (sync : Bool) (log : MapLog) (records : List Record)
    (d : Disk) : Except StoreError Unit × MapLog × Disk :=
  let frame := Frame.encodeWith compress records
  match log.writeFrame .none sync frame d with
  | (true, d) =>
    (.ok (), { log with
      entries := Record.applyAll log.entries records
      validLength := log.validLength + frame.length }, d)
  | (false, d) => (.error (.ofDisk .device), log, d.resize log.file log.validLength)

theorem append_eq_appendWith (sync : Bool) (log : MapLog) (records : List Record) (d : Disk) :
    log.append .none sync records d = log.appendWith Block.compress sync records d := rfl

/-- Appends transactions one after the other, up to the first that fails. -/
def appendEachWith (compress : Bytes → Bytes) (sync : Bool) :
    List (List Record) → MapLog → Disk → Except StoreError Unit × MapLog × Disk
  | [], log, d => (.ok (), log, d)
  | rs :: txs, log, d =>
    match log.appendWith compress sync rs d with
    | (.ok (), log, d) => appendEachWith compress sync txs log d
    | failed => failed

theorem appendEach_eq_appendEachWith (sync : Bool) (txs : List (List Record)) (log : MapLog)
    (d : Disk) : log.appendEach sync txs d = log.appendEachWith Block.compress sync txs d := by
  induction txs generalizing log d with
  | nil => rfl
  | cons rs txs ih =>
    rw [appendEach, appendEachWith, append_eq_appendWith]
    split <;> simp_all

theorem appendEachWith_ok (compress : Bytes → Bytes) (sync : Bool) (txs : List (List Record))
    (log : MapLog) (d : Disk) : ∃ log' d',
      log.appendEachWith compress sync txs d = (.ok (), log', d') ∧
      log'.entries = Record.applyAll log.entries txs.flatten ∧
      d'.bytes log.file = d.bytes log.file ++ Frame.logWith compress txs ∧
      d'.find log.path = d.find log.path := by
  induction txs generalizing log d with
  | nil => exact ⟨log, d, rfl, rfl, by simp [Frame.logWith], rfl⟩
  | cons rs txs ih =>
    have hw : log.writeFrame .none sync (Frame.encodeWith compress rs) d =
        (true, d.append log.file (Frame.encodeWith compress rs)) := by
      simp [writeFrame, Hazard.none]
    obtain ⟨log', d', ha, he, hb, hf⟩ := ih
      { log with
        entries := Record.applyAll log.entries rs
        validLength := log.validLength + (Frame.encodeWith compress rs).length }
      (d.append log.file (Frame.encodeWith compress rs))
    refine ⟨log', d', ?_, ?_, ?_, hf⟩
    · rw [appendEachWith, appendWith, hw]
      exact ha
    · rw [he, List.flatten_cons, Record.applyAll_append]
    · rw [hb, Disk.bytes_append, Frame.logWith, Frame.logWith, List.flatMap_cons, List.append_assoc]

/-- However payloads are compressed, so that they can be expanded: a frame is read back, whatever
follows it, exactly if its payload is not too long. Transactions of any length are acknowledged. Of
these a replay finds the ones in front of the first that is too long, and cuts off that and all
later ones; so everything that was acknowledged is kept exactly if no payload is too long. -/
theorem replayed_until_oversized (he : Frame.Expands compress)
    (hcounted : ∀ rs ∈ txs, Frame.Counted compress rs) (hc : create d₀ path = .ok (log₀, d₁))
    (hb : d₁.bytes log₀.file = []) (sync : Bool) :
    (∀ rs ∈ txs, ∀ rest, Frame.decode (Frame.encodeWith compress rs ++ rest) =
      if (Frame.packed compress rs).length ≤ Frame.longest then
        .ok (rs, (Frame.encodeWith compress rs).length)
      else .error (.tooLong (Frame.packed compress rs).length)) ∧
    ∃ log d log' d', log₀.appendEachWith compress sync txs d₁ = (.ok (), log, d) ∧
      log.entries = Record.applyAll ∅ txs.flatten ∧
      d.read path = .ok (Frame.logWith compress txs) ∧
      replay d path = .ok (log', d') ∧
      log'.entries = Record.applyAll ∅ (Frame.readable compress txs).flatten ∧
      d'.read path = .ok (Frame.logWith compress (Frame.readable compress txs)) ∧
      (d'.read path = d.read path ↔
        ∀ rs ∈ txs, (Frame.packed compress rs).length ≤ Frame.longest) := by
  have hread (rs : List Record) : Frame.isReadable compress rs = true ↔
      (Frame.packed compress rs).length ≤ Frame.longest := decide_eq_true_iff
  refine ⟨fun rs hrs rest => ?_, ?_⟩
  · simpa only [hread] using Frame.decode_encodeWith he (hcounted rs hrs) rest
  obtain ⟨h₀, rfl⟩ := holds_of_create hc hb
  obtain ⟨log, d, ha, hentries, hbytes, hfind⟩ := appendEachWith_ok compress sync txs log₀ d₁
  rw [hb, List.nil_append] at hbytes
  have hfound : d.find log₀.path = .ok log₀.file := hfind.trans h₀.found
  have hreplay : Frame.replay (d.bytes log₀.file) =
      (Record.applyAll ∅ (Frame.readable compress txs).flatten,
        (Frame.logWith compress (Frame.readable compress txs)).length) := by
    rw [hbytes, Frame.replay, Frame.replayFrom_logWith he hcounted, Nat.zero_add]
  have hfile : d.read log₀.path = .ok (Frame.logWith compress txs) := by
    rw [Disk.read, hfound, Except.map, hbytes]
  obtain ⟨d', hr, hfind', hbytes'⟩ := replay_front hfound
    (hbytes.trans (Frame.logWith_readable_append compress txs).symm) hreplay
  have hfile' : d'.read log₀.path = .ok (Frame.logWith compress (Frame.readable compress txs)) := by
    rw [Disk.read, hfind', Except.map, hbytes']
  refine ⟨log, d, _, d', ha, ?_, hfile, hr, rfl, hfile', ?_⟩
  · rw [hentries, h₀.entries]
    rfl
  · rw [hfile, hfile', Except.ok.injEq, Frame.logWith_readable_iff]
    simp only [hread]

-- ---- one run -------------------------------------------------------------

theorem length_compress_le (s : Bytes) : (Block.compress s).length ≤ 2 * s.length + 6 := by
  have htail (n : Nat) : (Block.lengthTail n).length ≤ n + 1 := by
    induction n using Nat.strongRecOn with
    | _ n ih =>
      rw [Block.lengthTail]
      split
      · simp
      · have := ih (n - 255) (by omega)
        rw [List.length_cons]
        omega
  unfold Block.compress Block.literals
  rw [List.length_append, Bytes.length_littleEndian]
  split
  · rw [List.length_cons]
    omega
  · have := htail (s.length - 15)
    rw [List.length_append, List.length_cons]
    omega

theorem counted_of_short {rs : List Record} (h : (Binary.records rs).length < 1000000000) :
    Frame.Counted Block.compress rs := by
  have hroom : Bytes.room 4 = 4294967296 := by decide
  have := length_compress_le (Binary.records rs)
  exact ⟨by omega, by rw [Frame.packed]; omega⟩

theorem length_records_set (key value : Bytes) :
    (Binary.records [.set key value]).length = key.length + value.length + 28 := by
  simp only [Binary.records, Binary.count, Binary.record, Binary.block, List.flatMap_singleton,
    List.length_append, Bytes.length_littleEndian]
  omega

/-- A value that is too long for a payload and then a short one are both acknowledged, and neither
is there after a replay. -/
theorem lost_of_oversized : ∃ value : Bytes,
    let txs : List (List Record) := [[.set [1] value], [.set [2] [20]]]
    Frame.Expands Block.compress ∧ (∀ rs ∈ txs, Frame.Counted Block.compress rs) ∧
    ∃ log₀ d₁, create .empty ["events.log"] = .ok (log₀, d₁) ∧ d₁.bytes log₀.file = [] ∧
      ∃ log d log' d', log₀.appendEach true txs d₁ = (.ok (), log, d) ∧
        log.entries[([2] : Bytes)]? = some [20] ∧ replay d ["events.log"] = .ok (log', d') ∧
        log'.entries[([2] : Bytes)]? = none ∧ d'.read ["events.log"] = .ok [] := by
  obtain ⟨value, hv⟩ : ∃ value : Bytes, value.length = Frame.longest :=
    ⟨List.replicate Frame.longest 0, List.length_replicate⟩
  refine ⟨value, ?_⟩
  intro txs
  have hlongest : Frame.longest = 67108864 := rfl
  have hlong := length_records_set [1] value
  have he : Frame.Expands Block.compress := fun s hs => Block.decompress_compress hs
  have hcounted : ∀ rs ∈ txs, Frame.Counted Block.compress rs := by
    simp only [txs, List.forall_mem_cons, List.not_mem_nil, false_implies, implies_true, and_true]
    refine ⟨counted_of_short ?_, counted_of_short (by decide)⟩
    rw [hlong, hv, hlongest]
    decide
  have hfound : Disk.empty.find ["events.log"] = .error .notFound := by rfl
  have hroot : Disk.empty.checkDirectory [] = .ok () := by rfl
  obtain ⟨log₀, d₁, hc⟩ : ∃ log₀ d₁, create .empty ["events.log"] = .ok (log₀, d₁) := by
    simp [create, Disk.openFile, hfound, hroot]
  have hb : d₁.bytes log₀.file = [] := bytes_of_create hfound hc
  -- The payload is longer than what it expands to, which is longer than the value.
  have hunread : Frame.isReadable Block.compress [.set [1] value] = false := by
    have := Block.length_lt_compress (Binary.records [.set [1] value])
    rw [Frame.isReadable, Frame.packed, decide_eq_false_iff_not]
    omega
  have hreadable : Frame.readable Block.compress txs = [] :=
    List.takeWhile_cons_of_neg (by rw [hunread]; exact Bool.false_ne_true)
  obtain ⟨-, log, d, log', d', ha, hentries, -, hr, hentries', hread, -⟩ :=
    replayed_until_oversized he hcounted hc hb true
  rw [hreadable] at hentries' hread
  refine ⟨he, hcounted, log₀, d₁, hc, hb, log, d, log', d', ?_, ?_, hr, ?_, hread⟩
  · rwa [appendEach_eq_appendEachWith]
  · rw [hentries]
    exact Std.ExtTreeMap.getElem?_insert_self
  · rw [hentries']
    rfl

end MapLog

end EventStore
