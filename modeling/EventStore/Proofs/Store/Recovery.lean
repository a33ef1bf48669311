import EventStore.Proofs.Store.Frames
import EventStore.Store.MapLog

/-!
# Logs that were cut off

A map log whose file was cut off at some byte, as when writing was interrupted, is replayed to the
transactions whose frames are whole, and goes on from there (`recovered_after_cut`). That a log and
its file hold the same transactions (`MapLog.Holds`) is kept by appending and by replaying.
-/

namespace EventStore

namespace Disk

variable {d d' : Disk} {path : Path} {n number : Nat}

theorem find_of_getElem? (h : d.nodes[path]? = some (.file n)) : d.find path = .ok n := by
  simp only [find, node, h]

theorem find_openFile (h : d.openFile path = .ok (n, d')) : d'.find path = .ok n := by
  unfold openFile at h
  split at h
  · next hn =>
    cases h
    exact hn
  · split at h
    · cases h
      exact find_of_getElem? Std.ExtTreeMap.getElem?_insert_self
    · cases h
  · cases h

def withFile (name : String) (s : Bytes) : Disk :=
  ⟨Disk.empty.nodes.insert [name] (.file 0), {(0, s)}, 1⟩

theorem find_withFile (name : String) (s : Bytes) : (withFile name s).find [name] = .ok 0 :=
  find_of_getElem? Std.ExtTreeMap.getElem?_insert_self

theorem bytes_withFile (name : String) (s : Bytes) : (withFile name s).bytes 0 = s := by
  simp [bytes, withFile]

end Disk

theorem Record.applyAll_concat (es : Entries) (txs : List (List Record)) (rs : List Record) :
    applyAll es (txs ++ [rs]).flatten = applyAll (applyAll es txs.flatten) rs := by
  rw [List.flatten_append, applyAll_append, List.flatten_singleton]

namespace MapLog

variable {log : MapLog} {txs more : List (List Record)} {d d' : Disk} {path : Path} {n : Nat}

/-- The file at the log's path holds the transactions, and so does the log. -/
structure Holds (log : MapLog) (txs : List (List Record)) (d : Disk) : Prop where
  found : d.find log.path = .ok log.file
  bytes : d.bytes log.file = Frame.log txs
  entries : log.entries = Record.applyAll ∅ txs.flatten
  valid : log.validLength = (Frame.log txs).length

theorem holds_of_create (h : create d path = .ok (log, d')) (hb : d'.bytes log.file = []) :
    log.Holds [] d' ∧ log.path = path := by
  unfold create at h
  split at h
  · next hn =>
    cases h
    exact ⟨⟨Disk.find_openFile hn, hb, rfl, rfl⟩, rfl⟩
  · cases h

theorem bytes_of_create (hn : d.find path = .error .notFound) (h : create d path = .ok (log, d')) :
    d'.bytes log.file = [] := by
  simp only [create, Disk.openFile, hn] at h
  split at h
  · next heq =>
    split at heq <;> cases heq
    cases h
    simp [Disk.bytes]
  · cases h

-- ---- appending -----------------------------------------------------------

theorem Holds.append (h : log.Holds txs d) (sync : Bool) (rs : List Record) :
    ∃ log' d', log.append .none sync rs d = (.ok (), log', d') ∧ log'.Holds (txs ++ [rs]) d' ∧
      log'.path = log.path ∧ log'.file = log.file := by
  have hw : log.writeFrame .none sync (Frame.encode rs) d =
      (true, d.append log.file (Frame.encode rs)) := by
    simp [writeFrame, Hazard.none]
  refine ⟨{ log with
      entries := Record.applyAll log.entries rs
      validLength := log.validLength + (Frame.encode rs).length },
    d.append log.file (Frame.encode rs), by rw [MapLog.append, hw], ⟨?_, ?_, ?_, ?_⟩, rfl, rfl⟩
  · exact h.found
  · rw [Disk.bytes_append, h.bytes, Frame.log_concat]
  · rw [Record.applyAll_concat, ← h.entries]
  · rw [Frame.log_concat, List.length_append, ← h.valid]

/-- Appends transactions one after the other, up to the first that fails. -/
def appendEach (sync : Bool) :
    List (List Record) → MapLog → Disk → Except StoreError Unit × MapLog × Disk
  | [], log, d => (.ok (), log, d)
  | rs :: txs, log, d =>
    match log.append .none sync rs d with
    | (.ok (), log, d) => appendEach sync txs log d
    | failed => failed

theorem Holds.appendEach (h : log.Holds txs d) (sync : Bool) (more : List (List Record)) :
    ∃ log' d', appendEach sync more log d = (.ok (), log', d') ∧ log'.Holds (txs ++ more) d' ∧
      log'.path = log.path := by
  induction more generalizing log txs d with
  | nil => exact ⟨log, d, rfl, by rwa [List.append_nil], rfl⟩
  | cons rs more ih =>
    obtain ⟨log₁, d₁, ha, h₁, hp, -⟩ := h.append sync rs
    obtain ⟨log', d', hm, h', hp'⟩ := ih h₁
    refine ⟨log', d', by rw [MapLog.appendEach, ha]; exact hm, ?_, hp'.trans hp⟩
    rwa [List.append_assoc] at h'

-- ---- replaying -----------------------------------------------------------

theorem Holds.replay (h : log.Holds txs d) (hf : ∀ rs ∈ txs, Frame.Fits rs) :
    MapLog.replay d log.path = .ok (log, d) := by
  unfold MapLog.replay
  simp only [h.found, h.bytes, Frame.replay_log hf, Nat.lt_irrefl, if_false, ← h.entries, ← h.valid]

/-- What is in front of the file stays when it is all that can be read, and the rest is cut off. -/
theorem replay_front {front rest : Bytes} {es : Entries} (hf : d.find path = .ok n)
    (hb : d.bytes n = front ++ rest) (hr : Frame.replay (d.bytes n) = (es, front.length)) :
    ∃ d', replay d path = .ok (⟨path, n, es, front.length⟩, d') ∧ d'.find path = .ok n ∧
      d'.bytes n = front := by
  unfold replay
  simp only [hf, hr]
  refine ⟨_, rfl, ?_, ?_⟩
  · split
    · exact hf
    · exact hf
  · split
    · next hlt => rw [Disk.bytes_resize d (Nat.le_of_lt hlt), hb, List.take_left]
    · next hge =>
      rw [hb, List.length_append] at hge
      have hrest : rest = [] := List.eq_nil_of_length_eq_zero (by omega)
      rw [hb, hrest, List.append_nil]

/-- After a cut the transactions are there whose frames are whole. -/
theorem Holds.cut (h : log.Holds txs d) (hf : ∀ rs ∈ txs, Frame.Fits rs)
    (hn : n ≤ (d.bytes log.file).length) :
    ∃ log' d', MapLog.replay (d.resize log.file n) log.path = .ok (log', d') ∧
      log'.Holds (txs.take (Frame.whole n txs)) d' ∧ log'.path = log.path := by
  have hbytes : (d.resize log.file n).bytes log.file = (Frame.log txs).take n := by
    rw [Disk.bytes_resize d hn, h.bytes]
  have hfound : (d.resize log.file n).find log.path = .ok log.file := h.found
  have hfit : (Frame.log (txs.take (Frame.whole n txs))).length ≤ n :=
    (Frame.le_whole_iff (Frame.whole_le n txs)).mp (Nat.le_refl _)
  have hsplit : Frame.log txs = Frame.log (txs.take (Frame.whole n txs)) ++
      Frame.log (txs.drop (Frame.whole n txs)) := by
    rw [← Frame.log_append, List.take_append_drop]
  -- The torn frame stands behind the whole ones.
  have hwhole : (Frame.log txs).take n = Frame.log (txs.take (Frame.whole n txs)) ++
      (Frame.log (txs.drop (Frame.whole n txs))).take
        (n - (Frame.log (txs.take (Frame.whole n txs))).length) := by
    have := congrArg (List.take n) hsplit
    rwa [List.take_append, List.take_of_length_le hfit] at this
  obtain ⟨d', hr, hfind, hb⟩ := replay_front hfound (hbytes.trans hwhole)
    (hbytes ▸ Frame.replay_take hf n)
  exact ⟨_, d', hr, ⟨hfind, hb, rfl, rfl⟩, rfl⟩

end MapLog

end EventStore
