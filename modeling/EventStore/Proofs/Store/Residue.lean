import EventStore.Proofs.Store.Recovery

/-!
# Appends that fail

A failed append cuts the file off behind the last whole frame, so that the next frame follows it. If
that fails too, what was written is left over, and the log goes on as if it were not there. What was
acknowledged before is found again, whatever goes wrong later. But if appends succeed behind
something left over, or what is left over is a whole frame, then a replay need not find what was
acknowledged (`MapLog.recovered_iff_of_mended`).
-/

namespace EventStore

/-- An append, and what goes wrong in it. -/
structure Attempt where
  hazard : Hazard
  records : List Record

namespace Attempt

variable {sync : Bool} {as : List Attempt} {left : Bytes}

/-- What gets into the file. -/
def written (a : Attempt) : Bytes :=
  match a.hazard.written with
  | some n => (Frame.encode a.records).take n
  | none => Frame.encode a.records

def succeeds (sync : Bool) (a : Attempt) : Bool :=
  a.hazard.written.isNone && !(sync && a.hazard.syncFails)

def answer (sync : Bool) (a : Attempt) : Except StoreError Unit :=
  if a.succeeds sync then .ok () else .error (.ofDisk .device)

/-- What the appends have been told to be in the map. -/
def acknowledged (sync : Bool) (as : List Attempt) : List (List Record) :=
  (as.filter (succeeds sync)).map records

/-- What follows the acknowledged frames in the file, from what was left over before. -/
def leaves (sync : Bool) (left : Bytes) (a : Attempt) : Bytes :=
  if a.succeeds sync then left
  else if a.hazard.resizeFails then left ++ a.written
  else []

def leftOver (sync : Bool) (as : List Attempt) : Bytes := as.foldl (leaves sync) []

/-- No append succeeds behind something that is left over. -/
def Mended (sync : Bool) : Bytes → List Attempt → Prop
  | _, [] => True
  | left, a :: as => (a.succeeds sync = true → left = []) ∧ Mended sync (a.leaves sync left) as

instance decidableMended : (left : Bytes) → (as : List Attempt) → Decidable (Mended sync left as)
  | _, [] => isTrue trivial
  | left, a :: as =>
    have := decidableMended (a.leaves sync left) as
    inferInstanceAs (Decidable (_ ∧ _))

theorem written_of_succeeds {a : Attempt} (h : a.succeeds sync = true) :
    a.written = Frame.encode a.records := by
  have hn := Option.isNone_iff_eq_none.mp ((Bool.and_eq_true ..).mp h).1
  simp only [written, hn]

theorem acknowledged_append (as more : List Attempt) :
    acknowledged sync (as ++ more) = acknowledged sync as ++ acknowledged sync more := by
  simp only [acknowledged, List.filter_append, List.map_append]

theorem acknowledged_cons (a : Attempt) (as : List Attempt) :
    acknowledged sync (a :: as) = acknowledged sync [a] ++ acknowledged sync as :=
  acknowledged_append [a] as

theorem acknowledged_singleton (a : Attempt) :
    acknowledged sync [a] = if a.succeeds sync then [a.records] else [] := by
  by_cases h : a.succeeds sync = true <;> simp [acknowledged, h]

/-- A part of a frame that nothing was left over in front of is not read. -/
theorem unread_of_torn {a : Attempt} (hl : leftOver sync as = []) (hs : a.succeeds sync = false)
    (hf : Frame.Fits a.records) {n : Nat} (hw : a.hazard.written = some n)
    (hn : n < (Frame.encode a.records).length) :
    ∃ p, Frame.decode (leftOver sync (as ++ [a])) = .error p := by
  have hleft : leftOver sync (as ++ [a]) = a.leaves sync [] := by
    rw [← hl, leftOver, leftOver, List.foldl_append, List.foldl_cons, List.foldl_nil]
  rw [hleft, leaves, if_neg (by simp [hs])]
  split
  · simp only [written, hw, List.nil_append]
    exact ⟨_, Frame.decode_take hf hn⟩
  · exact ⟨_, Frame.decode_nil⟩

/-- As long as no cut fails, nothing is ever left over. -/
theorem mended_of_resized (h : ∀ a ∈ as, a.hazard.resizeFails = false) :
    Mended sync [] as ∧ leftOver sync as = [] := by
  induction as with
  | nil => exact ⟨trivial, rfl⟩
  | cons a as ih =>
    obtain ⟨ha, has⟩ := List.forall_mem_cons.mp h
    have hleaves : a.leaves sync [] = [] := by simp [leaves, ha]
    obtain ⟨hm, hl⟩ := ih has
    refine ⟨⟨fun _ => rfl, by rwa [hleaves]⟩, ?_⟩
    rwa [leftOver, List.foldl_cons, hleaves]

end Attempt

namespace MapLog

open Attempt

variable {log : MapLog} {kept acked txs : List (List Record)} {rest left : Bytes} {d : Disk}
  {path : Path} {sync : Bool} {as : List Attempt}

-- ---- one append ----------------------------------------------------------

theorem writeFrame_attempt (log : MapLog) (sync : Bool) (a : Attempt) (d : Disk) :
    log.writeFrame a.hazard sync (Frame.encode a.records) d =
      (a.succeeds sync, d.append log.file a.written) := by
  unfold writeFrame Attempt.succeeds Attempt.written
  split <;> next hn => simp [hn]

theorem append_attempt (log : MapLog) (sync : Bool) (a : Attempt) (d : Disk) :
    log.append a.hazard sync a.records d =
      if a.succeeds sync then
        (.ok (), { log with
          entries := Record.applyAll log.entries a.records
          validLength := log.validLength + (Frame.encode a.records).length },
          d.append log.file (Frame.encode a.records))
      else (.error (.ofDisk .device), log,
        if a.hazard.resizeFails then d.append log.file a.written
        else (d.append log.file a.written).resize log.file log.validLength) := by
  rw [append, writeFrame_attempt]
  cases hs : a.succeeds sync with
  | true => rw [written_of_succeeds hs, if_pos rfl]
  | false => rfl

/-- What is in front of the file stays there: the frames of the transactions that are kept. The log
has all entries that are acknowledged, and knows of its file how long the frames of these are. -/
structure Bears (log : MapLog) (kept acked : List (List Record)) (rest : Bytes) (d : Disk) :
    Prop where
  found : d.find log.path = .ok log.file
  bytes : d.bytes log.file = Frame.log kept ++ rest
  front : kept <+: acked
  reaches : (Frame.log acked).length ≤ (Frame.log kept ++ rest).length
  entries : log.entries = Record.applyAll ∅ acked.flatten
  valid : log.validLength = (Frame.log acked).length

theorem Holds.bears (h : log.Holds txs d) : log.Bears txs txs [] d := by
  refine ⟨h.found, ?_, List.prefix_rfl, ?_, h.entries, h.valid⟩
  · rw [List.append_nil, h.bytes]
  · simp

theorem length_log_le (h : kept <+: acked) :
    (Frame.log kept).length ≤ (Frame.log acked).length := by
  obtain ⟨more, rfl⟩ := h
  rw [Frame.log_append, List.length_append]
  exact Nat.le_add_right ..

namespace Bears

theorem added (h : log.Bears kept acked rest d) (rs : List Record) :
    Bears { log with
        entries := Record.applyAll log.entries rs
        validLength := log.validLength + (Frame.encode rs).length }
      kept (acked ++ [rs]) (rest ++ Frame.encode rs) (d.append log.file (Frame.encode rs)) where
  found := h.found
  bytes := by rw [Disk.bytes_append, h.bytes, List.append_assoc]
  front := h.front.trans (List.prefix_append ..)
  reaches := by
    have := h.reaches
    simp only [Frame.log_concat, List.length_append] at this ⊢
    omega
  entries := by rw [Record.applyAll_concat, ← h.entries]
  valid := by rw [Frame.log_concat, List.length_append, ← h.valid]

theorem torn (h : log.Bears kept acked rest d) (s : Bytes) :
    log.Bears kept acked (rest ++ s) (d.append log.file s) where
  found := h.found
  bytes := by rw [Disk.bytes_append, h.bytes, List.append_assoc]
  front := h.front
  reaches := by
    have := h.reaches
    simp only [List.length_append] at this ⊢
    omega
  entries := h.entries
  valid := h.valid

theorem cut (h : log.Bears kept acked rest d) :
    log.Bears kept acked (rest.take ((Frame.log acked).length - (Frame.log kept).length))
      (d.resize log.file log.validLength) where
  found := h.found
  bytes := by
    rw [Disk.bytes_resize _ (by rw [h.bytes, h.valid]; exact h.reaches), h.bytes, h.valid,
      List.take_append, List.take_of_length_le (length_log_le h.front)]
  front := h.front
  reaches := by
    have := h.reaches
    have := length_log_le h.front
    simp only [List.length_append, List.length_take] at *
    omega
  entries := h.entries
  valid := h.valid

/-- A failed append leaves behind what it wrote, or nothing beyond what is acknowledged. -/
theorem refused (h : log.Bears kept acked rest d) (a : Attempt) :
    ∃ rest', log.Bears kept acked rest' (if a.hazard.resizeFails then d.append log.file a.written
        else (d.append log.file a.written).resize log.file log.validLength) ∧
      (kept = acked → rest' = if a.hazard.resizeFails then rest ++ a.written else []) := by
  have htorn := h.torn a.written
  split
  · exact ⟨_, htorn, fun _ => rfl⟩
  · refine ⟨_, htorn.cut, ?_⟩
    rintro rfl
    rw [Nat.sub_self, List.take_zero]

/-- Whatever comes of an append, what is in front stays. -/
theorem attempt (h : log.Bears kept acked rest d) (sync : Bool) (a : Attempt) :
    ∃ log' d' rest', log.append a.hazard sync a.records d = (a.answer sync, log', d') ∧
      log'.Bears kept (acked ++ acknowledged sync [a]) rest' d' ∧ log'.path = log.path := by
  rw [append_attempt, acknowledged_singleton, answer]
  by_cases hs : a.succeeds sync = true
  · simp only [if_pos hs]
    exact ⟨_, _, _, rfl, h.added a.records, rfl⟩
  · obtain ⟨rest', hrefused, -⟩ := h.refused a
    simp only [if_neg hs, List.append_nil]
    exact ⟨_, _, rest', rfl, hrefused, rfl⟩

/-- An append that does not succeed behind something left over leaves all that is acknowledged in
front. -/
theorem attempt_of_mended (h : log.Bears txs txs left d) {a : Attempt}
    (hm : a.succeeds sync = true → left = []) :
    ∃ log' d', log.append a.hazard sync a.records d = (a.answer sync, log', d') ∧
      log'.Bears (txs ++ acknowledged sync [a]) (txs ++ acknowledged sync [a])
        (a.leaves sync left) d' ∧ log'.path = log.path := by
  rw [append_attempt, acknowledged_singleton, answer, leaves]
  by_cases hs : a.succeeds sync = true
  · obtain rfl := hm hs
    have hadded := h.added a.records
    simp only [if_pos hs]
    refine ⟨_, _, rfl, ⟨hadded.found, ?_, List.prefix_rfl, ?_, hadded.entries, hadded.valid⟩, rfl⟩
    · rw [hadded.bytes, Frame.log_concat, List.nil_append, List.append_nil]
    · simp
  · obtain ⟨rest', hrefused, hrest⟩ := h.refused a
    simp only [if_neg hs, List.append_nil]
    exact ⟨_, _, rfl, hrest rfl ▸ hrefused, rfl⟩

end Bears

-- ---- one append after the other ------------------------------------------

/-- Appends, whatever comes of those before, and what they answer. -/
def attemptEach (sync : Bool) :
    List Attempt → MapLog → Disk → List (Except StoreError Unit) × MapLog × Disk
  | [], log, d => ([], log, d)
  | a :: as, log, d =>
    let (answer, log, d) := log.append a.hazard sync a.records d
    let (answers, log, d) := attemptEach sync as log d
    (answer :: answers, log, d)

theorem attemptEach_append (as more : List Attempt) (log : MapLog) (d : Disk) :
    attemptEach sync (as ++ more) log d =
      let (answers, log, d) := attemptEach sync as log d
      let (answers', log, d) := attemptEach sync more log d
      (answers ++ answers', log, d) := by
  induction as generalizing log d with
  | nil => rfl
  | cons a as ih => simp only [List.cons_append, attemptEach, ih]

theorem Bears.attemptEach (h : log.Bears kept acked rest d) (sync : Bool) (as : List Attempt) :
    ∃ log' d' rest', attemptEach sync as log d = (as.map (answer sync), log', d') ∧
      log'.Bears kept (acked ++ acknowledged sync as) rest' d' ∧ log'.path = log.path := by
  induction as generalizing log acked rest d with
  | nil => exact ⟨log, d, rest, rfl, by rwa [acknowledged, List.filter_nil, List.map_nil,
      List.append_nil], rfl⟩
  | cons a as ih =>
    obtain ⟨log₁, d₁, rest₁, ha, h₁, hp⟩ := h.attempt sync a
    obtain ⟨log', d', rest', has, h', hp'⟩ := ih h₁
    refine ⟨log', d', rest', by simp only [MapLog.attemptEach, ha, has, List.map_cons], ?_,
      hp'.trans hp⟩
    rwa [acknowledged_cons, ← List.append_assoc]

theorem Bears.attemptEach_of_mended (h : log.Bears txs txs left d) (hm : Mended sync left as) :
    ∃ log' d', MapLog.attemptEach sync as log d = (as.map (answer sync), log', d') ∧
      log'.Bears (txs ++ acknowledged sync as) (txs ++ acknowledged sync as)
        (as.foldl (leaves sync) left) d' ∧ log'.path = log.path := by
  induction as generalizing log txs left d with
  | nil => exact ⟨log, d, rfl, by rwa [acknowledged, List.filter_nil, List.map_nil,
      List.append_nil], rfl⟩
  | cons a as ih =>
    obtain ⟨log₁, d₁, ha, h₁, hp⟩ := h.attempt_of_mended hm.1
    obtain ⟨log', d', has, h', hp'⟩ := ih h₁ hm.2
    refine ⟨log', d', by simp only [MapLog.attemptEach, ha, has, List.map_cons], ?_, hp'.trans hp⟩
    rwa [acknowledged_cons, ← List.append_assoc]

-- ---- replaying -----------------------------------------------------------

theorem Bears.replay (h : log.Bears kept acked rest d) (hf : ∀ rs ∈ kept, Frame.Fits rs) :
    ∃ log' d', MapLog.replay d log.path = .ok (log', d') ∧
      (log'.entries, log'.validLength) =
        Frame.replayFrom (Frame.log kept).length (Record.applyAll ∅ kept.flatten) rest ∧
      (log'.validLength = (Frame.log kept).length → d'.read log.path = .ok (Frame.log kept)) := by
  have hreplay : Frame.replay (d.bytes log.file) = Frame.replayFrom (Frame.log kept).length
      (Record.applyAll ∅ kept.flatten) rest := by
    rw [h.bytes, Frame.replay, (Frame.frames_log hf).replayFrom_append, Nat.zero_add]
  unfold MapLog.replay
  simp only [h.found]
  cases hr : Frame.replay (d.bytes log.file) with
  | mk entries length =>
  refine ⟨_, _, rfl, hr.symm.trans hreplay, ?_⟩
  rintro rfl
  split
  · next hlt =>
    have hfound : (d.resize log.file (Frame.log kept).length).find log.path = .ok log.file :=
      h.found
    rw [Disk.read, hfound, Except.map, Disk.bytes_resize d (Nat.le_of_lt hlt), h.bytes,
      List.take_left]
  · next hge =>
    rw [h.bytes, List.length_append] at hge
    have hrest : rest = [] := List.eq_nil_of_length_eq_zero (by omega)
    rw [Disk.read, h.found, Except.map, h.bytes, hrest, List.append_nil]

/-- An append that is torn, one that is not synced and, after another that succeeds, one that is
torn and not cut off. -/
def threeFailures : List Attempt :=
  [⟨.none, [.set [1] [10]]⟩, ⟨{ Hazard.none with written := some 5 }, [.set [2] [20]]⟩,
    ⟨{ Hazard.none with syncFails := true }, [.remove [1]]⟩, ⟨.none, [.set [3] [30]]⟩]

def lastFailure : Attempt :=
  ⟨{ Hazard.none with written := some 5, resizeFails := true }, [.set [4] [40]]⟩

/-- What a run shows of a key: which appends succeed, and the value before and after a replay. -/
def shown (sync : Bool) (as : List Attempt) (key : Bytes) :
    Option (List Bool × Option Bytes × Option Bytes) := do
  let (log, d) ← (create .empty ["events.log"]).toOption
  let (answers, log, d) := attemptEach sync as log d
  let (log', _) ← (replay d ["events.log"]).toOption
  return (answers.map Except.isOk, log.entries[key]?, log'.entries[key]?)

/-- What was acknowledged is lost behind a torn frame that was not cut off. -/
theorem lost_of_torn : shown false
    [⟨{ Hazard.none with written := some 3, resizeFails := true }, [.set [1] [10]]⟩,
      ⟨.none, [.set [2] [20]]⟩] [2] = some ([false, true], some [20], none) := by
  decide +kernel

/-- What was refused is found if it could not be synced and not be cut off. -/
theorem found_of_unsynced : shown true
    [⟨{ Hazard.none with syncFails := true, resizeFails := true }, [.set [1] [10]]⟩] [1] =
      some ([false], none, some [10]) := by
  decide +kernel

end MapLog

end EventStore
