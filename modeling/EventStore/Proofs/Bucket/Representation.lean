import EventStore.Proofs.Bucket.Reading

/-!
# What a bucket stands for

A session works on the bucket of one hour, over a store that begins without its maps, and keeps
a log of what has been committed. Through every session the store, the index, the counter and
the state stand for the log (`Represents`), also where calls to the store fail. For a bucket
that is ready or locked `faithful_of_session` says what that means to its users.
-/

namespace EventStore

open Std Query Operation

namespace Bucket

/-- The store holds the log under the ids from one on. -/
structure Kept (hour : Hour) (log : List Event) (v : View) : Prop where
  fits : ∀ e ∈ log, e.Fits
  within : ∀ e ∈ log, hour.contains e.millis = true
  room : log.length < 4294967296
  entries : ∀ b : Bucket, b.hour = hour →
    ((v b.eventsMap).getD ∅).toList = (b.numbered 0 log).map Event.entry

/-- A bucket's cell stands for the events committed so far. -/
structure Represents (b : Bucket) (log : List Event) (c : Cell) : Prop where
  kept : Kept b.hour log c.view
  idle : c.data.writing = false
  steady : c.data.state ≠ .rebuilding
  index : c.data.index = indexAll (b.numbered 0 log) .empty
  last : c.data.lastId = log.length.toUInt32
  there : c.data.state.isWritable = true →
    (c.view b.eventsMap).isSome ∧ (c.view b.optionsMap).isSome
  marked : c.data.state.isWritable = true → (c.data.state = .locked ↔ b.isMarked c.view = true)
  /-- What has been dropped leaves neither events nor a mark. -/
  dropped : c.data.state = .dropped → log = [] ∧ b.isMarked c.view = false

variable {b : Bucket} {hour : Hour} {c : Cell} {log events : List Event} {v v' : View}

theorem Kept.prepared (h : Kept hour log v) (hp : b.Prepared v v') : Kept hour log v' :=
  { h with entries := fun b' hb => hp.getD_eq _ ▸ h.entries b' hb }

theorem prepared_withMaps (b : Bucket) (v : View) : b.Prepared v (b.withMaps v) := .inr (.inr rfl)

theorem Kept.indexOf_eq (h : Kept b.hour log v) : indexOf ((v b.eventsMap).getD ∅).toList =
    .ok (indexAll (b.numbered 0 log) .empty, log.length.toUInt32) := by
  rw [h.entries b rfl, Bucket.indexOf_eq, learnt_numbered (by simpa using h.room) h.fits,
    UInt32.zero_add]

-- ---- what each operation preserves ---------------------------------------

theorem Represents.rebuilt (h : Kept b.hour log v) (hr : b.Rebuilt v c) : b.Represents log c := by
  obtain ⟨index, last, hi, rfl⟩ := hr
  rw [h.indexOf_eq] at hi
  cases hi
  have hm : b.isMarked (b.withMaps v) = b.isMarked v := isMarked_prepared (b.prepared_withMaps v)
  refine {
    kept := h.prepared (b.prepared_withMaps v)
    idle := rfl
    steady := ?_
    index := rfl
    last := rfl
    there := fun _ => ?_
    marked := fun _ => ?_
    dropped := ?_ }
  · simp only [markedState]
    split <;> nofun
  · simp [withMaps_apply]
  · rw [hm]
    simp only [markedState]
    split <;> simp [*]
  · simp only [markedState]
    split <;> nofun

/-- Maps may be made by somebody else. -/
theorem Represents.prepared {b' : Bucket} (h : b.Represents log c) (hp : b'.Prepared c.view v) :
    b.Represents log { c with view := v } := by
  refine { h with
    kept := h.kept.prepared hp
    there := fun hw => ?_
    marked := fun hw => ?_
    dropped := fun hd => ?_ }
  · obtain ⟨he, ho⟩ := h.there hw
    exact ⟨(congrArg Option.isSome (hp.view_eq he)).trans he,
      (congrArg Option.isSome (hp.view_eq ho)).trans ho⟩
  · rw [isMarked_prepared hp]
    exact h.marked hw
  · rw [isMarked_prepared hp]
    exact h.dropped hd

theorem Represents.unread (h : b.Represents log c) (hp : b.Prepared c.view v) :
    b.Represents log ⟨{ c.data with state := .uninitialized }, v⟩ :=
  { h with
    kept := h.kept.prepared hp
    steady := nofun
    there := nofun
    marked := nofun
    dropped := nofun }

theorem id_congr {b b' : Bucket} (h : b'.hour = b.hour) : b'.id = b.id :=
  Option.some.inj (b'.named.symm.trans (h ▸ b.named))

theorem numbered_congr {b b' : Bucket} (h : b'.hour = b.hour) (last : UInt32)
    (events : List Event) :
    b'.numbered last events = b.numbered last events := by
  induction events generalizing last with
  | nil => rfl
  | cons e events ih => rw [numbered, numbered, ih, id_congr h]

theorem Kept.of_entries (hf : ∀ e ∈ log, e.Fits) (hw : ∀ e ∈ log, b.hour.contains e.millis = true)
    (hr : log.length < 4294967296)
    (he : ((v b.eventsMap).getD ∅).toList = (b.numbered 0 log).map Event.entry) :
    Kept b.hour log v :=
  ⟨hf, hw, hr, fun b' hb => by rw [numbered_congr hb, eventsMap, hb]; exact he⟩

theorem Represents.added (h : b.Represents log c) (ha : b.Admits events c)
    (hf : ∀ e ∈ events, e.Fits) :
    b.Represents (log ++ events) (b.added events c) := by
  have hl : (log.length.toUInt32).toNat = log.length := UInt32.toNat_ofNat_of_lt' h.kept.room
  have hr : (log ++ events).length < 4294967296 := by
    have := ha.room
    rw [h.last, hl] at this
    rwa [List.length_append]
  have hn : b.numbered 0 (log ++ events) = b.numbered 0 log ++ b.numbered c.data.lastId events := by
    rw [numbered_append, UInt32.zero_add, h.last]
  obtain ⟨es, hes⟩ := Option.isSome_iff_exists.mp ha.there
  have he := h.kept.entries b rfl
  have hi := h.kept.indexOf_eq
  rw [hes, Option.getD_some] at he hi
  rw [← h.last] at hi
  have ho : (b.added events c).view b.optionsMap = c.view b.optionsMap :=
    if_neg b.eventsMap_ne_optionsMap.symm
  refine { h with
    kept := .of_entries ?_ ?_ hr ?_
    index := ?_
    last := ?_
    there := fun hw => ?_
    marked := fun hw => ?_
    dropped := fun hd => ?_ }
  · exact fun e he => (List.mem_append.mp he).elim (h.kept.fits e) (hf e)
  · exact fun e he => (List.mem_append.mp he).elim (h.kept.within e) (ha.within e)
  · have hv : (b.added events c).view b.eventsMap =
        some (Record.applyAll es ((b.numbered c.data.lastId events).map Event.record)) := by
      simp [Bucket.added, hes]
    rw [hv, Option.getD_some, Entries.toList_applyAll (lt_of_indexOf hi ha.room)
      (pairwise_numbered ha.room), hn, List.map_append]
    exact congrArg (· ++ _) he
  · rw [hn]
    simp [Bucket.added, indexAll, h.index]
  · simp only [Bucket.added, List.length_append, h.last, Nat.toUInt32_eq, UInt32.ofNat_add]
  · rw [ho]
    exact ⟨by simp [Bucket.added, hes], (h.there hw).2⟩
  · rw [isMarked, ho]
    exact h.marked hw
  · have := ha.writable
    rw [show c.data.state = .dropped from hd] at this
    cases this

theorem Represents.marking (h : b.Represents log c) (hw : c.data.state.isWritable = true)
    (locked : Bool) :
    b.Represents log (b.marked locked c) := by
  obtain ⟨he, ho⟩ := h.there hw
  obtain ⟨es, hes⟩ := Option.isSome_iff_exists.mp ho
  have hve : (b.marked locked c).view b.eventsMap = c.view b.eventsMap :=
    if_neg b.eventsMap_ne_optionsMap
  have hvo : (b.marked locked c).view b.optionsMap =
      some (es.insert lockKey [if locked then 1 else 0]) := by
    simp [Bucket.marked, hes]
  refine { h with
    kept := .of_entries h.kept.fits h.kept.within h.kept.room ?_
    steady := ?_
    there := fun _ => ?_
    marked := fun _ => ?_
    dropped := ?_ }
  · rw [hve]
    exact h.kept.entries b rfl
  · cases locked <;> rintro ⟨⟩
  · rw [hve, hvo]
    exact ⟨he, rfl⟩
  · rw [isMarked, hvo, Option.getD_some, ExtTreeMap.getElem?_insert_self]
    cases locked <;> simp [Bucket.marked, isLockMark]
  · cases locked <;> rintro ⟨⟩

theorem Represents.emptied (h : b.Represents log c) (goOn : Bool) :
    b.Represents [] (b.emptied goOn c) := by
  -- Where the maps stay they hold nothing already.
  have hc (v : View) (hv : v = if c.data.state = .dropped then c.view else b.withoutMaps c.view) :
      Kept b.hour [] v ∧ b.isMarked v = false := by
    split at hv
    · next hd =>
      obtain ⟨rfl, hm⟩ := h.dropped hd
      exact hv ▸ ⟨h.kept, hm⟩
    · refine ⟨.of_entries (by simp) (by simp) (by simp) ?_, ?_⟩
      · simp [hv, withoutMaps_apply, numbered]
      · simp [hv, isMarked, withoutMaps_apply, isLockMark]
  obtain ⟨hk, hm⟩ := hc _ rfl
  cases goOn with
  | true =>
    refine {
      kept := hk.prepared (b.prepared_withMaps _)
      idle := rfl
      steady := by rintro ⟨⟩
      index := rfl
      last := rfl
      there := fun _ => ?_
      marked := fun _ => ?_
      dropped := by rintro ⟨⟩ }
    · simp [Bucket.emptied, withMaps_apply]
    · have := (isMarked_prepared (b.prepared_withMaps _)).trans hm
      simp [Bucket.emptied, this]
  | false =>
    exact {
      kept := hk
      idle := rfl
      steady := by rintro ⟨⟩
      index := rfl
      last := rfl
      there := by rintro ⟨⟩
      marked := by rintro ⟨⟩
      dropped := fun _ => ⟨rfl, hm⟩ }

-- ---- sessions ------------------------------------------------------------

/-- What a session with the bucket of an hour can have come to, with the bucket that was opened
last and the log of what is committed. Queries are asked meanwhile. Calls to the store may fail at
any time, but those of a bucket being dropped do not. -/
inductive Session (hour : Hour) : Engine → Option Bucket → List Event → Prop
  | start {e} (hc : e.cache.Sound) (hv : e.store.entries? hour.eventsMap = none)
    (ho : e.store.entries? hour.optionsMap = none) : Session hour e none []
  | opened {e open? log b e'} (h : Session hour e open? log)
    (he : (openAt hour).Ends e (.ok b) e') : Session hour e' (some b) log
  | notOpened {e open? log p e'} (h : Session hour e open? log)
    (he : (openAt hour).Ends e (.error p) e') : Session hour e' open? log
  | added {e b log x stored e'} (h : Session hour e (some b) log) (hf : Event.Fits x)
    (he : (b.add x).Ends e (.ok stored) e') : Session hour e' (some b) (log ++ [x])
  | notAdded {e b log x p e'} (h : Session hour e (some b) log)
    (he : (b.add x).Ends e (.error p) e') : Session hour e' (some b) log
  | addedAll {e b log events stored e'} (h : Session hour e (some b) log)
    (hf : ∀ x ∈ events, Event.Fits x)
    (he : (b.addAll events).Ends e (.ok stored) e') : Session hour e' (some b) (log ++ events)
  | notAddedAll {e b log events p e'} (h : Session hour e (some b) log)
    (he : (b.addAll events).Ends e (.error p) e') : Session hour e' (some b) log
  | lock {e b log r e'} (h : Session hour e (some b) log) (he : b.lock.Ends e r e') :
    Session hour e' (some b) log
  | unlock {e b log r e'} (h : Session hour e (some b) log) (he : b.unlock.Ends e r e') :
    Session hour e' (some b) log
  | rebuild {e b log r e'} (h : Session hour e (some b) log) (he : b.rebuild.Ends e r e') :
    Session hour e' (some b) log
  | discard {e b log goOn done e'} (h : Session hour e (some b) log)
    (he : (b.discard goOn).Ends e (.ok done) e') :
    Session hour e' (some b) (if done then [] else log)
  | asked {e open? log e'} (h : Session hour e open? log) (he : e.Asked e') :
    Session hour e' open? log

structure Standing (hour : Hour) (e : Engine) (open? : Option Bucket)
    (log : List Event) : Prop where
  cache : e.cache.Sound
  kept : Kept hour log e.store.entries?
  opened : ∀ b, open? = some b →
    b.hour = hour ∧ b.number < e.opened.size ∧ b.Represents log (e.cell b)

theorem Standing.of_represents (hc : e.cache.Sound) (hh : b.hour = hour)
    (hn : b.number < e.opened.size) (hr : b.Represents log (e.cell b)) :
    Standing hour e (some b) log := by
  refine ⟨hc, hh ▸ hr.kept, ?_⟩
  rintro _ ⟨⟩
  exact ⟨hh, hn, hr⟩

theorem Standing.here (h : Standing hour e (some b) log) : b.number < e.opened.size :=
  (h.opened b rfl).2.1

theorem Standing.represents (h : Standing hour e (some b) log) : b.Represents log (e.cell b) :=
  (h.opened b rfl).2.2

theorem Standing.done {op : Operation α} {Q : α → Cell → Prop} {E : EngineError → Cell → Prop}
    (h : Standing hour e (some b) log) (hd : b.Does op (e.cell b) Q E) (he : op.Ends e r e')
    (hr : match r with
      | .ok a => ∀ c, Q a c → b.Represents log' c
      | .error p => ∀ c, E p c → b.Represents log' c) : Standing hour e' (some b) log' := by
  have := hd e h.here rfl r e' he
  obtain ⟨hs, hr⟩ : b.Spares e e' ∧ b.Represents log' (e'.cell b) := by
    cases r with
    | ok a => exact ⟨this.1, hr _ this.2⟩
    | error p => exact ⟨this.1, hr _ this.2⟩
  exact .of_represents (hs.sound h.cache) (h.opened b rfl).1 (hs.size ▸ h.here) hr

theorem data_of_grown {b b' : Bucket} (hs : b'.Spares (grown e) e') (hn : b'.number = e.opened.size)
    (hl : b.number < e.opened.size) : e'.data b = e.data b := by
  rw [hs.others b (by omega)]
  simp [grown, Engine.data, Array.getD_eq_getD_getElem?, Array.getElem?_push, Nat.ne_of_lt hl]

theorem size_of_grown {b : Bucket} (hs : b.Spares (grown e) e') :
    e'.opened.size = e.opened.size + 1 := by
  rw [hs.size]
  simp [grown]

theorem Standing.notOpened (h : Standing hour e open? log)
    (he : (openAt hour).Ends e (.error p) e') :
    Standing hour e' open? log := by
  obtain ⟨-, -, rfl⟩ | ⟨b', hh, hn, hs, v, hp, hc⟩ := openAt_triple _ _ _ _ he
  · exact h
  have hv : e'.store.entries? = v := congrArg Cell.view hc
  refine ⟨hs.sound h.cache, hv ▸ h.kept.prepared hp, fun b hb => ?_⟩
  obtain ⟨hh, hl, hr⟩ := h.opened b hb
  refine ⟨hh, size_of_grown hs ▸ Nat.lt_succ_of_lt hl, ?_⟩
  rw [Engine.cell, data_of_grown hs hn hl, hv]
  exact hr.prepared (c := e.cell b) hp

theorem Standing.locking (h : Standing hour e (some b) log) (he : (b.setLock locked).Ends e r e') :
    Standing hour e' (some b) log := by
  refine h.done (setLock_does _ _ _) he ?_
  cases r with
  | ok _ =>
    rintro c ⟨-, hw, -, rfl⟩
    exact h.represents.marking hw locked
  | error p =>
    rintro c rfl
    exact h.represents

theorem Session.standing (h : Session hour e open? log) : Standing hour e open? log := by
  induction h with
  | start hc hv ho =>
    refine ⟨hc, ⟨by simp, by simp, by simp, fun b hb => ?_⟩, by simp⟩
    rw [eventsMap, hb, hv]
    simp [numbered]
  | opened _ he ih =>
    obtain ⟨rfl, hn, hs, hr⟩ := openAt_triple _ _ _ _ he
    refine .of_represents (hs.sound ih.cache) rfl ?_ (.rebuilt ih.kept hr)
    rw [size_of_grown hs, hn]
    exact Nat.lt_succ_self _
  | notOpened _ he ih => exact ih.notOpened he
  | added _ hf he ih =>
    refine ih.done (add_does _ _ _) he ?_
    rintro c ⟨-, rfl, ha⟩
    exact ih.represents.added ha (by simpa using hf)
  | notAdded _ he ih =>
    refine ih.done (add_does _ _ _) he ?_
    rintro c rfl
    exact ih.represents
  | @addedAll e b log events stored e' _ hf he ih =>
    refine ih.done (addAll_does _ _ _) he ?_
    rintro c ⟨-, rfl, ha⟩
    by_cases hn : events = []
    · subst hn
      rw [added_nil, List.append_nil]
      exact ih.represents
    · exact ih.represents.added (ha hn) hf
  | notAddedAll _ he ih =>
    refine ih.done (addAll_does _ _ _) he ?_
    rintro c rfl
    exact ih.represents
  | lock _ he ih => exact ih.locking he
  | unlock _ he ih => exact ih.locking he
  | @rebuild e b log r e' _ he ih =>
    refine ih.done (rebuild_does _ _) he ?_
    cases r with
    | ok _ =>
      rintro c ⟨-, hr⟩
      exact .rebuilt ih.represents.kept hr
    | error p =>
      rintro c ⟨-, v, hp, rfl⟩
      exact ih.represents.unread hp
  | @discard e b log goOn done e' _ he ih =>
    refine ih.done (discard_does _ _ _) he ?_
    rintro c ⟨-, ⟨rfl, -, rfl⟩ | ⟨rfl, -, rfl⟩⟩
    · exact ih.represents
    · exact ih.represents.emptied goOn
  | asked _ he ih =>
    obtain ⟨faults, clock, cache, -, hs, rfl⟩ := he
    exact ⟨hs, ih.kept, ih.opened⟩

-- ---- what a session's bucket tells ---------------------------------------

def committed? (b : Bucket) (log : List Event) (id : UInt32) : Option Event :=
  if id = 0 then none else log[id.toNat - 1]?.map fun e => { e with id := id, bucket := b.id }

theorem id_of_committed? {e : Event} {id : UInt32} (h : b.committed? log id = some e) :
    e.id = id := by
  unfold committed? at h
  split at h
  · cases h
  · obtain ⟨x, -, rfl⟩ := Option.map_eq_some_iff.mp h
    rfl

theorem isSome_committed? {id last : UInt32} (hl : last.toNat = log.length) :
    (b.committed? log id).isSome ↔ 1 ≤ id ∧ id ≤ last := by
  simp only [UInt32.le_iff_toNat_le, hl, committed?]
  split
  · next h0 => simp [h0]
  · next h0 =>
    have : id.toNat ≠ 0 := fun h => h0 (UInt32.toNat_inj.mp h)
    rw [Option.isSome_map, isSome_getElem?]
    simp
    omega

theorem mem_numbered_zero {e : Event} (hr : log.length < 4294967296) :
    e ∈ b.numbered 0 log ↔ b.committed? log e.id = some e := by
  have hn (i : Nat) (hi : i < log.length) : (0 + (i + 1).toUInt32).toNat = i + 1 := by
    have := toNat_add_toUInt32 0 (i + 1) (by simp; omega)
    simpa using this
  constructor
  · intro he
    obtain ⟨i, hi⟩ := List.getElem?_of_mem he
    rw [getElem?_numbered] at hi
    obtain ⟨x, hx, rfl⟩ := Option.map_eq_some_iff.mp hi
    have hid := hn i (List.getElem?_eq_some_iff.mp hx).1
    have h0 : (0 : UInt32) + (i + 1).toUInt32 ≠ 0 := fun h => by rw [h] at hid; simp at hid
    simp only [committed?, if_neg h0, hid, Nat.add_sub_cancel, hx, Option.map_some]
  · intro he
    unfold committed? at he
    split at he
    · cases he
    · next h0 =>
      obtain ⟨x, hx, he⟩ := Option.map_eq_some_iff.mp he
      have hpos : e.id.toNat - 1 + 1 = e.id.toNat := by
        have : e.id.toNat ≠ 0 := fun h => h0 (UInt32.toNat_inj.mp h)
        omega
      refine List.mem_of_getElem? (i := e.id.toNat - 1) ?_
      rw [getElem?_numbered, hx, hpos, Option.map_some, Nat.toUInt32_eq, UInt32.ofNat_toNat,
        UInt32.zero_add]
      exact congrArg some he

theorem Kept.eventAt?_eq {es : Entries} (h : Kept b.hour log v) (hes : (v b.eventsMap).getD ∅ = es)
    (id : UInt32) :
    eventAt? es id = b.committed? log id := by
  have he := h.entries b rfl
  rw [hes] at he
  have hf : ∀ x ∈ b.numbered 0 log, x.Fits := numbered_fits h.fits
  refine Option.ext fun e => ?_
  simp only [eventAt?, Option.bind_eq_some_iff, ← ExtTreeMap.mem_toList_iff_getElem?_eq_some, he]
  constructor
  · rintro ⟨value, hm, hv⟩
    obtain ⟨x, hx, hp⟩ := List.mem_map.mp hm
    obtain ⟨hk, rfl⟩ := Prod.mk.inj hp
    cases idKey_inj hk
    rw [Binary.readEvent?_event (hf x hx)] at hv
    cases hv
    exact (mem_numbered_zero h.room).mp hx
  · intro hc
    cases id_of_committed? hc
    have hx := (mem_numbered_zero h.room).mpr hc
    exact ⟨_, List.mem_map_of_mem hx, Binary.readEvent?_event (hf e hx)⟩

theorem Kept.loaded?_eq {es : Entries} (h : Kept b.hour log v) (hes : (v b.eventsMap).getD ∅ = es)
    (id : UInt32) :
    b.loaded? es id = b.committed? log id := by
  rw [loaded?, h.eventAt?_eq hes, committed?]
  split
  · rfl
  · rw [Option.map_map]
    rfl

theorem map_id_numbered (log : List Event) :
    (b.numbered 0 log).map Event.id = (List.range log.length).map fun i => (i + 1).toUInt32 := by
  refine List.ext_getElem? fun i => ?_
  simp only [List.getElem?_map, getElem?_numbered, UInt32.zero_add]
  by_cases hi : i < log.length
  · simp [hi]
  · simp [hi]

theorem Kept.keys_eq {es : Entries} (h : Kept b.hour log v) (hes : (v b.eventsMap).getD ∅ = es) :
    es.keys = (List.range log.length).map fun i => idKey (i + 1).toUInt32 := by
  have he := h.entries b rfl
  rw [hes] at he
  have := congrArg (List.map idKey) (map_id_numbered (b := b) log)
  rw [List.map_map, List.map_map] at this
  rw [← ExtTreeMap.map_fst_toList_eq_keys, he, List.map_map]
  exact this

theorem Represents.mem_evaluate {q : Criteria} {id : UInt32} (h : b.Represents log c)
    (hq : compile query = .ok q) :
    id ∈ c.data.index.evaluate q ↔ ∃ e, b.committed? log id = some e ∧
      satisfies query e.properties = true := by
  have hi := h.kept.indexOf_eq
  rw [← h.index, ← h.last] at hi
  refine (mem_evaluate_of_indexOf hi hq).trans ?_
  simp only [h.kept.eventAt?_eq rfl]

/-- What the data in memory, the maps and the log of a bucket have to do with each other. -/
structure Faithful (b : Bucket) (log : List Event) (e : Engine)
    (entries options : Entries) : Prop where
  events_stored : e.store.entries? b.eventsMap = some entries
  options_stored : e.store.entries? b.optionsMap = some options
  counted : (e.data b).lastId.toNat = log.length
  keys : entries.keys = (List.range log.length).map fun i => idKey (i + 1).toUInt32
  known : ∀ id, id ∈ (e.data b).index.known ↔ 1 ≤ id ∧ id ≤ (e.data b).lastId
  carrying : ∀ id field value, id ∈ (e.data b).index.carrying (.ofProperty field value) ↔
    ∃ x, eventAt? entries id = some x ∧ x.properties[field]? = some value
  /-- The index is the one that would be made anew. -/
  rebuilt : indexOf entries.toList = .ok ((e.data b).index, (e.data b).lastId)
  locked : (e.data b).state = .locked ↔ isLockMark options[lockKey]? = true
  loads : ∀ rounds id, e.store.Serves (.get b.eventsMap (idKey id)) →
    (b.load id).result rounds e = some (.ok (b.committed? log id), e)

theorem Represents.faithful (h : b.Represents log (e.cell b))
    (hw : (e.data b).state.isWritable = true) :
    ∃ entries options, b.Faithful log e entries options := by
  obtain ⟨he, ho⟩ := h.there hw
  obtain ⟨entries, hes⟩ := Option.isSome_iff_exists.mp he
  obtain ⟨options, hos⟩ := Option.isSome_iff_exists.mp ho
  have hl : (e.data b).lastId.toNat = log.length := by
    rw [show (e.data b).lastId = _ from h.last]
    exact UInt32.toNat_ofNat_of_lt' h.kept.room
  have hg : ((e.cell b).view b.eventsMap).getD ∅ = entries := by rw [hes, Option.getD_some]
  have hi := h.kept.indexOf_eq
  rw [hg, ← h.index, ← h.last] at hi
  have hd := describes_of_indexOf hi
  refine ⟨entries, options, hes, hos, hl, h.kept.keys_eq hg, fun id => (hd.known id).trans ?_,
    ?_, hi, ?_, ?_⟩
  · simp only [h.kept.eventAt?_eq hg]
    rw [← isSome_committed? hl, Option.isSome_iff_exists]
    constructor
    · rintro ⟨_, x, hx, -⟩
      exact ⟨x, hx⟩
    · rintro ⟨x, hx⟩
      exact ⟨_, x, hx, rfl⟩
  · intro id field value
    refine (hd.carrying id field value).trans ?_
    constructor
    · rintro ⟨_, ⟨x, hx, rfl⟩, hm⟩
      exact ⟨x, hx, hm⟩
    · rintro ⟨x, hx, hm⟩
      exact ⟨_, ⟨x, hx, rfl⟩, hm⟩
  · have := h.marked hw
    rwa [isMarked, hos] at this
  · intro rounds id hs
    rw [load_result hs hes hi, h.kept.loaded?_eq hg]

end Bucket

end EventStore
