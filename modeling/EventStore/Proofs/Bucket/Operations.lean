import EventStore.Proofs.Bucket.Cell
import EventStore.Proofs.Bucket.Contents

/-!
# What a bucket's operations do

For each operation that changes a bucket: the cell that it leads to when it succeeds, and what
is left when it fails.
-/

namespace EventStore

open Query Operation

namespace Bucket

theorem eventsMap_ne_optionsMap (b : Bucket) : b.eventsMap ≠ b.optionsMap := by
  intro h
  have := congrArg String.length h
  simp [eventsMap, optionsMap, Hour.eventsMap, Hour.optionsMap, String.length_append,
    Hour.optionsTail] at this

namespace Does

variable {b : Bucket} {c : Cell} {α β : Type} {Q : α → Cell → Prop} {E : EngineError → Cell → Prop}

theorem result {x : Except EngineError α} (h : ∀ a, x = .ok a → Q a c)
    (he : ∀ p, x = .error p → E p c) :
    b.Does (liftM x) c Q E := by
  cases x with
  | ok a => exact .pure' (h a rfl)
  | error p => exact .throw' (he p rfl)

end Does

-- ---- opening -------------------------------------------------------------

def withEvents (b : Bucket) (v : View) : View := (Request.openMap b.eventsMap).effect v

def withMaps (b : Bucket) (v : View) : View :=
  (Request.openMap b.optionsMap).effect (b.withEvents v)

theorem withMaps_apply (b : Bucket) (v : View) (m : String) : b.withMaps v m =
    if m = b.eventsMap ∨ m = b.optionsMap then some ((v m).getD ∅) else v m := by
  have := b.eventsMap_ne_optionsMap
  simp only [withMaps, withEvents, Request.effect]
  by_cases ho : m = b.optionsMap
  · subst ho
    simp [this.symm]
  · by_cases he : m = b.eventsMap
    · subst he
      simp [this]
    · simp [ho, he]

/-- Some of the bucket's maps may have been made. -/
def Prepared (b : Bucket) (v v' : View) : Prop := v' = v ∨ v' = b.withEvents v ∨ v' = b.withMaps v

theorem Prepared.getD_eq {b : Bucket} {v v' : View} (h : b.Prepared v v') (m : String) :
    (v' m).getD ∅ = (v m).getD ∅ := by
  rcases h with rfl | rfl | rfl
  · rfl
  · simp only [withEvents, Request.effect]
    split
    · next h => rw [h]; rfl
    · rfl
  · rw [withMaps_apply]
    split <;> rfl

def isMarked (b : Bucket) (v : View) : Bool := isLockMark ((v b.optionsMap).getD ∅)[lockKey]?

theorem isMarked_prepared {b b' : Bucket} {v v' : View} (hp : b'.Prepared v v') :
    b.isMarked v' = b.isMarked v := by
  rw [isMarked, hp.getD_eq, isMarked]

def markedState (b : Bucket) (v : View) : BucketState := if b.isMarked v then .locked else .ready

/-- What the bucket is after `v` has been read. -/
def Rebuilt (b : Bucket) (v : View) (c : Cell) : Prop :=
  ∃ index last, indexOf ((v b.eventsMap).getD ∅).toList = .ok (index, last) ∧
    c = ⟨⟨index, last, b.markedState v, false⟩, b.withMaps v⟩

theorem replay_does (b : Bucket) (c : Cell) : b.Does b.replay c
    (fun locked c' => ∃ index last,
      indexOf ((c.view b.eventsMap).getD ∅).toList = .ok (index, last) ∧
      b.markedState c.view = (if locked then .locked else .ready) ∧
      c' = ⟨{ c.data with index := index, lastId := last }, b.withMaps c.view⟩)
    (fun _ c' => ∃ v, b.Prepared c.view v ∧ c' = { c with view := v }) := by
  refine .bind (P := fun _ c' => c' = { c with view := b.withEvents c.view }) (.call nofun ?_ ?_) ?_
  · rintro - -
    rfl
  · exact fun p => ⟨_, .inl rfl, rfl⟩
  rintro - _ rfl
  refine .bind (P := fun _ c' => c' = { c with view := b.withMaps c.view }) (.call nofun ?_ ?_) ?_
  · rintro - -
    rfl
  · exact fun p => ⟨_, .inr (.inl rfl), rfl⟩
  rintro - _ rfl
  have hp : b.Prepared c.view (b.withMaps c.view) := .inr (.inr rfl)
  refine .bind (P := fun entries c' => entries = ((c.view b.eventsMap).getD ∅).toList ∧
    c' = { c with view := b.withMaps c.view }) (.call nofun ?_ ?_) ?_
  · rintro entries ⟨es, hes, rfl⟩
    simp only [withMaps_apply, true_or, if_true, Option.some.injEq] at hes
    exact ⟨hes ▸ rfl, rfl⟩
  · exact fun p => ⟨_, hp, rfl⟩
  rintro _ _ ⟨rfl, rfl⟩
  refine .bind (P := fun r c' => indexOf ((c.view b.eventsMap).getD ∅).toList = .ok r ∧
    c' = { c with view := b.withMaps c.view }) (.result ?_ ?_) ?_
  · exact fun r hr => ⟨hr, rfl⟩
  · exact fun p _ => ⟨_, hp, rfl⟩
  rintro ⟨index, last⟩ _ ⟨hi, rfl⟩
  refine .bind (P := fun value c' => value = ((c.view b.optionsMap).getD ∅)[lockKey]? ∧
    c' = { c with view := b.withMaps c.view }) (.call nofun ?_ ?_) ?_
  · rintro value ⟨es, hes, rfl⟩
    simp only [withMaps_apply, or_true, if_true, Option.some.injEq] at hes
    exact ⟨hes ▸ rfl, rfl⟩
  · exact fun p => ⟨_, hp, rfl⟩
  rintro _ _ ⟨rfl, rfl⟩
  exact .after_change (.pure' ⟨index, last, hi, rfl, rfl⟩)

theorem rebuild_does (b : Bucket) (c : Cell) : b.Does b.rebuild c
    (fun _ c' => c.data.writing = false ∧ b.Rebuilt c.view c')
    (fun _ c' => c.data.writing = false ∧ ∃ v, b.Prepared c.view v ∧
      c' = ⟨{ c.data with state := .uninitialized }, v⟩) := by
  refine .alone fun hw => ?_
  refine .after_change (.settle (replay_does b _) ?_ ?_)
  · rintro locked c' ⟨index, last, hi, hm, rfl⟩
    refine .change ⟨hw, index, last, hi, ?_⟩
    show (⟨⟨index, last, if locked then .locked else .ready, false⟩, b.withMaps c.view⟩ : Cell) = _
    rw [← hm]
    rfl
  · rintro p c' ⟨v, hv, rfl⟩
    exact .after_change
      (.throw' ⟨hw, v, hv, Cell.idle_eq (c := ⟨{ c.data with state := .uninitialized }, v⟩) hw⟩)

def grown (e : Engine) : Engine := { e with opened := e.opened.push .fresh }

theorem openAt_triple (hour : Hour) (e : Engine) : (openAt hour).Triple e
    (fun b e' => b.hour = hour ∧ b.number = e.opened.size ∧ b.Spares (grown e) e' ∧
      b.Rebuilt e.store.entries? (e'.cell b))
    (fun p e' => p = .invalidTimestamp hour.startMillis ∧ hour.tokenSeconds? = none ∧ e' = e ∨
      ∃ b : Bucket, b.hour = hour ∧ b.number = e.opened.size ∧ b.Spares (grown e) e' ∧
        ∃ v, b.Prepared e.store.entries? v ∧ e'.cell b = ⟨.fresh, v⟩) := by
  unfold openAt
  split
  · next hn => exact .throw' (.inl ⟨rfl, hn, rfl⟩)
  next id hid =>
  refine .bind (P := fun b e' => b.hour = hour ∧ b.number = e.opened.size ∧ b.Spares (grown e) e' ∧
    e'.cell b = ⟨.fresh, e.store.entries?⟩) (.lift fun b e' hb => ?_) ?_
  · obtain ⟨_, ⟨faults, clock, hc, rfl⟩, ha⟩ := Activity.ends_atomically.mp hb
    cases ha
    refine ⟨rfl, rfl, ⟨rfl, fun _ _ => rfl, hc, rfl⟩, ?_⟩
    simp [Engine.cell, Engine.data]
    rfl
  rintro b e₁ ⟨hh, hb, hs, hc⟩
  have hn : b.number < e₁.opened.size := by
    rw [hs.size, hb]
    simp [grown]
  refine .bind (P := fun _ e' => b.Spares (grown e) e' ∧ b.Rebuilt e.store.entries? (e'.cell b))
    ((rebuild_does b _ e₁ hn hc).mono ?_ ?_) ?_
  · rintro - e' ⟨hs', -, hr⟩
    exact ⟨hs.trans hs', hr⟩
  · rintro p e' ⟨hs', -, v, hv, hc'⟩
    exact .inr ⟨b, hh, hb, hs.trans hs', v, hv, hc'⟩
  · rintro - e' ⟨hs', hr⟩
    exact .pure' ⟨hh, hb, hs', hr⟩

-- ---- writing -------------------------------------------------------------

/-- What it takes to store events. -/
structure Admits (b : Bucket) (events : List Event) (c : Cell) : Prop where
  free : c.data.writing = false
  writable : c.data.state.isWritable = true
  within : ∀ e ∈ events, b.hour.contains e.millis = true
  room : c.data.lastId.toNat + events.length < 4294967296
  there : (c.view b.eventsMap).isSome

def added (b : Bucket) (events : List Event) (c : Cell) : Cell where
  data := { c.data with
    index := indexAll (b.numbered c.data.lastId events) c.data.index
    lastId := c.data.lastId + events.length.toUInt32 }
  view m :=
    if m = b.eventsMap then
      (c.view m).map (Record.applyAll · ((b.numbered c.data.lastId events).map Event.record))
    else c.view m

theorem reserve_ok {b : Bucket} {events : List Event} {d d' : BucketData} {last : UInt32}
    (h : b.reserve events d = .ok (last, d')) :
    d.state.isWritable = true ∧ (∀ e ∈ events, b.hour.contains e.millis = true) ∧
      d.lastId.toNat + events.length < 4294967296 ∧ last = d.lastId ∧
        d' = { d with lastId := d.lastId + events.length.toUInt32 } := by
  simp only [reserve, bind_ok] at h
  obtain ⟨_, hw, h⟩ := h
  have hw : d.state.isWritable = true := by
    unfold checkWritable at hw
    split at hw
    · assumption
    · cases hw
  split at h
  · cases h
  · next hf =>
    split at h
    · next hr =>
      cases pure_ok.mp h
      refine ⟨hw, fun e he => by simpa using List.find?_eq_none.mp hf e he, hr, rfl, ?_⟩
      rw [Nat.toUInt32_eq, UInt32.ofNat_add, UInt32.ofNat_toNat]
    · cases h

theorem effect_writing (b : Bucket) (stored : List Event) (v : View) :
    (Request.commit (b.writing stored)).effect v = fun m =>
      if m = b.eventsMap then (v m).map (Record.applyAll · (stored.map Event.record)) else v m := by
  funext m
  simp only [Request.effect]
  split
  · next hm => rw [hm, recordsOf_writing]
  · next hm => simp [recordsOf_writing_ne hm, Record.applyAll]

theorem added_nil (b : Bucket) (c : Cell) : b.added [] c = c := by
  have hv : (fun m => if m = b.eventsMap then (c.view m).map (Record.applyAll · []) else c.view m) =
      c.view := by
    funext m
    simp [Record.applyAll]
  obtain ⟨⟨index, last, state, writing⟩, view⟩ := c
  simp only [added, numbered, List.map_nil, hv]
  simp [indexAll]

/-- All events are stored and indexed, or nothing happens. -/
theorem addAll_does (b : Bucket) (events : List Event) (c : Cell) : b.Does (b.addAll events) c
    (fun stored c' => stored = b.numbered c.data.lastId events ∧ c' = b.added events c ∧
      (events ≠ [] → b.Admits events c))
    (fun _ c' => c' = c) := by
  unfold addAll
  split
  · next he =>
    obtain rfl : events = [] := by simpa using he
    exact .pure' ⟨rfl, (b.added_nil c).symm, fun h => absurd rfl h⟩
  rename_i he
  refine .alone fun hw => ?_
  -- The counter is ahead of the store until the commit.
  refine .bind (P := fun last c' => last = c.data.lastId ∧ c.data.state.isWritable = true ∧
    (∀ e ∈ events, b.hour.contains e.millis = true) ∧
      c.data.lastId.toNat + events.length < 4294967296 ∧
      c' = ⟨{ c.busy.data with lastId := c.data.lastId + events.length.toUInt32 }, c.view⟩)
    (.step ?_) ?_
  · intro e hn hc
    have hd : e.data b = c.busy.data := congrArg Cell.data hc
    have hv : e.store.entries? = c.view := congrArg Cell.view hc
    cases hr : b.reserve events (e.data b) with
    | error p =>
      refine ⟨.refl b e, ?_⟩
      rw [hc]
      exact Cell.idle_eq hw
    | ok r =>
      obtain ⟨last, d⟩ := r
      obtain ⟨hs, hh, hl, rfl, rfl⟩ := reserve_ok hr
      refine ⟨.setData .., ?_⟩
      rw [cell_setData hn, hd, hv] at *
      exact ⟨rfl, hs, hh, hl, rfl⟩
  rintro _ _ ⟨rfl, hs, hh, hr, rfl⟩
  refine .settle (P := fun _ c' => (c.view b.eventsMap).isSome ∧
      c' = ⟨{ c.busy.data with lastId := c.data.lastId + events.length.toUInt32 },
        (b.added events c).view⟩)
    (F := fun _ c' =>
      c' = ⟨{ c.busy.data with lastId := c.data.lastId + events.length.toUInt32 }, c.view⟩)
    (.call nofun ?_ fun _ => rfl) ?_ ?_
  · intro _ ht
    refine ⟨?_, by rw [effect_writing]; rfl⟩
    obtain ⟨e, rest, rfl⟩ := List.exists_cons_of_ne_nil (by simpa using he : events ≠ [])
    exact ht _ (by rw [writes_writing]; exact List.mem_cons_self)
  · rintro - _ ⟨ht, rfl⟩
    exact .after_change
      (.pure' ⟨rfl, Cell.idle_eq (c := b.added events c) hw, fun _ => ⟨hw, hs, hh, hr, ht⟩⟩)
  · rintro p _ rfl
    exact .after_change (.throw' (Cell.idle_eq hw))

theorem add_does (b : Bucket) (e : Event) (c : Cell) : b.Does (b.add e) c
    (fun stored c' => b.numbered c.data.lastId [e] = [stored] ∧ c' = b.added [e] c ∧ b.Admits [e] c)
    (fun _ c' => c' = c) := by
  refine .bind (addAll_does b [e] c) ?_
  rintro _ _ ⟨rfl, rfl, ha⟩
  exact .pure' ⟨rfl, rfl, ha (by simp)⟩

-- ---- locking and dropping ------------------------------------------------

def marked (b : Bucket) (locked : Bool) (c : Cell) : Cell where
  data := { c.data with state := if locked then .locked else .ready }
  view m :=
    if m = b.optionsMap then (c.view m).map (·.insert lockKey [if locked then 1 else 0])
    else c.view m

theorem effect_mark (m : String) (key value : Bytes) (v : View) :
    (Request.commit (Transaction.empty.set m key value)).effect v = fun n =>
      if n = m then (v n).map (·.insert key value) else v n := by
  funext n
  simp only [Request.effect, Transaction.recordsOf, Transaction.writes, Transaction.set,
    Transaction.stage, Transaction.empty]
  split
  · next h => simp [h, Record.applyAll, Record.apply]
  · next h => simp [Ne.symm h, Record.applyAll]

/-- The mark and the state change together, or neither does. -/
theorem setLock_does (b : Bucket) (locked : Bool) (c : Cell) : b.Does (b.setLock locked) c
    (fun _ c' => c.data.writing = false ∧ c.data.state.isWritable = true ∧
      (c.view b.optionsMap).isSome ∧ c' = b.marked locked c)
    (fun _ c' => c' = c) := by
  refine .alone fun hw => ?_
  refine .bind (P := fun _ c' => c.data.state.isWritable = true ∧ c' = c.busy) (.step ?_) ?_
  · intro e hn hc
    have hd : e.data b = c.busy.data := congrArg Cell.data hc
    have hi : (e.cell b).idle = c := by
      rw [hc]
      exact Cell.idle_eq hw
    unfold checkWritable
    by_cases hs : (e.data b).state.isWritable = true
    · rw [if_pos hs]
      rw [hd] at hs
      exact ⟨.refl b e, hs, hc⟩
    · rw [if_neg hs]
      exact ⟨.refl b e, hi⟩
  rintro - _ ⟨hs, rfl⟩
  refine .bind
    (P := fun _ c' => (c.view b.optionsMap).isSome ∧ c' = ⟨c.busy.data, (b.marked locked c).view⟩)
    (.call nofun ?_ fun _ => Cell.idle_eq hw) ?_
  · intro _ ht
    refine ⟨ht ⟨b.optionsMap, .set lockKey [if locked then 1 else 0]⟩ List.mem_cons_self, ?_⟩
    rw [effect_mark]
    rfl
  · rintro - _ ⟨ho, rfl⟩
    exact .change ⟨hw, hs, ho, Cell.idle_eq (c := b.marked locked c) hw⟩

def withoutMaps (b : Bucket) (v : View) : View :=
  (Request.removeMap b.optionsMap).effect ((Request.removeMap b.eventsMap).effect v)

theorem withoutMaps_apply (b : Bucket) (v : View) (m : String) : b.withoutMaps v m =
    if m = b.eventsMap ∨ m = b.optionsMap then none else v m := by
  simp only [withoutMaps, Request.effect]
  by_cases ho : m = b.optionsMap
  · simp [ho]
  · by_cases he : m = b.eventsMap <;> simp [ho, he]

/-- The cell after the bucket has been dropped. -/
def emptied (b : Bucket) (goOn : Bool) (c : Cell) : Cell where
  data := ⟨.empty, 0, if goOn then .ready else .dropped, false⟩
  view :=
    let cleared := if c.data.state = .dropped then c.view else b.withoutMaps c.view
    if goOn then b.withMaps cleared else cleared

theorem restart_does {Q : Bool → Cell → Prop} {E : EngineError → Cell → Prop} (b : Bucket)
    (goOn : Bool) (c : Cell)
    (h : Q true ⟨⟨.empty, 0, if goOn then .ready else .dropped, c.data.writing⟩,
      if goOn then b.withMaps c.view else c.view⟩)
    (he : ∀ p v, goOn = true → b.Prepared c.view v →
      E (.store p) ⟨⟨.empty, 0, c.data.state, c.data.writing⟩, v⟩) :
    b.Does (do
      b.setIndex .empty 0
      if goOn then
        call (.openMap b.eventsMap)
        call (.openMap b.optionsMap)
        b.setState .ready
      else
        b.setState .dropped
      return true) c Q E := by
  refine .after_change ?_
  cases goOn with
  | true =>
    refine .bind
      (P := fun _ c' => c' = ⟨⟨.empty, 0, c.data.state, c.data.writing⟩, b.withEvents c.view⟩)
      (.call nofun (fun _ _ => rfl) fun p => he p _ rfl (.inl rfl)) ?_
    rintro - _ rfl
    refine .bind
      (P := fun _ c' => c' = ⟨⟨.empty, 0, c.data.state, c.data.writing⟩, b.withMaps c.view⟩)
      (.call nofun (fun _ _ => rfl) fun p => he p _ rfl (.inr (.inl rfl))) ?_
    rintro - _ rfl
    exact .after_change (.pure' h)
  | false => exact .after_change (.pure' h)

/-- How far a bucket has come that could not be dropped: nothing has been done, or its events are
gone, or it has begun to start again. -/
inductive Left (b : Bucket) (goOn : Bool) (c : Cell) : Cell → Prop
  | untouched : b.Left goOn c c
  | stripped (hd : c.data.state ≠ .dropped)
    (hv : v = (Request.removeMap b.eventsMap).effect c.view ∨ v = b.withoutMaps c.view) :
    b.Left goOn c { c with view := v }
  | restarting (hg : goOn = true)
    (hv : b.Prepared (if c.data.state = .dropped then c.view else b.withoutMaps c.view) v) :
    b.Left goOn c ⟨⟨.empty, 0, c.data.state, false⟩, v⟩

/-- What is left of the cell `c` when the bucket could not be dropped. -/
structure Undropped (b : Bucket) (goOn : Bool) (c c' : Cell) : Prop where
  unlocked : c.data.state ≠ .locked
  free : c.data.writing = false
  left : b.Left goOn c c'

theorem isMarked_removed {b : Bucket} {v v' : View} {m : String}
    (h : v' = v ∨ v' = (Request.removeMap m).effect v) (hm : b.isMarked v' = true) :
    b.isMarked v = true := by
  rcases h with rfl | rfl
  · exact hm
  · simp only [isMarked, Request.effect] at hm
    split at hm
    · simp [isLockMark] at hm
    · exact hm

theorem Undropped.state {b : Bucket} (h : b.Undropped goOn c c') :
    c'.data.state = c.data.state := by
  cases h.left <;> rfl

theorem Undropped.marked {b : Bucket} (h : b.Undropped goOn c c')
    (hm : b.isMarked c'.view = true) : b.isMarked c.view = true := by
  have hw {v : View} (hv : v = b.withoutMaps c.view) (hm : b.isMarked v = true) :
      b.isMarked c.view = true := isMarked_removed (.inr rfl) (isMarked_removed (.inr hv) hm)
  cases h.left with
  | untouched => exact hm
  | stripped _ hv =>
    rcases hv with hv | hv
    · exact isMarked_removed (.inr hv) hm
    · exact hw hv hm
  | restarting _ hv =>
    have hm := isMarked_prepared hv ▸ hm
    split at hm
    · exact hm
    · exact hw rfl hm

/-- A locked bucket is left alone. Nothing but a call to the store can fail. -/
theorem discard_does (b : Bucket) (goOn : Bool) (c : Cell) : b.Does (b.discard goOn) c
    (fun done c' => c.data.writing = false ∧
      (done = false ∧ c.data.state = .locked ∧ c' = c ∨
        done = true ∧ c.data.state ≠ .locked ∧ c' = b.emptied goOn c))
    (fun p c' => (∃ q, p = .store q) ∧ b.Undropped goOn c c') := by
  refine .alone fun hw => ?_
  refine .bind (P := fun state c' => state = c.data.state ∧ c' = c.busy) (.observe ⟨rfl, rfl⟩) ?_
  rintro _ _ ⟨rfl, rfl⟩
  split
  · next hl => exact .pure' ⟨hw, .inl ⟨rfl, hl, Cell.idle_eq hw⟩⟩
  rename_i hl
  dsimp only
  have hidle (v : View) : (⟨c.busy.data, v⟩ : Cell).idle = { c with view := v } :=
    Cell.idle_eq (c := ⟨c.data, v⟩) hw
  split
  · next hd =>
    have hleft {v : View} (p : StoreError)
        (hv : v = (Request.removeMap b.eventsMap).effect c.view ∨ v = b.withoutMaps c.view) :
        (∃ q, EngineError.store p = .store q) ∧
          b.Undropped goOn c (⟨c.busy.data, v⟩ : Cell).idle :=
      ⟨⟨p, rfl⟩, hl, hw, hidle v ▸ .stripped hd hv⟩
    refine .bind
      (.remove (Q := fun _ c' => c' = ⟨c.busy.data, (Request.removeMap b.eventsMap).effect c.view⟩)
        rfl fun p v hv => ?_) ?_
    · rcases hv with rfl | hv
      · exact ⟨⟨p, rfl⟩, hl, hw, hidle _ ▸ .untouched⟩
      · exact hleft p (.inl hv)
    rintro _ _ rfl
    refine .bind
      (.remove (Q := fun _ c' => c' = ⟨c.busy.data, b.withoutMaps c.view⟩) rfl
        fun p v hv => hleft p hv) ?_
    rintro _ _ rfl
    refine restart_does b goOn _ ⟨hw, .inr ⟨rfl, hl, ?_⟩⟩ fun p v hg hp =>
      ⟨⟨p, rfl⟩, hl, hw, .restarting hg (by rwa [if_neg hd])⟩
    simp only [emptied, if_neg hd]
    rfl
  · next hd =>
    have hd := Decidable.not_not.mp hd
    refine restart_does b goOn _ ⟨hw, .inr ⟨rfl, hl, ?_⟩⟩ fun p v hg hp =>
      ⟨⟨p, rfl⟩, hl, hw, .restarting hg (by rwa [if_pos hd])⟩
    simp only [emptied, if_pos hd]
    rfl

-- ---- a first event -------------------------------------------------------

/-- Of the hour from 14:00 on 5 March 2024. -/
def firstEvent : Event := (Event.new 1709647200000).withProperty "level" "error"

/-- The bucket of that hour, opened first. -/
def firstHour : Bucket := ⟨0, ⟨474902⟩, 1709647200, by decide⟩

theorem fits_firstEvent : ∀ e ∈ [firstEvent], Event.Fits e := by
  rintro e he
  rw [List.mem_singleton.mp he]
  decide +kernel

theorem exists_firstEvent_added : ∃ b e stored e',
    (openAt ⟨474902⟩).Ends (.fresh .inMemory .standard .standard) (.ok b) e ∧
      (b.addAll [firstEvent]).Ends e (.ok stored) e' ∧ e'.store.isAvailable = true := by
  obtain ⟨stored, e', h, hs⟩ := exists_ends_of_isOk 0
    (openAt ⟨474902⟩ >>= fun b => b.addAll [firstEvent])
    (.fresh .inMemory .standard .standard) (·.store.isAvailable) (by decide +kernel)
  obtain ⟨b, e, ho, ha⟩ := ends_bind_ok h
  exact ⟨b, e, stored, e', ho, ha, hs⟩

end Bucket

end EventStore
