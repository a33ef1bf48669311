import EventStore.Engine.EventSet
import EventStore.Proofs.Bucket.Representation
import EventStore.Proofs.Time.Key

/-!
# What a set of buckets stands for

Each hour has a log of what has been committed to it. The store holds all logs, and each
registered bucket stands for the log of its hour (`EventSet.Stands`). What is done to one
bucket leaves the others as they are, because their maps have other names.
-/

namespace EventStore

open Std Query Operation

namespace Bucket

-- ---- maps of other buckets -----------------------------------------------

/-- Nothing but the bucket's own maps differs. -/
def Confined (b : Bucket) (v v' : View) : Prop :=
  ∀ m, m ≠ b.eventsMap → m ≠ b.optionsMap → v' m = v m

variable {b b' : Bucket} {c : Cell} {log events : List Event} {v v' : View}
  {hour : Hour} {e e' : Engine}

theorem confined_added (b : Bucket) (events : List Event) (c : Cell) :
    b.Confined c.view (b.added events c).view := fun _ he _ => if_neg he

theorem confined_marked (b : Bucket) (locked : Bool) (c : Cell) :
    b.Confined c.view (b.marked locked c).view := fun _ _ ho => if_neg ho

theorem confined_emptied (b : Bucket) (c : Cell) : b.Confined c.view (b.emptied false c).view := by
  intro m he ho
  show (if c.data.state = .dropped then c.view else b.withoutMaps c.view) m = c.view m
  split
  · rfl
  · rw [withoutMaps_apply, if_neg]
    rintro (h | h)
    · exact he h
    · exact ho h

theorem Confined.of_hour_ne (h : b.Confined v v') (hne : b'.hour ≠ b.hour) :
    v' b'.eventsMap = v b'.eventsMap ∧ v' b'.optionsMap = v b'.optionsMap := by
  constructor
  · refine h _ ?_ (Hour.eventsMap_ne_optionsMap b'.named b.named)
    exact fun he => hne (Hour.eventsMap_inj b'.named b.named he)
  · refine h _ (Hour.eventsMap_ne_optionsMap b.named b'.named).symm ?_
    exact fun he => hne (Hour.optionsMap_inj b'.named b.named he)

theorem Kept.confined (h : Kept hour log v) (hc : b.Confined v v') (hne : hour ≠ b.hour) :
    Kept hour log v' := by
  refine { h with entries := ?_ }
  rintro b' rfl
  rw [(hc.of_hour_ne hne).1]
  exact h.entries b' rfl

theorem Represents.confined (h : b'.Represents log c) (hc : b.Confined c.view v)
    (hne : b'.hour ≠ b.hour) :
    b'.Represents log { c with view := v } := by
  obtain ⟨he, ho⟩ := hc.of_hour_ne hne
  have hm : b'.isMarked v = b'.isMarked c.view := by rw [isMarked, ho, isMarked]
  refine { h with
    kept := h.kept.confined hc hne
    there := ?_
    marked := ?_
    dropped := ?_ }
  · intro hw
    show (v b'.eventsMap).isSome ∧ (v b'.optionsMap).isSome
    rw [he, ho]
    exact h.there hw
  · show c.data.state.isWritable = true → (c.data.state = .locked ↔ b'.isMarked v = true)
    rw [hm]
    exact h.marked
  · show c.data.state = .dropped → log = [] ∧ b'.isMarked v = false
    rw [hm]
    exact h.dropped

-- ---- a bucket that can be written to -------------------------------------

structure InUse (b : Bucket) (log : List Event) (e : Engine) : Prop where
  here : b.number < e.opened.size
  represents : b.Represents log (e.cell b)
  writable : (e.data b).state.isWritable = true

/-- A bucket is not touched by what happens to that of another hour. -/
theorem InUse.spared (h : b'.InUse log e) (hs : b.Spares e e')
    (hc : b.Confined e.store.entries? e'.store.entries?)
    (hne : b'.hour ≠ b.hour ∧ b'.number ≠ b.number) :
    b'.InUse log e' := by
  have hd : e'.data b' = e.data b' := hs.others b' hne.2
  refine ⟨hs.size ▸ h.here, ?_, hd ▸ h.writable⟩
  rw [Engine.cell, hd]
  exact h.represents.confined hc hne.1

theorem InUse.of_eq (h : b.InUse log e) (ho : e'.opened = e.opened)
    (hv : e'.store.entries? = e.store.entries?) :
    b.InUse log e' := by
  have hd : e'.data b = e.data b := by rw [Engine.data, ho, Engine.data]
  refine ⟨ho ▸ h.here, ?_, hd ▸ h.writable⟩
  rw [Engine.cell, hd, hv]
  exact h.represents

/-- Opening a bucket makes at most its maps, and touches none that was there before. -/
theorem InUse.opening (h : b'.InUse log e) (hs : b.Spares (grown e) e')
    (hn : b.number = e.opened.size) (hp : b.Prepared e.store.entries? e'.store.entries?) :
    b'.InUse log e' := by
  have hd : e'.data b' = e.data b' := data_of_grown hs hn h.here
  refine ⟨size_of_grown hs ▸ Nat.lt_succ_of_lt h.here, ?_, hd ▸ h.writable⟩
  rw [Engine.cell, hd]
  exact h.represents.prepared (c := e.cell b') hp

theorem InUse.opened (hk : Kept b.hour log e.store.entries?) (hs : b.Spares (grown e) e')
    (hn : b.number = e.opened.size) (hr : b.Rebuilt e.store.entries? (e'.cell b)) :
    b.InUse log e' ∧ b.Prepared e.store.entries? e'.store.entries? := by
  have hrep := Represents.rebuilt hk hr
  obtain ⟨index, last, -, hc⟩ := hr
  have hd : e'.data b = ⟨index, last, b.markedState e.store.entries?, false⟩ :=
    congrArg Cell.data hc
  have hv : e'.store.entries? = b.withMaps e.store.entries? := congrArg Cell.view hc
  refine ⟨⟨?_, hrep, ?_⟩, hv ▸ b.prepared_withMaps _⟩
  · rw [size_of_grown hs, hn]
    exact Nat.lt_succ_self _
  · rw [hd]
    simp only [markedState]
    split <;> rfl

/-- The bucket comes to stand for a log, and nothing else is touched. -/
structure Becomes (b : Bucket) (log : List Event) (e e' : Engine) : Prop where
  spares : b.Spares e e'
  confined : b.Confined e.store.entries? e'.store.entries?
  inUse : b.InUse log e'

theorem InUse.unchanged (h : b.InUse log e) (hs : b.Spares e e') (hc : e'.cell b = e.cell b) :
    b.Becomes log e e' := by
  have hd : e'.data b = e.data b := congrArg Cell.data hc
  have hv : e'.store.entries? = e.store.entries? := congrArg Cell.view hc
  refine ⟨hs, ?_, hs.size ▸ h.here, hc ▸ h.represents, hd ▸ h.writable⟩
  rw [hv]
  exact fun _ _ _ => rfl

theorem InUse.marked (h : b.InUse log e) (hs : b.Spares e e')
    (hc : e'.cell b = b.marked locked (e.cell b)) :
    b.Becomes log e e' := by
  have hd : e'.data b = (b.marked locked (e.cell b)).data := congrArg Cell.data hc
  have hv : e'.store.entries? = (b.marked locked (e.cell b)).view := congrArg Cell.view hc
  refine ⟨hs, hv ▸ b.confined_marked locked (e.cell b), hs.size ▸ h.here, ?_, ?_⟩
  · exact hc ▸ h.represents.marking h.writable locked
  · rw [hd]
    cases locked <;> rfl

theorem InUse.added (h : b.InUse log e) (hs : b.Spares e e')
    (hc : e'.cell b = b.added events (e.cell b)) (ha : events ≠ [] → b.Admits events (e.cell b))
    (hf : ∀ x ∈ events, x.Fits) :
    b.Becomes (log ++ events) e e' := by
  have hd : e'.data b = (b.added events (e.cell b)).data := congrArg Cell.data hc
  have hv : e'.store.entries? = (b.added events (e.cell b)).view := congrArg Cell.view hc
  refine ⟨hs, hv ▸ b.confined_added events (e.cell b), hs.size ▸ h.here, ?_, hd ▸ h.writable⟩
  rw [hc]
  by_cases hn : events = []
  · subst hn
    rw [added_nil, List.append_nil]
    exact h.represents
  · exact h.represents.added (ha hn) hf

end Bucket

namespace EventSet

/-- For each hour the events committed to it. -/
abbrev HourLogs := Hour → List Event

def HourLogs.put (logs : HourLogs) (hour : Hour) (log : List Event) : HourLogs :=
  fun h => if h = hour then log else logs h

theorem HourLogs.put_self (logs : HourLogs) (hour : Hour) (log : List Event) :
    logs.put hour log hour = log := if_pos rfl

theorem HourLogs.put_of_ne {logs : HourLogs} {hour h : Hour} (hne : h ≠ hour) (log : List Event) :
    logs.put hour log h = logs h := if_neg hne

theorem HourLogs.put_eq (logs : HourLogs) (hour : Hour) : logs.put hour (logs hour) = logs := by
  funext h
  by_cases hh : h = hour
  · rw [hh, put_self]
  · exact put_of_ne hh _

-- ---- the registry --------------------------------------------------------

/-- The store and the registered buckets stand for the logs. -/
structure Stands (e : Engine) (logs : HourLogs) : Prop where
  cache : e.cache.Sound
  kept : ∀ hour, Bucket.Kept hour (logs hour) e.store.entries?
  hour : ∀ {h : Hour} {b : Bucket}, e.registry[h]? = some b → b.hour = h
  inUse : ∀ {h : Hour} {b : Bucket}, e.registry[h]? = some b → b.InUse (logs h) e
  apart : ∀ {h h' : Hour} {b b' : Bucket}, e.registry[h]? = some b →
    e.registry[h']? = some b' → h ≠ h' → b.number ≠ b'.number
  absent : ∀ {h : Hour}, e.registry[h]? = none → logs h = []

/-- The registered buckets other than this one have other hours and other numbers. -/
def Clear (b : Bucket) (e : Engine) : Prop :=
  ∀ h b', e.registry[h]? = some b' → b' ≠ b → h ≠ b.hour ∧ b'.number ≠ b.number

variable {b : Bucket} {e e' : Engine} {logs : HourLogs} {hour : Hour} {log : List Event}

theorem Stands.clear (h : Stands e logs) (hb : e.registry[hour]? = some b) : Clear b e := by
  intro h' b' hb' hne
  have hh : h' ≠ hour := by
    rintro rfl
    rw [hb'] at hb
    exact hne (Option.some.inj hb)
  rw [h.hour hb]
  exact ⟨hh, h.apart hb' hb hh⟩

theorem registry_eq (hs : b.Spares e e') : e'.registry = e.registry := by rw [hs.rest]

theorem registering_eq (hs : b.Spares e e') : e'.registering = e.registering := by rw [hs.rest]

/-- What is done to a bucket leaves the other registered ones as they are. -/
theorem Stands.others (h : Stands e logs) (hb : Clear b e) (hs : b.Spares e e')
    (hc : b.Confined e.store.entries? e'.store.entries?) {b' : Bucket} {h' : Hour}
    (hb' : e.registry[h']? = some b') (hne : b' ≠ b) : b'.InUse (logs h') e' := by
  refine (h.inUse hb').spared hs hc ?_
  rw [h.hour hb']
  exact hb _ _ hb' hne

theorem Stands.kept_put (h : Stands e logs) (hc : b.Confined e.store.entries? e'.store.entries?)
    (hk : Bucket.Kept b.hour log e'.store.entries?) (hour : Hour) :
    Bucket.Kept hour (logs.put b.hour log hour) e'.store.entries? := by
  by_cases hh : hour = b.hour
  · rw [hh, HourLogs.put_self]
    exact hk
  · rw [HourLogs.put_of_ne hh]
    exact (h.kept hour).confined hc hh

theorem Stands.of_eq (h : Stands e logs) (hc : e'.cache.Sound) (ho : e'.opened = e.opened)
    (hr : e'.registry = e.registry) (hv : e'.store.entries? = e.store.entries?) :
    Stands e' logs where
  cache := hc
  kept := hv ▸ h.kept
  hour hb := h.hour (hr ▸ hb)
  inUse hb := (h.inUse (hr ▸ hb)).of_eq ho hv
  apart hb hb' := h.apart (hr ▸ hb) (hr ▸ hb')
  absent hn := h.absent (hr ▸ hn)

theorem Stands.changed (h : Stands e logs) (hb : Clear b e) (hc : b.Becomes log e e')
    (ha : e.registry[b.hour]? = none → log = []) : Stands e' (logs.put b.hour log) := by
  obtain ⟨hs, hc, hu⟩ := hc
  have hr := registry_eq hs
  refine {
    cache := hs.sound h.cache
    kept := h.kept_put hc hu.represents.kept
    hour := fun hb' => h.hour (hr ▸ hb')
    inUse := fun {h' b'} hb' => ?_
    apart := fun hb₁ hb₂ => h.apart (hr ▸ hb₁) (hr ▸ hb₂)
    absent := fun {h'} hn => ?_ }
  · rw [hr] at hb'
    by_cases hne : b' = b
    · subst hne
      rw [← h.hour hb', HourLogs.put_self]
      exact hu
    · rw [HourLogs.put_of_ne (hb _ _ hb' hne).1]
      exact h.others hb hs hc hb' hne
  · rw [hr] at hn
    by_cases hh : h' = b.hour
    · rw [hh] at hn ⊢
      rw [HourLogs.put_self]
      exact ha hn
    · rw [HourLogs.put_of_ne hh]
      exact h.absent hn

theorem Stands.forgotten (h : Stands e logs) (hb : e.registry[hour]? = some b) (hs : b.Spares e e')
    (hc : b.Confined e.store.entries? e'.store.entries?) (hr : b.Represents [] (e'.cell b)) :
    Stands { e' with registry := e'.registry.erase hour } (logs.put hour []) := by
  obtain rfl := h.hour hb
  have hclear := h.clear hb
  have hget {h' : Hour} {b' : Bucket} (hb' : (e'.registry.erase b.hour)[h']? = some b') :
      e.registry[h']? = some b' ∧ b' ≠ b ∧ h' ≠ b.hour := by
    rw [registry_eq hs] at hb'
    obtain ⟨hh, hb'⟩ := getElem?_erase_eq_some.mp hb'
    exact ⟨hb', fun he => hh (by rw [← h.hour hb', he]), hh⟩
  refine {
    cache := hs.sound h.cache
    kept := h.kept_put hc hr.kept
    hour := fun hb' => h.hour (hget hb').1
    inUse := fun {h' b'} hb' => ?_
    apart := fun hb₁ hb₂ => h.apart (hget hb₁).1 (hget hb₂).1
    absent := fun {h'} hn => ?_ }
  · obtain ⟨hb', hne, hh⟩ := hget hb'
    rw [HourLogs.put_of_ne hh]
    exact (h.others hclear hs hc hb' hne).of_eq rfl rfl
  · by_cases hh : h' = b.hour
    · rw [hh, HourLogs.put_self]
    · rw [HourLogs.put_of_ne hh]
      refine h.absent ?_
      have hn : (e'.registry.erase b.hour)[h']? = none := hn
      rwa [getElem?_erase_of_ne hh, registry_eq hs] at hn

theorem Stands.opening (h : Stands e logs) (hs : b.Spares (Bucket.grown e) e')
    (hn : b.number = e.opened.size) (hp : b.Prepared e.store.entries? e'.store.entries?) :
    Stands e' logs := by
  have hr : e'.registry = e.registry := registry_eq (e := Bucket.grown e) hs
  exact {
    cache := hs.sound h.cache
    kept := fun hour => (h.kept hour).prepared hp
    hour := fun hb => h.hour (hr ▸ hb)
    inUse := fun hb => (h.inUse (hr ▸ hb)).opening hs hn hp
    apart := fun hb hb' => h.apart (hr ▸ hb) (hr ▸ hb')
    absent := fun hb => h.absent (hr ▸ hb) }

/-- The bucket is in use, and could be registered. -/
structure Spare (b : Bucket) (e : Engine) (logs : HourLogs) : Prop where
  inUse : b.InUse (logs b.hour) e
  clear : ∀ (h : Hour) (b' : Bucket), e.registry[h]? = some b' → b'.number ≠ b.number

theorem Stands.opened (h : Stands e logs) (hs : b.Spares (Bucket.grown e) e')
    (hn : b.number = e.opened.size) (hr : b.Rebuilt e.store.entries? (e'.cell b)) :
    Stands e' logs ∧ Spare b e' logs := by
  obtain ⟨hu, hp⟩ := Bucket.InUse.opened (h.kept b.hour) hs hn hr
  refine ⟨h.opening hs hn hp, hu, ?_⟩
  · intro h' b' hb'
    rw [registry_eq (e := Bucket.grown e) hs] at hb'
    rw [hn]
    exact Nat.ne_of_lt (h.inUse hb').here

theorem Stands.inserted (h : Stands e logs) (hb : Spare b e logs)
    (hn : e.registry[b.hour]? = none) :
    Stands { e with registry := e.registry.insert b.hour b } logs := by
  refine { h with
    hour := fun hb' => ?_
    inUse := fun hb' => ?_
    apart := fun hb₁ hb₂ hne => ?_
    absent := fun hn' => h.absent (getElem?_insert_eq_none.mp hn').2 }
  · rcases getElem?_insert_eq_some.mp hb' with ⟨rfl, rfl⟩ | ⟨-, hb'⟩
    · rfl
    · exact h.hour hb'
  · rcases getElem?_insert_eq_some.mp hb' with ⟨rfl, rfl⟩ | ⟨-, hb'⟩
    · exact hb.inUse.of_eq rfl rfl
    · exact (h.inUse hb').of_eq rfl rfl
  · rcases getElem?_insert_eq_some.mp hb₁ with ⟨rfl, rfl⟩ | ⟨-, hr₁⟩ <;>
      rcases getElem?_insert_eq_some.mp hb₂ with ⟨rfl, rfl⟩ | ⟨-, hr₂⟩
    · exact absurd rfl hne
    · exact (hb.clear _ _ hr₂).symm
    · exact hb.clear _ _ hr₁
    · exact h.apart hr₁ hr₂ hne

end EventSet

end EventStore
