import EventStore.Proofs.EventSet.Halting
import Mathlib.Algebra.GroupWithZero.Nat

/-!
# Adding a batch

Events of several hours that are added together are settled hour by hour: those of one hour are
stored behind what the hour has, all of them, or they are all left to be tried again or lost, and
then the hour has what it had. Nothing else in the store is touched, and events without an hour
never come to it (`addAll_settles`). All this is so whatever the set has been through, and however
calls to the store fail meanwhile.
-/

namespace EventStore

open Std Query Operation

namespace EventSet

variable {e e' u : Engine} {b : Bucket} {hour : Hour} {events : List Event}

-- ---- ids behind the counter ----------------------------------------------

/-- Nobody is at work on the bucket, and the counter is not behind the ids in the store. -/
structure Ahead (b : Bucket) (c : Cell) : Prop where
  idle : Idle b c
  ids : ∀ p ∈ ((c.view b.eventsMap).getD ∅).toList, ∃ id, p.1 = idKey id ∧ id ≤ c.data.lastId

variable {c : Cell} {v : View}

theorem Ahead.of_view (h : Ahead b c)
    (hv : (v b.eventsMap).getD ∅ = (c.view b.eventsMap).getD ∅ ∨ v b.eventsMap = none) :
    Ahead b { c with view := v } := by
  refine ⟨h.idle, fun p hp => ?_⟩
  have hp : p ∈ ((v b.eventsMap).getD ∅).toList := hp
  rcases hv with hv | hv
  · exact h.ids p (hv ▸ hp)
  · rw [hv] at hp
    have := ExtTreeMap.mem_toList_iff_getElem?_eq_some.mp hp
    simp at this

theorem Ahead.toList_added (h : Ahead b c) (ha : b.Admits events c) :
    (((b.added events c).view b.eventsMap).getD ∅).toList =
      ((c.view b.eventsMap).getD ∅).toList ++
        (b.numbered c.data.lastId events).map Event.entry := by
  obtain ⟨es, hes⟩ := Option.isSome_iff_exists.mp ha.there
  have hids := h.ids
  have hv : (b.added events c).view b.eventsMap =
      some (Record.applyAll es ((b.numbered c.data.lastId events).map Event.record)) := by
    simp [Bucket.added, hes]
  rw [hes, Option.getD_some] at hids
  rw [hv, hes, Option.getD_some, Option.getD_some]
  refine Entries.toList_applyAll (fun p hp x hx => ?_) (Bucket.pairwise_numbered ha.room)
  obtain ⟨id, hid, hle⟩ := hids p hp
  rw [hid, compare_idKey]
  exact Nat.compare_eq_lt.mpr (UInt32.lt_of_le_of_lt hle (Bucket.mem_numbered ha.room hx).1)

theorem lasting_ahead : Bucket.Lasting Ahead where
  view h he _ := h.of_view (.inl (congrArg (·.getD ∅) he))
  prepared h hp := h.of_view (.inl (hp.getD_eq _))
  rebuilt {b c v} h := by
    obtain ⟨index, last, hi, rfl⟩ := h
    refine ⟨rfl, fun p hp => ?_⟩
    have hp : p ∈ ((v b.eventsMap).getD ∅).toList :=
      (b.prepared_withMaps v).getD_eq b.eventsMap ▸ hp
    obtain ⟨id, hid, hle, -⟩ := (Bucket.le_of_learnt hi).2 p hp
    exact ⟨id, hid, hle⟩
  added {b c events} h ha _ := by
    have hlast := Bucket.toNat_add_toUInt32 c.data.lastId events.length ha.room
    refine ⟨h.idle, fun p hp => ?_⟩
    show ∃ id, p.1 = idKey id ∧ id ≤ c.data.lastId + events.length.toUInt32
    rw [h.toList_added ha] at hp
    rcases List.mem_append.mp hp with hp | hp
    · obtain ⟨id, hid, hle⟩ := h.ids p hp
      have := UInt32.le_iff_toNat_le.mp hle
      exact ⟨id, hid, UInt32.le_iff_toNat_le.mpr (by omega)⟩
    · obtain ⟨x, hx, rfl⟩ := List.mem_map.mp hp
      have := (Bucket.mem_numbered ha.room hx).2.1
      exact ⟨x.id, rfl, UInt32.le_iff_toNat_le.mpr (by omega)⟩
  marked {b c} locked h _ _ := by
    have hv : (b.marked locked c).view b.eventsMap = c.view b.eventsMap :=
      if_neg b.eventsMap_ne_optionsMap
    have := h.of_view (v := (b.marked locked c).view) (.inl (congrArg (·.getD ∅) hv))
    exact ⟨this.idle, this.ids⟩

theorem outlasts_ahead : Outlasts Ahead := by
  rintro b c _ h (_ | ⟨-, rfl | rfl⟩ | ⟨hg, -⟩)
  · exact h
  · exact h.of_view (.inr (if_pos rfl))
  · exact h.of_view (.inr (by simp [Bucket.withoutMaps_apply]))
  · cases hg

theorem ahead_of_evolved (h : Evolved true e) : Throughout Ahead e :=
  throughout_of_evolved lasting_ahead (fun _ => outlasts_ahead) h

-- ---- what there is of an hour --------------------------------------------

def entriesOf (e : Engine) (hour : Hour) : List (Bytes × Bytes) :=
  ((e.store.entries? hour.eventsMap).getD ∅).toList

/-- The index and the counter of the bucket of an hour. If there is no bucket they are those that
one will have that is read from the store. -/
def known (e : Engine) (hour : Hour) : Except EngineError (Index × UInt32) :=
  match e.registry[hour]? with
  | some b => .ok ((e.data b).index, (e.data b).lastId)
  | none => Bucket.indexOf (entriesOf e hour)

/-- There is no more and no less of the hour than there was. -/
structure Unmoved (hour : Hour) (e e' : Engine) : Prop where
  entries : entriesOf e' hour = entriesOf e hour
  known : known e' hour = known e hour

/-- The bucket of the hour is the same too, if there is one. -/
structure Untouched (hour : Hour) (e e' : Engine) : Prop extends Unmoved hour e e' where
  registry : e'.registry[hour]? = e.registry[hour]?

theorem Unmoved.trans (h : Unmoved hour e u) (h' : Unmoved hour u e') : Unmoved hour e e' :=
  ⟨h'.entries.trans h.entries, h'.known.trans h.known⟩

theorem Untouched.trans (h : Untouched hour e u) (h' : Untouched hour u e') : Untouched hour e e' :=
  ⟨h.toUnmoved.trans h'.toUnmoved, h'.registry.trans h.registry⟩

theorem known_of_some (hb : e.registry[hour]? = some b) :
    known e hour = .ok ((e.data b).index, (e.data b).lastId) := by
  simp [known, hb]

theorem known_of_none (hn : e.registry[hour]? = none) :
    known e hour = Bucket.indexOf (entriesOf e hour) := by
  simp [known, hn]

theorem untouched_of (hr : e'.registry[hour]? = e.registry[hour]?)
    (hd : ∀ b, e.registry[hour]? = some b → e'.data b = e.data b)
    (he : entriesOf e' hour = entriesOf e hour) : Untouched hour e e' := by
  refine ⟨⟨he, ?_⟩, hr⟩
  cases hb : e.registry[hour]? with
  | some b => rw [known_of_some hb, known_of_some (hr.trans hb), hd b hb]
  | none => rw [known_of_none hb, known_of_none (hr.trans hb), he]

-- ---- what one hour leaves alone ------------------------------------------

/-- Nothing has happened but to the maps of an hour and to its bucket. -/
structure Confined (hour : Hour) (e e' : Engine) : Prop where
  view : ∀ m, m ≠ hour.eventsMap → m ≠ hour.optionsMap → e'.store.entries? m = e.store.entries? m
  registry : ∀ other, other ≠ hour → e'.registry[other]? = e.registry[other]?
  data : ∀ c, Registered c e → c.hour ≠ hour → e'.data c = e.data c

variable {P : Bucket → Cell → Prop} {other : Hour} {id id' : UInt32}

theorem Confined.of_shaken (hour : Hour) (h : e.Shaken e') : Confined hour e e' := by
  obtain ⟨faults, clock, -, rfl⟩ := h
  exact ⟨fun _ _ _ => rfl, fun _ _ => rfl, fun _ _ _ => rfl⟩

theorem Confined.trans (h : Confined hour e u) (h' : Confined hour u e') : Confined hour e e' where
  view m he ho := (h'.view m he ho).trans (h.view m he ho)
  registry other hne := (h'.registry other hne).trans (h.registry other hne)
  data c hc hne :=
    (h'.data c ((h.registry c.hour hne).trans hc) hne).trans (h.data c hc hne)

theorem Confined.untouched (hc : Confined hour e e') (h : Throughout P e)
    (hid : hour.tokenSeconds? = some id) (hid' : other.tokenSeconds? = some id')
    (hne : other ≠ hour) : Untouched other e e' := by
  refine untouched_of (hc.registry other hne) (fun b hb => ?_) ?_
  · exact hc.data b (h.registered hb) (h.hour hb ▸ hne)
  · rw [entriesOf, hc.view _ (fun he => hne (Hour.eventsMap_inj hid' hid he))
      (Hour.eventsMap_ne_optionsMap hid' hid), entriesOf]

theorem Confined.of_spares (h : Throughout P e) (hb : Registered b e) (hs : b.Spares e e')
    (hv : b.Confined e.store.entries? e'.store.entries?) : Confined b.hour e e' where
  view := hv
  registry _ _ := by rw [registry_eq hs]
  data c hc hne := hs.others c fun hn => hne (by rw [h.apart hc hb hn])

theorem Confined.of_brings (h : Throughout P e) (hb : Brings e b c e')
    (hv : b.Confined e.store.entries? c.view)
    (hr : ∀ other, other ≠ b.hour → e'.registry[other]? = e.registry[other]?) :
    Confined b.hour e e' where
  view := hb.view ▸ hv
  registry := hr
  data _ hc _ := hb.data_eq (h.here hc)

theorem confined_of_prepared {v v' : View} (h : b.Prepared v v') : b.Confined v v' := by
  intro m he ho
  rcases h with rfl | rfl | rfl
  · rfl
  · exact if_neg he
  · exact (b.withMaps_apply _ m).trans (if_neg (by simp [he, ho]))

-- ---- getting a bucket ----------------------------------------------------

theorem Misses.confined (h : Throughout P e) (hm : Misses hour e e') : Confined hour e e' := by
  cases hm with
  | unnamed _ hs => exact .of_shaken hour hs
  | opened hh hp hb hr =>
    subst hh
    exact .of_brings h hb (confined_of_prepared hp) fun other _ => by rw [hr]

theorem Misses.unmoved (hn : e.registry[hour]? = none) (hm : Misses hour e e') :
    Unmoved hour e e' := by
  cases hm with
  | unnamed _ hs =>
    obtain ⟨faults, clock, -, rfl⟩ := hs
    exact ⟨rfl, rfl⟩
  | opened hh hp hb hr =>
    have he : entriesOf e' hour = entriesOf e hour := by
      rw [entriesOf, hb.view, hp.getD_eq, entriesOf]
    refine ⟨he, ?_⟩
    rw [known_of_none hn, known_of_none (hr ▸ hn), he]

theorem Gets.confined (hl : Bucket.Lasting P) (h : Throughout P e) (hg : Gets hour e b e') :
    Confined hour e e' := by
  cases hg with
  | found _ hs => exact .of_shaken hour hs
  | made hn hh hr hb hreg =>
    subst hh
    refine .of_brings h hb (Lasting.entered hl hr e.locked).2 fun other hne => ?_
    rw [hreg, getElem?_insert_of_ne hne]

theorem entered_eq (b : Bucket) (locked : Bool) (c : Cell) :
    (b.entered locked c).data.index = c.data.index ∧
      (b.entered locked c).data.lastId = c.data.lastId ∧
      (b.entered locked c).view b.eventsMap = c.view b.eventsMap := by
  unfold Bucket.entered
  split
  · exact ⟨rfl, rfl, if_neg b.eventsMap_ne_optionsMap⟩
  · exact ⟨rfl, rfl, rfl⟩

/-- The bucket has the index and the counter that were known of its hour. -/
theorem Gets.unmoved (hg : Gets hour e b e') :
    Unmoved hour e e' ∧ known e hour = .ok ((e'.data b).index, (e'.data b).lastId) := by
  cases hg with
  | found hb hs =>
    obtain ⟨faults, clock, -, rfl⟩ := hs
    exact ⟨⟨rfl, rfl⟩, known_of_some hb⟩
  | made hn hh hr hb hreg =>
    subst hh
    obtain ⟨index, last, hi, rfl⟩ := hr
    obtain ⟨hindex, hlast, hview⟩ := entered_eq b e.locked
      ⟨⟨index, last, b.markedState e.store.entries?, false⟩, b.withMaps e.store.entries?⟩
    have he : entriesOf e' b.hour = entriesOf e b.hour := by
      rw [entriesOf, hb.view]
      refine congrArg (fun m : Option Entries => (m.getD ∅).toList) hview |>.trans ?_
      exact congrArg ExtTreeMap.toList ((b.prepared_withMaps _).getD_eq b.eventsMap)
    have hd : (e'.data b).index = index ∧ (e'.data b).lastId = last :=
      ⟨(congrArg (·.data.index) hb.cell).trans hindex,
        (congrArg (·.data.lastId) hb.cell).trans hlast⟩
    have hk : known e b.hour = .ok (index, last) := (known_of_none hn).trans hi
    have hreg : e'.registry[b.hour]? = some b := hreg ▸ ExtTreeMap.getElem?_insert_self
    rw [hd.1, hd.2]
    exact ⟨⟨he, by rw [known_of_some hreg, hd.1, hd.2, hk]⟩, hk⟩

-- ---- the events of one hour ----------------------------------------------

/-- The events of one hour that were added together, and what came of that. -/
structure Fate where
  hour : Hour
  events : List Event
  outcome : Except EngineError (List Event)

namespace Fate

def committed (f : Fate) : List Event :=
  match f.outcome with
  | .ok stored => stored
  | .error _ => []

def retry (f : Fate) : List Event :=
  match f.outcome with
  | .ok _ => []
  | .error p => if p.isRetryable then f.events else []

def discarded (f : Fate) : Nat :=
  match f.outcome with
  | .ok _ => 0
  | .error p => if p.isRetryable then 0 else f.events.length

def error? (f : Fate) : Option EngineError :=
  match f.outcome with
  | .ok _ => none
  | .error p => some p

/-- Either all events of the hour have come behind what it had, with the next ids, in the store and
in the index alike, or the hour has what it had. -/
inductive Comes (f : Fate) (e e' : Engine) : Prop
  | stored {b : Bucket} {index : Index} {last : UInt32}
    (outcome : f.outcome = .ok (b.numbered last f.events))
    (registered : e'.registry[f.hour]? = some b) (before : known e f.hour = .ok (index, last))
    (room : last.toNat + f.events.length < 4294967296)
    (known : known e' f.hour = .ok
      (Bucket.indexAll (b.numbered last f.events) index, last + f.events.length.toUInt32))
    (entries : entriesOf e' f.hour =
      entriesOf e f.hour ++ (b.numbered last f.events).map Event.entry)
  | left {p : EngineError} (outcome : f.outcome = .error p) (unmoved : Unmoved f.hour e e')

end Fate

/-- What is added to an hour comes to it as a whole, and to no other. -/
theorem comes_of_addIn (h : Throughout Ahead e) {r : Except EngineError (List Event)}
    (hn : events ≠ [])
    (he : Operation.Ends (do (← getOrCreate hour).addAll events) e r e') :
    (Fate.mk hour events r).Comes e e' ∧ Confined hour e e' := by
  have heffect : Triple (do (← getOrCreate hour).addAll events) e
      (fun stored e' => (Fate.mk hour events (.ok stored)).Comes e e' ∧ Confined hour e e')
      (fun p e' => Unmoved hour e e' ∧ Confined hour e e') := by
    refine .bind (P := fun b u => Gets hour e b u) ((getOrCreate_effect hour e).mono
      (fun _ _ hg => hg) fun _ _ hm => ⟨hm.2.unmoved hm.1, hm.2.confined h⟩) fun b u hg => ?_
    obtain ⟨hu, hb, rfl⟩ := h.gets lasting_ahead hg
    obtain ⟨hunmoved, hk⟩ := hg.unmoved
    have hcu := hg.confined lasting_ahead h
    refine (Bucket.addAll_does b events _ u (hu.here hb) rfl).mono ?_ ?_
    · rintro stored e' ⟨hs, rfl, hc, ha⟩
      have ha := ha hn
      have hv : e'.store.entries? = (b.added events (u.cell b)).view := congrArg Cell.view hc
      have hcv := hv ▸ b.confined_added events (u.cell b)
      have hreg : e'.registry[b.hour]? = some b := registry_eq hs ▸ hb
      refine ⟨.stored rfl hreg hk ha.room ?_ ?_, hcu.trans (.of_spares hu hb hs hcv)⟩
      · exact (known_of_some hreg).trans
          (congrArg (fun d : BucketData => Except.ok (d.index, d.lastId)) (congrArg Cell.data hc))
      · rw [← hunmoved.entries, entriesOf, hv]
        exact (hu.each hb).toList_added ha
    · rintro p e' ⟨hs, hc⟩
      have hv : e'.store.entries? = u.store.entries? := congrArg Cell.view hc
      have hreg : e'.registry[b.hour]? = u.registry[b.hour]? := by rw [registry_eq hs]
      refine ⟨hunmoved.trans ⟨by rw [entriesOf, hv, entriesOf], ?_⟩, hcu.trans
        (.of_spares hu hb hs (hv ▸ fun _ _ _ => rfl))⟩
      rw [known_of_some hb, known_of_some (hreg.trans hb),
        show e'.data b = u.data b from congrArg Cell.data hc]
  have := heffect r e' he
  cases r with
  | ok stored => exact this
  | error p => exact ⟨.left rfl this.1, this.2⟩

-- ---- reports -------------------------------------------------------------

def Report.tell (r : Report) (f : Fate) : Report :=
  ⟨r.committed ++ f.committed, r.retry ++ f.retry, r.discarded + f.discarded,
    f.error?.or r.lastError⟩

theorem addGroup_eq (r : Report) (hour : Hour) (events : List Event) : addGroup r hour events = do
    let outcome ← (do (← getOrCreate hour).addAll events : Operation (List Event)).run
    return r.tell ⟨hour, events, outcome⟩ := by
  refine bind_congr fun outcome => ?_
  obtain ⟨committed, retry, discarded, lastError⟩ := r
  cases outcome with
  | ok stored => simp [Report.tell, Fate.committed, Fate.retry, Fate.discarded, Fate.error?]
  | error p =>
    by_cases hp : p.isRetryable <;>
      simp [hp, Report.tell, Fate.committed, Fate.retry, Fate.discarded, Fate.error?]

theorem foldl_tell (fates : List Fate) (r : Report) :
    (fates.foldl Report.tell r).committed = r.committed ++ fates.flatMap Fate.committed ∧
      (fates.foldl Report.tell r).retry = r.retry ++ fates.flatMap Fate.retry ∧
      (fates.foldl Report.tell r).discarded = r.discarded + (fates.map Fate.discarded).sum := by
  induction fates generalizing r with
  | nil => simp
  | cons f fates ih =>
    obtain ⟨hc, hr, hd⟩ := ih (r.tell f)
    rw [List.foldl_cons, hc, hr, hd]
    simp [Report.tell, List.append_assoc, Nat.add_assoc]

/-- What is true of the groups of events that are to be added. -/
structure Grouped (gs : List (Hour × List Event)) : Prop where
  hours : (gs.map Prod.fst).Nodup
  named : ∀ g ∈ gs, ∃ id, g.1.tokenSeconds? = some id
  events : ∀ g ∈ gs, g.2 ≠ []
  fits : ∀ g ∈ gs, ∀ x ∈ g.2, Event.Fits x

theorem grouped_groups (hf : ∀ x ∈ events, x.Fits) : Grouped (groups events) where
  hours := by
    have : (groups events).map Prod.fst = (hoursOf events).toList := by
      simp [groups, List.map_map, Function.comp_def]
    rw [this]
    exact nodup_toList _
  named g hg := by
    obtain ⟨hour, hh, rfl⟩ := List.mem_map.mp hg
    obtain ⟨x, -, hxh⟩ := mem_hoursOf.mp hh
    exact Option.isSome_iff_exists.mp (Option.filter_eq_some_iff.mp hxh).2
  events g hg := by
    obtain ⟨hour, hh, rfl⟩ := List.mem_map.mp hg
    obtain ⟨x, hx, hxh⟩ := mem_hoursOf.mp hh
    exact List.ne_nil_of_mem (List.mem_filter.mpr ⟨hx, by simpa using hxh⟩)
  fits _ hg := fits_of_mem_groups hf hg

/-- Hours other than those of the groups have what they had, and nothing else is in the store. -/
structure Aside (hours : List Hour) (e e' : Engine) : Prop where
  others : ∀ {hour : Hour} {id : UInt32}, hour.tokenSeconds? = some id → hour ∉ hours →
    Untouched hour e e'
  maps : ∀ m, (∀ hour ∈ hours, m ≠ hour.eventsMap ∧ m ≠ hour.optionsMap) →
    e'.store.entries? m = e.store.entries? m

/-- What becomes of one hour is not undone by what becomes of others. -/
theorem Fate.Comes.of_untouched {f : Fate} (h : f.Comes e u) (hu : Untouched f.hour u e') :
    f.Comes e e' := by
  cases h with
  | stored ho hb hk hr hk' he =>
    exact .stored ho (hu.registry.trans hb) hk hr (hu.known.trans hk') (hu.entries.trans he)
  | left ho hm => exact .left ho (hm.trans hu.toUnmoved)

theorem Fate.Comes.untouched_comes {f : Fate} (hu : Untouched f.hour e u) (h : f.Comes u e') :
    f.Comes e e' := by
  cases h with
  | stored ho hb hk hr hk' he =>
    exact .stored ho hb (hu.known ▸ hk) hr hk' (hu.entries ▸ he)
  | left ho hm => exact .left ho (hu.toUnmoved.trans hm)

theorem fates_of_addGroups (h : Throughout Ahead e) {gs : List (Hour × List Event)}
    (hg : Grouped gs) {r r' : Report}
    (he : Activity.Ends Engine.Shaken
      (gs.foldlM (fun r (hour, group) => addGroup r hour group) r) e r' e') :
    ∃ fates : List Fate, fates.map (fun f => (f.hour, f.events)) = gs ∧
      r' = fates.foldl Report.tell r ∧ (∀ f ∈ fates, f.Comes e e') ∧
      Aside (gs.map Prod.fst) e e' := by
  induction gs generalizing e r with
  | nil =>
    obtain ⟨rfl, rfl⟩ := he
    exact ⟨[], rfl, rfl, by simp, fun _ _ => ⟨⟨rfl, rfl⟩, rfl⟩, fun _ _ => rfl⟩
  | cons g gs ih =>
    obtain ⟨hour, group⟩ := g
    obtain ⟨hhour, hhours⟩ := List.nodup_cons.mp hg.hours
    obtain ⟨⟨id, hid⟩, hnamed⟩ := List.forall_mem_cons.mp hg.named
    obtain ⟨hne, hevents⟩ := List.forall_mem_cons.mp hg.events
    obtain ⟨hfit, hfits⟩ := List.forall_mem_cons.mp hg.fits
    rw [List.foldlM_cons] at he
    obtain ⟨r₁, u, hgroup, he⟩ := Activity.ends_bind.mp he
    have hu := throughout_of_addGroup lasting_ahead h hfit hgroup
    dsimp only at hgroup
    rw [addGroup_eq] at hgroup
    obtain ⟨outcome, u', hop, rfl, rfl⟩ := Activity.ends_bind.mp hgroup
    obtain ⟨hcomes, hconfined⟩ := comes_of_addIn h hne hop
    obtain ⟨fates, hfates, rfl, hall, haside⟩ := ih hu ⟨hhours, hnamed, hevents, hfits⟩ he
    refine ⟨⟨hour, group, outcome⟩ :: fates, by rw [List.map_cons, hfates], rfl, ?_, ?_, ?_⟩
    · refine List.forall_mem_cons.mpr
        ⟨hcomes.of_untouched (haside.others hid hhour), fun f hf => ?_⟩
      have hmem : (f.hour, f.events) ∈ gs := hfates ▸ List.mem_map_of_mem hf
      obtain ⟨id', hid'⟩ := hnamed _ hmem
      refine (hall f hf).untouched_comes (hconfined.untouched h hid hid' ?_)
      rintro rfl
      exact hhour (List.mem_map.mpr ⟨_, hmem, rfl⟩)
    · intro other id' hid' hmem
      obtain ⟨hother, hmem⟩ := not_or.mp (List.mem_cons.not.mp hmem)
      exact (hconfined.untouched h hid hid' hother).trans (haside.others hid' hmem)
    · intro m hm
      obtain ⟨⟨hme, hmo⟩, hm⟩ := List.forall_mem_cons.mp hm
      exact (haside.maps m hm).trans (hconfined.view m hme hmo)

-- ---- events without an hour ----------------------------------------------

def Report.beside (lost r : Report) : Report :=
  { r with discarded := lost.discarded + r.discarded, lastError := r.lastError.or lost.lastError }

theorem tell_beside (lost r : Report) (f : Fate) :
    (Report.beside lost r).tell f = Report.beside lost (r.tell f) := by
  simp [Report.beside, Report.tell, Nat.add_assoc, Option.or_assoc]

theorem foldlM_beside (lost r : Report) (gs : List (Hour × List Event)) :
    gs.foldlM (fun r (hour, group) => addGroup r hour group) (Report.beside lost r) =
      Report.beside lost <$> gs.foldlM (fun r (hour, group) => addGroup r hour group) r := by
  induction gs generalizing r with
  | nil => simp
  | cons g gs ih =>
    obtain ⟨hour, group⟩ := g
    rw [List.foldlM_cons, List.foldlM_cons, map_bind]
    dsimp only
    rw [addGroup_eq, addGroup_eq]
    simp only [bind_assoc, pure_bind, tell_beside, ih]

def Routed (x : Event) : Bool := x.hour?.isSome

theorem groups_routed (events : List Event) : groups (events.filter Routed) = groups events := by
  have hhours : (events.filter Routed).filterMap Event.hour? = events.filterMap Event.hour? := by
    rw [List.filterMap_filter]
    refine List.filterMap_congr fun x _ => ?_
    cases hx : x.hour? <;> simp [Routed, hx]
  rw [groups, groups, hoursOf, hoursOf, hhours]
  refine List.map_congr_left fun hour _ => ?_
  rw [List.filter_filter]
  refine congrArg (hour, ·) (List.filter_congr fun x _ => ?_)
  cases hx : x.hour? <;> simp [Routed, hx]

/-- Events without an hour go on the report, and make no difference to what is done. -/
theorem addAll_routed (events : List Event) : addAll events =
    Report.beside (unrouted events) <$> addAll (events.filter Routed) := by
  have hnone : unrouted (events.filter Routed) = ⟨[], [], 0, none⟩ := by
    have : (events.filter Routed).filter (·.hour?.isNone) = [] := by
      refine List.filter_eq_nil_iff.mpr fun x hx => ?_
      have := (List.mem_filter.mp hx).2
      simpa [Routed, Option.isSome_iff_ne_none] using this
    simp [unrouted, this]
  have hstart : unrouted events = Report.beside (unrouted events) ⟨[], [], 0, none⟩ := by
    simp [Report.beside, unrouted]
  rw [addAll, addAll, groups_routed, hnone, ← foldlM_beside, ← hstart]

-- ---- a whole batch -------------------------------------------------------

/-- What adding events leads to, and the report on it. -/
structure Batch (e : Engine) (events : List Event) (r : Report) (e' : Engine) : Prop where
  /-- Each event is reported on once. -/
  covers : r.Covers (bare events)
  length : r.committed.length + r.retry.length + r.discarded = events.length
  /-- The events of an hour have one fate. -/
  fates : ∃ fates : List Fate, fates.map (fun f => (f.hour, f.events)) = groups events ∧
    r.committed = fates.flatMap Fate.committed ∧ r.retry = fates.flatMap Fate.retry ∧
    r.discarded = (events.filter (·.hour?.isNone)).length + (fates.map Fate.discarded).sum ∧
    ∀ f ∈ fates, f.Comes e e'
  aside : Aside (hoursOf events).toList e e'

theorem perm_groups (events : List Event) :
    ((events.filter (·.hour?.isNone)) ++ (groups events).flatMap Prod.snd).Perm events := by
  have hkeys := perm_of_keys Event.hour? events (nodup_toList (hoursOf events))
  have hall : (events.filter fun x => (hoursOf events).toList.any (x.hour? == some ·)) =
      events.filter (!·.hour?.isNone) := by
    refine List.filter_congr fun x hx => ?_
    cases hh : x.hour? with
    | none => simp
    | some hour => simpa using mem_hoursOf.mpr ⟨x, hx, hh⟩
  rw [hall] at hkeys
  have hgroups : (groups events).flatMap Prod.snd =
      (hoursOf events).toList.flatMap fun hour => events.filter (·.hour? == some hour) := by
    rw [groups, List.flatMap_map]
  rw [hgroups]
  exact (hkeys.append_left _).trans (List.filter_append_perm _ _)

/-- Some of the events are stored and some lost, so many each, and the others are to be tried
again. -/
def Divides (events retry : List Event) (committed discarded : Nat) : Prop :=
  ∃ stored lost : List Event, events.Perm (stored ++ retry ++ lost) ∧
    stored.length = committed ∧ lost.length = discarded

theorem Divides.append {xs ys retry retry' : List Event} {n n' m m' : Nat}
    (h : Divides xs retry n m) (h' : Divides ys retry' n' m') :
    Divides (xs ++ ys) (retry ++ retry') (n + n') (m + m') := by
  obtain ⟨stored, lost, hp, rfl, rfl⟩ := h
  obtain ⟨stored', lost', hp', rfl, rfl⟩ := h'
  refine ⟨stored ++ stored', lost ++ lost', Multiset.coe_eq_coe.mp ?_, List.length_append,
    List.length_append⟩
  have := Multiset.coe_eq_coe.mpr (hp.append hp')
  simp only [← Multiset.coe_add] at this ⊢
  rw [this]
  ac_rfl

theorem Fate.Comes.divides {f : Fate} (h : f.Comes e e') :
    Divides f.events f.retry f.committed.length f.discarded := by
  cases h with
  | stored ho =>
    refine ⟨f.events, [], ?_, ?_, ?_⟩ <;>
      simp [Fate.retry, Fate.committed, Fate.discarded, ho, Bucket.length_numbered]
  | @left p ho =>
    by_cases hp : p.isRetryable
    · refine ⟨[], [], ?_, ?_, ?_⟩ <;> simp [Fate.retry, Fate.committed, Fate.discarded, ho, hp]
    · refine ⟨[], f.events, ?_, ?_, ?_⟩ <;>
        simp [Fate.retry, Fate.committed, Fate.discarded, ho, hp]

theorem Batch.divides {r : Report} (h : Batch e events r e') :
    Divides events r.retry r.committed.length r.discarded := by
  obtain ⟨fates, hfates, hc, hr, hd, hall⟩ := h.fates
  have hgroups : ∀ fates : List Fate, (∀ f ∈ fates, f.Comes e e') →
      Divides (fates.flatMap Fate.events) (fates.flatMap Fate.retry)
        (fates.flatMap Fate.committed).length (fates.map Fate.discarded).sum := by
    intro fates hall
    induction fates with
    | nil => exact ⟨[], [], .refl _, rfl, rfl⟩
    | cons f fates ih =>
      obtain ⟨hf, hfates⟩ := List.forall_mem_cons.mp hall
      simp only [List.flatMap_cons, List.map_cons, List.sum_cons, List.length_append]
      exact hf.divides.append (ih hfates)
  have hunrouted : Divides (events.filter (·.hour?.isNone)) [] 0
      (events.filter (·.hour?.isNone)).length := ⟨[], _, .refl _, rfl, rfl⟩
  have hevents : (groups events).flatMap Prod.snd = fates.flatMap Fate.events := by
    rw [← hfates, List.flatMap_map]
  obtain ⟨stored, lost, hp, hs, hl⟩ := hunrouted.append (hgroups fates hall)
  refine ⟨stored, lost, (perm_groups events).symm.trans ?_, ?_, hd ▸ hl⟩
  · rw [hevents, hr]
    exact hp
  · rw [hs, hc, Nat.zero_add]

theorem covers_of_addAll {r : Report} (he : (addAll events).Ends Engine.Shaken e r e') :
    r.Covers (bare events) := by
  obtain ⟨_, -, h⟩ := (addAll_covers events).ends (P := fun _ _ => True) (fun _ => trivial)
    (fun _ _ => trivial) (fun _ _ => trivial) he trivial
  exact h

theorem batch_of_addAll (h : Throughout Ahead e) (hf : ∀ x ∈ events, x.Fits) {r : Report}
    (he : (addAll events).Ends Engine.Shaken e r e') : Batch e events r e' := by
  have hcovers := covers_of_addAll he
  obtain ⟨fates, hfates, rfl, hall, haside⟩ := fates_of_addGroups h (grouped_groups hf) he
  obtain ⟨hc, hr, hd⟩ := foldl_tell fates (unrouted events)
  have hhours : (groups events).map Prod.fst = (hoursOf events).toList := by
    simp [groups, List.map_map, Function.comp_def]
  refine ⟨hcovers, ?_, ⟨fates, hfates, hc, hr, hd, hall⟩, hhours ▸ haside⟩
  obtain ⟨lost, hlost, hsum⟩ := hcovers
  have := congrArg Multiset.card hsum
  simpa [hlost] using this

/-- Whatever the set has been through, and in whatever pattern calls to the store fail, adding
events comes to an end; each event is reported on once, those of an hour are all stored or all left,
and those without an hour make no difference to what is done. -/
theorem addAll_settles (h : Evolved true e) {events : List Event} (hf : ∀ x ∈ events, x.Fits) :
    (∀ shake : Nat → Engine → Engine, (∀ n (u : Engine), u.Shaken (shake n u)) →
      ∃ most r n e', ((addAll events).among shake).run most (0, e) = some (r, n, e') ∧
        Batch e events r e') ∧
    (∀ r e', (addAll events).Ends Engine.Shaken e r e' → Batch e events r e') ∧
    addAll events = Report.beside (unrouted events) <$> addAll (events.filter Routed) := by
  have h := ahead_of_evolved h
  refine ⟨fun shake hs => ?_, fun r e' => batch_of_addAll h hf, addAll_routed events⟩
  obtain ⟨most, r, n, e', hrun⟩ :=
    (addAll_halts lasting_ahead Ahead.idle h hf).exists_run hs 0
  exact ⟨most, r, n, e', hrun, batch_of_addAll h hf (Activity.ends_of_run_among hs hrun)⟩

/-- An event of 14:00, one that has no hour, and one of 16:00. -/
def threeApart : List Event := [Bucket.firstEvent, Event.new (-1), Event.new 1709654400000]

def refusingSixteen (_ : Nat) (e : Engine) : Engine :=
  { e with store := { e.store with faults := [⟨.commit, some (Hour.mk 474904).eventsMap⟩] } }

/-- Of the three one is stored behind an event that was there before, one is lost, and one is to be
tried again. -/
theorem addAll_settles_of_refused : ∃ e most r n e', Evolved true e ∧
    ((addAll threeApart).among refusingSixteen).run most (0, e) = some (r, n, e') ∧
    Batch e threeApart r e' ∧ r.committed.length = 1 ∧ r.retry.length = 1 ∧ r.discarded = 1 := by
  have hrun : (Activity.run 0 (addAll [Bucket.firstEvent])
      (.fresh .inMemory .standard .standard)).any (fun (_, e) =>
        (((addAll threeApart).among refusingSixteen).run 0 (0, e)).any fun (r, _) =>
          r.committed.length == 1 && r.retry.length == 1 && r.discarded == 1) = true := by
    decide +kernel
  obtain ⟨⟨_, e⟩, hadd, hrun⟩ := (Option.any_eq_true _ _).mp hrun
  obtain ⟨⟨r, n, e'⟩, hbatch, hr⟩ := (Option.any_eq_true _ _).mp hrun
  have he : Evolved true e := .addAll (.start (Cache.sound_new _ _)) Bucket.fits_firstEvent
    (Activity.ends_of_run Engine.Shaken.refl hadd)
  have hfits : ∀ x ∈ threeApart, x.Fits := by decide +kernel
  obtain ⟨most, r', n', e'', hsettled, hb⟩ := (addAll_settles he hfits).1 refusingSixteen
    fun _ u => ⟨_, u.clock, Nat.le_refl _, rfl⟩
  rw [Activity.run_mono (Nat.zero_le most) hbatch] at hsettled
  cases hsettled
  simp only [Bool.and_eq_true, beq_iff_eq] at hr
  exact ⟨e, most, r, n, e', he, Activity.run_mono (Nat.zero_le most) hbatch, hb, hr.1.1, hr.1.2,
    hr.2⟩

end EventSet

end EventStore
