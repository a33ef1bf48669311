import EventStore.Proofs.Bucket.Ledger
import EventStore.Proofs.EventSet.Batch
import EventStore.Proofs.EventSet.Undisturbed

/-!
# Events that come to a set undisturbed

What there is of an hour are the data of its bucket, if one is registered, and its maps in the store
(`Portion`). What adding events makes of that is settled by what there was, and it does not matter
whether they come at once or one after the other (`Portion.after_after`). So over a store that
refuses no calls, what there is in the end depends on nothing but which events have come to each
hour, and in what order (`Accrues.alike`).
-/

namespace EventStore

open Std Query Operation

namespace Bucket

variable {b b' : Bucket} {c : Cell} {v : View} {events more : List Event}

-- ---- buckets of one hour -------------------------------------------------

theorem exists_number_of_hour (h : b'.hour = b.hour) : ∃ n, b' = { b with number := n } := by
  obtain ⟨n, hour, id, named⟩ := b
  obtain ⟨n', hour', id', named'⟩ := b'
  obtain rfl : hour' = hour := h
  obtain rfl : id' = id := Option.some.inj (named'.symm.trans named)
  exact ⟨n', rfl⟩

theorem numbered_renumber (b : Bucket) (n : Nat) (last : UInt32) (events : List Event) :
    numbered { b with number := n } last events = b.numbered last events := by
  induction events generalizing last with
  | nil => rfl
  | cons x events ih => exact congrArg _ (ih (last + 1))

theorem added_renumber (b : Bucket) (n : Nat) (events : List Event) (c : Cell) :
    added { b with number := n } events c = b.added events c := by
  simp only [added, numbered_renumber]
  rfl

-- ---- one batch after another ---------------------------------------------

theorem added_added (b : Bucket) (events more : List Event) (c : Cell) :
    b.added more (b.added events c) = b.added (events ++ more) c := by
  have hlast : c.data.lastId + events.length.toUInt32 + more.length.toUInt32 =
      c.data.lastId + (events ++ more).length.toUInt32 := by
    rw [List.length_append, UInt32.add_assoc]
    simp only [Nat.toUInt32_eq, UInt32.ofNat_add]
  have hview : (b.added more (b.added events c)).view = (b.added (events ++ more) c).view := by
    funext m
    simp only [added, numbered_append, List.map_append]
    split
    · cases c.view m <;> simp [Record.applyAll_append]
    · rfl
  refine congrArg₂ Cell.mk ?_ hview
  simp only [added, numbered_append, indexAll_append, hlast]

-- ---- a bucket's own maps -------------------------------------------------

/-- The bucket's own maps, and no others. -/
def own (b : Bucket) (v : View) : View := fun m =>
  if m = b.eventsMap ∨ m = b.optionsMap then v m else none

@[simp] theorem own_eventsMap (b : Bucket) (v : View) : b.own v b.eventsMap = v b.eventsMap :=
  if_pos (.inl rfl)

@[simp] theorem own_optionsMap (b : Bucket) (v : View) : b.own v b.optionsMap = v b.optionsMap :=
  if_pos (.inr rfl)

theorem own_withMaps (b : Bucket) (v : View) : b.own (b.withMaps v) = b.withMaps (b.own v) := by
  funext m
  by_cases hm : m = b.eventsMap ∨ m = b.optionsMap <;> simp [own, withMaps_apply, hm]

theorem isMarked_own (b : Bucket) (v : View) : b.isMarked (b.own v) = b.isMarked v := by
  rw [isMarked, own_optionsMap, isMarked]

theorem markedState_own (b : Bucket) (v : View) : b.markedState (b.own v) = b.markedState v := by
  rw [markedState, isMarked_own, markedState]

def ownCell (b : Bucket) (c : Cell) : Cell := ⟨c.data, b.own c.view⟩

theorem ownCell_added (b : Bucket) (events : List Event) (c : Cell) :
    b.ownCell (b.added events c) = b.added events (b.ownCell c) := by
  refine congrArg (Cell.mk _) (funext fun m => ?_)
  by_cases hm : m = b.eventsMap
  · simp [hm, added, ownCell]
  · simp [hm, added, ownCell, own]

theorem ownCell_entered (b : Bucket) (locked : Bool) (c : Cell) :
    b.ownCell (b.entered locked c) = b.entered locked (b.ownCell c) := by
  unfold entered
  by_cases hs : locked = true ∧ c.data.state ≠ .locked
  · rw [if_pos hs, if_pos (show locked = true ∧ (b.ownCell c).data.state ≠ .locked from hs)]
    refine congrArg (Cell.mk _) (funext fun m => ?_)
    by_cases hm : m = b.optionsMap
    · simp [hm, marked, ownCell]
    · simp [hm, marked, ownCell, own]
  · rw [if_neg hs, if_neg (show ¬(locked = true ∧ (b.ownCell c).data.state ≠ .locked) from hs)]

end Bucket

namespace EventSet

variable {e e' u : Engine} {b b' : Bucket} {hour : Hour} {events more : List Event}
  {P : Bucket → Cell → Prop} {before logs : HourLogs}

-- ---- what there is of an hour --------------------------------------------

/-- What there is of an hour: the data of its bucket, if one is registered, and its maps. -/
structure Portion where
  data : Option BucketData
  view : View

/-- What there is of the bucket's hour, no matter which bucket of the hour is registered. -/
def portion (e : Engine) (b : Bucket) : Portion :=
  ⟨e.registry[b.hour]?.map e.data, b.own e.store.entries?⟩

/-- The cell of the bucket that is found or made for the hour. New ones may have to be locked. -/
def Portion.cell? (p : Portion) (b : Bucket) (locked : Bool) : Option Cell :=
  match p.data with
  | some d => some ⟨d, p.view⟩
  | none =>
    match Bucket.indexOf ((p.view b.eventsMap).getD ∅).toList with
    | .ok (index, last) =>
      some (b.entered locked ⟨⟨index, last, b.markedState p.view, false⟩, b.withMaps p.view⟩)
    | .error _ => none

/-- What there is after events have come to the hour, if any do. -/
def Portion.after (p : Portion) (b : Bucket) (locked : Bool) (events : List Event) : Portion :=
  if events = [] then p
  else match p.cell? b locked with
  | some c => ⟨some (b.added events c).data, (b.added events c).view⟩
  | none => p

@[simp] theorem Portion.after_nil (p : Portion) (b : Bucket) (locked : Bool) :
    p.after b locked [] = p := if_pos rfl

theorem Portion.after_of_cell? {p : Portion} {locked : Bool} {c : Cell} (hn : events ≠ [])
    (hc : p.cell? b locked = some c) :
    p.after b locked events = ⟨some (b.added events c).data, (b.added events c).view⟩ := by
  rw [after, if_neg hn, hc]

/-- It does not matter whether events come at once or one after the other. -/
theorem Portion.after_after (p : Portion) (b : Bucket) (locked : Bool)
    (events more : List Event) :
    (p.after b locked events).after b locked more = p.after b locked (events ++ more) := by
  by_cases hn : events = []
  · rw [hn, after_nil, List.nil_append]
  by_cases hm : more = []
  · rw [hm, after_nil, List.append_nil]
  have hnm : events ++ more ≠ [] := by simp [hn]
  cases hc : p.cell? b locked with
  | some c =>
    rw [after_of_cell? hn hc, after_of_cell? hnm hc,
      after_of_cell? (c := b.added events c) hm rfl, Bucket.added_added]
  | none =>
    have hsame {xs : List Event} : p.after b locked xs = p := by
      unfold after
      split
      · rfl
      · rw [hc]
    rw [hsame, hsame, hsame]

theorem portion_of_hour (h : b'.hour = b.hour) (e : Engine) : portion e b' = portion e b := by
  obtain ⟨n, rfl⟩ := Bucket.exists_number_of_hour h
  rfl

theorem Portion.after_of_hour (h : b'.hour = b.hour) (p : Portion) (locked : Bool)
    (events : List Event) : p.after b' locked events = p.after b locked events := by
  obtain ⟨n, rfl⟩ := Bucket.exists_number_of_hour h
  simp only [after, Bucket.added_renumber]
  rfl

-- ---- adding to an hour ---------------------------------------------------

theorem Gets.locked (hg : Gets hour e b e') : e'.locked = e.locked := by
  cases hg with
  | found _ hs =>
    obtain ⟨faults, clock, -, rfl⟩ := hs
    rfl
  | made _ _ _ hb _ => rw [hb.rest]

theorem Gets.cell? (h : Throughout P e) (hg : Gets hour e b e') :
    (portion e b).cell? b e.locked = some (b.ownCell (e'.cell b)) := by
  cases hg with
  | found hb hs =>
    obtain rfl := h.hour hb
    rw [(Bucket.Spares.of_shaken b hs).2, Portion.cell?, portion, hb]
    rfl
  | made hn hh hr hb hreg =>
    subst hh
    obtain ⟨index, last, hi, rfl⟩ := hr
    rw [hb.cell, Bucket.ownCell_entered, Portion.cell?, portion, hn]
    dsimp only [Option.map_none]
    rw [Bucket.own_eventsMap, hi]
    dsimp only
    rw [Bucket.markedState_own, ← Bucket.own_withMaps]
    rfl

theorem Confined.portion (hc : Confined b.hour e e') (h : Throughout P e)
    (hne : b'.hour ≠ b.hour) : portion e' b' = portion e b' := by
  have hview : b'.own e'.store.entries? = b'.own e.store.entries? := by
    funext m
    by_cases hm : m = b'.eventsMap ∨ m = b'.optionsMap
    · simp only [Bucket.own, if_pos hm]
      rcases hm with rfl | rfl
      · exact hc.view _ (fun he => hne (Hour.eventsMap_inj b'.named b.named he))
          (Hour.eventsMap_ne_optionsMap b'.named b.named)
      · exact hc.view _ (Hour.eventsMap_ne_optionsMap b.named b'.named).symm
          (fun ho => hne (Hour.optionsMap_inj b'.named b.named ho))
    · simp only [Bucket.own, if_neg hm]
  refine congrArg₂ Portion.mk ?_ hview
  rw [hc.registry b'.hour hne]
  cases hr : e.registry[b'.hour]? with
  | none => rfl
  | some d => exact congrArg some (hc.data d (h.registered hr) (h.hour hr ▸ hne))

theorem addIn_portions (hl : Bucket.Lasting P) (h : Throughout P e) (hour : Hour)
    (hn : events ≠ []) : Triple (do (← getOrCreate hour).addAll events) e
      (fun _ e' => e'.locked = e.locked ∧ Confined hour e e' ∧ ∀ b : Bucket,
        portion e' b = (portion e b).after b e.locked (if b.hour = hour then events else []))
      (fun _ _ => True) := by
  refine .bind (P := fun b u => Gets hour e b u) ((getOrCreate_effect hour e).mono
    (fun _ _ hg => hg) fun _ _ _ => trivial) fun b u hg => ?_
  obtain ⟨hu, hb, rfl⟩ := h.gets hl hg
  refine (Bucket.addAll_does b events _ u (hu.here hb) rfl).mono ?_ fun _ _ _ => trivial
  rintro stored e' ⟨hs, -, hc, -⟩
  have hv : e'.store.entries? = (b.added events (u.cell b)).view := congrArg Cell.view hc
  have hconfined : Confined b.hour e e' := (hg.confined hl h).trans
    (.of_spares hu hb hs (hv ▸ b.confined_added events (u.cell b)))
  refine ⟨(locked_eq hs).trans hg.locked, hconfined, fun b' => ?_⟩
  split
  · next hh =>
    have hreg : e'.registry[b.hour]? = some b := registry_eq hs ▸ hb
    rw [portion_of_hour hh, portion_of_hour hh, Portion.after_of_hour hh,
      Portion.after_of_cell? hn (hg.cell? h), ← Bucket.ownCell_added, ← hc, portion, hreg]
    rfl
  · next hh => rw [hconfined.portion h hh, Portion.after_nil]

-- ---- undisturbed ---------------------------------------------------------

/-- Since `e` these events have come to the hours, nothing else has happened to the buckets or in
the store, and the store still refuses no calls. -/
structure Accrues (e : Engine) (before logs : HourLogs) (e' : Engine) : Prop where
  holds : Holds e' fun hour => before hour ++ logs hour
  able : e'.store.Able
  locked : e'.locked = e.locked
  portions : ∀ b : Bucket, portion e' b = (portion e b).after b e.locked (logs b.hour)
  others : ∀ m, ¬Bucket.Names m → e'.store.entries? m = e.store.entries? m

theorem Accrues.refl (h : Holds e before) (ha : e.store.Able) :
    Accrues e before (fun _ => []) e where
  holds := by
    simp only [List.append_nil]
    exact h
  able := ha
  locked := rfl
  portions _ := (Portion.after_nil _ _ _).symm
  others _ _ := rfl

theorem Accrues.of_eq (h : Accrues e before logs u) (hc : e'.cache = u.cache)
    (hf : e'.registering = u.registering) (hs : e'.store = u.store) (hl : e'.locked = u.locked)
    (ho : e'.opened = u.opened) (hr : e'.registry = u.registry) : Accrues e before logs e' where
  holds := ⟨h.holds.of_eq (hc ▸ h.holds.cache) ho hr (hs ▸ rfl), hf.trans h.holds.free⟩
  able := hs ▸ h.able
  locked := hl.trans h.locked
  portions b := by
    rw [← h.portions b, portion, portion, hr, hs, show e'.data = u.data from ?_]
    funext b
    rw [Engine.data, ho, Engine.data]
  others m hm := by rw [hs, h.others m hm]

theorem throughout_of_holds (h : Holds e logs) : Throughout (fun _ _ => True) e where
  cache := h.cache
  free := h.free
  hour := h.hour
  here hb := (h.inUse hb).here
  apart {b c} hb hc hn := by
    by_cases hh : b.hour = c.hour
    · exact Option.some.inj ((hh ▸ hb : e.registry[c.hour]? = some b).symm.trans hc)
    · exact absurd hn (h.apart hb hc hh)
  each _ := trivial

theorem lasting_true : Bucket.Lasting fun _ _ => True where
  view _ _ _ := trivial
  prepared _ _ := trivial
  rebuilt _ := trivial
  added _ _ _ := trivial
  marked _ _ _ _ := trivial

/-- Events of an hour can be added if there is room, and that is all that happens. -/
theorem Accrues.exists_addIn (h : Accrues e before logs u) (hn : events ≠ [])
    (hin : ∀ x ∈ events, x.hour? = some hour ∧ x.Fits)
    (hroom : (before hour ++ logs hour).length + events.length < 4294967296) (rounds : Nat) :
    ∃ b v stored e', (getOrCreate hour).result rounds u = some (.ok b, v) ∧
      (b.addAll events).result rounds v = some (.ok stored, e') ∧
      stored.length = events.length ∧
      Accrues e before (logs.put hour (logs hour ++ events)) e' := by
  obtain ⟨id, hid⟩ : ∃ id, hour.tokenSeconds? = some id := by
    obtain ⟨x, rest, rfl⟩ := List.exists_cons_of_ne_nil hn
    have hx := (hin x List.mem_cons_self).1
    exact Option.isSome_iff_exists.mp (Option.filter_eq_some_iff.mp hx).2
  obtain ⟨b, v, hget, hav, hv, hb⟩ := getOrCreate_result h.holds h.able hid rounds
  obtain rfl := hv.hour hb
  have hu := hv.inUse hb
  have hrep := hu.represents
  obtain ⟨c', hruns⟩ := Bucket.addAll_runs hn hrep.idle hu.writable (hrep.there hu.writable).1
    fun x hx => Event.contains_of_hour? (hin x hx).1
  have hlast : ((v.cell b).data.lastId).toNat = (before b.hour ++ logs b.hour).length := by
    rw [hrep.last, Nat.toUInt32_eq,
      UInt32.toNat_ofNat_of_lt' (Nat.lt_of_le_of_lt (Nat.le_add_right ..) hroom)]
  rw [if_pos (by rw [hlast]; exact hroom)] at hruns
  obtain ⟨e', hadd, -, ha', -⟩ := hruns v rounds hu.here rfl hav
  have hop : Operation.result rounds (do (← getOrCreate b.hour).addAll events) u =
      some (.ok (b.numbered (v.cell b).data.lastId events), e') := by
    rw [result_bind, hget]
    exact hadd
  obtain ⟨hlocked, hconfined, hportions⟩ := addIn_portions lasting_true
    (throughout_of_holds h.holds) b.hour hn _ _ (ends_of_result hop)
  obtain ⟨hholds, -⟩ := addTo_triple hv hb events (fun x hx => (hin x hx).2) _ _
    (ends_of_result hadd)
  refine ⟨b, v, _, e', hget, hadd, Bucket.length_numbered .., ?_, ha', hlocked.trans h.locked,
    fun b' => ?_, fun m hm => ?_⟩
  · refine cast (congrArg (Holds e') (funext fun other => ?_)) hholds
    simp only [HourLogs.put]
    split
    · next hh => rw [hh, List.append_assoc]
    · rfl
  · rw [hportions b', h.portions b', h.locked, Portion.after_after]
    simp only [HourLogs.put]
    split
    · next hh => rw [hh]
    · rw [List.append_nil]
  · rw [← h.others m hm]
    refine hconfined.view m ?_ ?_
    · rintro rfl
      exact hm ⟨b, .inl rfl⟩
    · rintro rfl
      exact hm ⟨b, .inr rfl⟩

/-- The same maps are in the store, and the same is in the buckets that are registered. -/
structure Alike (e e' : Engine) : Prop where
  entries : e'.store.entries? = e.store.entries?
  data : ∀ hour : Hour, e'.registry[hour]?.map e'.data = e.registry[hour]?.map e.data

/-- What there is in the end depends on nothing but what has come to the hours. -/
theorem Accrues.alike (h : Accrues e before logs u) (h' : Accrues e before logs e') :
    Alike u e' := by
  have hportion (b : Bucket) : portion e' b = portion u b :=
    (h'.portions b).trans (h.portions b).symm
  refine ⟨funext fun m => ?_, fun hour => ?_⟩
  · by_cases hm : Bucket.Names m
    · obtain ⟨b, rfl | rfl⟩ := hm
      · simpa [portion] using congrArg (fun p : Portion => p.view b.eventsMap) (hportion b)
      · simpa [portion] using congrArg (fun p : Portion => p.view b.optionsMap) (hportion b)
    · rw [h'.others m hm, h.others m hm]
  · cases hid : hour.tokenSeconds? with
    | some id => exact congrArg Portion.data (hportion ⟨0, hour, id, hid⟩)
    | none =>
      have hnone {v : Engine} {logs : HourLogs} (hv : Holds v logs) : v.registry[hour]? = none := by
        cases hb : v.registry[hour]? with
        | none => rfl
        | some b =>
          obtain rfl := hv.hour hb
          rw [b.named] at hid
          cases hid
      rw [hnone h.holds, hnone h'.holds]
      rfl

end EventSet

end EventStore
