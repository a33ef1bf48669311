import EventStore.Proofs.Bucket.Operations
import EventStore.Proofs.Query.Cache

/-!
# What a bucket's index finds

Through everything that happens to an open bucket its index stays the index of the events that
the store holds (`Indexed`). So a query finds the ids of the stored events that satisfy it
(`mem_matching_iff_satisfies`), whether operations before it succeeded or failed.
-/

namespace EventStore

open Query Operation

/-- What asking a query leaves: another cache, which still only remembers. -/
def Engine.Asked (e e' : Engine) : Prop :=
  ∃ faults clock cache, e.clock ≤ clock ∧ Cache.Sound cache ∧
    e' = { e with store := { e.store with faults := faults }, clock := clock, cache := cache }

def Engine.asked (e : Engine) (query : String) : Engine :=
  { e with cache := (e.cache.getOrCompile e.clock query).2 }

namespace Bucket

-- ---- asking --------------------------------------------------------------

theorem matching_triple (b : Bucket) (query : String) (hs : e.cache.Sound) :
    (b.matching query).Triple e (fun _ e' => e.Asked e') (fun _ e' => e.Asked e') := by
  refine .bind (P := fun _ e' => e.Asked e') (.step ?_) ?_
  · rintro _ ⟨faults, clock, hc, rfl⟩
    have ha := (hs.getOrCompile clock query).2
    cases hg : e.cache.getOrCompile clock query with
    | mk c cache =>
      rw [hg] at ha
      cases c with
      | ok c => exact ⟨faults, clock, cache, hc, ha, rfl⟩
      | error p => exact ⟨faults, clock, cache, hc, ha, rfl⟩
  · rintro c _ ⟨faults, clock, cache, hc, ha, rfl⟩
    refine .lift fun positions e' hp => ?_
    obtain ⟨_, ⟨faults', clock', hc', rfl⟩, hp⟩ := Activity.ends_atomically.mp hp
    cases hp
    exact ⟨faults', clock', cache, Nat.le_trans hc hc', ha, rfl⟩

theorem criteria_result (hs : e.cache.Sound) (hc : compile query = .ok c) (rounds : Nat) :
    (criteria query).result rounds e = some (.ok c, e.asked query) := by
  rw [criteria, result_attempt]
  simp only [(hs.getOrCompile e.clock query).1, hc]
  rfl

theorem matching_result (b : Bucket) (query : String) (hs : e.cache.Sound)
    (hc : compile query = .ok c) (rounds : Nat) :
    (b.matching query).result rounds e =
      some (.ok ((e.data b).index.evaluate c), e.asked query) := by
  rw [matching, result_bind, criteria_result hs hc]
  exact result_lift ..

-- ---- the invariant -------------------------------------------------------

/-- The bucket's events are in the store, and its index is theirs. -/
def Indexed (b : Bucket) (c : Cell) : Prop :=
  ∃ entries, c.view b.eventsMap = some entries ∧
    indexOf entries.toList = .ok (c.data.index, c.data.lastId)

theorem Rebuilt.indexed {b : Bucket} (h : b.Rebuilt v c) : b.Indexed c := by
  obtain ⟨index, last, hi, rfl⟩ := h
  exact ⟨(v b.eventsMap).getD ∅, by simp [withMaps_apply], hi⟩

theorem Prepared.view_eq {b : Bucket} (h : b.Prepared v v') (hm : (v m).isSome) : v' m = v m := by
  obtain ⟨es, hes⟩ := Option.isSome_iff_exists.mp hm
  rcases h with rfl | rfl | rfl
  · rfl
  · simp only [withEvents, Request.effect]
    split
    · next h => simp [← h, hes]
    · rfl
  · rw [withMaps_apply, hes]
    split <;> rfl

theorem Indexed.prepared {b : Bucket} (h : b.Indexed c) (hp : b.Prepared c.view v)
    (state : BucketState) :
    b.Indexed ⟨{ c.data with state := state }, v⟩ := by
  obtain ⟨entries, he, hi⟩ := h
  exact ⟨entries, (hp.view_eq (by simp [he])).trans he, hi⟩

theorem Indexed.added {b : Bucket} {events : List Event} (h : b.Indexed c)
    (hr : c.data.lastId.toNat + events.length < 4294967296) (hf : ∀ e ∈ events, e.Fits) :
    b.Indexed (b.added events c) := by
  obtain ⟨entries, he, hi⟩ := h
  refine ⟨Record.applyAll entries ((b.numbered c.data.lastId events).map Event.record), ?_,
    indexOf_applyAll hi hr hf⟩
  simp [Bucket.added, he]

-- ---- a bucket's life -----------------------------------------------------

/-- What the life of a bucket can have come to: it has been opened, over whatever the store held,
and then events were added, queries asked and the index made anew, with success or without. -/
inductive Lived (b : Bucket) : Engine → Prop
  | opened {hour e e'} (hs : e.cache.Sound) (he : (openAt hour).Ends e (.ok b) e') : Lived b e'
  | addAll {e events r e'} (h : Lived b e) (hf : ∀ x ∈ events, Event.Fits x)
    (he : (b.addAll events).Ends e r e') : Lived b e'
  | rebuild {e r e'} (h : Lived b e) (he : b.rebuild.Ends e r e') : Lived b e'
  | matching {e query r e'} (h : Lived b e) (he : (b.matching query).Ends e r e') : Lived b e'
  | shaken {e e'} (h : Lived b e) (he : e.Shaken e') : Lived b e'

/-- An open bucket that can be asked. -/
structure Answering (b : Bucket) (e : Engine) : Prop where
  here : b.number < e.opened.size
  cache : e.cache.Sound
  indexed : b.Indexed (e.cell b)

theorem Spares.sound {b : Bucket} (h : b.Spares e e') (hc : e.cache.Sound) : e'.cache.Sound := by
  rw [h.rest]
  exact hc

theorem Answering.spared {b : Bucket} (h : b.Answering e) (hs : b.Spares e e')
    (hi : b.Indexed (e'.cell b)) :
    b.Answering e' := ⟨hs.size ▸ h.here, hs.sound h.cache, hi⟩

theorem Answering.asked {b : Bucket} (h : b.Answering e) (ha : e.Asked e') : b.Answering e' := by
  obtain ⟨faults, clock, cache, -, hs, rfl⟩ := ha
  exact ⟨h.here, hs, h.indexed⟩

theorem Lived.answering {b : Bucket} (h : Lived b e) : b.Answering e := by
  induction h with
  | opened hs he =>
    obtain ⟨-, hn, hsp, hr⟩ := openAt_triple _ _ _ _ he
    refine ⟨?_, hsp.sound hs, hr.indexed⟩
    rw [hsp.size, hn]
    simp [grown]
  | @addAll e events r e' _ hf he ih =>
    have := addAll_does b events _ e ih.here rfl r e' he
    cases r with
    | ok stored =>
      obtain ⟨hs, -, hc, ha⟩ := this
      refine ih.spared hs ?_
      rw [hc]
      by_cases hn : events = []
      · subst hn
        rw [added_nil]
        exact ih.indexed
      · exact ih.indexed.added (ha hn).room hf
    | error p => exact ih.spared this.1 (this.2 ▸ ih.indexed)
  | @rebuild e r e' _ he ih =>
    have := rebuild_does b _ e ih.here rfl r e' he
    cases r with
    | ok _ => exact ih.spared this.1 this.2.2.indexed
    | error p =>
      obtain ⟨hs, -, v, hp, hc⟩ := this
      exact ih.spared hs (hc ▸ ih.indexed.prepared hp _)
  | @matching e query r e' _ he ih =>
    have := matching_triple b query ih.cache r e' he
    cases r <;> exact ih.asked this
  | shaken _ he ih =>
    obtain ⟨hs, hc⟩ := Spares.of_shaken b he
    exact ih.spared hs (hc ▸ ih.indexed)

theorem mem_evaluate_of_indexOf {es : Entries} {id : UInt32}
    (hi : indexOf es.toList = .ok (i, last)) (hc : compile query = .ok c) :
    id ∈ i.evaluate c ↔
      ∃ event, eventAt? es id = some event ∧ satisfies query event.properties = true := by
  refine ((describes_of_indexOf hi).mem_evaluate ?_ c).trans ?_
  · rintro id _ _ ⟨event, hev, rfl⟩ ⟨event', hev', rfl⟩
    rw [hev] at hev'
    cases hev'
    rfl
  · simp only [holds_of_compile hc]
    constructor
    · rintro ⟨_, ⟨event, hev, rfl⟩, hm⟩
      exact ⟨event, hev, hm⟩
    · rintro ⟨event, hev, hm⟩
      exact ⟨event.properties, ⟨event, hev, rfl⟩, hm⟩

/-- At every moment of a bucket's life a query finds the stored events whose properties satisfy
it, and no others. -/
theorem mem_matching_iff_satisfies {b : Bucket} (h : Lived b e) (hc : compile query = .ok c)
    (rounds : Nat) :
    ∃ positions e' entries, (b.matching query).result rounds e = some (.ok positions, e') ∧
      e.store.entries? b.eventsMap = some entries ∧
        (∀ key ∈ entries, ∃ id, key = idKey id ∧ (eventAt? entries id).isSome) ∧
          ∀ id, id ∈ positions ↔
            ∃ event, eventAt? entries id = some event ∧
              satisfies query event.properties = true := by
  obtain ⟨-, hs, entries, he, hi⟩ := h.answering
  refine ⟨_, _, entries, matching_result b query hs hc rounds, he, fun key hk => ?_, fun id => ?_⟩
  · obtain ⟨id, rfl, -, hev⟩ := isSome_eventAt?_of_indexOf hi hk
    exact ⟨id, rfl, hev⟩
  · exact mem_evaluate_of_indexOf hi hc

/-- So it is when an event has been added to a new bucket. -/
theorem mem_matching_iff_satisfies_of_added :
    ∃ b e c, Lived b e ∧ compile "level = \"error\"" = .ok c ∧
    ∃ positions e' entries, (b.matching "level = \"error\"").result 0 e = some (.ok positions, e') ∧
      e.store.entries? b.eventsMap = some entries ∧
        (∀ key ∈ entries, ∃ id, key = idKey id ∧ (eventAt? entries id).isSome) ∧
          ∀ id, id ∈ positions ↔ ∃ event, eventAt? entries id = some event ∧
            satisfies "level = \"error\"" event.properties = true := by
  obtain ⟨b, e, stored, e', ho, ha, -⟩ := exists_firstEvent_added
  have hq : (compile "level = \"error\"").isOk = true := by decide +kernel
  cases hc : compile "level = \"error\"" with
  | error p => simp [hc, Except.isOk, Except.toBool] at hq
  | ok c =>
    have hl : Lived b e' := .addAll (.opened (Cache.sound_new _ _) ho) fits_firstEvent ha
    exact ⟨b, e', c, hl, rfl, mem_matching_iff_satisfies hl hc 0⟩

end Bucket

end EventStore
