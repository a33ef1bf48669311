import EventStore.Proofs.EventSet.Undisturbed
import EventStore.Proofs.Ingest.Report

/-!
# A set that is opened again

What a set knows is in its store. So a set can be opened at any time over the store of another one
that has worked there alone, whatever calls have failed meanwhile, and goes on as that would
(`EventSet.exists_openAll_resumes`). It may have buckets more, for maps that were made when a bucket
could not be opened, but these are empty.
-/

namespace EventStore

open Std Query Operation

-- ---- the store -----------------------------------------------------------

/-- The store is in order, and all its maps are those of buckets. -/
structure Store.Tidy (s : Store) : Prop where
  sound : s.Sound
  named : ∀ m, (s.entries? m).isSome → Bucket.Names m

namespace Store.Tidy

variable {s s' : Store}

theorem answer (h : s.Tidy) {r : Request α} (hr : r.IsProper) : (s.answer r).2.Tidy := by
  refine ⟨h.sound.answer r, fun m hm => ?_⟩
  cases ha : s.answer r with
  | mk a s' =>
    rw [ha] at hm
    cases a with
    | error p =>
      rw [h.sound.entries?_of_error ha] at hm
      exact h.named m hm
    | ok a =>
      rw [(replies_of_ok ha).2] at hm
      cases r with
      | openMap name =>
        simp only [Request.effect] at hm
        split at hm
        · next he => exact he ▸ hr
        · exact h.named m hm
      | removeMap name =>
        simp only [Request.effect] at hm
        split at hm
        · cases hm
        · exact h.named m hm
      | commit tx =>
        simp only [Request.effect, Option.isSome_map] at hm
        exact h.named m hm
      | _ => exact h.named m hm

theorem steady : Store.Steady Store.Tidy := ⟨fun hr h => h.answer hr, fun _ h => ⟨h.sound, h.named⟩⟩

end Store.Tidy

theorem Activity.WorksTo.tidy {α : Type} {x : Activity Engine α} {Q : α → Prop} {a : α}
    {e e' : Engine} (h : x.WorksTo Q) (he : x.Ends Engine.Shaken e a e') (ht : e.store.Tidy) :
    e'.store.Tidy := h.steady Store.Tidy.steady he ht

namespace EventSet

variable {store : Store} {e e' : Engine} {logs : HourLogs} {b : Bucket} {hour : Hour}
  {text : String} {range : TimeRange}

-- ---- histories -----------------------------------------------------------

/-- What a set can have come to that is alone with a store. Calls to the store may fail at any time,
but those that remove maps do not. -/
inductive Lived (store : Store) : Engine → Prop
  | start {cache settings} (hc : Cache.Sound cache) : Lived store (.fresh store cache settings)
  | add {e e' : Engine} {x r} (h : Lived store e) (hf : Event.Fits x)
    (he : (EventSet.add x).Ends e r e') : Lived store e'
  | addAll {e e' : Engine} {events r} (h : Lived store e) (hf : ∀ x ∈ events, Event.Fits x)
    (he : (EventSet.addAll events).Ends Engine.Shaken e r e') : Lived store e'
  | lock {e e' : Engine} {r} (h : Lived store e) (he : EventSet.lock.Ends e r e') : Lived store e'
  | unlock {e e' : Engine} {r} (h : Lived store e) (he : EventSet.unlock.Ends e r e') :
    Lived store e'
  | purge {e e' : Engine} {r} (h : Lived store e) (he : EventSet.purge.Ends e r e')
    (hr : ∀ p, r ≠ .error (.store p)) : Lived store e'
  | dropData {e e' : Engine} {now r} (h : Lived store e) (he : (EventSet.dropData now).Ends e r e')
    (hr : ∀ p, r ≠ .error (.store p)) : Lived store e'
  | asked {e e' : Engine} (h : Lived store e) (he : e.Asked e') : Lived store e'

theorem Lived.reached (h : Lived store e) (hv : ∀ m, store.entries? m = none) : Reached e := by
  induction h with
  | start hc => exact .start hc hv
  | add _ hf he ih => exact .add ih hf he
  | addAll _ hf he ih => exact .addAll ih hf he
  | lock _ he ih => exact .lock ih he
  | unlock _ he ih => exact .unlock ih he
  | @purge e e' r _ he hr ih =>
    cases r with
    | ok n => exact .purge ih he
    | error p =>
      obtain ⟨logs, hl⟩ := ih.holds
      obtain ⟨q, rfl⟩ := purge_triple hl _ _ he
      exact absurd rfl (hr q)
  | @dropData e e' now r _ he hr ih =>
    cases r with
    | ok n => exact .dropData ih he
    | error p =>
      -- Without a failed removal it is the time that lies too far back to be told.
      obtain ⟨logs, hl⟩ := ih.holds
      rcases dropData_triple hl now _ _ he with ⟨q, rfl⟩ | ⟨-, faults, clock, hclock, rfl⟩
      · exact absurd rfl (hr q)
      · exact .asked ih ⟨faults, clock, _, hclock, hl.cache, rfl⟩
  | asked _ he ih => exact .asked ih he

theorem Lived.tidy (h : Lived store e) (hs : store.Sound) (hv : ∀ m, store.entries? m = none) :
    e.store.Tidy := by
  induction h with
  | start hc =>
    refine ⟨hs, fun m hm => ?_⟩
    rw [show (Engine.fresh store _ _).store.entries? m = none from hv m] at hm
    cases hm
  | add _ _ he ih => exact (works_add _).tidy he ih
  | addAll _ _ he ih => exact (addAll_covers _).tidy he ih
  | lock _ he ih => exact (works_setAllLocks true).tidy he ih
  | unlock _ he ih => exact (works_setAllLocks false).tidy he ih
  | purge _ he _ ih => exact works_purge.tidy he ih
  | dropData _ he _ ih => exact (works_dropData _).tidy he ih
  | asked _ he ih =>
    obtain ⟨faults, clock, cache, -, -, rfl⟩ := he
    exact ⟨ih.sound, ih.named⟩

-- ---- the same logs -------------------------------------------------------

theorem candidates_congr {b' : Bucket} (h : b'.hour = b.hour) (log : List Event) (after : UInt32) :
    b'.candidates log text after = b.candidates log text after := by
  rw [Bucket.candidates, Bucket.numbered_congr h, Bucket.candidates]

theorem found_congr {b' : Bucket} (h : b'.hour = b.hour) (events : List Event) :
    b'.found range 0 events = b.found range 0 events := by
  rw [Bucket.found, Bucket.passed, h, Bucket.found, Bucket.passed]

/-- Sets that stand for the same logs have the same events, whatever empty buckets they have. -/
theorem Stands.flatMap_values_eq (h : Stands e logs) (h' : Stands e' logs) {p : Bucket → Bool}
    {part : Bucket → List Event} (hs : ∀ b, (part b).Sublist (b.numbered 0 (logs b.hour)))
    (hc : ∀ b b', b'.hour = b.hour → p b' = p b ∧ part b' = part b) :
    (e.registry.values.filter p).flatMap part = (e'.registry.values.filter p).flatMap part := by
  have hmem {e e' : Engine} (h : Stands e logs) (h' : Stands e' logs) {x : Event}
      (hx : x ∈ (e.registry.values.filter p).flatMap part) :
      x ∈ (e'.registry.values.filter p).flatMap part := by
    obtain ⟨b, hb, hx⟩ := List.mem_flatMap.mp hx
    obtain ⟨-, hp⟩ := List.mem_filter.mp hb
    -- An hour that only one of the sets has a bucket for has an empty log.
    cases hb' : e'.registry[b.hour]? with
    | none =>
      have hnil := hs b
      rw [h'.absent hb'] at hnil
      rw [List.sublist_nil.mp hnil] at hx
      cases hx
    | some b' =>
      obtain ⟨hp', hpart⟩ := hc b b' (h'.hour hb')
      exact List.mem_flatMap.mpr
        ⟨b', List.mem_filter.mpr ⟨mem_values hb', hp'.trans hp⟩, hpart ▸ hx⟩
  -- Both lists are in the order of tokens, so it is enough that they have the same members.
  have ho := h.pairwise_flatMap hs p
  have ho' := h'.pairwise_flatMap hs p
  refine List.Perm.eq_of_pairwise ?_ ho ho' ?_
  · exact fun x y _ _ hxy hyx => absurd (hxy.trans hyx) (Token.Before.irrefl _)
  · exact (List.perm_ext_iff_of_nodup (nodup_of_before ho) (nodup_of_before ho')).mpr
      fun x => ⟨hmem h h', hmem h' h⟩

end EventSet

/-- In both states the operation, undisturbed, comes to the same answer. -/
def Operation.Agrees (op : Operation α) (e e' : Engine) : Prop :=
  ∀ rounds, ∃ r u u', op.result rounds e = some (r, u) ∧ op.result rounds e' = some (r, u')

namespace EventSet

section

variable {e e' : Engine} {logs : HourLogs} (h : Holds e logs) (h' : Holds e' logs)
  (ha : e.store.isAvailable = true) (ha' : e'.store.isAvailable = true)
include h h' ha ha'

theorem query_agrees (text : String) (range : TimeRange) (most : Nat) (token : Token) :
    (query text range most token).Agrees e e' := by
  intro rounds
  by_cases hr : range.start ≤ range.stop
  · cases hc : compile text with
    | error p =>
      exact ⟨_, _, _, query_refused h.cache hc hr .., query_refused h'.cache hc hr ..⟩
    | ok q =>
      obtain ⟨u, hq, -⟩ := query_result h ha hc hr most token rounds
      obtain ⟨u', hq', -⟩ := query_result h' ha' hc hr most token rounds
      have hl : listed e logs text range token = listed e' logs text range token := by
        refine h.flatMap_values_eq h'.toStands
          (fun _ => (found_sublist _).trans (candidates_sublist _ _)) fun b b' hb => ⟨?_, ?_⟩
        · simp only [visits, hb]
        · simp only [found_congr hb, candidates_congr hb, hb, after, Bucket.id_congr hb]
      exact ⟨_, u, u', hq, hl ▸ hq'⟩
  · exact ⟨_, _, _, query_reversed hr .., query_reversed hr ..⟩

theorem count_agrees (text : String) (range : TimeRange) : (count text range).Agrees e e' := by
  intro rounds
  by_cases hr : range.start ≤ range.stop
  · cases hc : compile text with
    | error p =>
      exact ⟨_, _, _, checked_refused h.cache hc hr rounds, checked_refused h'.cache hc hr rounds⟩
    | ok q =>
      obtain ⟨u, hq⟩ := count_result h ha hc hr rounds
      obtain ⟨u', hq'⟩ := count_result h' ha' hc hr rounds
      have hl := h.flatMap_values_eq h'.toStands (p := visits range .start)
        (counted_sublist text range logs) fun b b' hb => ⟨?_, ?_⟩
      · exact ⟨_, u, u', hq, hl ▸ hq'⟩
      · simp only [visits, hb]
      · have hcov : covers range b' = covers range b := by simp only [covers, hb]
        simp only [counted, hcov, found_congr hb, candidates_congr hb, hb]
  · exact ⟨_, _, _, checked_reversed hr rounds e, checked_reversed hr rounds e'⟩

end

-- ---- opening again -------------------------------------------------------

/-- The second set goes on where the first one is: with its buckets, its events and its ids. -/
structure Resumes (e e' : Engine) : Prop where
  registered : ∀ {hour : Hour} {b : Bucket}, e.registry[hour]? = some b →
    ∃ b', e'.registry[hour]? = some b' ∧ (e'.data b').lastId = (e.data b).lastId ∧
      (e'.data b').state = (e.data b).state ∧ (e.data b).state.isWritable = true
  query : ∀ text range most token, (query text range most token).Agrees e e'
  count : ∀ text range, (count text range).Agrees e e'
  add : ∀ x rounds, ∃ u u', (add x).result rounds e = some (e.admitted x, u) ∧
    (add x).result rounds e' = some (e.admitted x, u')

theorem eq_of_isWritable {s t : BucketState} (hs : s.isWritable = true) (ht : t.isWritable = true)
    (h : s = .locked ↔ t = .locked) : s = t := by
  cases s <;> cases t <;> simp_all [BucketState.isWritable]

theorem Holds.resumes (h : Holds e logs) (h' : Holds e' logs) (ha : e.store.Able)
    (ha' : e'.store.Able)
    (hv : ∀ m, (e'.store.entries? m).getD ∅ = (e.store.entries? m).getD ∅)
    (hr : ∀ b : Bucket, (e.store.entries? b.eventsMap).isSome → (e'.registry[b.hour]?).isSome) :
    Resumes e e' where
  registered {hour b} hb := by
    obtain rfl := h.hour hb
    have hu := h.inUse hb
    obtain ⟨b', hb'⟩ := Option.isSome_iff_exists.mp (hr b (hu.represents.there hu.writable).1)
    have hu' := h'.inUse hb'
    have hmark : b'.isMarked e'.store.entries? = b.isMarked e.store.entries? := by
      rw [Bucket.isMarked, hv, Bucket.optionsMap, h'.hour hb']
      rfl
    refine ⟨b', hb', hu'.represents.last.trans hu.represents.last.symm, ?_, hu.writable⟩
    refine eq_of_isWritable hu'.writable hu.writable ?_
    exact (hu'.represents.marked hu'.writable).trans
      ((iff_of_eq (congrArg (· = true) hmark)).trans (hu.represents.marked hu.writable).symm)
  query := query_agrees h h' ha.available ha'.available
  count := count_agrees h h' ha.available ha'.available
  add x rounds := by
    have hadds : e'.admitted x = e.admitted x := by
      simp only [Engine.admitted, h.lastIdOf_eq, h'.lastIdOf_eq]
    obtain ⟨u, hu⟩ := add_result h ha x rounds
    obtain ⟨u', hu'⟩ := add_result h' ha' x rounds
    exact ⟨u, u', hu, hadds ▸ hu'⟩

/-- Over the store of a set another one can be opened, and resumes it. -/
theorem exists_openAll_resumes (hs : store.Sound) (hv : ∀ m, store.entries? m = none)
    (h : Lived store e) (ha : e.store.isAvailable = true) {cache : Cache} (hc : cache.Sound)
    (settings : Config.EngineSection) (rounds : Nat) :
    ∃ e', openAll.result rounds (.fresh e.store cache settings) = some (.ok (), e') ∧
      Resumes e e' := by
  obtain ⟨logs, hl⟩ := (h.reached hv).holds
  have ht := h.tidy hs hv
  have hable : e.store.Able := ⟨ht.sound, ha⟩
  obtain ⟨e', ho, hable', hview, hreg⟩ :=
    openAll_result (e := .fresh e.store cache settings) hable rfl hl.kept ht.named rounds
  have hl' : Holds e' logs := openAll_triple (e := .fresh e.store cache settings) hc hl.kept
    (fun hour hn => hl.log_eq_nil hn) _ _ (ends_of_result ho)
  exact ⟨e', ho, hl.resumes hl' hable hable' hview hreg⟩

/-- So it is in a new directory after an event has been added and its bucket locked. -/
theorem exists_openAll_resumes_of_locked : ∃ e e' : Engine, Store.inNewDirectory.Sound ∧
    (∀ m, Store.inNewDirectory.entries? m = none) ∧ Lived .inNewDirectory e ∧
    e.store.isAvailable = true ∧
    e.registry.values.map (fun b => ((e.data b).lastId, (e.data b).state)) = [(1, .locked)] ∧
    openAll.result 0 (.fresh e.store .standard .standard) = some (.ok (), e') ∧ Resumes e e' := by
  obtain ⟨hs, hv⟩ := Store.sound_inNewDirectory
  obtain ⟨_, e, hend, he⟩ := exists_ends_of_isOk 0 (add Bucket.firstEvent >>= fun _ => lock)
    (.fresh .inNewDirectory .standard .standard) (fun e => e.store.isAvailable &&
      e.registry.values.map (fun b => ((e.data b).lastId, (e.data b).state)) == [(1, .locked)])
    (by decide +kernel)
  obtain ⟨stored, e₁, hadd, hlock⟩ := ends_bind_ok hend
  have hl : Lived .inNewDirectory e :=
    .lock (.add (.start (Cache.sound_new _ _))
      (Bucket.fits_firstEvent _ (List.mem_singleton_self _)) hadd) hlock
  obtain ⟨ha, hstate⟩ := (Bool.and_eq_true ..).mp he
  obtain ⟨e', ho, hr⟩ := exists_openAll_resumes hs hv hl ha (Cache.sound_new _ _) .standard 0
  exact ⟨e, e', hs, hv, hl, ha, eq_of_beq hstate, ho, hr⟩

end EventSet

end EventStore
