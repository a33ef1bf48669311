import EventStore.Engine.Service
import EventStore.Proofs.EventSet.Convergence
import EventStore.Proofs.EventSet.Overlooking
import EventStore.Proofs.Ingest.Balance
import EventStore.Proofs.Engine.Seek
import EventStore.Proofs.Query.History

/-!
# The cache is invisible

Engines that are the same but for their caches and clocks answer the same to whatever is done with
them, as long as the caches hold what queries compile to. So what is found does not depend on how
long the cache keeps queries, how many it keeps or what was asked before (`cache_invisible`).
-/

namespace EventStore

open Query

/-- The same engine with another cache and at another time. -/
def Engine.recalling (e : Engine) (c : Cache) (clock : Nat) : Engine :=
  { e with cache := c, clock := clock }

/-- The engines differ in their caches and clocks alone, and each cache only remembers. -/
structure Engine.SameButCache (e e' : Engine) : Prop where
  sound : e.cache.Sound
  sound' : e'.cache.Sound
  eq : e' = e.recalling e'.cache e'.clock

namespace Engine.SameButCache

theorem recalling {e : Engine} {c c' : Cache} (h : c.Sound) (h' : c'.Sound) (clock clock' : Nat) :
    SameButCache (e.recalling c clock) (e.recalling c' clock') := ⟨h, h', rfl⟩

theorem symm {e e' : Engine} (h : SameButCache e e') : SameButCache e' e := by
  refine ⟨h.sound', h.sound, ?_⟩
  rw [h.eq]
  rfl

theorem shaken {u v u' : Engine} (h : SameButCache u v) (hs : u.Shaken u') :
    ∃ v', v.Shaken v' ∧ SameButCache u' v' := by
  obtain ⟨hu, hv, he⟩ := h
  obtain ⟨faults, clock, -, rfl⟩ := hs
  refine ⟨{ v with store := { v.store with faults := faults } },
    ⟨faults, v.clock, Nat.le_refl _, rfl⟩, hu, hv, ?_⟩
  rw [he]
  rfl

theorem circumstantial : Circumstantial SameButCache where
  eq h := by
    rw [h.eq]
    rfl
  amid {e e' u} h hs := by
    have hcache : u.cache = e.cache := congrArg Surroundings.cache hs
    refine ⟨hcache ▸ h.sound, h.sound', ?_⟩
    rw [h.eq]
    obtain ⟨⟩ := u
    cases hs
    rfl

variable {act : Engine → α × Engine}

theorem atomically
    (ha : ∀ e c t, act (Engine.recalling e c t) = ((act e).1, (act e).2.recalling c t)) :
    (Activity.atomically act).Respects SameButCache := by
  refine ⟨fun e e' h => ?_, fun _ => trivial⟩
  obtain ⟨hs, hs', he⟩ := h
  have hcache : (act e).2.cache = e.cache :=
    congrArg (·.2.cache) (ha e e.cache e.clock)
  rw [he, ha]
  exact ⟨rfl, rfl, hcache ▸ hs, hs', rfl⟩

theorem observe {f : Engine → α} (hf : ∀ e c t, f (Engine.recalling e c t) = f e) :
    (Activity.observe f).Respects SameButCache :=
  atomically fun e c t => congrArg (·, e.recalling c t) (hf e c t)

end Engine.SameButCache

open Engine (SameButCache)
open Engine.SameButCache (circumstantial)

-- ---- buckets -------------------------------------------------------------

namespace Bucket

open Operation

variable (b : Bucket)

theorem respects_discard (goOn : Bool) : (b.discard goOn).Respects SameButCache := by
  have hrestart : Operation.Respects SameButCache (do
      b.setIndex .empty 0
      if goOn then
        call (.openMap b.eventsMap)
        call (.openMap b.optionsMap)
        b.setState .ready
      else
        b.setState .dropped
      return true) := by
    refine .bind (.lift (b.respects_change circumstantial _)) fun _ => ?_
    cases goOn with
    | true =>
      exact b.respects_openMaps circumstantial
        (.bind (.lift (b.respects_change circumstantial _)) fun _ => .pure' true)
    | false => exact .bind (.lift (b.respects_change circumstantial _)) fun _ => .pure' true
  refine b.respects_alone circumstantial
    (.bind (.lift (b.respects_observe circumstantial _)) fun state => ?_)
  split
  · exact .pure' false
  dsimp only
  split
  · exact .bind (circumstantial.call _) fun _ => .bind (circumstantial.call _) fun _ => hrestart
  · exact hrestart

theorem respects_criteria (text : String) : (criteria text).Respects SameButCache := by
  refine ⟨fun e e' h => ?_, fun _ => trivial⟩
  obtain ⟨hs, hs', he⟩ := h
  obtain ⟨ha, hc⟩ := hs.getOrCompile e.clock text
  obtain ⟨ha', hc'⟩ := hs'.getOrCompile e'.clock text
  refine ⟨rfl, ?_, hc, hc', ?_⟩
  · dsimp only
    rw [ha, ha']
  · dsimp only
    rw [he]
    rfl

theorem respects_matching (text : String) : (b.matching text).Respects SameButCache :=
  .bind (respects_criteria text) fun _ => .lift (b.respects_observe circumstantial _)

theorem respects_load (id : UInt32) : (b.load id).Respects SameButCache := by
  refine .bind (circumstantial.call _) fun value => ?_
  cases value with
  | none => exact .pure' none
  | some value =>
    dsimp only
    split
    · exact .pure' _
    · exact .throw' _

theorem respects_collect (range : TimeRange) (most : Nat) (ids : List UInt32)
    (found : List Event) : (b.collect range most ids found).Respects SameButCache := by
  induction ids generalizing found with
  | nil => exact .pure' _
  | cons id rest ih =>
    unfold collect
    split
    · exact .pure' _
    refine .bind (b.respects_load id) fun loaded => ?_
    cases loaded with
    | none => exact ih _
    | some x => exact ih _

theorem respects_search (text : String) (most : Nat) (after : UInt32) (range : TimeRange) :
    (b.search text most after range).Respects SameButCache := by
  refine .bind (b.respects_matching text) fun positions =>
    .bind (.lift (b.respects_observe circumstantial _)) fun state => ?_
  split
  · exact .pure' []
  dsimp only
  split
  · exact .pure' []
  split
  · exact .pure' []
  split
  · exact b.respects_collect ..
  · refine .bind ?_ fun first => b.respects_collect ..
    exact Seek.seek_induction (P := fun op => Operation.Respects SameButCache op) _
      (fun n => .pure' n) fun _ _ _ h =>
        .bind (.bind (b.respects_load _) fun _ => .pure' _) fun t => h t

end Bucket

-- ---- sets ----------------------------------------------------------------

namespace EventSet

open Operation

theorem respects_searchAll (text : String) (range : TimeRange) (most : Nat) (token : Token)
    (bs : List Bucket) (found : List Event) :
    (searchAll text range most token bs found).Respects SameButCache := by
  induction bs generalizing found with
  | nil => exact .pure' _
  | cons b rest ih =>
    refine .bind (b.respects_search ..) fun more => ?_
    dsimp only
    split
    · exact .pure' _
    · exact ih _

theorem respects_query (text : String) (range : TimeRange) (most : Nat) (token : Token) :
    (query text range most token).Respects SameButCache :=
  .bind (.result _) fun _ => .bind (Bucket.respects_criteria text) fun _ =>
    .bind (.lift (.bind (respects_ofRegistry circumstantial _) fun _ => .pure' _)) fun _ =>
      respects_searchAll ..

theorem respects_countAll (text : String) (range : TimeRange) (bs : List Bucket) (n : Nat) :
    (countAll text range bs n).Respects SameButCache := by
  induction bs generalizing n with
  | nil => exact .pure' n
  | cons b rest ih =>
    unfold countAll
    split
    · exact .bind (.bind (b.respects_matching text) fun _ => .pure' _) fun _ => ih _
    · exact .bind (b.respects_search ..) fun _ => ih _

theorem respects_count (text : String) (range : TimeRange) :
    (count text range).Respects SameButCache :=
  .bind (.result _) fun _ => .bind (Bucket.respects_criteria text) fun _ =>
    .bind (.lift (.bind (respects_ofRegistry circumstantial _) fun _ => .pure' _)) fun _ =>
      respects_countAll ..

theorem respects_evict (hours : List Hour) (dropped : Nat) :
    (evict hours dropped).Respects SameButCache := by
  induction hours generalizing dropped with
  | nil => exact .pure' dropped
  | cons hour rest ih =>
    refine .bind (.lift (respects_ofRegistry circumstantial _)) fun r => ?_
    cases r with
    | none => exact ih dropped
    | some b =>
      refine .bind (b.respects_discard false) fun done => ?_
      cases done with
      | false => exact ih dropped
      | true =>
        refine .bind (.lift (circumstantial.whenever (fun _ _ => rfl) fun e s => ?_))
          fun _ => ih (dropped + 1)
        rw [show (e.amid s).registry = e.registry from rfl]
        split <;> rfl

theorem respects_purge : purge.Respects SameButCache :=
  .bind (.lift (respects_registry circumstantial)) fun _ => respects_evict _ _

theorem respects_dropData (now : Instant) : (dropData now).Respects SameButCache := by
  refine .bind (.lift (circumstantial.observe fun _ _ => rfl)) fun _ => ?_
  split
  · exact .bind (.lift (respects_registry circumstantial)) fun _ => respects_evict _ _
  · exact .throw' _

theorem respects_setAllLocks (locked : Bool) : Operation.Respects SameButCache (do
    setLocked locked
    (← buckets).forM fun b => unlessDropped (b.setLock locked)) := by
  refine .bind (.lift (circumstantial.atomically fun _ _ => rfl)) fun _ =>
    .bind (.lift (respects_ofRegistry circumstantial _)) fun _ => .forM (fun b => ?_) _
  refine .bind (.outcome (b.respects_setLock circumstantial locked)) fun r => ?_
  split
  · exact .pure' ()
  · exact .pure' ()
  · exact .throw' _

theorem Call.activity_respects (c : Call) : c.activity.Respects SameButCache :=
  match c with
  | add x => respects_add circumstantial x
  | addAll events => respects_addAll circumstantial events
  | getOrCreate hour => respects_getOrCreate circumstantial hour
  | query text range most token => respects_query text range most token
  | purge => respects_purge
  | dropData now => respects_dropData now
  | lock => respects_setAllLocks true
  | unlock => respects_setAllLocks false

end EventSet

-- ---- the queue and the loops ---------------------------------------------

namespace Ingest

theorem respects_queueDepth : queueDepth.Respects SameButCache :=
  SameButCache.observe fun _ _ _ => rfl

theorem respects_isStopping : isStopping.Respects SameButCache :=
  SameButCache.observe fun _ _ _ => rfl

theorem respects_change {f : Engine → Engine}
    (h : ∀ e c t, f (Engine.recalling e c t) = (f e).recalling c t) :
    (Activity.change f).Respects SameButCache :=
  SameButCache.atomically fun e c t => congrArg (Prod.mk ()) (h e c t)

theorem respects_addAll (events : List Event) : (addAll events).Respects SameButCache :=
  .bind (respects_settings circumstantial) fun _ =>
    .bind (respects_change fun _ _ _ => rfl) fun _ =>
    .bind (respects_change fun _ _ _ => rfl) fun _ => .pure' _

theorem respects_drainOnce : drainOnce.Respects SameButCache := by
  rw [drainOnce_eq]
  refine .bind (SameButCache.atomically fun _ _ _ => rfl) fun _ => ?_
  exact respects_drainBatch circumstantial (fun _ => respects_change fun _ _ _ => rfl)
    (fun _ => respects_change fun _ _ _ => rfl) (fun _ => respects_change fun _ _ _ => rfl) _

theorem respects_drainPending : drainPending.Respects SameButCache := by
  refine .goRound (fun committed => .bind respects_queueDepth fun depth => ?_) 0
  split
  · exact .pure' _
  · exact .bind respects_drainOnce fun _ => .pure' _

theorem Call.activity_respects (c : Call) : c.activity.Respects SameButCache :=
  match c with
  | add x => .bind (respects_addAll [x]) fun _ => .pure' _
  | addAll events => respects_addAll events
  | drainOnce => respects_drainOnce
  | drainPending => respects_drainPending
  | shutdown => .bind (respects_change fun _ _ _ => rfl) fun _ => respects_drainPending

end Ingest

namespace Service

theorem respects_drainRound : drainRound.Respects SameButCache := by
  refine .bind Ingest.respects_isStopping fun stopping => ?_
  split
  · exact .bind Ingest.respects_drainPending fun _ => .pure' _
  refine .bind Ingest.respects_queueDepth fun depth => ?_
  dsimp only
  split
  · exact .bind Ingest.respects_drainOnce fun _ => .pure' _
  · exact .pure' _

theorem respects_purgeExpired : purgeExpired.Respects SameButCache := by
  refine ⟨fun e e' h => ⟨rfl, rfl, ?_⟩, fun _ => trivial⟩
  have hpurge {c : Cache} (hc : c.Sound) (now : Nat) : (c.purgeExpired now).2.Sound := by
    rw [Cache.purgeExpired_eq]
    exact fun x hx => hc x (List.mem_filter.mp hx).1
  obtain ⟨hs, hs', he⟩ := h
  refine ⟨hpurge hs _, hpurge hs' _, ?_⟩
  dsimp only
  rw [he]
  rfl

theorem respects_sweepRound (now : Instant) : (sweepRound now).Respects SameButCache := by
  refine .bind Ingest.respects_isStopping fun stopping => ?_
  split
  · exact .pure' _
  refine .bind (EventSet.respects_dropData now) fun r => ?_
  split
  · exact .pure' _
  · exact .bind respects_purgeExpired fun _ => .pure' _

theorem Loop.activity_respects (l : Loop) : l.activity.Respects SameButCache := by
  refine .goRound (fun _ => .bind ?_ fun goesOn => ?_) ()
  · cases l with
    | drain => exact respects_drainRound
    | sweep now => exact respects_sweepRound now
  · cases goesOn with
    | true => exact .pure' _
    | false => exact .pure' _

-- ---- whatever is done ----------------------------------------------------

/-- What is done with an engine: calls to its set of events, to a bucket and to its queue, and the
loops in the background. -/
inductive Call
  | set (c : EventSet.Call)
  | count (text : String) (range : TimeRange)
  | matching (b : Bucket) (text : String)
  | search (b : Bucket) (text : String) (most : Nat) (after : UInt32) (range : TimeRange)
  | queue (c : Ingest.Call)
  | loop (l : Loop)

namespace Call

abbrev Answer : Call → Type
  | set c => c.Answer
  | count .. => Except EngineError Nat
  | matching .. => Except EngineError Positions
  | search .. => Except EngineError (List Event)
  | queue c => c.Answer
  | loop _ => Unit

def activity : (c : Call) → Activity Engine c.Answer
  | set c => c.activity
  | count text range => (EventSet.count text range).run
  | matching b text => (b.matching text).run
  | search b text most after range => (b.search text most after range).run
  | queue c => c.activity
  | loop l => l.activity

theorem activity_respects (c : Call) : c.activity.Respects SameButCache :=
  match c with
  | set c => c.activity_respects
  | count text range => EventSet.respects_count text range
  | matching b text => b.respects_matching text
  | search b text most after range => b.respects_search text most after range
  | queue c => c.activity_respects
  | loop l => l.activity_respects

end Call

/-- After any calls to a cache, whatever its size and however long it keeps entries, it answers
what the compiler does, it keeps to its bounds, and no engine with it can be told from one with any
other cache: alone each call comes to the same answer, and together the calls come to the same
answers in the same order of steps. -/
theorem cache_invisible (ttl maxEntries : Nat) (h : Cache.History) (now : Nat)
    (hu : h.Until now) (query : String) :
    let c := (Cache.new ttl maxEntries).after h
    (c.getOrCompile now query).1 = compile query ∧
    (∀ criteria, (c.get now query).1 = some criteria → compile query = .ok criteria ∧
      ∃ t, Cache.Inserted (.new ttl maxEntries) h query t ∧ t ≤ now ∧ now - t < ttl) ∧
    c.size ≤ max 1 maxEntries ∧
    (∀ p, compile query = .error p → (c.getOrCompile now query).2.entries = c.entries) ∧
    c.hits + c.misses = h.lookups ∧
    ∀ (e : Engine) (ttl' maxEntries' : Nat) (h' : Cache.History) (now' : Nat),
      let c' := (Cache.new ttl' maxEntries').after h'
      (∀ (call : Call) (rounds : Nat),
        (call.activity.run rounds (e.recalling c now)).map (·.1) =
          (call.activity.run rounds (e.recalling c' now')).map (·.1)) ∧
      ∀ s, Scene.Run Call.activity (fun _ => True) Engine.Shaken ⟨e.recalling c now, []⟩ s →
        ∃ s', Scene.Run Call.activity (fun _ => True) Engine.Shaken ⟨e.recalling c' now', []⟩ s' ∧
          s'.tasks = s.tasks := by
  intro c
  have hr := Cache.recalls_after ttl maxEntries h
  refine ⟨(hr.tidy.sound.getOrCompile now query).1, fun _ hg => hr.found hu hg, hr.size_le,
    fun p hp => hr.entries_of_error hp now, hr.counted, ?_⟩
  intro e ttl' maxEntries' h' now' c'
  have hsame : SameButCache (e.recalling c now) (e.recalling c' now') :=
    .recalling hr.tidy.sound (Cache.recalls_after ttl' maxEntries' h').tidy.sound now now'
  refine ⟨fun call rounds => call.activity_respects.map_run hsame hsame.symm, fun s hs => ?_⟩
  have hstart : Scene.Follows SameButCache
      (⟨e.recalling c now, []⟩ : Scene Engine Call.Answer) ⟨e.recalling c' now', []⟩ :=
    ⟨hsame, rfl, List.forall_mem_nil _⟩
  obtain ⟨s', hs', hf⟩ := hs.respects hstart (fun call _ => call.activity_respects)
    SameButCache.shaken
  exact ⟨s', hs', hf.tasks.symm⟩

/-- A query that has been compiled, one that does not compile, and the first again in time. -/
def threeLookups : Cache.History := [(0, .getOrCompile "A=\"1\""), (3, .getOrCompile "A=")]

/-- The first is still there, since it was inserted less than ten milliseconds ago. -/
theorem cache_invisible_of_three : threeLookups.Until 7 ∧
    (((Cache.new 10 0).after threeLookups).get 7 "A=\"1\"").1.isSome = true ∧
    ((Cache.new 10 0).after threeLookups).size ≤ 1 ∧
    ∃ t, Cache.Inserted (.new 10 0) threeLookups "A=\"1\"" t ∧ t ≤ 7 ∧ 7 - t < 10 := by
  have hu : threeLookups.Until 7 := by decide
  have hsome : (((Cache.new 10 0).after threeLookups).get 7 "A=\"1\"").1.isSome = true := by
    decide +kernel
  obtain ⟨-, hfound, hsize, -⟩ := cache_invisible 10 0 threeLookups 7 hu "A=\"1\""
  obtain ⟨criteria, hc⟩ := Option.isSome_iff_exists.mp hsome
  exact ⟨hu, hsome, hsize, (hfound criteria hc).2⟩

end Service

end EventStore
