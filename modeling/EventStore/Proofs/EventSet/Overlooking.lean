import EventStore.Proofs.Engine.Respecting
import EventStore.Proofs.Ingest.Parts

/-!
# What operations on buckets overlook

To find, make and fill buckets nobody looks at the cache, the clock or the queue
(`Engine.Surroundings`), and nothing happens to them. So if two engines differ in these alone, then
to add events to the one is to add them to the other (`EventSet.respects_addAll`), and a drain that
has taken its batch goes the same way (`Ingest.respects_drainBatch`).
-/

namespace EventStore

namespace Engine

/-- What operations on buckets neither see nor change. -/
structure Surroundings where
  cache : Query.Cache
  clock : Nat
  queue : List Queued
  ingested : Nat
  filtered : Nat
  dropped : Nat

def surroundings (e : Engine) : Surroundings :=
  ⟨e.cache, e.clock, e.queue, e.ingested, e.filtered, e.dropped⟩

/-- The same engine in other surroundings. -/
def amid (e : Engine) (s : Surroundings) : Engine :=
  { e with cache := s.cache, clock := s.clock, queue := s.queue, ingested := s.ingested,
           filtered := s.filtered, dropped := s.dropped }

/-- Related engines differ in their surroundings alone, and it does not matter what else they are
like. -/
structure Circumstantial (R : Engine → Engine → Prop) : Prop where
  eq : ∀ {e e' : Engine}, R e e' → e' = e.amid e'.surroundings
  amid : ∀ {e e' u : Engine}, R e e' → u.surroundings = e.surroundings →
    R u (u.amid e'.surroundings)

namespace Circumstantial

variable {R : Engine → Engine → Prop} {α : Type} {ready : Engine → Bool}
  {act : Engine → α × Engine}

/-- A step that neither looks at the surroundings nor changes them. -/
theorem whenever (hR : Circumstantial R) (hr : ∀ e s, ready (Engine.amid e s) = ready e)
    (ha : ∀ e s, act (Engine.amid e s) = ((act e).1, (act e).2.amid s)) :
    (Activity.whenever ready act).Respects R := by
  refine ⟨fun e e' h => ?_, fun _ => trivial⟩
  have hs : (act e).2.surroundings = e.surroundings :=
    congrArg (·.2.surroundings) (ha e e.surroundings)
  rw [hR.eq h, hr, ha]
  exact ⟨rfl, rfl, hR.amid h hs⟩

theorem atomically (hR : Circumstantial R)
    (ha : ∀ e s, act (Engine.amid e s) = ((act e).1, (act e).2.amid s)) :
    (Activity.atomically act).Respects R := hR.whenever (fun _ _ => rfl) ha

theorem observe (hR : Circumstantial R) {f : Engine → α}
    (hf : ∀ e s, f (Engine.amid e s) = f e) : (Activity.observe f).Respects R :=
  hR.atomically fun e s => congrArg (·, e.amid s) (hf e s)

theorem call (hR : Circumstantial R) (r : Request α) : (Operation.call r).Respects R :=
  hR.atomically fun _ _ => rfl

end Circumstantial

end Engine

variable {R : Engine → Engine → Prop} {α : Type} (hR : Engine.Circumstantial R)

include hR

-- ---- buckets -------------------------------------------------------------

namespace Bucket

open Operation

variable (b : Bucket)

theorem respects_change (f : BucketData → BucketData) : (b.change f).Respects R :=
  hR.atomically fun _ _ => rfl

theorem respects_observe (f : BucketData → α) : (b.observe f).Respects R :=
  hR.observe fun _ _ => rfl

theorem respects_alone {op : Operation α} (h : op.Respects R) :
    (b.alone op).Respects R :=
  .between (hR.whenever (fun _ _ => rfl) fun _ _ => rfl) h (b.respects_change hR _)

theorem respects_openMaps {op : Operation α} (h : op.Respects R) :
    Operation.Respects R (do
      call (.openMap b.eventsMap)
      call (.openMap b.optionsMap)
      op) :=
  .bind (hR.call _) fun _ => .bind (hR.call _) fun _ => h

theorem respects_replay : b.replay.Respects R :=
  b.respects_openMaps hR (.bind (hR.call _) fun _ => .bind (.result _) fun _ =>
    .bind (hR.call _) fun _ => .bind (.lift (b.respects_change hR _)) fun _ => .pure' _)

theorem respects_rebuild : b.rebuild.Respects R := by
  refine b.respects_alone hR (.bind (.lift (b.respects_change hR _)) fun _ =>
    .bind (.outcome (b.respects_replay hR)) fun r => ?_)
  cases r with
  | ok locked => exact .lift (b.respects_change hR _)
  | error p => exact .bind (.lift (b.respects_change hR _)) fun _ => .throw' p

theorem respects_openAt (hour : Hour) : (openAt hour).Respects R := by
  unfold openAt
  split
  · exact .throw' _
  · exact .bind (.lift (hR.atomically fun _ _ => rfl)) fun b =>
      .bind (b.respects_rebuild hR) fun _ => .pure' b

theorem respects_addAll (events : List Event) : (b.addAll events).Respects R := by
  unfold addAll
  split
  · exact .pure' []
  refine b.respects_alone hR (.bind (hR.atomically fun e s => ?_) fun last =>
    .bind (.outcome (hR.call _)) fun r => ?_)
  · rw [show (e.amid s).data b = e.data b from rfl]
    split <;> rfl
  · cases r with
    | ok u => exact .bind (.lift (b.respects_change hR _)) fun _ => .pure' _
    | error p => exact .bind (.lift (b.respects_change hR _)) fun _ => .throw' p

theorem respects_setLock (locked : Bool) : (b.setLock locked).Respects R :=
  b.respects_alone hR (.bind (hR.atomically fun _ _ => rfl) fun _ =>
    .bind (hR.call _) fun _ => .lift (b.respects_change hR _))

end Bucket

-- ---- sets ----------------------------------------------------------------

namespace EventSet

open Operation

theorem respects_registry : registry.Respects R :=
  hR.whenever (fun _ _ => rfl) fun _ _ => rfl

theorem respects_ofRegistry (f : Std.ExtTreeMap Hour Bucket compare → α) :
    (do return f (← registry) : Activity Engine α).Respects R :=
  .bind (respects_registry hR) fun _ => .pure' _

theorem respects_register (b : Bucket) : (register b).Respects R := by
  refine .between (hR.whenever (fun _ _ => rfl) fun _ _ => rfl)
    (.bind (.lift (hR.observe fun _ _ => rfl)) fun r => ?_)
    (hR.atomically fun _ _ => rfl)
  cases r with
  | some other => exact .pure' other
  | none =>
    have hinsert : Operation.Respects R (do
        insert b
        return b) :=
      .bind (.lift (hR.atomically fun _ _ => rfl)) fun _ => .pure' b
    refine .bind (.lift (hR.observe fun _ _ => rfl)) fun locked => ?_
    cases locked with
    | false => exact hinsert
    | true =>
      refine .bind (.lift (b.respects_observe hR _)) fun state => ?_
      dsimp only
      split
      · exact .bind (b.respects_setLock hR true) fun _ => hinsert
      · exact hinsert

theorem respects_getOrCreate (hour : Hour) : (getOrCreate hour).Respects R := by
  refine .bind (.lift (respects_ofRegistry hR (·[hour]?))) fun r => ?_
  cases r with
  | some b => exact .pure' b
  | none => exact .bind (Bucket.respects_openAt hR hour) fun b => respects_register hR b

theorem respects_add (x : Event) : (add x).Respects R := by
  refine .bind (.result _) fun hour => .bind (respects_getOrCreate hR hour) fun b =>
    .bind (b.respects_addAll hR [x]) fun stored => ?_
  split
  · exact .pure' _
  · exact .throw' _

theorem respects_addAll (events : List Event) : (addAll events).Respects R := by
  refine .foldlM (fun r group => ?_) _ _
  have hop : Operation.Respects R (do (← getOrCreate group.1).addAll group.2) :=
    .bind (respects_getOrCreate hR group.1) fun b => b.respects_addAll hR group.2
  refine .bind hop fun outcome => ?_
  cases outcome with
  | ok stored => exact .pure' _
  | error p =>
    dsimp only
    split
    · exact .pure' _
    · exact .pure' _

end EventSet

-- ---- the queue -----------------------------------------------------------

namespace Ingest

theorem respects_settings : settings.Respects R := hR.observe fun _ _ => rfl

variable (hdropped : ∀ n, (countDropped n).Respects R)

include hdropped

theorem respects_tryAgain (d : Drained) (attempts : Nat) (events : List Event) :
    (tryAgain d attempts events).Respects R := by
  unfold tryAgain
  split
  · exact .pure' d
  refine .bind (respects_settings hR) fun s => ?_
  split
  · exact .bind (hdropped _) fun _ => .pure' _
  · exact .pure' _

theorem respects_reckon (d : Drained) (attempts : Nat) (report : EventSet.Report) :
    (reckon d attempts report).Respects R := by
  unfold reckon
  dsimp only
  split
  · exact .bind (hdropped _) fun _ => respects_tryAgain hR hdropped _ _ _
  · exact respects_tryAgain hR hdropped _ _ _

theorem respects_drainGroup (d : Drained) (attempts : Nat) (events : List Event) :
    (drainGroup d attempts events).Respects R :=
  .bind (EventSet.respects_addAll hR events) fun _ => respects_reckon hR hdropped _ _ _

/-- If what a drain does to the queue and its figures leaves engines related, so does the whole
drain. -/
theorem respects_drainBatch (hback : ∀ batch, (putBack batch).Respects R)
    (hingested : ∀ n, (countIngested n).Respects R) (batch : List Queued) :
    (drainBatch batch).Respects R := by
  unfold drainBatch
  split
  · exact .pure' 0
  refine .bind (.foldlM (fun d (group : Nat × List Event) =>
    respects_drainGroup hR hdropped d group.1 group.2) _ _) fun d => ?_
  unfold finish
  split
  · exact .bind (hback _) fun _ => .bind (hingested _) fun _ => .pure' _
  · exact .bind (hingested _) fun _ => .pure' _

end Ingest

end EventStore
