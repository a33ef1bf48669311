import EventStore.Engine.EventSet
import EventStore.Proofs.Bucket.Operations
import EventStore.Proofs.Engine.Keeping
import EventStore.Proofs.Time.Key
import Mathlib.Logic.Relation

/-!
# What the work on buckets leaves alone

Whatever buckets and sets of buckets do, they change the store only by calls to it and do not touch
the queue of events and its figures (`Engine.Works`). The lemmas go through their operations one by
one, for every state and whatever others do meanwhile.
-/

namespace EventStore

/-- The queue with its figures, and the settings. -/
structure Intake where
  settings : Config.EngineSection
  queue : List Queued
  ingested : Nat
  filtered : Nat
  dropped : Nat

def Engine.intake (e : Engine) : Intake :=
  ⟨e.settings, e.queue, e.ingested, e.filtered, e.dropped⟩

/-- The name is that of a map of some bucket. -/
def Bucket.Names (m : String) : Prop := ∃ b : Bucket, m = b.eventsMap ∨ m = b.optionsMap

/-- If the write sets an event in a map of events, the event is of that map's hour. -/
def Write.IsFiled (w : Write) : Prop :=
  ∀ (b : Bucket) (x : Event), w.map = b.eventsMap →
    w.record.value?.bind Binary.readEvent? = some x → b.hour.contains x.millis = true

/-- No maps are made but those of buckets, and no event is written but to the map of its hour. -/
def Request.IsProper : Request α → Prop
  | .openMap m => Bucket.Names m
  | .commit tx => ∀ w ∈ tx.writes, w.IsFiled
  | _ => True

def Store.Answered : Store → Store → Prop :=
  Relation.ReflTransGen fun s s' =>
    ∃ (α : Type) (r : Request α), r.IsProper ∧ s' = (s.answer r).2

/-- Whether calls are answered or refused, this stays true of the store. -/
structure Store.Steady (P : Store → Prop) : Prop where
  answer : ∀ {s : Store} {α : Type} {r : Request α}, r.IsProper → P s → P (s.answer r).2
  faults : ∀ {s : Store} (faults : List Fault), P s → P { s with faults := faults }

theorem Store.Steady.answered {P : Store → Prop} (hP : Steady P) {s s' : Store}
    (ha : s.Answered s') (h : P s) : P s' := by
  induction ha with
  | refl => exact h
  | tail _ hr ih =>
    obtain ⟨α, r, hr, rfl⟩ := hr
    exact hP.answer hr ih

structure Engine.Works (e e' : Engine) : Prop where
  intake : e'.intake = e.intake
  store : e.store.Answered e'.store

theorem Engine.Works.refl (e : Engine) : e.Works e := ⟨rfl, .refl⟩

theorem Engine.Works.trans {e e' e'' : Engine} (h : e.Works e') (h' : e'.Works e'') :
    e.Works e'' :=
  ⟨h'.intake.trans h.intake, h.store.trans h'.store⟩

/-- Work needs no account. -/
def Engine.work : Bookkeeping Engine Unit where
  Always _ := True
  Moves e _ e' _ := e.Works e'
  always _ _ := trivial
  refl e _ := .refl e
  trans := .trans

variable {α β : Type}

-- ---- activities ----------------------------------------------------------

/-- The activity does no more than work, and `Q` holds of its answer. -/
def Activity.WorksTo (x : Activity Engine α) (Q : α → Prop) : Prop :=
  x.Keeps Engine.work () fun a _ => Q a

abbrev Activity.Works (x : Activity Engine α) : Prop := x.WorksTo fun _ => True

namespace Activity.WorksTo

variable {x : Activity Engine α} {Q : α → Prop}

theorem pure' {a : α} (h : Q a) : (pure a : Activity Engine α).WorksTo Q := Keeps.pure' h

theorem bind {f : α → Activity Engine β} {Q' : β → Prop} (h : x.WorksTo Q)
    (hf : ∀ a, Q a → (f a).WorksTo Q') : (x >>= f).WorksTo Q' :=
  Keeps.bind h fun a _ => hf a

theorem atomically {act : Engine → α × Engine} (h : ∀ e : Engine, e.Works (act e).2) :
    (atomically act).Works :=
  Keeps.atomically fun e _ => ⟨(), h e, trivial⟩

theorem whenever {ready : Engine → Bool} {act : Engine → α × Engine}
    (h : ∀ e : Engine, e.Works (act e).2) : (whenever ready act).Works :=
  Keeps.whenever fun e _ _ => ⟨(), h e, trivial⟩

theorem observe (f : Engine → α) : (observe f).Works := Keeps.observe fun _ _ => trivial

theorem steady {P : Store → Prop} {e e' : Engine} {a : α} (hP : Store.Steady P) (h : x.WorksTo Q)
    (he : x.Ends Engine.Shaken e a e') (hs : P e.store) : P e'.store := by
  obtain ⟨-, hs', -⟩ := Keeps.ends (P := fun e (_ : Unit) => P e.store) (fun _ => trivial)
    (fun (hm : Engine.Works _ _) hs => hP.answered hm.store hs)
    (fun {e e' _} hu hs => by
      obtain ⟨faults, clock, -, rfl⟩ := hu
      exact hP.faults faults hs) h he hs
  exact hs'

theorem intake {e e' : Engine} {a : α} (h : x.WorksTo Q) (he : x.Ends Engine.Shaken e a e') :
    e'.intake = e.intake := by
  obtain ⟨-, hi, -⟩ := Keeps.ends (P := fun u (_ : Unit) => u.intake = e.intake) (fun _ => trivial)
    (fun (hm : Engine.Works _ _) hi => hm.intake.trans hi)
    (fun {u u' _} hu hi => by
      obtain ⟨faults, clock, -, rfl⟩ := hu
      exact hi) h he rfl
  exact hi

end Activity.WorksTo

-- ---- operations ----------------------------------------------------------

namespace Operation

/-- The operation does no more than work, and `Q` holds of its answer if it succeeds. -/
def WorksTo (op : Operation α) (Q : α → Prop) : Prop :=
  Activity.WorksTo op.run fun r => ∀ a, r = .ok a → Q a

abbrev Works (op : Operation α) : Prop := op.WorksTo fun _ => True

namespace WorksTo

variable {op : Operation α} {Q Q' : α → Prop}

theorem mono (h : op.WorksTo Q) (hq : ∀ a, Q a → Q' a) : op.WorksTo Q' :=
  Activity.Keeps.mono h fun _ _ hr a ha => hq a (hr a ha)

theorem pure' {a : α} (h : Q a) : (pure a : Operation α).WorksTo Q :=
  Activity.WorksTo.pure' fun _ he => Except.ok.inj he ▸ h

theorem throw' (p : EngineError) : (throw p : Operation α).WorksTo Q :=
  Activity.WorksTo.pure' nofun

theorem bind {f : α → Operation β} {Q' : β → Prop} (h : op.WorksTo Q)
    (hf : ∀ a, Q a → (f a).WorksTo Q') : (op >>= f).WorksTo Q' := by
  refine Activity.WorksTo.bind h fun r hr => ?_
  cases r with
  | ok a => exact hf a (hr a rfl)
  | error p => exact Activity.WorksTo.pure' nofun

theorem lift {x : Activity Engine α} (h : x.WorksTo Q) : (liftM x : Operation α).WorksTo Q :=
  Activity.WorksTo.bind h fun _ ha => Activity.WorksTo.pure' fun _ he => Except.ok.inj he ▸ ha

theorem result (r : Except EngineError α) : (liftM r : Operation α).Works := by
  cases r with
  | ok a => exact .pure' trivial
  | error p => exact .throw' p

theorem attemptTo {act : Engine → Except EngineError α × Engine}
    (h : ∀ e : Engine, e.Works (act e).2) (hq : ∀ e a, (act e).1 = .ok a → Q a) :
    (Operation.attempt act).WorksTo Q :=
  Activity.Keeps.atomically fun e _ => ⟨(), h e, hq e⟩

theorem attempt {act : Engine → Except EngineError α × Engine}
    (h : ∀ e : Engine, e.Works (act e).2) : (attempt act).Works :=
  attemptTo h fun _ _ _ => trivial

theorem call {r : Request α} (hr : r.IsProper) : (call r).Works :=
  attempt fun _ => ⟨rfl, .single ⟨α, r, hr, rfl⟩⟩

theorem outcome (h : op.WorksTo Q) :
    (Operation.outcome op).WorksTo fun r => ∀ a, r = .ok a → Q a :=
  lift (x := op.run) h

theorem forM {f : α → Operation Unit} (hf : ∀ a, (f a).Works) (xs : List α) :
    (xs.forM f).Works := by
  induction xs with
  | nil => exact .pure' trivial
  | cons x xs ih => exact .bind (hf x) fun _ _ => ih

theorem mapM {f : α → Operation β} (hf : ∀ a, (f a).Works) (xs : List α) : (xs.mapM f).Works := by
  induction xs with
  | nil =>
    rw [List.mapM_nil]
    exact .pure' trivial
  | cons x xs ih =>
    rw [List.mapM_cons]
    exact .bind (hf x) fun _ _ => .bind ih fun _ _ => .pure' trivial

end WorksTo

end Operation

-- ---- buckets -------------------------------------------------------------

namespace Bucket

open Operation Activity

variable (b : Bucket)

theorem works_change (f : BucketData → BucketData) : (b.change f).Works :=
  .atomically fun _ => ⟨rfl, .refl⟩

theorem works_alone {op : Operation α} {Q : α → Prop} (h : op.WorksTo Q) :
    (b.alone op).WorksTo Q :=
  Activity.WorksTo.bind (.whenever fun _ => ⟨rfl, .refl⟩) fun _ _ =>
    Activity.WorksTo.bind h fun _ hr =>
      Activity.WorksTo.bind (b.works_change _) fun _ _ => Activity.WorksTo.pure' hr

theorem works_openMaps {op : Operation α} {Q : α → Prop} (h : op.WorksTo Q) : WorksTo (do
    call (.openMap b.eventsMap)
    call (.openMap b.optionsMap)
    op) Q :=
  .bind (.call ⟨b, .inl rfl⟩) fun _ _ => .bind (.call ⟨b, .inr rfl⟩) fun _ _ => h

theorem works_replay : b.replay.Works :=
  b.works_openMaps (.bind (.call trivial) fun _ _ => .bind (.result _) fun _ _ =>
    .bind (.call trivial) fun _ _ => .bind (.lift (b.works_change _)) fun _ _ => .pure' trivial)

theorem works_rebuild : b.rebuild.Works := by
  refine b.works_alone (.bind (.lift (b.works_change _)) fun _ _ =>
    .bind (.outcome b.works_replay) fun r _ => ?_)
  cases r with
  | ok locked => exact .lift (b.works_change _)
  | error p => exact .bind (.lift (b.works_change _)) fun _ _ => .throw' p

theorem works_openAt (hour : Hour) : (openAt hour).Works := by
  unfold openAt
  split
  · exact .throw' _
  · exact .bind (.lift (.atomically fun _ => ⟨rfl, .refl⟩)) fun b _ =>
      .bind b.works_rebuild fun _ _ => .pure' trivial

theorem exists_millis_of_mem_numbered {last : UInt32} {events : List Event} {x : Event}
    (h : x ∈ b.numbered last events) : ∃ y ∈ events, x.millis = y.millis := by
  induction events generalizing last with
  | nil => cases h
  | cons y events ih =>
    rcases List.mem_cons.mp h with rfl | h
    · exact ⟨y, List.mem_cons_self, rfl⟩
    · obtain ⟨z, hz, hx⟩ := ih h
      exact ⟨z, List.mem_cons_of_mem _ hz, hx⟩

theorem isFiled_of_mem_writes {last : UInt32} {events : List Event}
    (h : ∀ x ∈ events, b.hour.contains x.millis = true) {w : Write}
    (hw : w ∈ (b.writing (b.numbered last events)).writes) : w.IsFiled := by
  rw [writes_writing] at hw
  obtain ⟨x, hx, rfl⟩ := List.mem_map.mp hw
  intro b' y hm hy
  obtain ⟨z, hz, hxz⟩ := b.exists_millis_of_mem_numbered hx
  rw [Binary.millis_of_readEvent? hy, hxz, ← Hour.eventsMap_inj b.named b'.named hm]
  exact h z hz

theorem works_addAll (events : List Event) :
    (b.addAll events).WorksTo fun stored => ∃ last, stored = b.numbered last events := by
  unfold addAll
  split
  · next he =>
    obtain rfl : events = [] := by simpa using he
    exact .pure' ⟨0, rfl⟩
  refine b.works_alone (.bind (Q := fun _ => ∀ x ∈ events, b.hour.contains x.millis = true)
    (.attemptTo (fun e => ?_) fun e last hlast => ?_) fun last hin =>
      .bind (.outcome (.call fun _ => b.isFiled_of_mem_writes hin)) fun r _ => ?_)
  · split
    · exact ⟨rfl, .refl⟩
    · exact .refl e
  · split at hlast
    · next hr => exact (reserve_ok hr).2.1
    · cases hlast
  · cases r with
    | ok u => exact .bind (.lift (b.works_change _)) fun _ _ => .pure' ⟨last, rfl⟩
    | error p => exact .bind (.lift (b.works_change _)) fun _ _ => .throw' p

/-- The mark of a locked bucket is not kept among its events. -/
theorem isFiled_mark (value : Bytes) {w : Write}
    (hw : w ∈ (Transaction.empty.set b.optionsMap lockKey value).writes) : w.IsFiled := by
  obtain rfl := List.mem_singleton.mp hw
  intro b' x hm
  exact absurd hm.symm (Hour.eventsMap_ne_optionsMap b'.named b.named)

theorem works_setLock (locked : Bool) : (b.setLock locked).Works :=
  b.works_alone (.bind (.attempt fun e => .refl e) fun _ _ =>
    .bind (.call fun _ => b.isFiled_mark _) fun _ _ => .lift (b.works_change _))

theorem works_discard (goOn : Bool) : (b.discard goOn).Works := by
  have hrestart : Operation.Works (do
      b.setIndex .empty 0
      if goOn then
        call (.openMap b.eventsMap)
        call (.openMap b.optionsMap)
        b.setState .ready
      else
        b.setState .dropped
      return true) := by
    refine .bind (.lift (b.works_change _)) fun _ _ => ?_
    cases goOn with
    | true =>
      exact b.works_openMaps (.bind (.lift (b.works_change _)) fun _ _ => .pure' trivial)
    | false => exact .bind (.lift (b.works_change _)) fun _ _ => .pure' trivial
  refine b.works_alone (.bind (.lift (.observe _)) fun state _ => ?_)
  split
  · exact .pure' trivial
  dsimp only
  split
  · exact .bind (.call trivial) fun _ _ => .bind (.call trivial) fun _ _ => hrestart
  · exact hrestart

end Bucket

-- ---- sets ----------------------------------------------------------------

namespace EventSet

open Operation Activity

theorem works_registry : registry.Works := .whenever fun e => .refl e

theorem works_ofRegistry (f : Std.ExtTreeMap Hour Bucket compare → α) :
    (do return f (← registry) : Activity Engine α).Works :=
  .bind works_registry fun _ _ => .pure' trivial

theorem works_alone {op : Operation α} (h : op.Works) : (alone op).Works :=
  Activity.WorksTo.bind (.whenever fun _ => ⟨rfl, .refl⟩) fun _ _ =>
    Activity.WorksTo.bind h fun _ hr =>
      Activity.WorksTo.bind (.atomically fun _ => ⟨rfl, .refl⟩) fun _ _ =>
        Activity.WorksTo.pure' hr

theorem works_insert (b : Bucket) : (insert b).Works := .atomically fun _ => ⟨rfl, .refl⟩

theorem works_register (b : Bucket) : (register b).Works := by
  refine works_alone (.bind (.lift (.observe _)) fun r _ => ?_)
  cases r with
  | some other => exact .pure' trivial
  | none =>
    have hinsert : Operation.Works (do
        insert b
        return b) := .bind (.lift (works_insert b)) fun _ _ => .pure' trivial
    refine .bind (.lift (.observe _)) fun locked _ => ?_
    cases locked with
    | false => exact hinsert
    | true =>
      refine .bind (.lift (.observe _)) fun state _ => ?_
      by_cases hs : state = .locked
      · simp only [hs, ne_eq, not_true_eq_false, if_false]
        exact hinsert
      · simp only [hs, ne_eq, not_false_eq_true, if_true]
        exact .bind (b.works_setLock true) fun _ _ => hinsert

theorem works_getOrCreate (hour : Hour) : (getOrCreate hour).Works := by
  refine .bind (.lift (works_ofRegistry (·[hour]?))) fun r _ => ?_
  cases r with
  | some b => exact .pure' trivial
  | none => exact .bind (Bucket.works_openAt hour) fun b _ => works_register b

theorem works_openAll : openAll.Works :=
  .bind (.call trivial) fun _ _ => .bind (.mapM Bucket.works_openAt _) fun _ _ =>
    .lift (.whenever fun _ => ⟨rfl, .refl⟩)

theorem works_addTo (hour : Hour) (events : List Event) :
    (do (← getOrCreate hour).addAll events : Operation (List Event)).WorksTo fun stored =>
      ∃ (b : Bucket) (last : UInt32), stored = b.numbered last events :=
  .bind (works_getOrCreate hour) fun b _ => .mono (b.works_addAll events) fun _ h => ⟨b, h⟩

theorem works_add (x : Event) : (add x).Works := by
  refine .bind (.result _) fun hour _ => .bind (works_getOrCreate hour) fun b _ =>
    .bind (.mono (b.works_addAll [x]) fun _ _ => trivial) fun stored _ => ?_
  split
  · exact .pure' trivial
  · exact .throw' _

-- ---- locking and eviction ------------------------------------------------

theorem works_unlessDropped {op : Operation Unit} (h : op.Works) : (unlessDropped op).Works := by
  refine .bind (.outcome h) fun r _ => ?_
  split
  · exact .pure' trivial
  · exact .pure' trivial
  · exact .throw' _

theorem works_setAllLocks (locked : Bool) : Operation.Works (do
    setLocked locked
    (← buckets).forM fun b => unlessDropped (b.setLock locked)) :=
  .bind (.lift (.atomically fun _ => ⟨rfl, .refl⟩)) fun _ _ =>
    .bind (.lift (works_ofRegistry _)) fun _ _ =>
      .forM (fun b => works_unlessDropped (b.works_setLock locked)) _

theorem works_evict (hours : List Hour) (dropped : Nat) : (evict hours dropped).Works := by
  induction hours generalizing dropped with
  | nil => exact .pure' trivial
  | cons hour rest ih =>
    refine .bind (.lift (works_ofRegistry _)) fun r _ => ?_
    cases r with
    | none => exact ih dropped
    | some b =>
      refine .bind (b.works_discard false) fun done _ => ?_
      cases done with
      | true =>
        refine .bind (.lift (.whenever fun e => ?_)) fun _ _ => ih (dropped + 1)
        split
        · exact ⟨rfl, .refl⟩
        · exact .refl e
      | false => exact ih dropped

theorem works_purge : purge.Works :=
  .bind (.lift works_registry) fun _ _ => works_evict _ _

theorem works_dropData (now : Instant) : (dropData now).Works := by
  refine .bind (.lift (.observe _)) fun _ _ => ?_
  split
  · exact .bind (.lift works_registry) fun _ _ => works_evict _ _
  · exact .throw' _

end EventSet

end EventStore
