import EventStore.Proofs.EventSet.Undisturbed

/-!
# Where only commits are refused

To make a bucket nothing is committed, as long as new buckets are not locked. So if a store refuses
commits alone, a bucket of an hour is found or made all the same, whatever is queued meanwhile: what
is done to that end sees and changes no more than the core of the engine (`Activity.Heedless`), and
comes to what it comes to undisturbed (`getOrCreate_heedless`).
-/

namespace EventStore

open Std

/-- The call is to commit writes of which the first is to this map, and is refused. -/
def Store.refusesCommit (s : Store) (m : String) : Bool :=
  s.faults.any fun f => f.kind == .commit && f.map.all (· == m)

theorem Store.refuses_writing (s : Store) (b : Bucket) (last : UInt32) {events : List Event}
    (hn : events ≠ []) : s.refuses (.commit (b.writing (b.numbered last events))) =
      s.refusesCommit b.eventsMap := by
  obtain ⟨x, rest, rfl⟩ := List.exists_cons_of_ne_nil hn
  simp [refuses, refusesCommit, Request.kind, Request.map, Bucket.writes_writing, Bucket.numbered]

theorem Store.answer_of_serves {s : Store} {r : Request α} (h : s.refuses r = false) :
    s.answer r = ((Backing.answer r s.backing).1, ⟨(Backing.answer r s.backing).2, s.faults⟩) := by
  rw [answer, h, if_neg Bool.false_ne_true]

theorem Store.getD_answer (s : Store) {r : Request α} (hr : r.kind ≠ .removeMap)
    (hc : r.kind ≠ .commit) (m : String) :
    ((s.answer r).2.entries? m).getD ∅ = (s.entries? m).getD ∅ := by
  cases ha : s.answer r with
  | mk a s' =>
    cases a with
    | error p => rw [Store.entries?_of_error hr ha]
    | ok a =>
      rw [(Store.replies_of_ok ha).2]
      cases r with
      | openMap name =>
        simp only [Request.effect]
        split
        · next h => rw [h]; rfl
        · rfl
      | removeMap name => exact absurd rfl hr
      | commit tx => exact absurd rfl hc
      | _ => rfl

-- ---- the core of an engine -----------------------------------------------

/-- The engine without the queue and its figures, with a store that refuses nothing. -/
def Engine.core (e : Engine) : Engine :=
  { e with store := { e.store with faults := [] }, clock := 0, queue := [], ingested := 0,
           filtered := 0, dropped := 0 }

/-- Nothing but commits is refused, and new buckets are not locked. -/
structure Engine.Calm (e : Engine) : Prop where
  faults : ∀ f ∈ e.store.faults, f.kind = .commit
  unlocked : e.locked = false

theorem Engine.Calm.serves {e : Engine} (h : e.Calm) {r : Request α} (hr : r.kind ≠ .commit) :
    e.store.refuses r = false := Store.refuses_of_faults h.faults hr

/-- What a step sees and changes of the engine is in its core, and it stores no events. -/
structure Engine.Heeds (act : Engine → α × Engine) (e : Engine) : Prop where
  answer : (act e).1 = (act e.core).1
  core : (act e).2.core = (act e.core).2
  faults : (act e).2.store.faults = e.store.faults
  queue : (act e).2.queue = e.queue
  locked : (act e).2.locked = e.locked
  entries (m : String) : ((act e).2.store.entries? m).getD ∅ = (e.store.entries? m).getD ∅

-- ---- activities ----------------------------------------------------------

variable {α β : Type}

namespace Activity

/-- Each step heeds nothing but the core, and `Q` holds of the answer. -/
def Heedless : {α : Type} → Activity Engine α → (Q : α → Prop) → Prop
  | _, done a, Q => Q a
  | _, step ready act next, Q => ∀ e : Engine, e.Calm →
      ready e = ready e.core ∧ e.Heeds act ∧ (next (act e).1).Heedless Q
  | _, loop .., _ => False

namespace Heedless

variable {x : Activity Engine α} {Q : α → Prop}

theorem pure' {a : α} (h : Q a) : (pure a : Activity Engine α).Heedless Q := h

theorem bind {f : α → Activity Engine β} {Q' : β → Prop} (h : x.Heedless Q)
    (hf : ∀ a, Q a → (f a).Heedless Q') : (x >>= f).Heedless Q' := by
  show (x.bind f).Heedless Q'
  induction x with
  | done a => exact hf a h
  | step ready act next ih =>
    intro e he
    obtain ⟨hr, ha, hn⟩ := h e he
    exact ⟨hr, ha, ih _ hn hf⟩
  | loop => exact h.elim

theorem whenever {ready : Engine → Bool} {act : Engine → α × Engine}
    (hr : ∀ e : Engine, ready e = ready e.core)
    (ha : ∀ e : Engine, e.Calm → e.Heeds act ∧ Q (act e).1) :
    (whenever ready act).Heedless Q := fun e he => ⟨hr e, (ha e he).1, (ha e he).2⟩

theorem atomically {act : Engine → α × Engine}
    (ha : ∀ e : Engine, e.Calm → e.Heeds act ∧ Q (act e).1) : (atomically act).Heedless Q :=
  whenever (fun _ => rfl) ha

theorem observe {f : Engine → α} (hf : ∀ e : Engine, f e = f e.core)
    (hq : ∀ e : Engine, e.Calm → Q (f e)) : (observe f).Heedless Q :=
  atomically fun e he => ⟨⟨hf e, rfl, rfl, rfl, rfl, fun _ => rfl⟩, hq e he⟩

end Heedless

end Activity

namespace Operation

/-- Each step of the operation heeds nothing but the core, and `Q` holds of the answer if it
succeeds. -/
def Heedless (op : Operation α) (Q : α → Prop) : Prop :=
  Activity.Heedless op.run fun r => ∀ a, r = .ok a → Q a

namespace Heedless

variable {op : Operation α} {Q : α → Prop}

theorem pure' {a : α} (h : Q a) : (pure a : Operation α).Heedless Q :=
  Activity.Heedless.pure' fun _ he => Except.ok.inj he ▸ h

theorem throw' (p : EngineError) : (throw p : Operation α).Heedless Q :=
  Activity.Heedless.pure' nofun

theorem bind {f : α → Operation β} {Q' : β → Prop} (h : op.Heedless Q)
    (hf : ∀ a, Q a → (f a).Heedless Q') : (op >>= f).Heedless Q' := by
  refine Activity.Heedless.bind h fun r hr => ?_
  cases r with
  | ok a => exact hf a (hr a rfl)
  | error p => exact Activity.Heedless.pure' nofun

theorem lift {x : Activity Engine α} (h : x.Heedless Q) : (liftM x : Operation α).Heedless Q :=
  Activity.Heedless.bind h fun _ ha => Activity.Heedless.pure' fun _ he => Except.ok.inj he ▸ ha

theorem result (r : Except EngineError α) :
    (liftM r : Operation α).Heedless fun _ => True := by
  cases r with
  | ok a => exact .pure' trivial
  | error p => exact .throw' p

theorem outcome (h : op.Heedless Q) : (outcome op).Heedless fun r => ∀ a, r = .ok a → Q a :=
  lift (x := op.run) h

theorem call {r : Request α} (hr : r.kind ≠ .removeMap) (hc : r.kind ≠ .commit) :
    (call r).Heedless fun _ => True := by
  refine Activity.Heedless.atomically fun e he => ⟨?_, fun _ _ => trivial⟩
  have ha := Store.answer_of_serves (he.serves hc)
  have hcore : e.core.store.answer r = ((Store.Backing.answer r e.store.backing).1,
      ⟨(Store.Backing.answer r e.store.backing).2, []⟩) := Store.answer_of_serves rfl
  refine ⟨?_, ?_, ?_, rfl, rfl, Store.getD_answer e.store hr hc⟩
  · dsimp only
    rw [ha, hcore]
  · dsimp only
    rw [ha, hcore]
    rfl
  · dsimp only
    rw [ha]

theorem between {before after : Activity Engine Unit} (hb : before.Heedless fun _ => True)
    (h : op.Heedless Q) (ha : after.Heedless fun _ => True) : Heedless (ExceptT.mk do
      before
      let r ← op.run
      after
      return r) Q :=
  Activity.Heedless.bind hb fun _ _ => Activity.Heedless.bind h fun _ hr =>
    Activity.Heedless.bind ha fun _ _ => Activity.Heedless.pure' hr

end Heedless

end Operation

-- ---- buckets -------------------------------------------------------------

namespace Bucket

open Operation

variable (b : Bucket)

theorem heedless_change (f : BucketData → BucketData) : (b.change f).Heedless fun _ => True :=
  .atomically fun _ _ => ⟨⟨rfl, rfl, rfl, rfl, rfl, fun _ => rfl⟩, trivial⟩

theorem heedless_alone {op : Operation α} {Q : α → Prop} (h : op.Heedless Q) :
    (b.alone op).Heedless Q :=
  .between (.whenever (fun _ => rfl) fun _ _ =>
    ⟨⟨rfl, rfl, rfl, rfl, rfl, fun _ => rfl⟩, trivial⟩) h (b.heedless_change _)

theorem heedless_replay : b.replay.Heedless fun _ => True :=
  .bind (.call nofun nofun) fun _ _ => .bind (.call nofun nofun) fun _ _ =>
    .bind (.call nofun nofun) fun _ _ => .bind (.result _) fun _ _ =>
      .bind (.call nofun nofun) fun _ _ =>
        .bind (.lift (b.heedless_change _)) fun _ _ => .pure' trivial

theorem heedless_rebuild : b.rebuild.Heedless fun _ => True := by
  refine b.heedless_alone (.bind (.lift (b.heedless_change _)) fun _ _ =>
    .bind (.outcome b.heedless_replay) fun r _ => ?_)
  cases r with
  | ok locked => exact .lift (b.heedless_change _)
  | error p => exact .bind (.lift (b.heedless_change _)) fun _ _ => .throw' p

theorem heedless_openAt (hour : Hour) : (openAt hour).Heedless fun _ => True := by
  unfold openAt
  split
  · exact .throw' _
  · refine .bind (.lift (Q := fun _ => True) (.atomically fun _ _ => ?_)) fun b _ =>
      .bind b.heedless_rebuild fun _ _ => .pure' trivial
    exact ⟨⟨rfl, rfl, rfl, rfl, rfl, fun _ => rfl⟩, trivial⟩

end Bucket

-- ---- sets ----------------------------------------------------------------

namespace EventSet

open Operation

theorem heedless_registry : registry.Heedless fun _ => True :=
  .whenever (fun _ => rfl) fun _ _ => ⟨⟨rfl, rfl, rfl, rfl, rfl, fun _ => rfl⟩, trivial⟩

theorem heedless_register (b : Bucket) : (register b).Heedless fun _ => True := by
  refine .between (.whenever (fun _ => rfl) fun _ _ =>
    ⟨⟨rfl, rfl, rfl, rfl, rfl, fun _ => rfl⟩, trivial⟩) ?_
    (.atomically fun _ _ => ⟨⟨rfl, rfl, rfl, rfl, rfl, fun _ => rfl⟩, trivial⟩)
  refine .bind (.lift (Q := fun _ => True) (.observe (fun _ => rfl) fun _ _ => trivial))
    fun r _ => ?_
  cases r with
  | some other => exact .pure' trivial
  | none =>
    refine .bind (.lift (Q := fun locked => locked = false)
      (.observe (fun _ => rfl) fun _ he => he.unlocked)) ?_
    rintro _ rfl
    refine .bind (.lift (Q := fun _ => True) (.atomically fun _ _ => ?_)) fun _ _ => .pure' trivial
    exact ⟨⟨rfl, rfl, rfl, rfl, rfl, fun _ => rfl⟩, trivial⟩

theorem heedless_getOrCreate (hour : Hour) : (getOrCreate hour).Heedless fun _ => True := by
  refine .bind (Q := fun _ => True)
    (.lift (.bind heedless_registry fun _ _ => .pure' trivial)) fun r _ => ?_
  cases r with
  | some b => exact .pure' trivial
  | none => exact .bind (Bucket.heedless_openAt hour) fun b _ => heedless_register b

end EventSet

end EventStore
