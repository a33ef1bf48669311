import EventStore.Proofs.Engine.Halting
import EventStore.Proofs.EventSet.Throughout

/-!
# Adding comes to an end

Where nobody is at work on the set or on a bucket of it (`Idle`), additions come to an end, however
calls to the store fail meanwhile: nothing is waited for that is not free.
-/

namespace EventStore

open Std Query Operation

namespace Bucket

variable {b : Bucket} {e : Engine} {α : Type}

-- ---- what waits for nothing ----------------------------------------------

theorem change_proceeds (b : Bucket) (f : BucketData → BucketData) :
    Operation.Proceeds (fun _ => True) (liftM (b.change f)) := .lift (.atomically fun _ h => h)

theorem call_proceeds (r : Request α) : (call r).Proceeds fun _ => True := .call fun _ _ h => h

theorem replay_proceeds (b : Bucket) : b.replay.Proceeds fun _ => True :=
  .bind (call_proceeds _) fun _ => .bind (call_proceeds _) fun _ => .bind (call_proceeds _) fun _ =>
    .bind (.result _) fun _ => .bind (call_proceeds _) fun _ =>
      .bind (b.change_proceeds _) fun _ => .pure' _

theorem alone_halts {op : Operation α} (hw : (e.data b).writing = false)
    (h : op.Proceeds fun _ => True) : (b.alone op).Halts e := by
  refine Activity.Halts.bind (.whenever fun u hu => ?_) fun _ _ _ =>
    .bind (.of_proceeds h) fun _ _ _ => .bind .atomically fun _ _ _ => .pure' _
  obtain ⟨faults, clock, -, rfl⟩ := hu
  exact (Bool.not_eq_true' _).mpr hw

theorem rebuild_halts (hw : (e.data b).writing = false) : b.rebuild.Halts e := by
  refine alone_halts hw (.bind (b.change_proceeds _) fun _ =>
    .bind (.lift b.replay_proceeds) fun r => ?_)
  cases r with
  | ok locked => exact b.change_proceeds _
  | error p => exact .bind (b.change_proceeds _) fun _ => .throw' p

theorem openAt_halts (hour : Hour) (e : Engine) : (openAt hour).Halts e := by
  unfold openAt
  split
  · exact .throw' _
  next id hid =>
  refine .bind (P := fun b e' => (e'.data b).writing = false) (E := fun _ _ => True)
    (.lift .atomically) (.lift fun b e' hb => ?_) fun b e' hw =>
    .bind (P := fun _ _ => True) (E := fun _ _ => True) (rebuild_halts hw) (fun r _ _ => ?_)
      fun _ _ _ => .pure' b
  · obtain ⟨_, ⟨faults, clock, -, rfl⟩, ha⟩ := Activity.ends_atomically.mp hb
    cases ha
    simp [Engine.data]
    rfl
  · cases r <;> trivial

theorem addAll_halts (hw : (e.data b).writing = false) (events : List Event) :
    (b.addAll events).Halts e := by
  unfold addAll
  split
  · exact .pure' _
  refine alone_halts hw (.bind (Activity.Proceeds.atomically fun _ h => h) fun last =>
    .bind (.lift (call_proceeds _)) fun r => ?_)
  cases r with
  | ok _ => exact .bind (b.change_proceeds _) fun _ => .pure' _
  | error p => exact .bind (b.change_proceeds _) fun _ => .throw' p

theorem setLock_halts (hw : (e.data b).writing = false) (locked : Bool) :
    (b.setLock locked).Halts e :=
  alone_halts hw (.bind (Activity.Proceeds.atomically fun _ h => h) fun _ =>
    .bind (call_proceeds _) fun _ => b.change_proceeds _)

end Bucket

namespace EventSet

variable {P : Bucket → Cell → Prop} {e : Engine} {b : Bucket} {hour : Hour} {α : Type}

-- ---- getting a bucket ----------------------------------------------------

theorem registry_halts (hfree : e.registering = false) : registry.Halts Engine.Shaken e := by
  refine .whenever fun u hu => ?_
  obtain ⟨faults, clock, -, rfl⟩ := hu
  exact (Bool.not_eq_true' _).mpr hfree

theorem alone_halts {op : Operation α} (hfree : e.registering = false)
    (h : ∀ u, e.Shaken u → op.Halts { u with registering := true }) : (alone op).Halts e := by
  refine Activity.Halts.bind (.whenever fun u hu => ?_) fun _ v hv =>
    .bind ?_ fun _ _ _ => .bind .atomically fun _ _ _ => .pure' _
  · obtain ⟨faults, clock, -, rfl⟩ := hu
    exact (Bool.not_eq_true' _).mpr hfree
  · obtain ⟨u, hu, -, ha⟩ := Activity.ends_whenever.mp hv
    cases ha
    exact h u hu

theorem register_halts (hfree : e.registering = false) (hw : (e.data b).writing = false) :
    (register b).Halts e := by
  -- The steps in front of the lock leave the bucket as it is.
  have hkeeps {β : Type} {u : Engine} {f : Engine → β} (hu : (u.data b).writing = false) :
      Triple (liftM (Activity.observe f)) u (fun _ v => (v.data b).writing = false)
        (fun _ _ => True) := by
    refine .lift fun _ v hv => ?_
    obtain ⟨_, ⟨faults, clock, -, rfl⟩, ha⟩ := Activity.ends_atomically.mp hv
    cases ha
    exact hu
  have hinsert {u : Engine} : Operation.Halts (do
      insert b
      return b) u :=
    .of_proceeds (.bind (.lift (.atomically fun _ h => h)) fun _ => .pure' b)
  refine alone_halts hfree fun u hu => .bind (.lift .atomically) (hkeeps ?_) fun r v hv => ?_
  · obtain ⟨faults, clock, -, rfl⟩ := hu
    exact hw
  cases r with
  | some other => exact .pure' other
  | none =>
    refine .bind (.lift .atomically) (hkeeps hv) fun locked v hv => ?_
    cases locked with
    | false => exact hinsert
    | true =>
      refine .bind (.lift .atomically) (hkeeps hv) fun state v hv => ?_
      by_cases hs : state = .locked
      · simp only [hs, ne_eq, not_true_eq_false, ↓reduceIte]
        exact hinsert
      · simp only [hs, ne_eq, not_false_eq_true, ↓reduceIte]
        exact .bind (P := fun _ _ => True) (E := fun _ _ => True) (Bucket.setLock_halts hv true)
          (fun r _ _ => by cases r <;> trivial) fun _ _ _ => hinsert

theorem getOrCreate_halts (hfree : e.registering = false) (hour : Hour) :
    (getOrCreate hour).Halts e := by
  refine .bind (P := fun _ u => u.registering = false) (E := fun _ _ => True)
    (.lift (.bind (registry_halts hfree) fun _ _ _ => .pure' _)) (.lift fun _ u hu => ?_) ?_
  · obtain ⟨⟨faults, clock, -, rfl⟩, -⟩ := ends_ofRegistry hu
    exact hfree
  rintro (_ | b) u hu
  · refine .bind (P := fun b v => v.registering = false ∧ (v.data b).writing = false)
      (E := fun _ _ => True) (Bucket.openAt_halts hour u)
      ((Bucket.openAt_triple hour u).mono ?_ fun _ _ _ => trivial)
      fun b v ⟨hv, hw⟩ => register_halts hv hw
    rintro b v ⟨-, -, hs, index, last, -, hc⟩
    exact ⟨(registering_eq hs).trans hu, congrArg (·.data.writing) hc⟩
  · exact .pure' b

-- ---- adding --------------------------------------------------------------

def Idle (_ : Bucket) (c : Cell) : Prop := c.data.writing = false

theorem addIn_halts (hl : Bucket.Lasting P) (hp : ∀ {b c}, P b c → Idle b c) (h : Throughout P e)
    (hour : Hour) (events : List Event) :
    Operation.Halts (do (← getOrCreate hour).addAll events) e :=
  .bind (getOrCreate_halts h.free hour) (getOrCreate_throughout hl h hour) fun _ _ h' =>
    Bucket.addAll_halts (hp (h'.1.each h'.2.1)) events

theorem addGroup_halts (hl : Bucket.Lasting P) (hp : ∀ {b c}, P b c → Idle b c)
    (h : Throughout P e) (r : Report) (hour : Hour) (events : List Event) :
    (addGroup r hour events).Halts Engine.Shaken e := by
  refine .bind (addIn_halts hl hp h hour events) fun result _ _ => ?_
  cases result with
  | ok stored => exact .pure' _
  | error p =>
    dsimp only
    split <;> exact .pure' _

theorem addAll_halts (hl : Bucket.Lasting P) (hp : ∀ {b c}, P b c → Idle b c) (h : Throughout P e)
    {events : List Event} (hf : ∀ x ∈ events, x.Fits) :
    (addAll events).Halts Engine.Shaken e := by
  refine .foldlM (fun gs u => Throughout P u ∧ ∀ g ∈ gs, ∀ x ∈ g.2, Event.Fits x)
    ⟨h, fun _ hg => fits_of_mem_groups hf hg⟩ ?_
  rintro r ⟨hour, group⟩ gs u ⟨hu, hg⟩
  obtain ⟨hgroup, hgs⟩ := List.forall_mem_cons.mp hg
  exact ⟨addGroup_halts hl hp hu r hour group,
    fun r' t ht => ⟨throughout_of_addGroup hl hu hgroup ht, hgs⟩⟩

end EventSet

end EventStore
