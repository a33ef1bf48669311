import EventStore.Proofs.Bucket.Search
import EventStore.Proofs.Engine.Mirroring

/-!
# Seeks among stored events

A seek is told the times of the events that the store has under some ids. Where these do not
decrease along the ids it ends at the number of those that are too early, however many ids there
are and however many of them have the same time (`seek_sorted`).
-/

namespace EventStore

open Operation

namespace Bucket

variable {b : Bucket} {time : UInt32 → Int} {ids : Array UInt32} {e : Engine}

-- ---- the times that are told ---------------------------------------------

/-- The time that is read for an id, which is the earliest of all if nothing is stored under it.
There is none if what is stored there is no event. -/
def timeIn? (entries : Entries) (id : UInt32) : Option Int :=
  match entries[idKey id]? with
  | none => some Text.minInt64
  | some value => (Binary.readEvent? value).map Event.millis

/-- The store can be asked for each of the ids, and has its time. -/
def Dated (b : Bucket) (time : UInt32 → Int) (ids : Array UInt32) (e : Engine) : Prop :=
  ∀ id ∈ ids, e.store.Serves (.get b.eventsMap (idKey id)) ∧
    ∃ entries, e.store.entries? b.eventsMap = some entries ∧ timeIn? entries id = some (time id)

/-- For each of the ids the store answers in `u` what it answers in `e`. -/
def Unchanged (b : Bucket) (ids : Array UInt32) (e u : Engine) : Prop :=
  ∀ id ∈ ids, u.store.answer (.get b.eventsMap (idKey id)) =
    ((e.store.answer (.get b.eventsMap (idKey id))).1, u.store)

theorem read_of_timeIn? {entries : Entries} {id : UInt32} (b : Bucket)
    (h : timeIn? entries id = some t) : ∃ x, b.read id entries[idKey id]? = pure x ∧
      (x.map Event.millis).getD Text.minInt64 = t := by
  unfold timeIn? at h
  cases hv : entries[idKey id]? with
  | none =>
    simp only [hv, Option.some.injEq] at h
    exact ⟨none, rfl, h⟩
  | some value =>
    simp only [hv, Option.map_eq_some_iff] at h
    obtain ⟨x, hx, rfl⟩ := h
    exact ⟨some { x with id := id, bucket := b.id }, by simp [read, hx], rfl⟩

theorem Dated.answer (h : b.Dated time ids e) {id : UInt32} (hid : id ∈ ids) : ∃ value x,
    e.store.answer (.get b.eventsMap (idKey id)) = (.ok value, e.store) ∧
      b.read id value = pure x ∧ (x.map Event.millis).getD Text.minInt64 = time id := by
  obtain ⟨hs, entries, he, ht⟩ := h id hid
  obtain ⟨x, hr, hx⟩ := read_of_timeIn? b ht
  exact ⟨_, x, Store.answer_get hs he, hr, hx⟩

theorem Dated.unchanged (h : b.Dated time ids e) : b.Unchanged ids e e := by
  intro id hid
  obtain ⟨value, -, ha, -⟩ := h.answer hid
  rw [ha]

theorem Dated.timeOf_result (h : b.Dated time ids e) {id : UInt32} (hid : id ∈ ids)
    (rounds : Nat) : (b.timeOf id).result rounds e = some (.ok (time id), e) := by
  obtain ⟨value, x, ha, hr, hx⟩ := h.answer hid
  have hload : (b.load id).result rounds e = some (.ok x, e) := by
    rw [load_eq, result_bind, result_call ha]
    show Operation.result rounds (b.read id value) e = _
    rw [hr, result_pure]
  rw [Bucket.timeOf_result hload, hx]

theorem Dated.timeOf_mirrors (h : b.Dated time ids e) {id : UInt32} (hid : id ∈ ids)
    {f : Int → Operation β}
    (hf : Activity.Mirrors (b.Unchanged ids e) e (f (time id)).run) :
    Activity.Mirrors (b.Unchanged ids e) e (b.timeOf id >>= f).run := by
  obtain ⟨value, x, ha, hr, hx⟩ := h.answer hid
  rw [timeOf, load_eq, bind_assoc, bind_assoc]
  refine call_mirrors h.unchanged (fun u hu => (hu id hid).trans (by rw [ha])) ?_
  rw [hr, pure_bind, pure_bind, hx]
  exact hf

-- ---- seeks ---------------------------------------------------------------

def timesAlong (time : UInt32 → Int) (ids : Array UInt32) (i : Nat) : Int := time (ids.getD i 0)

theorem time_getElem (time : UInt32 → Int) {i : Nat} (hi : i < ids.size) :
    time ids[i] = timesAlong time ids i := congrArg time (Array.getElem_eq_getD 0)

theorem getD_mem {i : Nat} (hi : i < ids.size) : ids.getD i 0 ∈ ids := by
  rw [← Array.getElem_eq_getD 0]
  exact Array.getElem_mem hi

theorem Dated.seek_result (h : b.Dated time ids e) (wanted : Int) (rounds : Nat) :
    (Seek.seek (fun i => b.timeOf (ids.getD i 0)) wanted ids.size).result rounds e =
      some (.ok (Seek.position (timesAlong time ids) wanted ids.size), e) :=
  Seek.seek_result fun _ hi => h.timeOf_result (getD_mem hi) rounds

theorem Dated.seek_mirrors (h : b.Dated time ids e) (wanted : Int) :
    Activity.Mirrors (b.Unchanged ids e) e
      (Seek.seek (fun i => b.timeOf (ids.getD i 0)) wanted ids.size).run :=
  Seek.seek_told (P := fun op : Operation Nat => Activity.Mirrors _ e op.run)
    (fun _ hi _ hf => h.timeOf_mirrors (getD_mem hi) hf) trivial

section

variable (hs : ids.toList.Pairwise (time · ≤ time ·))
include hs

theorem parts_position (wanted : Int) : Seek.Parts (timesAlong time ids) wanted ids.size
    (Seek.position (timesAlong time ids) wanted ids.size) := by
  refine Seek.position_sorted fun i j hij hj => ?_
  rw [← time_getElem time (Nat.lt_of_le_of_lt hij hj), ← time_getElem time hj]
  rcases Nat.eq_or_lt_of_le hij with rfl | hij
  · exact Int.le_refl _
  · exact List.pairwise_iff_getElem.mp hs i j _ hj hij

theorem position_eq_countP (wanted : Int) :
    Seek.position (timesAlong time ids) wanted ids.size = ids.countP (time · < wanted) := by
  rw [← Array.countP_toList]
  exact ((parts_position hs wanted).countP_eq (Seek.found_le (Nat.zero_le _))
    fun _ hi => time_getElem time hi).symm

end

/-- Where times do not decrease along the ids, a seek comes to an end, at the number of ids whose
time is before the one wanted: in front of this place are the ids that are too early, and no
others. So it is also while others change the engine, as long as the store answers what it did. -/
theorem seek_sorted (hd : b.Dated time ids e) (hs : ids.toList.Pairwise (time · ≤ time ·))
    (wanted : Int) :
    (∀ rounds, (Seek.seek (fun i => b.timeOf (ids.getD i 0)) wanted ids.size).result rounds e =
      some (.ok (ids.countP (time · < wanted)), e)) ∧
    (∀ i (hi : i < ids.size), i < ids.countP (time · < wanted) ↔ time ids[i] < wanted) ∧
    Activity.Mirrors (b.Unchanged ids e) e
      (Seek.seek (fun i => b.timeOf (ids.getD i 0)) wanted ids.size).run := by
  rw [← position_eq_countP hs]
  refine ⟨hd.seek_result wanted, fun i hi => ?_, hd.seek_mirrors wanted⟩
  rw [time_getElem time hi]
  exact (parts_position hs wanted).lt_iff hi

/-- Four events for each second from 2024-03-05 14:00 on, and two for the last. -/
def fourASecond : List Event :=
  (List.range 22).map fun i => Event.new (1709647200000 + 1000 * Int64.ofNat (i / 4))

/-- So it is among these, of which the one in the middle is the fourth of its second. -/
theorem seek_sorted_of_fourASecond : ∃ (b : Bucket) (e : Engine) (time : UInt32 → Int)
    (ids : Array UInt32), b.Dated time ids e ∧ ids.toList.Pairwise (time · ≤ time ·) ∧
    ids.size = 22 ∧ ids[11]?.map time = some 1709647202000 ∧
    (∀ rounds, (Seek.seek (fun i => b.timeOf (ids.getD i 0)) 1709647202000 ids.size).result
      rounds e = some (.ok 8, e)) ∧
    (∀ i (hi : i < ids.size), i < 8 ↔ time ids[i] < 1709647202000) ∧
    Activity.Mirrors (b.Unchanged ids e) e
      (Seek.seek (fun i => b.timeOf (ids.getD i 0)) 1709647202000 ids.size).run := by
  let time (id : UInt32) : Int := 1709647200000 + 1000 * ((id.toNat - 1) / 4 : Nat)
  let ids : Array UInt32 := (Array.range 22).map fun i => (i + 1).toUInt32
  obtain ⟨b, e, -, h⟩ := exists_ends_of_any 0
    (do
      let b ← openAt ⟨474902⟩
      let _ ← b.addAll fourASecond
      return b)
    (.fresh .inMemory .standard .standard)
    (fun b e => e.store.isAvailable && (e.store.entries? b.eventsMap).any fun entries =>
      ids.all fun id => timeIn? entries id == some (time id)) (by decide +kernel)
  obtain ⟨hs, h⟩ := Bool.and_eq_true_iff.mp h
  obtain ⟨entries, he, h⟩ := (Option.any_eq_true _ _).mp h
  have hd : b.Dated time ids e := fun id hid =>
    ⟨Store.serves_of_isAvailable hs _, entries, he,
      eq_of_beq (Array.all_eq_true_iff_forall_mem.mp h id hid)⟩
  have hsorted : ids.toList.Pairwise (time · ≤ time ·) := by decide +kernel
  have hcount : ids.countP (time · < 1709647202000) = 8 := by decide +kernel
  have h := seek_sorted hd hsorted 1709647202000
  rw [hcount] at h
  exact ⟨b, e, time, ids, hd, hsorted, by simp [ids], by decide +kernel, h⟩

end Bucket

end EventStore
