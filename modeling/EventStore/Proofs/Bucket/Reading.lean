import EventStore.Proofs.Bucket.Matching
import EventStore.Proofs.Engine.Seek

/-!
# What a bucket's events are read back as

An event is loaded as it was stored (`load_result`). A search takes positions from the index and
loads the events at these, some of them more than once (`search_eq`, `among_induction`).
-/

namespace EventStore

open Query Operation

theorem Operation.result_call {r : Request α} (h : e.store.answer r = (.ok a, e.store))
    (rounds : Nat) :
    (call r).result rounds e = some (.ok a, e) := by
  have ha :
      ((e.store.answer r).1.mapError EngineError.store, { e with store := (e.store.answer r).2 }) =
        (.ok a, e) := by
    rw [h]
    rfl
  exact congrArg some ha

namespace Bucket

/-- The event under an id as it is handed out. -/
def loaded? (b : Bucket) (es : Entries) (id : UInt32) : Option Event :=
  (eventAt? es id).map fun e => { e with id := id, bucket := b.id }

/-- What is made of the value that the store holds for an id. -/
def read (b : Bucket) (id : UInt32) : Option Bytes → Operation (Option Event)
  | none => return none
  | some value =>
    match Binary.readEvent? value with
    | some e => return some { e with id := id, bucket := b.id }
    | none => throw (.store (.serialization "malformed event"))

theorem load_eq (b : Bucket) (id : UInt32) :
    b.load id = call (.get b.eventsMap (idKey id)) >>= b.read id := rfl

theorem read_eq (b : Bucket) (id : UInt32) (hi : indexOf es.toList = .ok (i, last)) :
    b.read id es[idKey id]? = pure (b.loaded? es id) := by
  cases hv : es[idKey id]? with
  | none => simp [read, hv, loaded?, eventAt?]
  | some value =>
    have hk : idKey id ∈ es := by
      rw [Std.ExtTreeMap.mem_iff_isSome_getElem?, hv]
      rfl
    obtain ⟨_, hid, -, he⟩ := isSome_eventAt?_of_indexOf hi hk
    obtain rfl := idKey_inj hid
    obtain ⟨event, he⟩ := Option.isSome_iff_exists.mp he
    have hr : Binary.readEvent? value = some event := by simpa [eventAt?, hv] using he
    simp [read, hr, loaded?, he]

theorem load_result {b : Bucket} {id : UInt32} (hs : e.store.Serves (.get b.eventsMap (idKey id)))
    (hm : e.store.entries? b.eventsMap = some es) (hi : indexOf es.toList = .ok (i, last))
    (rounds : Nat) :
    (b.load id).result rounds e = some (.ok (b.loaded? es id), e) := by
  rw [load_eq, result_bind, result_call (Store.answer_get hs hm)]
  show Operation.result rounds (b.read id es[idKey id]?) e = _
  rw [read_eq b id hi, result_pure]

-- ---- searching -----------------------------------------------------------

/-- What a search does with the positions that it has found. -/
def among (b : Bucket) (most : Nat) (after : UInt32) (range : TimeRange) (positions : Positions) :
    Operation (List Event) := do
  if (← b.state) = .dropped then return []
  if range.stop.millis < b.hour.startMillis ∨ b.hour.endMillis ≤ range.start.millis then return []
  let ids := (positions.above after).toArray
  if ids.isEmpty then return []
  let first ←
    if range.start.millis ≤ b.hour.startMillis then pure 0
    else Seek.seek (fun i => b.timeOf (ids.getD i 0)) range.start.millis ids.size
  b.collect range most (ids.toList.drop first) []

/-- What it does with them in a bucket that is not dropped. -/
def amid (b : Bucket) (most : Nat) (after : UInt32) (range : TimeRange) (positions : Positions) :
    Operation (List Event) := do
  if range.stop.millis < b.hour.startMillis ∨ b.hour.endMillis ≤ range.start.millis then return []
  let ids := (positions.above after).toArray
  if ids.isEmpty then return []
  let first ←
    if range.start.millis ≤ b.hour.startMillis then pure 0
    else Seek.seek (fun i => b.timeOf (ids.getD i 0)) range.start.millis ids.size
  b.collect range most (ids.toList.drop first) []

theorem among_eq (b : Bucket) (most : Nat) (after : UInt32) (range : TimeRange)
    (positions : Positions) : b.among most after range positions = (liftM b.state >>= fun state =>
      if state = .dropped then pure [] else b.amid most after range positions) := rfl

theorem search_eq (b : Bucket) (query : String) (most : Nat) (after : UInt32) (range : TimeRange) :
    b.search query most after range =
      criteria query >>= fun c => liftM (b.evaluate c) >>= b.among most after range := by
  rw [search, matching, bind_assoc]
  rfl

/-- Undisturbed, a search goes on with the positions that are in the index. -/
theorem search_result_eq {e : Engine} {c : Criteria} (b : Bucket) (hs : e.cache.Sound)
    (hc : compile query = .ok c) (most : Nat) (after : UInt32) (range : TimeRange)
    (rounds : Nat) : (b.search query most after range).result rounds e =
      (b.among most after range ((e.data b).index.evaluate c)).result rounds (e.asked query) := by
  rw [search_eq, result_bind, criteria_result hs hc]
  show Operation.result rounds (liftM (b.evaluate c) >>= _) (e.asked query) = _
  rw [result_bind, evaluate, Bucket.observe, Activity.observe, result_lift]
  rfl

section

variable {b : Bucket} {P : Operation (List Event) → Prop} (hp : ∀ found, P (pure found))
include hp

theorem collect_induction {range : TimeRange} {most : Nat} {ids : List UInt32} 
    (hl : ∀ id ∈ ids, ∀ f, (∀ x, P (f x)) → P (b.load id >>= f)) (found : List Event) :
    P (b.collect range most ids found) := by
  induction ids generalizing found with
  | nil => exact hp _
  | cons id ids ih =>
    obtain ⟨hid, hids⟩ := List.forall_mem_cons.mp hl
    rw [collect]
    split
    · exact hp _
    refine hid _ fun x => ?_
    cases x with
    | none => exact ih hids _
    | some x => exact ih hids _

/-- What is true of answers, and stays true when one of the positions is loaded before, is true of
what a search does with its positions. -/
theorem amid_induction {positions : Positions}
    (hl : ∀ id ∈ positions, ∀ f, (∀ x, P (f x)) → P (b.load id >>= f)) (most : Nat)
    (after : UInt32) (range : TimeRange) : P (b.amid most after range positions) := by
  unfold amid
  split
  · exact hp _
  dsimp only
  split
  · exact hp _
  have hids : ∀ id ∈ positions.above after, id ∈ positions :=
    fun id hid => (Positions.mem_above.mp hid).1
  have hcollect (first : Nat) :
      P (b.collect range most ((positions.above after).drop first) []) :=
    collect_induction hp (fun id hid => hl id (hids id (List.mem_of_mem_drop hid))) []
  split
  · rw [pure_bind]
    exact hcollect 0
  · refine Seek.seek_induction (P := fun op => P (op >>= fun first =>
      b.collect range most ((positions.above after).drop first) [])) _ (fun n => ?_) ?_
    · rw [pure_bind]
      exact hcollect n
    · intro i hi f hf
      have hi : i < (positions.above after).length := by simpa using hi
      rw [bind_assoc, timeOf, bind_assoc]
      refine hl _ (hids _ ?_) _ fun x => ?_
      · simp [hi]
      · rw [pure_bind]
        exact hf _

theorem among_induction {positions : Positions}
    (hs : ∀ f : BucketState → Operation (List Event), (∀ state, P (f state)) →
      P (liftM b.state >>= f))
    (hl : ∀ id ∈ positions, ∀ f, (∀ x, P (f x)) → P (b.load id >>= f)) (most : Nat)
    (after : UInt32) (range : TimeRange) : P (b.among most after range positions) := by
  rw [among_eq]
  refine hs _ fun state => ?_
  split
  · exact hp _
  · exact amid_induction hp hl most after range

end

end Bucket

end EventStore
