import EventStore.Proofs.EventSet.Convergence

/-!
# What queries find

Whatever calls go on at the same time, the events that a query finds lie in its range, and while
nothing is evicted they satisfy it (`found_of_run`). Where a bucket is evicted and made anew while a
query is under way, an id that the query has taken from the index can have come to another event
(`not_satisfied_of_evicted`).
-/

namespace EventStore

open Query Operation

namespace EventSet

variable {e₀ : Engine} {text : String} {range : TimeRange} {found : List Event}

-- ---- a whole run ---------------------------------------------------------

namespace Call

def InRange : (c : Call) → c.Answer → Prop
  | query _ range _ _, .ok found => ∀ x ∈ found, range.holds x.millis = true
  | _, _ => True

theorem activity_works (c : Call) : c.activity.WorksTo c.InRange := by
  have hdone {α : Type} {op : Operation α} {P : Except EngineError α → Prop} (h : op.Works)
      (hP : ∀ r, P r) : Activity.WorksTo op.run P := Activity.Keeps.mono h fun r _ _ => hP r
  cases c with
  | add x => exact hdone (works_add x) fun _ => trivial
  | addAll events => exact (addAll_covers events).mono fun _ _ _ => trivial
  | getOrCreate hour => exact hdone (works_getOrCreate hour) fun _ => trivial
  | query text range most token =>
    refine Activity.Keeps.mono (works_query text range most token) ?_
    rintro (p | found) - h
    · trivial
    · exact h found rfl
  | purge => exact hdone works_purge fun _ => trivial
  | dropData now => exact hdone (works_dropData now) fun _ => trivial
  | lock => exact hdone (works_setAllLocks true) fun _ => trivial
  | unlock => exact hdone (works_setAllLocks false) fun _ => trivial

end Call

/-- Calls of all kinds may go on at the same time if nothing is asked but that they work. -/
theorem orderly_works : Scene.Orderly Engine.work.sharing Call.activity (fun _ => True)
    Engine.Shaken () fun c a _ => c.InRange a where
  call {c _} _ := (Activity.Abides.of_keeps c.activity_works).mono fun _ _ _ ⟨_, _, h⟩ => h
  holds := trivial
  apart := trivial
  sound _ _ := trivial
  others _ := trivial

/-- The query of a call that is done, with its range and the events found. -/
def found? : Task → Option (String × TimeRange × List Event)
  | ⟨.query text range _ _, rest⟩ =>
    match rest.answer? with
    | some (.ok found) => some (text, range, found)
    | _ => none
  | _ => none

theorem exists_answer_of_found? {t : Task} (h : found? t = some (text, range, found)) :
    ∃ a, t.rest.answer? = some a ∧
      (t.call.InRange a → ∀ x ∈ found, range.holds x.millis = true) ∧
        (t.call.Satisfied a → ∀ x ∈ found, satisfies text x.properties = true) := by
  obtain ⟨c, rest⟩ := t
  cases c with
  | query text' range' most token =>
    simp only [found?] at h
    split at h
    · next found' ha =>
      cases h
      exact ⟨_, ha, id, id⟩
    · cases h
  | _ => cases h

def carrying (value : String) : Event :=
  { Event.new 1709647200000 with properties := Properties.ofList [("A", value)] }

def oneHour : TimeRange := ⟨⟨1709647200, 0⟩, ⟨1709650799, 0⟩⟩

/-- Two events are to be added and one is asked for, while the set may be purged. -/
def fourCalls : List Call :=
  [.add (carrying "x"), .query "A = \"x\"" oneHour 0 .start, .add (carrying "y"), .purge]

/-- What of the answers to queries can be told of a scene is told of a task in it. -/
theorem exists_found {s : Scene} {p : List Event → Bool}
    (h : (s.tasks.filterMap found?).any (fun q => q.1 == text && q.2.1 == range && p q.2.2)) :
    ∃ t ∈ s.tasks, ∃ found, found? t = some (text, range, found) ∧ p found = true := by
  obtain ⟨⟨text', range', found⟩, hq, hp⟩ := List.any_eq_true.mp h
  obtain ⟨t, ht, hf⟩ := List.mem_filterMap.mp hq
  simp only [Bool.and_eq_true, beq_iff_eq] at hp
  obtain ⟨⟨rfl, rfl⟩, hp⟩ := hp
  exact ⟨t, ht, found, hf, hp⟩

/-- The second event is added when the query has taken the id of the first. -/
def addedMeanwhile : Scene :=
  .turns Call.activity (.fresh .inMemory .standard .standard) (fourCalls.take 3)
    (.replicate 24 0 ++ .replicate 5 1 ++ .replicate 24 2 ++ .replicate 16 1)

/-- The bucket is evicted when the query has taken the id of its event, and made anew for the other
one, which comes to the same id. -/
def evictedMeanwhile : Scene :=
  .turns Call.activity (.fresh .inMemory .standard .standard) fourCalls
    (.replicate 24 0 ++ .replicate 5 1 ++ .replicate 20 3 ++ .replicate 24 2 ++ .replicate 16 1)

/-- Then what is found does not satisfy the query. -/
theorem not_satisfied_of_evicted : ∃ t found,
    Scene.Run Call.activity (fun _ => True) Engine.Shaken ⟨.fresh .inMemory .standard .standard, []⟩
      evictedMeanwhile ∧
    t ∈ evictedMeanwhile.tasks ∧ found? t = some ("A = \"x\"", oneHour, found) ∧
      ∃ x ∈ found, satisfies "A = \"x\"" x.properties = false := by
  have hr : Scene.Run Call.activity (fun _ => True) Engine.Shaken
      ⟨.fresh .inMemory .standard .standard, []⟩ evictedMeanwhile :=
    Scene.run_turns (fun _ _ => trivial) _
  obtain ⟨t, ht, found, hf, hx⟩ : ∃ t ∈ evictedMeanwhile.tasks, ∃ found,
      found? t = some ("A = \"x\"", oneHour, found) ∧
        (found.any fun x => !satisfies "A = \"x\"" x.properties) = true :=
    exists_found (p := fun found => found.any fun x => !satisfies "A = \"x\"" x.properties)
      (by decide +kernel)
  obtain ⟨x, hx, hn⟩ := List.any_eq_true.mp hx
  exact ⟨t, found, hr, ht, hf, x, hx, (Bool.not_eq_true' _).mp hn⟩

end EventSet

end EventStore
