import EventStore.Proofs.EventSet.Bounded
import EventStore.Proofs.EventSet.Undisturbed

/-!
# Buckets stay usable

Calls that add events and ask for some go on at the same time, and whenever all are done buckets may
be evicted. Then each registered bucket has its maps and the index of what they hold
(`quiet_of_tended`), takes the next event of its hour and can be asked for events
(`serves_of_tended`). While a bucket is being made none of its hour must be evicted: else one is
registered whose maps are gone (`not_serves_of_overtaken`).
-/

namespace EventStore

open Std Query Operation

namespace EventSet

variable {e e₀ : Engine} {b : Bucket}

-- ---- whenever nobody is at work ------------------------------------------

theorem Quiet.intact (h : Quiet e) : Throughout Intact e where
  cache := h.cache
  free := h.registering
  hour := h.hour
  here := h.here
  apart := h.apart
  each hb := ⟨h.indexed hb (h.idle hb), (h.usable hb).options, (h.usable hb).writable, h.idle hb⟩

theorem quiet_of_run {s : Scene} (h₀ : Quiet e₀)
    (hr : Scene.Run Call.activity Call.Stays Engine.Shaken ⟨e₀, []⟩ s)
    (hq : s.isQuiet = true) : Quiet s.state := by
  obtain ⟨ks, habides, hacc⟩ := Scene.exists_abides_of_run orderly_stays
    (accounted_preserved e₀) hr ⟨h₀.toSound, .nil, .nil⟩ h₀.accounted
  obtain ⟨-, hfree, -⟩ := free_of_settled (habides.settled hq)
  exact hacc.quiet habides.sound hfree

-- ---- histories -----------------------------------------------------------

/-- What can have come of `e₀`. Calls that evict and lock nothing go on at the same time, until all
are done, and calls to the store may fail; buckets are evicted in between, by calls to the store
that do not fail. -/
inductive Tended (e₀ : Engine) : Engine → Prop
  | refl : Tended e₀ e₀
  | calls {e : Engine} {s : Scene} (h : Tended e₀ e)
    (hr : Scene.Run Call.activity Call.Stays Engine.Shaken ⟨e, []⟩ s) (hq : s.isQuiet = true) :
    Tended e₀ s.state
  | purge {e e' : Engine} {r} (h : Tended e₀ e) (hr : EventSet.purge.Ends e r e')
    (hs : ∀ p, r ≠ .error (.store p)) : Tended e₀ e'
  | dropData {e e' : Engine} {now r} (h : Tended e₀ e)
    (hr : (EventSet.dropData now).Ends e r e') (hs : ∀ p, r ≠ .error (.store p)) : Tended e₀ e'

/-- Nothing of this is lost. -/
theorem quiet_of_tended (h₀ : Quiet e₀) (h : Tended e₀ e) : Quiet e := by
  induction h with
  | refl => exact h₀
  | calls _ hr hq ih => exact quiet_of_run ih hr hq
  | @purge _ _ r _ hr hs ih =>
    have := purge_throughout lasting_intact ih.intact r _ hr
    cases r with
    | ok n => exact this.quiet
    | error p =>
      obtain ⟨⟨q, rfl⟩, -⟩ := this
      exact absurd rfl (hs q)
  | @dropData _ _ now r _ hr hs ih =>
    have := dropData_throughout lasting_intact ih.intact now r _ hr
    cases r with
    | ok n => exact this.quiet
    | error p =>
      rcases this with ⟨⟨q, rfl⟩, -⟩ | hq
      · exact absurd rfl (hs q)
      · exact hq.quiet

-- ---- queries -------------------------------------------------------------

theorem Quiet.query_result {text : String} {q : Criteria} {range : TimeRange} (h : Quiet e)
    (ha : e.store.isAvailable = true) (hc : compile text = .ok q)
    (hr : range.start ≤ range.stop) (most : Nat) (token : Token) (rounds : Nat) :
    ∃ found e', (query text range most token).result rounds e = some (.ok found, e') := by
  obtain ⟨all, -, hall⟩ := exists_query_result h.intact ha hc hr token rounds
  exact ⟨_, hall most⟩

-- ---- additions -----------------------------------------------------------

theorem Quiet.add_result {x : Event} (h : Quiet e) (ha : e.store.Able) (hb : Registered b e)
    (hx : x.hour? = some b.hour) (rounds : Nat) :
    ∃ e', (add x).result rounds e = some (e.admitted x, e') := by
  have hu := h.usable hb
  obtain ⟨c', hrun⟩ := Bucket.addAll_runs (b := b) (c := e.cell b) (List.cons_ne_nil x [])
    (h.idle hb) hu.writable hu.events (by simpa using Event.contains_of_hour? hx)
  obtain ⟨e', hadd, -⟩ := hrun e rounds (h.here hb) rfl ha
  have hroute : route x = .ok b.hour := by rw [route, hx]
  have hbucket : Operation.result rounds (liftM (bucket? b.hour)) e = some (.ok (some b), e) := by
    rw [show bucket? b.hour = (do return (← registry)[b.hour]?) from rfl,
      result_lift_run (run_ofRegistry h.registering (·[b.hour]?) rounds)]
    exact congrArg (fun r => some (Except.ok r, e)) hb
  have hlast : e.lastIdOf b.hour = (e.data b).lastId := by
    rw [Engine.lastIdOf, show e.registry[b.hour]? = some b from hb]
  refine ⟨e', ?_⟩
  rw [add, hroute, Engine.admitted, hx]
  show Operation.result rounds (getOrCreate b.hour >>= fun b => b.add x) e = _
  rw [result_bind, getOrCreate, result_bind, hbucket]
  show (b.add x).result rounds e = _
  dsimp only
  rw [Bucket.add, result_bind, hadd, hlast, List.length_singleton, b.named]
  show Option.bind (some (if (e.data b).lastId.toNat + 1 < 4294967296 then _ else _, e')) _ = _
  split <;> rfl

-- ---- what there is at rest -----------------------------------------------

/-- Each registered bucket has its maps, and its index and counter are those of what they hold. It
takes the next event of its hour, and it can be asked for events. -/
structure Serves (e : Engine) : Prop where
  options : ∀ {b : Bucket}, Registered b e → (e.store.entries? b.optionsMap).isSome
  indexed : ∀ {b : Bucket}, Registered b e → b.Indexed (e.cell b)
  adds : ∀ {b : Bucket} {x : Event}, e.store.Able → Registered b e → x.hour? = some b.hour →
    ∀ rounds, ∃ e', (add x).result rounds e = some (e.admitted x, e')
  answers : ∀ {text : String} {q : Criteria} {range : TimeRange}, e.store.Able →
    compile text = .ok q → range.start ≤ range.stop → ∀ most token rounds,
      ∃ found e', (query text range most token).result rounds e = some (.ok found, e')

theorem Quiet.serves (h : Quiet e) : Serves e where
  options hb := (h.usable hb).options
  indexed hb := h.indexed hb (h.idle hb)
  adds ha hb hx := h.add_result ha hb hx
  answers ha hc hr := h.query_result ha.available hc hr

/-- Whatever calls have added events at the same time, and whatever has been evicted between such
times, the registered buckets can be used. -/
theorem serves_of_tended (h₀ : Quiet e₀) (h : Tended e₀ e) : Serves e :=
  (quiet_of_tended h₀ h).serves

/-- What two calls have added is evicted, and then they add it again. -/
theorem serves_of_tended_of_purged : ∃ e₀ e b, Quiet e₀ ∧ Tended e₀ e ∧ Registered b e ∧
    Serves e := by
  have h₀ : Quiet (.fresh .inMemory .standard .standard) := quiet_fresh _ (Cache.sound_new _ _) _
  have h₁ := Tended.refl.calls (run_twoAdded (.fresh .inMemory .standard .standard))
    (by decide +kernel)
  obtain ⟨n, e, hp, h⟩ := exists_ends_of_isOk 0 purge
    (twoAdded (.fresh .inMemory .standard .standard)).state
    (fun e => (twoAdded e).isQuiet && !(twoAdded e).state.registry.values.isEmpty)
    (by decide +kernel)
  obtain ⟨hq, hr⟩ := (Bool.and_eq_true ..).mp h
  have h₂ := (h₁.purge hp nofun).calls (run_twoAdded e) hq
  obtain ⟨b, hb⟩ : ∃ b, b ∈ (twoAdded e).state.registry.values :=
    List.exists_mem_of_ne_nil _ (by simpa using hr)
  obtain ⟨hour, hb⟩ := exists_of_mem_values hb
  exact ⟨_, _, b, h₀, h₂, (quiet_of_tended h₀ h₂).registered hb, serves_of_tended h₀ h₂⟩

-- ---- a bucket evicted while another is being made ------------------------

/-- The bucket that the second call makes has been read before the first is evicted with its event,
and it is registered afterwards. -/
def overtaken : Scene :=
  .turns Call.activity (.fresh .inMemory .standard .standard)
    [.add (Event.new 1709647200000), .getOrCreate ⟨474902⟩, .purge]
    (.replicate 3 1 ++ .replicate 22 0 ++ .replicate 7 1 ++ .replicate 24 2 ++ .replicate 9 1)

/-- Then its maps are gone, and the next event of its hour cannot be added. -/
theorem not_serves_of_overtaken : Scene.Run Call.activity (fun _ => True) Engine.Shaken
      ⟨.fresh .inMemory .standard .standard, []⟩ overtaken ∧ overtaken.isQuiet = true ∧
    ∃ b, Registered b overtaken.state ∧ (overtaken.state.data b).lastId = 1 ∧
      overtaken.state.store.entries? b.eventsMap = none ∧
      ((add (Event.new 1709647200000)).result 0 overtaken.state).map (·.1) =
        some (.error (.store (.mapNotFound b.eventsMap))) := by
  refine ⟨Scene.run_turns (fun _ _ => trivial) _, by decide +kernel,
    ⟨0, ⟨474902⟩, 1709647200, by decide⟩, ?_, by decide +kernel, ?_, by decide +kernel⟩
  · unfold Registered
    decide +kernel
  · exact Option.isNone_iff_eq_none.mp (by decide +kernel)

end EventSet

end EventStore
