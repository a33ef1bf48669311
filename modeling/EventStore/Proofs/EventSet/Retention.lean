import EventStore.Proofs.EventSet.Filing
import EventStore.Proofs.EventSet.Sweeping
import EventStore.Proofs.Time.Shift

/-!
# Dropping what is old

Old data go by the hour: a bucket is dropped whose hour began before the limit, unless it is locked,
and nothing else is touched (`EventSet.dropData_exact`). An event is up to an hour younger than the
start of its bucket. So a set that keeps its buckets an hour longer than events are to be kept drops
none too early.
-/

namespace EventStore

open Std Query Operation

-- ---- the limit -----------------------------------------------------------

theorem Config.EngineSection.of_retention? {settings : Config.EngineSection} {span : Int}
    (h : settings.retention? = some span) :
    span = (settings.retentionHours + settings.graceHours) * 3600 := by
  unfold retention? spanOfHours? at h
  split at h
  · exact (Option.some.inj h).symm
  · cases h

/-- The hour of an event that is to be kept has not begun before the limit, if there is an hour of
grace at least. -/
theorem Config.EngineSection.not_start_lt {settings : Config.EngineSection} {span : Int}
    {now cutoff t s : Instant} {hour : Hour} {ms : Int} (hspan : settings.retention? = some span)
    (hg : 1 ≤ settings.graceHours) (hc : now.shift? (-span) = some cutoff)
    (ht : now.shift? (-(settings.retentionHours * 3600)) = some t)
    (hs : Instant.ofMillis? ms = some s) (hts : t ≤ s) (hin : hour.contains ms = true) :
    ¬ hour.start < cutoff := by
  refine fun h => h (.inl ?_)
  obtain ⟨hstart, hend⟩ := Hour.contains_iff.mp hin
  obtain rfl := of_retention? hspan
  have hmillis := Instant.of_ofSeconds? hs
  subst hmillis
  simp only [Instant.le_iff] at hts
  simp only [Hour.startMillis, Hour.endMillis] at hstart hend
  show cutoff.seconds < hour.startSeconds
  -- In a leap second it depends on their signs how spans of time are counted.
  rcases Instant.of_shift? hc with ⟨hn, rfl⟩ | ⟨hn, hp, rfl⟩ | ⟨hn, hp, rfl⟩ <;>
    rcases Instant.of_shift? ht with ⟨hn', rfl⟩ | ⟨hn', hp', rfl⟩ | ⟨hn', hp', rfl⟩ <;>
    dsimp only at hts ⊢ <;> omega

namespace EventSet

variable {store : Store} {e u : Engine} {p : Hour → Bool}

/-- An event that is stored is still there if no bucket of its hour was to go. -/
theorem Thinned.stores {x : Event} (h : Thinned p e u) (hf : e.store.Filed) (hx : e.Stores x)
    (hn : ∀ hour : Hour, hour.contains x.millis = true → p hour = false) : u.Stores x := by
  obtain ⟨b, es, hes, hload⟩ := hx
  have hp := hn b.hour (hf.contains hes hload)
  refine ⟨b, es, (h.maps_eq fun {c} hc hh => ?_).1.trans hes, hload⟩
  rw [hh, hc.meant] at hp
  cases hp

def ofTwoQuarters : List Event := [Event.new 1709647200000, Event.new 1709653500000]

end EventSet

end EventStore
