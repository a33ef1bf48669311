import EventStore.Proofs.EventSet.Filing
import EventStore.Proofs.EventSet.Sweeping

/-!
# Sweeping again

A sweep that fails may have stopped between two buckets or between the two maps of one. It can be
tried again until no call is refused, and then the set is what one sweep without failures would have
made of it (`EventSet.sweep_again`). This supposes a limit that can be represented: else no data are
ever dropped (`dropData_refused_of_added`).
-/

namespace EventStore

open Std Query Operation

namespace EventSet

variable {store : Store} {e e₀ e₁ e₂ : Engine} {s : Sweep} {p : Hour → Bool}

namespace Sweep

/-- Sweeps have been tried, whatever came of them. -/
def Tried (s : Sweep) : Engine → Engine → Prop :=
  Relation.ReflTransGen fun e e' => ∃ r, s.operation.Ends e r e'

theorem works (s : Sweep) : s.operation.Works := by
  cases s with
  | purge => exact works_purge
  | dropData now => exact works_dropData now

/-- It is the same hours that a sweep is about when it is tried again. -/
theorem hours?_of_thinned (h : Thinned p e e₁) : s.hours? e₁ = s.hours? e := by
  have hret : e₁.retention = e.retention := by rw [h.rest]
  cases s with
  | purge => rfl
  | dropData now => rw [hours?, hours?, hret]

/-- What may have become of a set that some sweeps were to thin. -/
structure Amid (p : Hour → Bool) (e e' : Engine) : Prop where
  throughout : Throughout InService e'
  thinned : Thinned p e e'
  sound : e'.store.Sound

theorem Amid.start (he : Throughout InService e) (hs : e.store.Sound) : Amid p e e :=
  ⟨he, .of_shaken (.refl e), hs⟩

theorem Amid.shaken (h : Amid p e e₁) (hs : e₁.Shaken e₂) (he : Throughout InService e) :
    Amid p e e₂ := by
  refine ⟨h.throughout.shaken hs, h.thinned.trans (.of_shaken hs) he, ?_⟩
  obtain ⟨faults, clock, -, rfl⟩ := hs
  exact h.sound

theorem Amid.ends {r : Except EngineError Nat} (h : Amid p e e₁) (he : Throughout InService e)
    (hp : s.hours? e = some p) (hr : s.operation.Ends e₁ r e₂) : Amid p e e₂ := by
  have hp₁ : s.hours? e₁ = some p := (hours?_of_thinned h.thinned).trans hp
  have hends := triple h.throughout hp₁ r e₂ hr
  have hsound : e₂.store.Sound := Activity.WorksTo.sound s.works hr h.sound
  cases r with
  | ok n => exact ⟨hends.1, h.thinned.trans hends.2.toThinned he, hsound⟩
  | error q => exact ⟨hends.1, h.thinned.trans hends.2 he, hsound⟩

theorem Tried.amid (ht : s.Tried e e₁) (h : Amid p e e) (he : Throughout InService e)
    (hp : s.hours? e = some p) : Amid p e e₁ := by
  induction ht with
  | refl => exact h
  | tail _ hr ih =>
    obtain ⟨r, hr⟩ := hr
    exact ih.ends he hp hr

theorem Amid.exists_result (h : Amid p e e₁) (he : Throughout InService e)
    (ha : e₁.store.isAvailable = true) (hp : s.hours? e = some p) (rounds : Nat) :
    ∃ n u, s.operation.result rounds e₁ = some (.ok n, u) ∧ Swept p e u := by
  obtain ⟨u, hr, hu, -⟩ := Sweep.exists_result h.throughout ⟨h.sound, ha⟩
    ((hours?_of_thinned h.thinned).trans hp) rounds
  exact ⟨_, u, hr, .of_thinned h.thinned hu he⟩

end Sweep

/-- However many sweeps have been tried and however calls to the store have failed, one more
succeeds if none is refused. All that were to go are gone then, and nothing else, and the set is
what a single sweep would have made of it. -/
theorem sweep_again (h : EvolvedFrom store e) (hs : store.Sound) (hp : s.hours? e = some p)
    (ht : s.Tried e e₁) (h₂ : e₁.Shaken e₂) (ha₂ : e₂.store.isAvailable = true)
    (h₀ : e.Shaken e₀) (ha₀ : e₀.store.isAvailable = true) (rounds : Nat) :
    ∃ n n₀ u u₀, s.operation.result rounds e₂ = some (.ok n, u) ∧
      s.operation.result rounds e₀ = some (.ok n₀, u₀) ∧ Swept p e u ∧
      u = { u₀ with store := u.store, clock := u.clock } ∧
      u.store.entries? = u₀.store.entries? := by
  have he := inService_of_evolved h.evolved
  have hstart := Sweep.Amid.start (p := p) he (h.sound hs)
  have hend := ht.amid hstart he hp
  obtain ⟨n, u, hr, hu⟩ := (hend.shaken h₂ he).exists_result he ha₂ hp rounds
  obtain ⟨n₀, u₀, hr₀, hu₀⟩ := (hstart.shaken h₀ he).exists_result he ha₀ hp rounds
  exact ⟨n, n₀, u, u₀, hr, hr₀, hu, hu.eq hu₀ he⟩

def ofNextHours : List Event := [Event.new 1709647200000, Event.new 1709650800000]

/-- The first hour is purged, and then the options of the second cannot be removed: it is still
registered, without its events. -/
theorem sweep_again_of_refused : ∃ e e₀ e₁ e₂ n n₀ u u₀, EvolvedFrom .inMemory e ∧
    Store.inMemory.Sound ∧ Sweep.purge.hours? e = some (fun _ => true) ∧
    Sweep.purge.Tried e e₁ ∧ e₁.buckets.map (·.hour.key) = ["2024030515"] ∧
    e₁.store.entries? "optics_2024030515" = none ∧ e₁.Shaken e₂ ∧
    e₂.store.isAvailable = true ∧ e.Shaken e₀ ∧ e₀.store.isAvailable = true ∧
    purge.result 0 e₂ = some (.ok n, u) ∧ purge.result 0 e₀ = some (.ok n₀, u₀) ∧
    Swept (fun _ => true) e u ∧ u = { u₀ with store := u.store, clock := u.clock } ∧
    u.store.entries? = u₀.store.entries? := by
  let refusing (e : Engine) (faults : List Fault) : Engine :=
    { e with store := { e.store with faults := faults } }
  have hrefusing (e : Engine) (faults : List Fault) : e.Shaken (refusing e faults) :=
    ⟨faults, e.clock, Nat.le_refl _, rfl⟩
  let faults : List Fault := [⟨.removeMap, some "optics_2024030515.options"⟩]
  have hrun : (Activity.run 0 (addAll ofNextHours) (.fresh .inMemory .standard .standard)).any
      (fun (_, e) => (refusing e []).store.isAvailable &&
        (purge.result 0 (refusing e faults)).any fun (_, e₁) =>
          e₁.buckets.map (·.hour.key) == ["2024030515"] &&
            (e₁.store.entries? "optics_2024030515").isNone &&
            (refusing e₁ []).store.isAvailable) = true := by decide +kernel
  obtain ⟨⟨report, e⟩, hadd, hrun⟩ := (Option.any_eq_true _ _).mp hrun
  obtain ⟨ha₀, hrun⟩ := (Bool.and_eq_true ..).mp hrun
  obtain ⟨⟨r, e₁⟩, hpurge, hrun⟩ := (Option.any_eq_true _ _).mp hrun
  simp only [Bool.and_eq_true, beq_iff_eq, Option.isNone_iff_eq_none] at hrun
  obtain ⟨⟨hkeys, hgone⟩, ha₂⟩ := hrun
  have hadded : EvolvedFrom .inMemory e := .addAll (.start (Cache.sound_new _ _))
    (by decide +kernel) (Activity.ends_of_run Engine.Shaken.refl hadd)
  have hcache := (inService_of_evolved hadded.evolved).cache
  have he : EvolvedFrom .inMemory (refusing e faults) :=
    .asked hadded ⟨faults, e.clock, e.cache, Nat.le_refl _, hcache, rfl⟩
  have ht : Sweep.purge.Tried (refusing e faults) e₁ := .single ⟨r, ends_of_result hpurge⟩
  have h₀ := hrefusing (refusing e faults) []
  have h₂ := hrefusing e₁ []
  obtain ⟨n, n₀, u, u₀, hr, hr₀, hu, hsame⟩ := sweep_again he trivial rfl ht h₂ ha₂ h₀ ha₀ 0
  exact ⟨_, _, e₁, _, n, n₀, u, u₀, he, trivial, rfl, ht, hkeys, hgone, h₂, ha₂, h₀, ha₀, hr, hr₀,
    hu, hsame⟩

/-- A limit that lies too far back to be told is never reached, though no call is refused. -/
theorem dropData_refused_of_added : ∃ e, EvolvedFrom .inMemory e ∧ Store.inMemory.Sound ∧
    e.store.isAvailable = true ∧
    ((dropData ⟨Instant.leastSeconds, 0⟩).result 0 e).map (·.1) = some (.error .outOfRange) := by
  have hrun : (Activity.run 0 (addAll ofNextHours) (.fresh .inMemory .standard .standard)).any
      (fun (_, e) => e.store.isAvailable && e.retention == 25 * 3600) = true := by decide +kernel
  obtain ⟨⟨report, e⟩, hadd, hrun⟩ := (Option.any_eq_true _ _).mp hrun
  obtain ⟨ha, hret⟩ := (Bool.and_eq_true ..).mp hrun
  have he : EvolvedFrom .inMemory e := .addAll (.start (Cache.sound_new _ _)) (by decide +kernel)
    (Activity.ends_of_run Engine.Shaken.refl hadd)
  refine ⟨e, he, trivial, ha, ?_⟩
  have hshift : (⟨Instant.leastSeconds, 0⟩ : Instant).shift? (-e.retention) = none := by
    rw [beq_iff_eq.mp hret]
    decide
  rw [dropData, result_bind, retention, Activity.observe, result_lift]
  simp only [Option.bind_some, hshift]
  rfl

end EventSet

end EventStore
