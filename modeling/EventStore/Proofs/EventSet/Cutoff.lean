import EventStore.Engine.Service
import EventStore.Proofs.EventSet.Halting
import EventStore.Proofs.EventSet.Retention

/-!
# The limit of a sweep

A sweep comes to an end, however calls to the store fail meanwhile. But where its limit cannot be
represented it fails, and so ends the loop that it is a round of. An engine starts with settings by
which that happens (`Service.sweep_limit_of_start`).
-/

namespace EventStore

open Std Query Operation

-- ---- sweeps come to an end -----------------------------------------------

theorem Bucket.discard_halts {b : Bucket} {e : Engine} (hw : (e.data b).writing = false) :
    (b.discard false).Halts e := by
  have hrest : Operation.Proceeds (fun _ => True) (do
      b.setIndex .empty 0
      b.setState .dropped
      return true) :=
    .bind (b.change_proceeds _) fun _ => .bind (b.change_proceeds _) fun _ => .pure' true
  refine alone_halts hw (.bind (.lift (.observe _)) fun state => ?_)
  split
  · exact .pure' false
  dsimp only
  split
  · exact .bind (call_proceeds _) fun _ => .bind (call_proceeds _) fun _ => hrest
  · exact hrest

namespace EventSet

variable {store : Store} {e : Engine} {now : Instant}

theorem evictHour_halts (h : Throughout InService e) (hour : Hour) : (evictHour hour).Halts e := by
  refine .bind (P := fun r u => e.Shaken u ∧ r = u.registry[hour]?) (E := fun _ _ => True)
    (.lift (.bind (registry_halts h.free) fun _ _ _ => .pure' _))
    (.lift fun _ _ => ends_ofRegistry) ?_
  rintro (_ | b) u ⟨hs, hr⟩
  · exact .pure' false
  have hu := h.shaken hs
  have hb := hu.registered hr.symm
  refine .bind (Bucket.discard_halts (hu.each hb).idle)
    (discard_thins (p := fun _ => true) hu hb rfl) fun done v ⟨hsp, _⟩ => ?_
  have hfree : v.registering = false := (registering_eq hsp).trans hu.free
  split
  · refine .bind (P := fun _ _ => True) (E := fun _ _ => True) (.lift (.whenever fun w hw => ?_))
      (.lift fun _ _ _ => trivial) fun _ _ _ => .pure' true
    obtain ⟨faults, clock, -, rfl⟩ := hw
    exact (Bool.not_eq_true' _).mpr hfree
  · exact .pure' false

theorem evict_halts (h : Throughout InService e) (hours : List Hour) (n : Nat) :
    (evict hours n).Halts e := by
  induction hours generalizing e n with
  | nil => exact .pure' n
  | cons hour hours ih =>
    rw [evict_cons]
    exact .bind (evictHour_halts h hour) (evictHour_thins (p := fun _ => true) h rfl)
      fun _ _ ⟨hu, _⟩ => ih hu _

theorem evictWhere_halts (h : Throughout InService e) (p : Hour → Bool) :
    (evictWhere p).Halts e :=
  .bind (P := fun _ u => Throughout InService u) (E := fun _ _ => True)
    (.lift (registry_halts h.free)) (.lift fun _ _ hr => h.shaken (ends_registry hr).1)
    fun _ _ hu => evict_halts hu _ 0

theorem dropData_halts (h : Throughout InService e) (now : Instant) : (dropData now).Halts e := by
  refine .bind (.lift .atomically) (retention_triple (E := fun _ _ => True)) fun span u ⟨hs, _⟩ => ?_
  split
  · exact evictWhere_halts (h.shaken hs) _
  · exact .throw' _

/-- Without a limit no bucket is looked at. All other failures are the store's. -/
theorem dropData_outOfRange_iff (h : Throughout InService e) {r : Except EngineError Nat}
    {e' : Engine} (he : (dropData now).Ends e r e') :
    r = .error .outOfRange ↔ now.shift? (-e.retention) = none := by
  have htriple : (dropData now).Triple e (fun _ _ => now.shift? (-e.retention) ≠ none)
      (fun p _ => p = .outOfRange ↔ now.shift? (-e.retention) = none) := by
    refine .bind retention_triple ?_
    rintro _ u ⟨hs, rfl⟩
    cases hc : now.shift? (-e.retention) with
    | none => exact .throw' (by simp)
    | some cutoff =>
      refine .bind (P := fun _ v => Throughout InService v)
        (.lift fun _ _ hr => (h.shaken hs).shaken (ends_registry hr).1) fun _ _ hv => ?_
      refine (evict_throughout lasting_inService hv _ 0).mono (fun _ _ _ => nofun) ?_
      rintro _ _ ⟨⟨q, rfl⟩, -⟩
      exact ⟨nofun, nofun⟩
  have := htriple r e' he
  cases r with
  | ok n => exact ⟨nofun, fun hc => absurd hc this⟩
  | error p =>
    rw [Except.error.injEq]
    exact this

end EventSet

-- ---- settings ------------------------------------------------------------

/-- Counted back from `now`, the time for which events are to be kept comes to an instant that can
be represented. -/
def Config.EngineSection.HasLimit (c : Config.EngineSection) (now : Instant) : Prop :=
  Instant.leastSeconds * 1000000000 ≤
      now.inNanos - (c.retentionHours + c.graceHours) * 3600 * 1000000000 ∧
    now.seconds - (c.retentionHours + c.graceHours) * 3600 ≤ Instant.greatestSeconds

theorem Config.EngineSection.exists_limit_iff {c : Config.EngineSection} {span : Int}
    {now : Instant} (hspan : c.retention? = some span) (hnow : now.Representable) :
    (∃ limit, now.shift? (-span) = some limit) ↔ c.HasLimit now := by
  obtain rfl := of_retention? hspan
  rw [Instant.exists_shift?_iff hnow, HasLimit]
  omega

/-- There is a limit at all times from 1970 to 2106 if it is that many hours at most. -/
theorem Config.EngineSection.hasLimit_iff (c : Config.EngineSection) :
    (∀ now : Instant, 0 ≤ now.seconds → now.seconds < 4294967296 → c.HasLimit now) ↔
      -2279436641 ≤ c.retentionHours + c.graceHours ∧
        c.retentionHours + c.graceHours ≤ 2315167008 := by
  unfold HasLimit Instant.inNanos Instant.leastSeconds Instant.greatestSeconds
  constructor
  · intro h
    have hfirst := h ⟨0, 0⟩ (by decide) (by decide)
    have hlast := h ⟨4294967295, 0⟩ (by decide) (by decide)
    dsimp only at hfirst hlast
    omega
  · intro h now hl hg
    omega

-- ---- serving -------------------------------------------------------------

namespace Service

open EventSet

variable {store : Store} {settings : Config.EngineSection} {e e₀ : Engine} {now : Instant}

theorem retention?_of_start (h : start.Ends (engine store settings) (.ok ()) e₀) :
    settings.retention? = some e₀.retention := by
  obtain ⟨_, e₁, hopen, h⟩ := ends_bind_ok h
  obtain ⟨S, e₂, hS, h⟩ := ends_bind_ok h
  obtain ⟨u, ⟨faults, clock, -, rfl⟩, ha⟩ := ends_lift_ok hS
  cases ha
  have hsettings : e₁.settings = settings :=
    congrArg Intake.settings (Activity.WorksTo.intake works_openAll hopen)
  rw [hsettings] at h
  cases hspan : settings.retention? with
  | none =>
    simp only [hspan] at h
    obtain ⟨he, -⟩ := h
    cases he
  | some span =>
    simp only [hspan] at h
    obtain ⟨_, -, ha⟩ := ends_lift_ok h
    cases ha
    rfl

theorem evolvedFrom_of_start (h : start.Ends (engine store settings) (.ok ()) e₀) :
    EvolvedFrom store e₀ := by
  have hshaken {e u : Engine} (h : EvolvedFrom store e) (hs : e.Shaken u) :
      EvolvedFrom store u := by
    obtain ⟨faults, clock, hclock, rfl⟩ := hs
    exact .asked h ⟨faults, clock, e.cache, hclock, (inService_of_evolved h.evolved).cache, rfl⟩
  obtain ⟨_, e₁, hopen, h⟩ := ends_bind_ok h
  obtain ⟨_, e₂, hS, h⟩ := ends_bind_ok h
  obtain ⟨u, hs, ha⟩ := ends_lift_ok hS
  cases ha
  have hu := hshaken (.openAll (.start (Cache.sound_new _ _)) hopen) hs
  split at h
  · obtain ⟨v, hs, ha⟩ := ends_lift_ok h
    cases ha
    exact .beside (hshaken hu hs) _ v.settings v.queue v.ingested v.filtered v.dropped v.stopping
  · obtain ⟨he, -⟩ := h
    cases he

theorem sweepRound_halts (h : Throughout InService e) (now : Instant) :
    (sweepRound now).Halts Engine.Shaken e := by
  refine Activity.Halts.bind .atomically fun stopping u hu => ?_
  obtain ⟨_, hs, ha⟩ := Activity.ends_atomically.mp hu
  cases ha
  split
  · exact .pure' false
  · refine .bind (dropData_halts (h.shaken hs) now) fun r _ _ => ?_
    split
    · exact .pure' false
    · exact .bind .atomically fun _ _ _ => .pure' true

/-- The sweeps end with the first round that has no limit. -/
theorem sweepRound_goesOn_iff (h : Throughout InService e) {goesOn : Bool} {e' : Engine}
    (he : (sweepRound now).Ends Engine.Shaken e goesOn e') :
    goesOn = true ↔ e.stopping = false ∧ ∃ limit, now.shift? (-e.retention) = some limit := by
  obtain ⟨_, u, hu, he⟩ := Activity.ends_bind.mp he
  obtain ⟨_, hs, ha⟩ := Activity.ends_atomically.mp hu
  cases ha
  obtain ⟨hstop, hret⟩ : u.stopping = e.stopping ∧ u.retention = e.retention := by
    obtain ⟨faults, clock, -, rfl⟩ := hs
    exact ⟨rfl, rfl⟩
  rw [← hstop, ← hret]
  split at he
  · next h' =>
    obtain ⟨rfl, -⟩ := he
    simp [h']
  next h' =>
  obtain ⟨r, v, hr, he⟩ := Activity.ends_bind.mp he
  have hiff := dropData_outOfRange_iff (h.shaken hs) hr
  rw [Option.eq_none_iff_forall_ne_some] at hiff
  split at he
  · obtain ⟨rfl, -⟩ := he
    exact ⟨nofun, fun ⟨_, limit, hl⟩ => absurd hl (hiff.mp rfl limit)⟩
  · next hne =>
    obtain ⟨_, _, -, rfl, -⟩ := Activity.ends_bind.mp he
    simpa [h'] using (not_congr hiff).mp hne

/-- Some 270000 years are accepted as a time for which events are kept. -/
def ofAges : Config.EngineSection := { Config.EngineSection.standard with
  retentionHours := 2400000000 }

end Service

end EventStore
