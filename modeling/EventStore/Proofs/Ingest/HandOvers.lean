import EventStore.Proofs.EventSet.Batch
import EventStore.Proofs.Ingest.Accounts
import EventStore.Proofs.Ingest.Parts
import Mathlib.Algebra.BigOperators.Group.List.Basic

/-!
# What a drain hands over

A drain takes a batch from the queue and hands the events over to the set of buckets, those together
that have been tried equally often. `Drains` tells which events have been handed over, and what was
reported on them, when the queue is drained (`ends_drainPending`). Each hand-over uses up some of
the tries that the events of the queue have left, so draining comes to an end
(`drainPending_halts`).
-/

namespace EventStore

namespace Ingest

open EventSet

variable {e e' u : Engine} {d d' : Drained} {n : Nat}

/-- Events that have been tried equally often, which were handed over, and the report on them. -/
structure HandOver where
  attempts : Nat
  events : List Event
  report : Report

namespace HandOver

def entries (h : HandOver) : List Queued := h.events.map (⟨·, h.attempts⟩)

def IsLast (most : Nat) (h : HandOver) : Prop := most ≤ h.attempts + 1

instance (most : Nat) (h : HandOver) : Decidable (h.IsLast most) :=
  inferInstanceAs (Decidable (_ ≤ _))

/-- What goes back to the queue, where events are tried so many times at most. -/
def again (most : Nat) (h : HandOver) : List Queued :=
  if h.IsLast most then [] else h.report.retry.map (⟨·, h.attempts + 1⟩)

/-- How many events are given up, or cannot be stored at all. -/
def dropped (most : Nat) (h : HandOver) : Nat :=
  h.report.discarded + if h.IsLast most then h.report.retry.length else 0

end HandOver

-- ---- one hand-over -------------------------------------------------------

/-- While calls to the store began or ceased to fail, so many events were counted as dropped. -/
def Drops (n : Nat) (e e' : Engine) : Prop :=
  ∃ u, e.Shaken u ∧ e' = { u with dropped := u.dropped + n }

theorem Drops.of_shaken (h : e.Shaken e') : Drops 0 e e' := ⟨e', h, rfl⟩

theorem Drops.trans {m : Nat} (h : Drops n e u) (h' : Drops m u e') : Drops (n + m) e e' := by
  obtain ⟨_, ⟨faults, clock, hc, rfl⟩, rfl⟩ := h
  obtain ⟨_, ⟨faults', clock', hc', rfl⟩, rfl⟩ := h'
  exact ⟨_, ⟨faults', clock', Nat.le_trans hc hc', rfl⟩, by simp only [Nat.add_assoc]⟩

theorem Drops.intake (h : Drops n e e') :
    e'.intake = { e.intake with dropped := e.dropped + n } := by
  obtain ⟨_, ⟨faults, clock, -, rfl⟩, rfl⟩ := h
  rfl

theorem Drops.throughout {P : Bucket → Cell → Prop} (h : Drops n e e') (ht : Throughout P e) :
    Throughout P e' := by
  obtain ⟨u, hu, rfl⟩ := h
  have hu := ht.shaken hu
  exact hu.of_eq hu.cache hu.free rfl rfl rfl

theorem ends_countDropped (h : (countDropped n).Ends Engine.Shaken e () e') : Drops n e e' := by
  obtain ⟨u, hu, ha⟩ := Activity.ends_atomically.mp h
  cases ha
  exact ⟨u, hu, rfl⟩

theorem ends_settings {S : Config.EngineSection} (h : settings.Ends Engine.Shaken e S e') :
    S = e.settings ∧ Drops 0 e e' := by
  obtain ⟨u, hu, ha⟩ := Activity.ends_atomically.mp h
  cases ha
  refine ⟨?_, .of_shaken hu⟩
  obtain ⟨faults, clock, -, rfl⟩ := hu
  rfl

/-- What can be tried again goes back together, unless it has been tried often enough. -/
theorem ends_tryAgain {made : HandOver}
    (h : (tryAgain d made.attempts made.report.retry).Ends Engine.Shaken e d' e') :
    d' = { d with requeue := d.requeue ++ made.again e.settings.maxIngestAttempts } ∧
      Drops (if made.IsLast e.settings.maxIngestAttempts then made.report.retry.length else 0)
        e e' := by
  unfold tryAgain at h
  by_cases hn : made.report.retry = []
  · rw [if_pos (List.isEmpty_iff.mpr hn)] at h
    obtain ⟨rfl, rfl⟩ := h
    simp only [HandOver.again, hn, List.map_nil, List.append_nil, List.length_nil, ite_self]
    exact ⟨trivial, .of_shaken (.refl e)⟩
  rw [if_neg (by simpa using hn)] at h
  obtain ⟨S, u, hs, h⟩ := Activity.ends_bind.mp h
  obtain ⟨rfl, hu⟩ := ends_settings hs
  by_cases hl : made.IsLast e.settings.maxIngestAttempts
  · have hle : e.settings.maxIngestAttempts ≤ made.attempts + 1 := hl
    rw [if_pos hle] at h
    obtain ⟨_, v, hc, rfl, rfl⟩ := Activity.ends_bind.mp h
    rw [HandOver.again, if_pos hl, if_pos hl, List.append_nil]
    exact ⟨rfl, by simpa using hu.trans (ends_countDropped hc)⟩
  · have hle : ¬ e.settings.maxIngestAttempts ≤ made.attempts + 1 := hl
    rw [if_neg hle] at h
    obtain ⟨rfl, rfl⟩ := h
    rw [HandOver.again, if_neg hl, if_neg hl]
    exact ⟨rfl, hu⟩

theorem ends_reckon (made : HandOver)
    (h : (reckon d made.attempts made.report).Ends Engine.Shaken e d' e') :
    d' = ⟨d.committed + made.report.committed.length,
        d.requeue ++ made.again e.settings.maxIngestAttempts⟩ ∧
      Drops (made.dropped e.settings.maxIngestAttempts) e e' := by
  unfold reckon at h
  by_cases hd : 0 < made.report.discarded
  · rw [if_pos hd] at h
    obtain ⟨_, u, hc, h⟩ := Activity.ends_bind.mp h
    have hu := ends_countDropped hc
    obtain ⟨hd', hdrops⟩ := ends_tryAgain h
    rw [show u.settings = e.settings from congrArg Intake.settings hu.intake] at hd' hdrops
    exact ⟨hd', hu.trans hdrops⟩
  · rw [if_neg hd] at h
    obtain ⟨hd', hdrops⟩ := ends_tryAgain h
    refine ⟨hd', ?_⟩
    rw [HandOver.dropped, Nat.eq_zero_of_not_pos hd, Nat.zero_add]
    exact hdrops

theorem intake_of_addAll {events : List Event} {report : Report}
    (h : (EventSet.addAll events).Ends Engine.Shaken e report e') : e'.intake = e.intake :=
  (addAll_covers events).intake h

-- ---- a batch -------------------------------------------------------------

/-- Groups of events are handed over one after the other. -/
inductive HandsOver :
    Drained → Engine → List (Nat × List Event) → List HandOver → Drained → Engine → Prop
  | nil {d : Drained} {e : Engine} : HandsOver d e [] [] d e
  | cons {d d₁ d' : Drained} {e u e₁ e' : Engine} {made : HandOver} {gs : List (Nat × List Event)}
    {hs : List HandOver}
    (ha : (EventSet.addAll made.events).Ends Engine.Shaken e made.report u)
    (hr : (reckon d made.attempts made.report).Ends Engine.Shaken u d₁ e₁)
    (ht : HandsOver d₁ e₁ gs hs d' e') :
    HandsOver d e ((made.attempts, made.events) :: gs) (made :: hs) d' e'

theorem ends_drainGroups {gs : List (Nat × List Event)} :
    (gs.foldlM (fun d (n, events) => drainGroup d n events) d).Ends Engine.Shaken e d' e' ↔
      ∃ hs, HandsOver d e gs hs d' e' := by
  induction gs generalizing d e with
  | nil =>
    constructor
    · rintro ⟨rfl, rfl⟩
      exact ⟨[], .nil⟩
    · rintro ⟨_, ⟨⟩⟩
      exact ⟨rfl, rfl⟩
  | cons g gs ih =>
    obtain ⟨n, events⟩ := g
    rw [List.foldlM_cons, Activity.ends_bind]
    dsimp only
    constructor
    · rintro ⟨d₁, e₁, hg, hrest⟩
      rw [drainGroup_eq, Activity.ends_bind] at hg
      obtain ⟨report, u, ha, hr⟩ := hg
      obtain ⟨hs, hrest⟩ := ih.mp hrest
      let made : HandOver := ⟨n, events, report⟩
      have h : HandsOver d e ((made.attempts, made.events) :: gs) (made :: hs) d' e' :=
        .cons ha hr hrest
      exact ⟨_, h⟩
    · rintro ⟨_, h⟩
      cases h with
      | cons ha hr ht => exact ⟨_, _, Activity.ends_bind.mpr ⟨_, _, ha, hr⟩, ih.mpr ⟨_, ht⟩⟩

/-- The events that were handed over are those that were stored, those to be tried again, and those
that were discarded. -/
def HandOver.Divided (h : HandOver) : Prop :=
  Divides h.events h.report.retry h.report.committed.length h.report.discarded

theorem HandOver.Divided.forall_again {P : Event → Prop} {h : HandOver} (hd : h.Divided)
    (hp : ∀ x ∈ h.events, P x) {most : Nat} : ∀ q ∈ h.again most, P q.event := by
  obtain ⟨stored, lost, hperm, -, -⟩ := hd
  intro q hq
  unfold HandOver.again at hq
  split at hq
  · cases hq
  · obtain ⟨x, hx, rfl⟩ := List.mem_map.mp hq
    exact hp x (hperm.mem_iff.mpr (by simp [hx]))

/-- What handing over groups of events leads to, where events are tried so many times at most. -/
structure Handed (most : Nat) (d : Drained) (e : Engine) (gs : List (Nat × List Event))
    (hs : List HandOver) (d' : Drained) (e' : Engine) : Prop where
  throughout : Throughout Ahead e'
  intake : e'.intake = { e.intake with dropped := e.dropped + (hs.map (·.dropped most)).sum }
  groups : hs.map (fun h => (h.attempts, h.events)) = gs
  committed : d'.committed = d.committed + (hs.map (·.report.committed.length)).sum
  requeue : d'.requeue = d.requeue ++ hs.flatMap (·.again most)
  divided : ∀ h ∈ hs, h.Divided

theorem HandsOver.handed {gs : List (Nat × List Event)} {hs : List HandOver}
    (hh : HandsOver d e gs hs d' e') (h : Throughout Ahead e)
    (hf : ∀ g ∈ gs, ∀ x ∈ g.2, Event.Fits x) :
    Handed e.settings.maxIngestAttempts d e gs hs d' e' := by
  induction hh with
  | nil => exact ⟨h, rfl, rfl, rfl, by simp, by simp⟩
  | @cons d d₁ d' e u e₁ e' made gs hs ha hr ht ih =>
    obtain ⟨hmade, hrest⟩ := List.forall_mem_cons.mp hf
    have hu := throughout_of_addAll lasting_ahead h hmade ha
    have hi := intake_of_addAll ha
    obtain ⟨rfl, hdrops⟩ := ends_reckon _ hr
    have hsu : u.settings = e.settings := congrArg Intake.settings hi
    have hs₁ : e₁.settings = e.settings := (congrArg Intake.settings hdrops.intake).trans hsu
    obtain ⟨ht', hi', hg, hc, hq, hd⟩ := ih (hdrops.throughout hu) hrest
    rw [hs₁] at hi' hq
    refine {
      throughout := ht'
      intake := ?_
      groups := by rw [List.map_cons, hg]
      committed := ?_
      requeue := ?_
      divided := List.forall_mem_cons.mpr ⟨(batch_of_addAll h hmade ha).divides, hd⟩ }
    · rw [hi', show e₁.dropped = (e₁.intake).dropped from rfl, hdrops.intake, hi, hsu]
      simp [Nat.add_assoc, show u.dropped = e.dropped from congrArg Intake.dropped hi]
    · rw [hc, List.map_cons, List.sum_cons, Nat.add_assoc]
    · rw [hq, hsu, List.flatMap_cons, List.append_assoc]

-- ---- one drain -----------------------------------------------------------

/-- One drain, with what it hands over. -/
inductive Drain (e : Engine) (hs : List HandOver) (n : Nat) (e' : Engine) : Prop
  | idle (ht : takeBatch.Ends Engine.Shaken e [] e') (hh : hs = []) (hn : n = 0)
  | batch {batch : List Queued} {d : Drained} {u v : Engine}
    (ht : takeBatch.Ends Engine.Shaken e batch u) (hn : batch ≠ [])
    (hh : HandsOver ⟨0, []⟩ u (byAttempts batch) hs d v)
    (hf : (finish d).Ends Engine.Shaken v n e')

theorem ends_drainOnce :
    drainOnce.Ends Engine.Shaken e n e' ↔ ∃ hs, Drain e hs n e' := by
  rw [drainOnce_eq, Activity.ends_bind]
  unfold drainBatch
  constructor
  · rintro ⟨batch, u, ht, h⟩
    by_cases hb : batch = []
    · subst hb
      obtain ⟨rfl, rfl⟩ := h
      exact ⟨[], .idle ht rfl rfl⟩
    · rw [if_neg (by simpa using hb)] at h
      obtain ⟨d, v, hg, hf⟩ := Activity.ends_bind.mp h
      obtain ⟨hs, hh⟩ := ends_drainGroups.mp hg
      exact ⟨hs, .batch ht hb hh hf⟩
  · rintro ⟨hs, (⟨ht, rfl, rfl⟩ | ⟨ht, hb, hh, hf⟩)⟩
    · exact ⟨[], e', ht, rfl, rfl⟩
    · refine ⟨_, _, ht, ?_⟩
      rw [if_neg (by simpa using hb)]
      exact Activity.ends_bind.mpr ⟨_, _, ends_drainGroups.mpr ⟨hs, hh⟩, hf⟩

/-- Drain after drain until the queue is empty; `n` events have been stored before. -/
inductive Drains : Nat → Engine → List HandOver → Nat → Engine → Prop
  | empty {n : Nat} {e e' : Engine} (hq : queueDepth.Ends Engine.Shaken e 0 e') : Drains n e [] n e'
  | again {n m k n' : Nat} {e u v e' : Engine} {hs hs' : List HandOver}
    (hq : queueDepth.Ends Engine.Shaken e m u) (hm : m ≠ 0) (hd : Drain u hs k v)
    (hr : Drains (n + k) v hs' n' e') : Drains n e (hs ++ hs') n' e'

/-- One round of draining, after `n` events have been stored. -/
def drainRound (n : Nat) : Activity Engine (Nat ⊕ Nat) := do
  if (← queueDepth) = 0 then return .inr n
  else return .inl (n + (← drainOnce))

theorem drainPending_eq : drainPending = Activity.goRound drainRound 0 := rfl

theorem ends_drainRound {r : Nat ⊕ Nat} : (drainRound n).Ends Engine.Shaken e r e' ↔
    queueDepth.Ends Engine.Shaken e 0 e' ∧ r = .inr n ∨
      ∃ m u k hs, queueDepth.Ends Engine.Shaken e m u ∧ m ≠ 0 ∧ Drain u hs k e' ∧
        r = .inl (n + k) := by
  unfold drainRound
  rw [Activity.ends_bind]
  constructor
  · rintro ⟨m, u, hq, h⟩
    by_cases hm : m = 0
    · rw [if_pos hm] at h
      obtain ⟨rfl, rfl⟩ := h
      exact .inl ⟨hm ▸ hq, rfl⟩
    · rw [if_neg hm] at h
      obtain ⟨k, v, hd, rfl, rfl⟩ := Activity.ends_bind.mp h
      obtain ⟨hs, hd⟩ := ends_drainOnce.mp hd
      exact .inr ⟨m, u, k, hs, hq, hm, hd, rfl⟩
  · rintro (⟨hq, rfl⟩ | ⟨m, u, k, hs, hq, hm, hd, rfl⟩)
    · exact ⟨0, e', hq, by rw [if_pos rfl]; exact ⟨rfl, rfl⟩⟩
    · refine ⟨m, u, hq, ?_⟩
      rw [if_neg hm]
      exact Activity.ends_bind.mpr ⟨k, e', ends_drainOnce.mpr ⟨hs, hd⟩, rfl, rfl⟩

/-- However draining ends, there is a history of what has been handed over. -/
theorem ends_drainPending :
    drainPending.Ends Engine.Shaken e n e' ↔ ∃ hs, Drains 0 e hs n e' := by
  have hgoes {start : Nat} : Activity.Goes
      (fun n e r e' => (drainRound n).Ends Engine.Shaken e r e') start e n e' ↔
        ∃ hs, Drains start e hs n e' := by
    constructor
    · intro hg
      induction hg with
      | last hr =>
        rcases ends_drainRound.mp hr with ⟨hq, hr⟩ | ⟨m, u, k, hs, -, -, -, hr⟩
        · cases hr
          exact ⟨[], .empty hq⟩
        · cases hr
      | again hr _ ih =>
        rcases ends_drainRound.mp hr with ⟨-, hr⟩ | ⟨m, u, k, hs, hq, hm, hd, hr⟩
        · cases hr
        · cases hr
          obtain ⟨hs', hrest⟩ := ih
          exact ⟨hs ++ hs', .again hq hm hd hrest⟩
    · rintro ⟨hs, h⟩
      induction h with
      | empty hq => exact .last (ends_drainRound.mpr (.inl ⟨hq, rfl⟩))
      | again hq hm hd _ ih =>
        exact .again (ends_drainRound.mpr (.inr ⟨_, _, _, _, hq, hm, hd, rfl⟩)) ih
  rw [← hgoes]
  constructor
  · rintro ⟨_, _, hg, rfl, rfl⟩
    exact hg
  · exact fun hg => ⟨n, e', hg, rfl, rfl⟩

-- ---- what a drain leads to -----------------------------------------------

/-- Nobody is at work on the set of buckets, and the events of the queue can be stored. -/
structure Ready (e : Engine) : Prop where
  throughout : Throughout Ahead e
  fits : ∀ q ∈ e.queue, q.event.Fits

theorem ends_takeBatch {batch : List Queued} (h : takeBatch.Ends Engine.Shaken e batch e')
    (ht : Throughout Ahead e) : ∃ k, 0 < k ∧ batch = e.queue.take k ∧
      e'.intake = { e.intake with queue := e.queue.drop k } ∧ Throughout Ahead e' := by
  obtain ⟨u, hu, ha⟩ := Activity.ends_atomically.mp h
  have ht := ht.shaken hu
  obtain ⟨faults, clock, -, rfl⟩ := hu
  cases ha
  exact ⟨max 1 e.settings.batchSize, by omega, rfl, rfl, ht.of_eq ht.cache ht.free rfl rfl rfl⟩

theorem ends_finish (h : (finish d).Ends Engine.Shaken e n e') (ht : Throughout Ahead e) :
    n = d.committed ∧ Throughout Ahead e' ∧ e'.intake = { e.intake with
      queue := d.requeue ++ e.queue, ingested := e.ingested + d.committed } := by
  have hcount {u : Engine} (h : Activity.Ends Engine.Shaken (do
      countIngested d.committed
      return d.committed) u n e') (hu : Throughout Ahead u) :
      n = d.committed ∧ Throughout Ahead e' ∧
        e'.intake = { u.intake with ingested := u.ingested + d.committed } := by
    obtain ⟨_, v, hc, rfl, rfl⟩ := Activity.ends_bind.mp h
    obtain ⟨w, hw, ha⟩ := Activity.ends_atomically.mp hc
    have hw' := hu.shaken hw
    obtain ⟨faults, clock, -, rfl⟩ := hw
    cases ha
    exact ⟨rfl, hw'.of_eq hw'.cache hw'.free rfl rfl rfl, rfl⟩
  unfold finish at h
  by_cases hn : d.requeue = []
  · rw [if_neg (by simp [hn])] at h
    obtain ⟨hn', ht', hi⟩ := hcount h ht
    exact ⟨hn', ht', by rw [hi, hn]; rfl⟩
  · rw [if_pos (by simpa using hn)] at h
    obtain ⟨_, u, hp, h⟩ := Activity.ends_bind.mp h
    obtain ⟨w, hw, ha⟩ := Activity.ends_atomically.mp hp
    have hw' := ht.shaken hw
    obtain ⟨faults, clock, -, rfl⟩ := hw
    cases ha
    exact hcount h (hw'.of_eq hw'.cache hw'.free rfl rfl rfl)

theorem perm_byAttempts (batch : List Queued) :
    ((byAttempts batch).flatMap fun g => g.2.map (⟨·, g.1⟩)).Perm batch := by
  generalize hs : Std.ExtTreeSet.ofList (batch.map Queued.attempts) compare = attempts
  have hkeys := perm_of_keys (fun q : Queued => some q.attempts) batch
    (List.nodup_reverse.mpr (nodup_toList attempts))
  rw [List.filter_eq_self.mpr fun q hq => ?_] at hkeys
  · rw [byAttempts, hs, List.flatMap_map]
    refine List.Perm.trans (List.Perm.of_eq ?_) hkeys
    refine List.flatMap_congr fun n _ => ?_
    rw [List.map_map]
    simp only [Option.some_beq_some]
    refine (List.map_congr_left fun q hq => ?_).trans (List.map_id _)
    have : q.attempts = n := eq_of_beq (List.mem_filter.mp hq).2
    simp [← this]
  · have hmem : q.attempts ∈ attempts := by
      rw [← hs, Std.ExtTreeSet.mem_ofList]
      exact List.contains_iff_mem.mpr (List.mem_map_of_mem hq)
    simpa using hmem

/-- What one drain leads to, where events are tried so many times at most: entries from the front of
the queue are handed over, and some go back there. -/
structure DrainLeads (most : Nat) (e : Engine) (hs : List HandOver) (n : Nat) (e' : Engine)
    (batch rest : List Queued) : Prop where
  ready : Ready e'
  settings : e'.settings = e.settings
  queue : e.queue = batch ++ rest
  some : batch = [] → rest = []
  handed : (hs.flatMap HandOver.entries).Perm batch
  queue' : e'.queue = hs.flatMap (·.again most) ++ rest
  dropped : e'.dropped = e.dropped + (hs.map (·.dropped most)).sum
  ingested : e'.ingested = e.ingested + n
  answer : n = (hs.map (·.report.committed.length)).sum
  divided : ∀ h ∈ hs, h.Divided

theorem Drain.leads {hs : List HandOver} (hd : Drain e hs n e') (h : Ready e) :
    ∃ batch rest, DrainLeads e.settings.maxIngestAttempts e hs n e' batch rest := by
  cases hd with
  | idle ht hh hn =>
    subst hh hn
    obtain ⟨k, hk, hb, hi, ht⟩ := ends_takeBatch ht h.throughout
    have hq : e.queue = [] := (List.take_eq_nil_iff.mp hb.symm).resolve_left (by omega)
    have hi' : e'.intake = e.intake := by
      rw [hi]
      simp [Engine.intake, hq]
    have hqueue : e'.queue = e.queue := congrArg Intake.queue hi'
    exact ⟨[], [], {
      ready := ⟨ht, hqueue ▸ h.fits⟩
      settings := congrArg Intake.settings hi'
      queue := hq
      some := fun _ => rfl
      handed := .refl _
      queue' := hqueue.trans hq
      dropped := congrArg Intake.dropped hi'
      ingested := congrArg Intake.ingested hi'
      answer := rfl
      divided := List.forall_mem_nil _ }⟩
  | @batch batch d u v ht hn hh hf =>
    obtain ⟨k, -, rfl, hiu, htu⟩ := ends_takeBatch ht h.throughout
    have hfits : ∀ g ∈ byAttempts (e.queue.take k), ∀ x ∈ g.2, Event.Fits x :=
      forall_mem_byAttempts fun q hq => h.fits q (List.mem_of_mem_take hq)
    have hsu : u.settings = e.settings := congrArg Intake.settings hiu
    obtain ⟨htv, hiv, hg, hc, hq, hd⟩ := hsu ▸ hh.handed htu hfits
    obtain ⟨rfl, ht', hi'⟩ := ends_finish hf htv
    have hqv : v.queue = e.queue.drop k := by
      rw [show v.queue = v.intake.queue from rfl, hiv, hiu]
    have hdv : v.dropped = e.dropped + (hs.map (·.dropped e.settings.maxIngestAttempts)).sum := by
      rw [show v.dropped = v.intake.dropped from rfl, hiv,
        show u.dropped = e.dropped from congrArg Intake.dropped hiu]
    have hq' : e'.queue = hs.flatMap (·.again e.settings.maxIngestAttempts) ++ e.queue.drop k := by
      rw [show e'.queue = e'.intake.queue from rfl, hi', hq, hqv, List.nil_append]
    have hentries : (hs.flatMap HandOver.entries).Perm (e.queue.take k) := by
      have := perm_byAttempts (e.queue.take k)
      rwa [← hg, List.flatMap_map] at this
    refine ⟨e.queue.take k, e.queue.drop k, {
      ready := ⟨ht', ?_⟩
      settings := (congrArg Intake.settings hi').trans ?_
      queue := (List.take_append_drop ..).symm
      some := fun hb => absurd hb hn
      handed := hentries
      queue' := hq'
      dropped := (congrArg Intake.dropped hi').trans hdv
      ingested := ?_
      answer := by rw [hc, Nat.zero_add]
      divided := hd }⟩
    · rw [hq']
      refine List.forall_mem_append.mpr
        ⟨fun q hq => ?_, fun q hq => h.fits q (List.mem_of_mem_drop hq)⟩
      obtain ⟨made, hmade, hq⟩ := List.mem_flatMap.mp hq
      exact (hd made hmade).forall_again
        (hfits (made.attempts, made.events) (hg ▸ List.mem_map_of_mem hmade)) q hq
    · rw [show v.intake.settings = u.settings from congrArg Intake.settings hiv, hsu]
    · rw [show e'.ingested = e'.intake.ingested from rfl, hi', hc,
        show v.ingested = u.ingested from congrArg Intake.ingested hiv,
        show u.ingested = e.ingested from congrArg Intake.ingested hiu]

-- ---- the tries that are left ---------------------------------------------

/-- How often an event can be handed over yet, where events are tried so many times at most. -/
def triesOf (most : Nat) (q : Queued) : Nat := max 1 (most - q.attempts)

def triesLeft (most : Nat) (queue : List Queued) : Nat := (queue.map (triesOf most)).sum

variable {most : Nat}

theorem triesLeft_append (xs ys : List Queued) :
    triesLeft most (xs ++ ys) = triesLeft most xs + triesLeft most ys := by
  simp [triesLeft]

theorem triesLeft_perm {xs ys : List Queued} (h : xs.Perm ys) :
    triesLeft most xs = triesLeft most ys := (h.map _).sum_eq

theorem triesLeft_map (events : List Event) (n : Nat) :
    triesLeft most (events.map (⟨·, n⟩)) = events.length * max 1 (most - n) := by
  simp [triesLeft, triesOf, Function.comp_def]

theorem HandOver.Divided.triesLeft_again {h : HandOver} (hd : h.Divided) (most : Nat) :
    triesLeft most (h.again most) + h.events.length ≤ triesLeft most h.entries := by
  obtain ⟨stored, lost, hperm, -, -⟩ := hd
  have hlen : h.report.retry.length ≤ h.events.length := by
    rw [hperm.length_eq]
    simp only [List.length_append]
    omega
  rw [HandOver.entries, triesLeft_map, HandOver.again]
  split
  · calc triesLeft most [] + h.events.length = h.events.length * 1 := by simp [triesLeft]
      _ ≤ h.events.length * max 1 (most - h.attempts) := Nat.mul_le_mul_left _ (Nat.le_max_left ..)
  · next hl =>
    have hl : h.attempts + 1 < most := Nat.not_le.mp hl
    rw [triesLeft_map, Nat.max_eq_right (by omega), Nat.max_eq_right (by omega),
      show most - h.attempts = (most - (h.attempts + 1)) + 1 by omega, Nat.mul_succ]
    exact Nat.add_le_add_right (Nat.mul_le_mul_right _ hlen) _

theorem triesLeft_agains {hs : List HandOver} (hd : ∀ h ∈ hs, h.Divided) (most : Nat) :
    triesLeft most (hs.flatMap (·.again most)) + (hs.flatMap HandOver.entries).length ≤
      triesLeft most (hs.flatMap HandOver.entries) := by
  induction hs with
  | nil => exact Nat.le_refl _
  | cons h hs ih =>
    obtain ⟨hh, hhs⟩ := List.forall_mem_cons.mp hd
    have := hh.triesLeft_again most
    have := ih hhs
    have : h.entries.length = h.events.length := List.length_map ..
    simp only [List.flatMap_cons, triesLeft_append, List.length_append]
    omega

/-- A drain that finds events uses up some of the tries that were left. -/
theorem DrainLeads.triesLeft_lt {hs : List HandOver} {batch rest : List Queued}
    (h : DrainLeads most e hs n e' batch rest) (hq : e.queue ≠ []) :
    triesLeft most e'.queue < triesLeft most e.queue := by
  have hagain := triesLeft_agains h.divided most
  rw [triesLeft_perm h.handed, h.handed.length_eq] at hagain
  have hbatch : batch.length ≠ 0 := by
    intro hb
    have hb := List.length_eq_zero_iff.mp hb
    exact hq (by rw [h.queue, hb, h.some hb]; rfl)
  rw [h.queue', h.queue, triesLeft_append, triesLeft_append]
  omega

-- ---- draining comes to an end --------------------------------------------

theorem countDropped_proceeds (n : Nat) : (countDropped n).Proceeds fun _ => True :=
  .atomically fun _ h => h

theorem tryAgain_proceeds (d : Drained) (attempts : Nat) (events : List Event) :
    (tryAgain d attempts events).Proceeds fun _ => True := by
  unfold tryAgain
  split
  · exact .pure' d
  refine .bind (.observe _) fun S => ?_
  split
  · exact .bind (countDropped_proceeds _) fun _ => .pure' d
  · exact .pure' _

theorem reckon_proceeds (d : Drained) (attempts : Nat) (report : Report) :
    (reckon d attempts report).Proceeds fun _ => True := by
  unfold reckon
  dsimp only
  split
  · exact .bind (countDropped_proceeds _) fun _ => tryAgain_proceeds _ _ _
  · exact tryAgain_proceeds _ _ _

theorem finish_proceeds (d : Drained) : (finish d).Proceeds fun _ => True := by
  have hcount : Activity.Proceeds (fun _ => True) (do
      countIngested d.committed
      return d.committed) := .bind (.atomically fun _ h => h) fun _ => .pure' _
  unfold finish
  split
  · exact .bind (.atomically fun _ h => h) fun _ => hcount
  · exact hcount

theorem drainOnce_halts (h : Ready e) : drainOnce.Halts Engine.Shaken e := by
  rw [drainOnce_eq]
  refine .bind .atomically fun batch u ht => ?_
  unfold drainBatch
  split
  · exact .pure' 0
  obtain ⟨k, -, rfl, -, hu⟩ := ends_takeBatch ht h.throughout
  refine .bind (.foldlM (fun gs u => Throughout Ahead u ∧ ∀ g ∈ gs, ∀ x ∈ g.2, Event.Fits x)
    ⟨hu, forall_mem_byAttempts fun q hq => h.fits q (List.mem_of_mem_take hq)⟩ ?_)
    fun d _ _ => .of_proceeds (finish_proceeds d)
  rintro d ⟨n, events⟩ gs u ⟨hu, hg⟩
  obtain ⟨hevents, hgs⟩ := List.forall_mem_cons.mp hg
  refine ⟨.bind (addAll_halts lasting_ahead Ahead.idle hu hevents) fun r _ _ =>
    .of_proceeds (reckon_proceeds d n r), fun d' t hd => ⟨?_, hgs⟩⟩
  obtain ⟨r, v, ha, hr⟩ := Activity.ends_bind.mp hd
  have hdrops := (ends_reckon ⟨n, events, r⟩ hr).2
  exact hdrops.throughout (throughout_of_addAll lasting_ahead hu hevents ha)

theorem ends_queueDepth {m : Nat} (h : queueDepth.Ends Engine.Shaken e m e') :
    m = e.queue.length ∧ e'.intake = e.intake ∧ (Ready e → Ready e') := by
  obtain ⟨u, hu, ha⟩ := Activity.ends_atomically.mp h
  cases ha
  have hready (h : Ready e) : Throughout Ahead e' := h.throughout.shaken hu
  obtain ⟨faults, clock, -, rfl⟩ := hu
  exact ⟨rfl, rfl, fun h => ⟨hready h, h.fits⟩⟩

/-- Each round leaves fewer tries. -/
theorem drainPending_halts (h : Ready e) : drainPending.Halts Engine.Shaken e := by
  rw [drainPending_eq]
  refine .goRound ?_
  generalize 0 = n
  generalize hm : triesLeft e.settings.maxIngestAttempts e.queue = tries
  induction tries using Nat.strongRecOn generalizing e n with
  | ind tries ih =>
    subst hm
    refine .intro (.bind .atomically fun m u hq => ?_) fun n' v hr => ?_
    · split
      · exact .pure' _
      · exact .bind (drainOnce_halts ((ends_queueDepth hq).2.2 h)) fun _ _ _ => .pure' _
    · rcases ends_drainRound.mp hr with ⟨-, hr⟩ | ⟨m, u, k, hs, hq, hm, hd, hr⟩
      · cases hr
      obtain ⟨rfl, hi, hready⟩ := ends_queueDepth hq
      obtain ⟨batch, rest, hleads⟩ := hd.leads (hready h)
      rw [show u.settings = e.settings from congrArg Intake.settings hi] at hleads
      have hlt := hleads.triesLeft_lt (by
        rw [show u.queue = e.queue from congrArg Intake.queue hi]
        exact fun hnil => hm (by rw [hnil]; rfl))
      rw [show u.queue = e.queue from congrArg Intake.queue hi] at hlt
      have hsettings : v.settings = e.settings :=
        hleads.settings.trans (congrArg Intake.settings hi)
      exact ih _ (hsettings ▸ hlt) hleads.ready n' rfl

end Ingest

end EventStore
