import EventStore.Proofs.Ingest.HandOvers
import Mathlib.Data.List.Perm.Basic

/-!
# What becomes of queued events

While the queue is drained each of its events is handed over, again and again as long as it can be
tried again, until it is stored, discarded, or given up after as many tries as the settings allow.
Every hand-over of an event belongs to the life of one event of the queue (`Accounts`), so with
draining alone the queue is empty in the end, and no event has been handed over more often than
that (`drainPending_settles`).
-/

namespace EventStore

namespace Ingest

open EventSet

inductive Ending
  | stored
  | discarded
  | givenUp
  deriving DecidableEq

/-- What became of an event of the queue, and how often it was to be tried again before. -/
structure Life where
  start : Queued
  failures : Nat
  ending : Ending

namespace Life

/-- How often the event was handed over. -/
def tries (l : Life) : Nat :=
  match l.ending with
  | .givenUp => l.failures
  | _ => l.failures + 1

/-- The event as it was at the first so many tries. -/
def upTo (l : Life) (n : Nat) : List Queued :=
  (List.range n).map fun i => ⟨l.start.event, l.start.attempts + i⟩

def handed (l : Life) : List Queued := l.upTo l.tries

def failed (l : Life) : List Queued := l.upTo l.failures

/-- An event is tried no more often than is allowed, and given up only when it has been tried so
often in vain. -/
structure Bounded (most : Nat) (l : Life) : Prop where
  tries : l.tries ≤ triesOf most l.start
  givenUp : l.ending = .givenUp → l.failures = triesOf most l.start

/-- The life with a try in vain before it. -/
def after (n : Nat) (l : Life) : Life := ⟨⟨l.start.event, n⟩, l.failures + 1, l.ending⟩

variable {l : Life} {n most : Nat}

theorem upTo_after (h : l.start.attempts = n + 1) (k : Nat) :
    (l.after n).upTo (k + 1) = ⟨l.start.event, n⟩ :: l.upTo k := by
  simp [upTo, after, List.range_succ_eq_map, List.map_map, Function.comp_def, h, Nat.add_comm,
    Nat.add_left_comm]

theorem tries_after (l : Life) (n : Nat) : (l.after n).tries = l.tries + 1 := by
  obtain ⟨start, failures, ending⟩ := l
  cases ending <;> rfl

theorem handed_after (h : l.start.attempts = n + 1) :
    (l.after n).handed = ⟨l.start.event, n⟩ :: l.handed := by
  rw [handed, tries_after, upTo_after h, handed]

theorem failed_after (h : l.start.attempts = n + 1) :
    (l.after n).failed = ⟨l.start.event, n⟩ :: l.failed := upTo_after h _

theorem Bounded.after (hb : l.Bounded most) (h : l.start.attempts = n + 1) (hn : n + 1 < most) :
    (l.after n).Bounded most := by
  have htries : triesOf most (l.after n).start = triesOf most l.start + 1 := by
    simp only [triesOf, Life.after, h]
    omega
  refine ⟨?_, fun he => ?_⟩
  · rw [tries_after, htries]
    exact Nat.succ_le_succ hb.tries
  · rw [htries, ← hb.givenUp he]
    rfl

end Life

def HandOver.failed (h : HandOver) : List Queued := h.report.retry.map (⟨·, h.attempts⟩)

/-- The lives of the events of a queue, of which these have been handed over: every hand-over of an
event is one of the tries in a life, and every event to be tried again one of those in vain. -/
structure Accounts (most : Nat) (queue : List Queued) (hs : List HandOver) (lives : List Life) :
    Prop where
  starts : (lives.map Life.start).Perm queue
  bounded : ∀ l ∈ lives, l.Bounded most
  handed : (hs.flatMap HandOver.entries).Perm (lives.flatMap Life.handed)
  failed : (hs.flatMap HandOver.failed).Perm (lives.flatMap Life.failed)
  stored : (hs.map (·.report.committed.length)).sum = lives.countP (·.ending = .stored)
  discarded : (hs.map (·.report.discarded)).sum = lives.countP (·.ending = .discarded)
  dropped : (hs.map (·.dropped most)).sum =
    lives.countP (·.ending = .discarded) + lives.countP (·.ending = .givenUp)

variable {most : Nat} {made : HandOver} {hs : List HandOver} {rest : List Queued}
  {lives next : List Life}

-- ---- the events of one hand-over -----------------------------------------

/-- The lives of events that were to be tried again after a hand-over, given what their lives are
from then on. -/
structure Retried (most : Nat) (made : HandOver) (next lives : List Life) : Prop where
  starts : lives.map Life.start = made.failed
  bounded : ∀ l ∈ lives, l.Bounded most
  handed : (made.failed ++ next.flatMap Life.handed).Perm (lives.flatMap Life.handed)
  failed : (made.failed ++ next.flatMap Life.failed).Perm (lives.flatMap Life.failed)
  stored : lives.countP (·.ending = .stored) = next.countP (·.ending = .stored)
  discarded : lives.countP (·.ending = .discarded) = next.countP (·.ending = .discarded)
  givenUp : lives.countP (·.ending = .givenUp) = next.countP (·.ending = .givenUp) +
    if made.IsLast most then made.report.retry.length else 0

theorem retried_last (hl : made.IsLast most) :
    Retried most made [] (made.report.retry.map fun x => ⟨⟨x, made.attempts⟩, 1, .givenUp⟩) := by
  have hone (x : Event) : triesOf most ⟨x, made.attempts⟩ = 1 := by
    have : most ≤ made.attempts + 1 := hl
    simp only [triesOf]
    omega
  exact {
    starts := by simp [HandOver.failed]
    bounded := List.forall_mem_map.mpr fun x _ =>
      ⟨Nat.le_of_eq (hone x).symm, fun _ => (hone x).symm⟩
    handed := by simp [HandOver.failed, Life.handed, Life.tries, Life.upTo, List.flatMap_map,
      ← List.map_eq_flatMap]
    failed := by simp [HandOver.failed, Life.failed, Life.upTo, List.flatMap_map,
      ← List.map_eq_flatMap]
    stored := by simp [List.countP_map, Function.comp_def]
    discarded := by simp [List.countP_map, Function.comp_def]
    givenUp := by simp [List.countP_map, Function.comp_def, hl] }

theorem retried_next (hl : ¬made.IsLast most) (hn : next.map Life.start = made.again most)
    (hb : ∀ l ∈ next, l.Bounded most) :
    Retried most made next (next.map (·.after made.attempts)) := by
  rw [HandOver.again, if_neg hl] at hn
  have hattempts : ∀ l ∈ next, l.start.attempts = made.attempts + 1 := by
    intro l hm
    have : l.start ∈ next.map Life.start := List.mem_map_of_mem hm
    rw [hn] at this
    obtain ⟨x, -, hx⟩ := List.mem_map.mp this
    exact hx ▸ rfl
  have hevents : next.map (·.start.event) = made.report.retry := by
    have := congrArg (List.map Queued.event) hn
    simpa [Function.comp_def] using this
  have hfailed : made.failed = next.map fun l => ⟨l.start.event, made.attempts⟩ := by
    rw [HandOver.failed, ← hevents, List.map_map]
    rfl
  -- How a life ends does not depend on the tries before.
  have hcount (ending : Ending) : (next.map (·.after made.attempts)).countP (·.ending = ending) =
      next.countP (·.ending = ending) := by
    rw [List.countP_map]
    rfl
  refine {
    starts := ?_
    bounded := List.forall_mem_map.mpr fun l hm =>
      (hb l hm).after (hattempts l hm) (Nat.not_le.mp hl)
    handed := ?_
    failed := ?_
    stored := hcount _
    discarded := hcount _
    givenUp := by rw [hcount, if_neg hl, Nat.add_zero] }
  · rw [hfailed, List.map_map]
    rfl
  · rw [hfailed, List.flatMap_map,
      List.flatMap_congr fun l hm => Life.handed_after (hattempts l hm)]
    exact List.map_append_flatMap_perm ..
  · rw [hfailed, List.flatMap_map,
      List.flatMap_congr fun l hm => Life.failed_after (hattempts l hm)]
    exact List.map_append_flatMap_perm ..

theorem exists_retried (hn : next.map Life.start = made.again most)
    (hb : ∀ l ∈ next, l.Bounded most) : ∃ lives, Retried most made next lives := by
  by_cases hl : made.IsLast most
  · rw [HandOver.again, if_pos hl] at hn
    obtain rfl := List.map_eq_nil_iff.mp hn
    exact ⟨_, retried_last hl⟩
  · exact ⟨_, retried_next hl hn hb⟩

/-- The lives of events that go one way after so many attempts, whatever that is. -/
def ended (attempts : Nat) (ending : Ending) (events : List Event) : List Life :=
  events.map fun x => ⟨⟨x, attempts⟩, 0, ending⟩

theorem countP_ended (n : Nat) (ending ending' : Ending) (events : List Event) :
    (ended n ending events).countP (·.ending = ending') =
      if ending = ending' then events.length else 0 := by
  simp [ended, List.countP_map, Function.comp_def]
  split <;> simp_all

theorem ended_eq {ending : Ending} (he : ending ≠ .givenUp) (most n : Nat)
    (events : List Event) :
    (ended n ending events).map Life.start = events.map (⟨·, n⟩) ∧
      (ended n ending events).flatMap Life.handed = events.map (⟨·, n⟩) ∧
      (ended n ending events).flatMap Life.failed = [] ∧
      ∀ l ∈ ended n ending events, l.Bounded most := by
  have hone (x : Event) : (Life.mk ⟨x, n⟩ 0 ending).tries = 1 := by
    cases ending <;> first | rfl | exact absurd rfl he
  refine ⟨by simp [ended], ?_, ?_, ?_⟩
  · simp [ended, List.flatMap_map, Life.handed, hone, Life.upTo, ← List.map_eq_flatMap]
  · simp [ended, List.flatMap_map, Life.failed, Life.upTo]
  · intro l hm
    obtain ⟨x, -, rfl⟩ := List.mem_map.mp hm
    exact ⟨hone x ▸ Nat.le_max_left .., fun h => absurd h he⟩

-- ---- accounts ------------------------------------------------------------

/-- The lives may be taken in the order of the queue. -/
theorem Accounts.exists_in_order {queue : List Queued} (h : Accounts most queue hs lives) :
    ∃ lives', lives'.map Life.start = queue ∧ Accounts most queue hs lives' := by
  obtain ⟨lives', rfl, hp⟩ :=
    (congrFun (congrFun (List.eq_map_comp_perm Life.start) queue) lives).mpr h.starts.symm
  exact ⟨lives', rfl, {
    starts := .refl _
    bounded := fun l hm => h.bounded l (hp.mem_iff.mp hm)
    handed := h.handed.trans (hp.flatMap_right _).symm
    failed := h.failed.trans (hp.flatMap_right _).symm
    stored := h.stored.trans (hp.countP_eq _).symm
    discarded := h.discarded.trans (hp.countP_eq _).symm
    dropped := by rw [h.dropped, hp.countP_eq, hp.countP_eq] }⟩

theorem Accounts.handsOver (h : Accounts most (made.again most ++ rest) hs lives)
    (hd : made.Divided) : ∃ lives', Accounts most (made.entries ++ rest) (made :: hs) lives' := by
  obtain ⟨lives, hstarts, h⟩ := h.exists_in_order
  obtain ⟨next, others, rfl, hnext, hothers⟩ := List.map_eq_append_iff.mp hstarts
  obtain ⟨retried, hr⟩ := exists_retried hnext fun l hm => h.bounded l (List.mem_append_left _ hm)
  obtain ⟨stored, lost, hperm, hstored, hlost⟩ := hd
  have hstay : Ending.stored ≠ .givenUp := by decide
  have hleave : Ending.discarded ≠ .givenUp := by decide
  obtain ⟨hss, hsh, hsf, hsb⟩ := ended_eq hstay most made.attempts stored
  obtain ⟨hls, hlh, hlf, hlb⟩ := ended_eq hleave most made.attempts lost
  have hentries : made.entries.Perm
      (stored.map (⟨·, made.attempts⟩) ++ made.failed ++ lost.map (⟨·, made.attempts⟩)) := by
    rw [HandOver.failed, ← List.map_append, ← List.map_append]
    exact hperm.map _
  refine ⟨ended made.attempts .stored stored ++ retried ++ ended made.attempts .discarded lost ++
    others, {
      starts := ?_
      bounded := ?_
      handed := ?_
      failed := ?_
      stored := ?_
      discarded := ?_
      dropped := ?_ }⟩
  · simp only [List.map_append, hss, hls, hr.starts, hothers]
    exact hentries.symm.append_right rest
  · simp only [List.forall_mem_append]
    exact ⟨⟨⟨hsb, hr.bounded⟩, hlb⟩, fun l hm => h.bounded l (List.mem_append_right _ hm)⟩
  · have hh := Multiset.coe_eq_coe.mpr h.handed
    have hr := Multiset.coe_eq_coe.mpr hr.handed
    have he := Multiset.coe_eq_coe.mpr hentries
    refine Multiset.coe_eq_coe.mp ?_
    simp only [List.flatMap_append, List.flatMap_cons, ← Multiset.coe_add, hsh, hlh] at hh hr he ⊢
    rw [he, hh, ← hr]
    ac_rfl
  · have hh := Multiset.coe_eq_coe.mpr h.failed
    have hr := Multiset.coe_eq_coe.mpr hr.failed
    refine Multiset.coe_eq_coe.mp ?_
    simp only [List.flatMap_append, List.flatMap_cons, ← Multiset.coe_add, hsf, hlf,
      Multiset.coe_nil, zero_add, add_zero] at hh hr ⊢
    rw [hh, ← hr, add_assoc]
  · have := h.stored
    have := hr.stored
    simp only [List.countP_append, countP_ended, List.map_cons, List.sum_cons, if_true,
      reduceCtorEq, if_false] at *
    omega
  · have := h.discarded
    have := hr.discarded
    simp only [List.countP_append, countP_ended, List.map_cons, List.sum_cons, if_true,
      reduceCtorEq, if_false] at *
    omega
  · have := h.dropped
    have := hr.discarded
    have := hr.givenUp
    simp only [List.countP_append, countP_ended, List.map_cons, List.sum_cons, if_true,
      reduceCtorEq, if_false, HandOver.dropped] at *
    omega

theorem Accounts.of_perm {queue queue' : List Queued} (h : Accounts most queue hs lives)
    (hp : queue.Perm queue') : Accounts most queue' hs lives :=
  { h with starts := h.starts.trans hp }

theorem Accounts.handsOverAll {before : List HandOver} (hd : ∀ h ∈ before, h.Divided)
    (h : Accounts most (before.flatMap (·.again most) ++ rest) hs lives) :
    ∃ lives', Accounts most (before.flatMap HandOver.entries ++ rest) (before ++ hs) lives' := by
  induction before generalizing rest lives with
  | nil => exact ⟨lives, h⟩
  | cons made before ih =>
    obtain ⟨hmade, hbefore⟩ := List.forall_mem_cons.mp hd
    rw [List.flatMap_cons, List.append_assoc] at h ⊢
    obtain ⟨lives₁, h₁⟩ := ih hbefore (h.of_perm (List.perm_append_comm_assoc ..))
    exact (h₁.of_perm (List.perm_append_comm_assoc ..)).handsOver hmade

theorem accounts_nil : Accounts most [] [] [] where
  starts := .refl _
  bounded := List.forall_mem_nil _
  handed := .refl _
  failed := .refl _
  stored := rfl
  discarded := rfl
  dropped := rfl

-- ---- draining ------------------------------------------------------------

/-- What draining leads to: the queue is empty, and everything that has been in it is accounted
for. -/
structure Emptied (most n : Nat) (e : Engine) (hs : List HandOver) (n' : Nat) (e' : Engine)
    (lives : List Life) : Prop where
  queue : e'.queue = []
  accounts : Accounts most e.queue hs lives
  answer : n' = n + lives.countP (·.ending = .stored)
  ingested : e'.ingested = e.ingested + lives.countP (·.ending = .stored)
  dropped : e'.dropped = e.dropped +
    (lives.countP (·.ending = .discarded) + lives.countP (·.ending = .givenUp))

theorem Drains.emptied {e e' : Engine} {n n' : Nat} (hd : Drains n e hs n' e') (h : Ready e) :
    ∃ lives, Emptied e.settings.maxIngestAttempts n e hs n' e' lives := by
  induction hd with
  | @empty n e e' hq =>
    obtain ⟨hlen, hi, -⟩ := ends_queueDepth hq
    have hnil : e.queue = [] := List.length_eq_zero_iff.mp hlen.symm
    exact ⟨[], {
      queue := (congrArg Intake.queue hi).trans hnil
      accounts := hnil ▸ accounts_nil
      answer := rfl
      ingested := congrArg Intake.ingested hi
      dropped := congrArg Intake.dropped hi }⟩
  | @again n m k n' e u v e' hs hs' hq hm hd hr ih =>
    obtain ⟨rfl, hi, hready⟩ := ends_queueDepth hq
    obtain ⟨batch, rest, hl⟩ := hd.leads (hready h)
    have hsettings : u.settings = e.settings := congrArg Intake.settings hi
    have hqueue : u.queue = e.queue := congrArg Intake.queue hi
    have hingested : u.ingested = e.ingested := congrArg Intake.ingested hi
    have hdropped : u.dropped = e.dropped := congrArg Intake.dropped hi
    obtain ⟨lives, hlives⟩ := ih hl.ready
    have ha := hlives.accounts
    rw [hl.settings, hl.queue'] at ha
    obtain ⟨lives', ha'⟩ := ha.handsOverAll hl.divided
    have hperm := hl.handed.append_right rest
    rw [← hl.queue] at hperm
    refine ⟨lives', ⟨hlives.queue, ?_, ?_, ?_, ?_⟩⟩
    · rw [← hsettings, ← hqueue]
      exact ha'.of_perm hperm
    · have h₁ := ha.stored
      have h₂ := ha'.stored
      have h₃ := hlives.answer
      have h₄ := hl.answer
      rw [List.map_append, List.sum_append] at h₂
      omega
    · have h₁ := ha.stored
      have h₂ := ha'.stored
      have h₃ := hlives.ingested
      have h₄ := hl.answer
      rw [List.map_append, List.sum_append] at h₂
      rw [hl.ingested, hingested] at h₃
      omega
    · have h₁ := ha.dropped
      have h₂ := ha'.dropped
      have h₃ := hlives.dropped
      rw [List.map_append, List.sum_append] at h₂
      rw [hl.dropped, hdropped] at h₃
      omega

/-- With draining alone, however calls to the store fail and whatever the settings are, the queue
comes to be empty. Each event has been handed over as often as it could be tried at most, and has
been counted as dropped only if it was discarded, or after so many tries in vain. -/
theorem drainPending_settles {e : Engine} (h : Evolved true e) (hf : ∀ q ∈ e.queue, q.event.Fits) :
    (∀ shake : Nat → Engine → Engine, (∀ n (u : Engine), u.Shaken (shake n u)) →
      ∃ most n k e', (drainPending.among shake).run most (0, e) = some (n, k, e') ∧
        drainPending.Ends Engine.Shaken e n e') ∧
    ∀ n e', drainPending.Ends Engine.Shaken e n e' → (∃ hs, Drains 0 e hs n e') ∧
      ∀ hs, Drains 0 e hs n e' →
        ∃ lives, Emptied e.settings.maxIngestAttempts 0 e hs n e' lives := by
  have hready : Ready e := ⟨ahead_of_evolved h, hf⟩
  refine ⟨fun shake hs => ?_,
    fun n e' he => ⟨ends_drainPending.mp he, fun hs hd => hd.emptied hready⟩⟩
  obtain ⟨most, n, k, e', hrun⟩ := (drainPending_halts hready).exists_run hs 0
  exact ⟨most, n, k, e', hrun, Activity.ends_of_run_among hs hrun⟩

/-- Two events wait, of which no bucket takes the second. -/
def twoWaiting : Engine :=
  { Engine.fresh .inMemory .standard .standard with
    queue := [⟨Bucket.firstEvent, 0⟩, ⟨Event.new (-1), 0⟩] }

def refusingCommits (_ : Nat) (e : Engine) : Engine :=
  { e with store := { e.store with faults := [⟨.commit, none⟩] } }

/-- Both are dropped, one after all its tries and the other at once. -/
theorem drainPending_settles_of_refused : ∃ most k e' hs lives, Evolved true twoWaiting ∧
    (drainPending.among refusingCommits).run most (0, twoWaiting) = some (0, k, e') ∧
    Drains 0 twoWaiting hs 0 e' ∧
    Emptied twoWaiting.settings.maxIngestAttempts 0 twoWaiting hs 0 e' lives ∧ e'.dropped = 2 := by
  have hrun : ((drainPending.among refusingCommits).run 20 (0, twoWaiting)).any
      (fun (n, _, e) => n == 0 && e.dropped == 2) = true := by decide +kernel
  obtain ⟨⟨n, k, e'⟩, hdrained, hr⟩ := (Option.any_eq_true _ _).mp hrun
  simp only [Bool.and_eq_true, beq_iff_eq] at hr
  obtain ⟨rfl, hdropped⟩ := hr
  have he : Evolved true twoWaiting :=
    (Evolved.start (Query.Cache.sound_new _ _)).beside _ _ _ _ _ _ _
  obtain ⟨hends, hlives⟩ := drainPending_settles he (by decide +kernel)
  obtain ⟨most, n, k', e'', hrun', hends⟩ :=
    hends refusingCommits fun _ u => ⟨_, u.clock, Nat.le_refl _, rfl⟩
  have hmost := Activity.run_mono (Nat.le_max_left 20 most) hdrained
  rw [Activity.run_mono (Nat.le_max_right 20 most) hrun'] at hmost
  cases hmost
  obtain ⟨⟨hs, hdrains⟩, hlives⟩ := hlives 0 e' hends
  obtain ⟨lives, hemptied⟩ := hlives hs hdrains
  exact ⟨20, k, e', hs, lives, he, hdrained, hdrains, hemptied, hdropped⟩

end Ingest

end EventStore
