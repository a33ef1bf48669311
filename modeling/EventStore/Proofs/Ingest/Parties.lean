import EventStore.Engine.Service
import EventStore.Proofs.EventSet.Convergence
import EventStore.Proofs.Ingest.Accounts

/-!
# Queueing and draining at the same time

Calls that queue events and calls that drain the queue share one engine. What a call holds is its
`Share`: a hand, as any call has that adds events to buckets, an account of the events of the queue,
and the stage that it has come to. A drain is through only where it finds the queue empty, whatever
others still hold; what it has taken from the queue is in its account until it is back in the queue,
stored or dropped (`Busy`).
-/

namespace EventStore

/-- Only the queue and its figures may be different, and whether the engine stops. -/
def Engine.SameButQueue (e e' : Engine) : Prop :=
  ∃ queue ingested filtered dropped stopping, e' = { e with
    queue := queue, ingested := ingested, filtered := filtered, dropped := dropped,
    stopping := stopping }

namespace EventSet

variable {e e' : Engine} {k k' : Hand}

theorem Same.of_queue (h : e.SameButQueue e') : Same e e' := by
  obtain ⟨queue, ingested, filtered, dropped, stopping, rfl⟩ := h
  exact ⟨rfl, rfl, rfl, rfl, rfl⟩

theorem Acts.intake (h : Acts e k e' k') : e'.intake = e.intake := by
  cases h <;> rfl

theorem Report.Covers.fits {r : Report} {events : List Event} (h : r.Covers (bare events))
    (hf : ∀ x ∈ events, x.Fits) : ∀ x ∈ r.retry, x.Fits := by
  intro x hx
  obtain ⟨lost, -, h⟩ := h
  have hmem : x.bare ∈ bare events := by
    rw [← h]
    exact Multiset.mem_add.mpr (.inl (Multiset.mem_add.mpr (.inr (List.mem_map_of_mem hx))))
  obtain ⟨y, hy, he⟩ := List.mem_map.mp (Multiset.mem_coe.mp hmem)
  have hp : x.bare.properties = y.bare.properties := congrArg Event.properties he.symm
  simpa only [Event.Fits, show x.properties = y.properties from hp] using hf y hy

end EventSet

namespace Ingest

inductive Stage
  | adding
  | draining
  /-- The call will not touch the queue any more. -/
  | through
  deriving DecidableEq

/-- What a call holds. -/
structure Share where
  hand : EventSet.Hand
  account : Account
  stage : Stage

/-- The steps of a call. Either it adds to buckets and leaves the queue alone, or it is the other
way round. -/
structure Goes (e : Engine) (k : Share) (e' : Engine) (k' : Share) : Prop where
  hand : EventSet.Acts e k.hand e' k'.hand ∨ e.SameButQueue e' ∧ k'.hand = k.hand
  account : Account.Moves e k.account e' k'.account
  stage : k'.stage = k.stage ∧ (k.stage = .through → e'.queue = e.queue) ∨
    k'.stage = .through ∧ k.stage ≠ .through ∧ (k.stage = .draining → e'.queue = [])
  fits : (∀ q ∈ e.queue, q.event.Fits) → ∀ q ∈ e'.queue, q.event.Fits

namespace Goes

variable {e e' : Engine} {k k' : Share} {a : Account} {hand : EventSet.Hand}

theorem of_acts (h : EventSet.Acts e k.hand e' hand) : Goes e k e' { k with hand := hand } := by
  have hq : e'.queue = e.queue := congrArg Intake.queue h.intake
  exact ⟨.inl h, Account.moves_of_intake h.intake _, .inl ⟨rfl, fun _ => hq⟩, fun hf => hq ▸ hf⟩

theorem of_moves (hs : e.SameButQueue e') (hm : Account.Moves e k.account e' a)
    (ht : k.stage ≠ .through)
    (hf : (∀ q ∈ e.queue, q.event.Fits) → ∀ q ∈ e'.queue, q.event.Fits) :
    Goes e k e' { k with account := a } :=
  ⟨.inr ⟨hs, rfl⟩, hm, .inl ⟨rfl, fun h => absurd h ht⟩, hf⟩

theorem refl (e : Engine) (k : Share) : Goes e k e k :=
  ⟨.inr ⟨⟨_, _, _, _, _, rfl⟩, rfl⟩, .refl e _, .inl ⟨rfl, fun _ => rfl⟩, id⟩

theorem settings (h : Goes e k e' k') : e'.settings = e.settings := h.account.settings

theorem sound (h : Goes e k e' k') (hs : EventSet.Sound e) (hk : EventSet.Held e k.hand) :
    EventSet.Sound e' :=
  h.hand.elim (fun ha => ha.sound hs hk) fun hq => hs.of_same (.of_queue hq.1)

theorem held (h : Goes e k e' k') (hs : EventSet.Sound e) (hk : EventSet.Held e k.hand) :
    EventSet.Held e' k'.hand := by
  rcases h.hand with ha | ⟨hq, hkk⟩
  · exact ha.held hs hk
  · exact hkk ▸ (EventSet.Others.of_same (.of_queue hq) _).kept hk

theorem others {j : Share} (h : Goes e k e' k') (hs : EventSet.Sound e)
    (hk : EventSet.Held e k.hand) (hj : EventSet.Held e j.hand) (ha : j.hand.Apart k.hand) :
    EventSet.Others j.hand e e' ∧ j.hand.Apart k'.hand := by
  rcases h.hand with hacts | ⟨hq, hkk⟩
  · exact hacts.others hs hk hj ha
  · exact ⟨.of_same (.of_queue hq) _, hkk ▸ ha⟩

end Goes

/-- How calls that queue events and calls that drain the queue share an engine. -/
def sharing (settings : Config.EngineSection) : Sharing Engine Share where
  Sound e := EventSet.Sound e ∧ e.settings = settings ∧ ∀ q ∈ e.queue, q.event.Fits
  Holds e k := EventSet.Held e k.hand
  May := Goes
  Others k := EventSet.Others k.hand
  Apart j k := j.hand.Apart k.hand
  stay := .refl
  sound hm hs hk := ⟨hm.sound hs.1 hk, hm.settings.trans hs.2.1, hm.fits hs.2.2⟩
  holds hm hs hk := hm.held hs.1 hk
  refl k := .refl k.hand
  trans := .trans
  kept h := h.kept
  symm := .symm
  others hm hs hk hj ha := hm.others hs.1 hk hj ha

/-- The call holds nothing any more. What it has committed is what it has stored. -/
structure Settled (accepted : Multiset Event) (k : Share) : Prop where
  writes : k.hand.writes = none
  registers : k.hand.registers = false
  account : ∃ dropped, k.account = ⟨accepted, 0, bare k.hand.stored, dropped, 0, 0⟩
  stage : k.stage = .through

/-- A drain has stored `before` and counted it, and `fresh`, which it still counts as held. Beside
these it has to do with `todo` and with what it will put back. -/
structure Busy (before fresh : List Event) (todo : Multiset Event) (d : Drained) (k : Share) :
    Prop where
  free : k.hand.IsFree (before ++ fresh)
  count : fresh.length = d.committed
  account : ∃ dropped, k.account =
    ⟨0, todo + bare (d.requeue.map Queued.event) + bare fresh, bare before, dropped, 0, 0⟩
  stage : k.stage = .draining
  fits : ∀ q ∈ d.requeue, q.event.Fits

/-- It has counted all that it has stored, and has nothing to do with. -/
abbrev Resting (before : List Event) (k : Share) : Prop := Busy before [] 0 ⟨0, []⟩ k

theorem Resting.through {before : List Event} {k : Share} (h : Resting before k) :
    Settled 0 { k with stage := .through } := by
  obtain ⟨⟨hw, hr, hs⟩, -, ⟨dropped, ha⟩, -, -⟩ := h
  rw [List.append_nil] at hs
  refine ⟨hw, hr, ⟨dropped, ?_⟩, rfl⟩
  rw [hs]
  simpa using ha

namespace Share

variable {S : Config.EngineSection} {e : Engine} {k : Share} {before fresh : List Event}
  {todo lost : Multiset Event} {d : Drained}

-- ---- queueing ------------------------------------------------------------

def adding (given : Nat) : Share := ⟨.empty, .opened given, .adding⟩

theorem addAll_abides {events : List Event} (hf : ∀ x ∈ events, x.Fits) :
    (addAll events).Abides (sharing S) e (adding events.length)
      fun _ _ => Settled (bare (events.filter (accepts S))) := by
  refine .bind (P := fun s _ k' => S = s ∧ k' = adding events.length)
    (.observe fun u hu => ⟨hu.sound.2.1.symm, rfl⟩) ?_
  rintro _ e₁ _ ⟨rfl, rfl⟩
  dsimp only
  have hle := List.length_filter_le (accepts S) events
  have hf : ∀ x ∈ events.filter (accepts S), x.Fits := fun x hx => hf x (List.mem_filter.mp hx).1
  generalize events.filter (accepts S) = accepted at hle hf ⊢
  refine .bind (P := fun _ _ k' => k' =
    ⟨.empty, ⟨bare accepted, 0, 0, 0, 0, events.length - accepted.length⟩, .adding⟩)
    (.atomically fun u hu => ?_) ?_
  · have hm := Account.moves_accepts (a := .opened events.length) u accepted
      (Nat.sub_add_cancel hle).symm
    refine ⟨_, .of_moves ⟨_, _, _, _, _, rfl⟩ hm nofun fun hq => ?_, ?_⟩
    · exact List.forall_mem_append.mpr ⟨hq, List.forall_mem_map.mpr hf⟩
    · simp only [adding, Account.opened, zero_add]
  rintro - e₂ _ rfl
  refine .bind (P := fun _ _ => Settled (bare accepted)) (.atomically fun u hu => ?_)
    fun _ _ _ h => .pure' h
  exact ⟨⟨.empty, ⟨bare accepted, 0, 0, 0, 0, 0⟩, .through⟩,
    ⟨.inr ⟨⟨_, _, _, _, _, rfl⟩, rfl⟩, Account.moves_filters u (Nat.zero_add _).symm,
      .inr ⟨rfl, nofun, nofun⟩, id⟩, rfl, rfl, ⟨0, rfl⟩, rfl⟩

theorem add_abides {x : Event} (hf : x.Fits) : (add x).Abides (sharing S) e (adding 1)
    fun _ _ => Settled (bare ([x].filter (accepts S))) :=
  .bind (addAll_abides (List.forall_mem_singleton.mpr hf)) fun _ _ _ h => .pure' h

-- ---- draining ------------------------------------------------------------

def draining : Share := ⟨.empty, .opened 0, .draining⟩

theorem resting_draining : Resting [] draining :=
  ⟨⟨rfl, rfl, rfl⟩, rfl, ⟨0, rfl⟩, rfl, nofun⟩

theorem countDropped_abides {n : Nat} (h : Busy before fresh (todo + lost) d k)
    (hl : lost.card = n) : (countDropped n).Abides (sharing S) e k
      fun _ _ => Busy before fresh todo d := by
  obtain ⟨hfree, hcount, ⟨dropped, ha⟩, hstage, hfits⟩ := h
  subst hl
  have hheld : k.account.held =
      todo + bare (d.requeue.map Queued.event) + bare fresh + lost := by
    rw [ha]
    ac_rfl
  exact .atomically fun u hu => ⟨_, .of_moves ⟨_, _, _, _, _, rfl⟩
    (Account.moves_drops u hheld) (by simp [hstage]) id, hfree, hcount,
    ⟨dropped + lost, by rw [ha]⟩, hstage, hfits⟩

theorem tryAgain_abides {n : Nat} {retry : List Event}
    (h : Busy before fresh (todo + bare retry) d k) (hf : ∀ x ∈ retry, x.Fits) :
    (tryAgain d n retry).Abides (sharing S) e k fun d' _ k' => Busy before fresh todo d' k' := by
  unfold tryAgain
  split
  · next hr =>
    rw [List.isEmpty_iff.mp hr, bare_nil, add_zero] at h
    exact .pure' h
  refine .bind (P := fun _ _ k' => k' = k) (.observe fun _ _ => rfl) ?_
  rintro s e₁ _ rfl
  split
  · exact .bind (countDropped_abides h (card_bare _)) fun _ _ _ h => .pure' h
  · obtain ⟨hfree, hcount, ⟨dropped, ha⟩, hstage, hfits⟩ := h
    refine .pure' ⟨hfree, hcount, ⟨dropped, ?_⟩, hstage,
      List.forall_mem_append.mpr ⟨hfits, List.forall_mem_map.mpr hf⟩⟩
    rw [ha, List.map_append, bare_append, List.map_map, Function.comp_def, List.map_id']
    congr 1
    ac_rfl

theorem stores_abides {stored events : List Event} (h : k.hand.IsFree stored)
    (hf : ∀ x ∈ events, x.Fits) : (EventSet.addAll events).Abides (sharing S) e k
      fun r _ k' => ∃ hand : EventSet.Hand, k' = { k with hand := hand } ∧
        hand.IsFree (stored ++ r.committed) ∧ r.Covers (bare events) := by
  have hadd := (EventSet.addAll_abides (e := e) h hf).and_keeps (EventSet.addAll_covers events)
    fun _ _ => trivial
  refine (hadd.within (T := sharing S) (g := fun hand => { k with hand := hand }) id And.left id
    fun ha => Goes.of_acts ha).mono ?_
  rintro r e₁ _ ⟨hand, rfl, hfree, -, hr⟩
  exact ⟨hand, rfl, hfree, hr⟩

theorem drainGroup_abides {n : Nat} {events : List Event}
    (h : Busy before fresh (todo + bare events) d k) (hf : ∀ x ∈ events, x.Fits) :
    (drainGroup d n events).Abides (sharing S) e k
      fun d' _ k' => ∃ fresh, Busy before fresh todo d' k' := by
  rw [drainGroup_eq]
  refine .bind (stores_abides h.free hf) ?_
  rintro r e₁ _ ⟨hand, rfl, hhand, hr⟩
  have hfits := hr.fits hf
  obtain ⟨lost, hl, hr⟩ := hr
  have h : Busy before (fresh ++ r.committed) (todo + bare r.retry + lost)
      { d with committed := d.committed + r.committed.length } { k with hand := hand } := by
    obtain ⟨-, hcount, ⟨dropped, ha⟩, hstage, hfits⟩ := h
    refine ⟨List.append_assoc .. ▸ hhand, ?_, ⟨dropped, ?_⟩, hstage, hfits⟩
    · rw [List.length_append, hcount]
    · rw [ha, ← hr, bare_append]
      congr 1
      ac_rfl
  unfold reckon
  dsimp only
  split
  · exact .bind (countDropped_abides h hl) fun _ _ _ h =>
      (tryAgain_abides h hfits).mono fun _ _ _ h => ⟨_, h⟩
  · next hd =>
    rw [Multiset.card_eq_zero.mp (by omega : lost.card = 0), add_zero] at h
    exact (tryAgain_abides h hfits).mono fun _ _ _ h => ⟨_, h⟩

theorem takeBatch_abides (h : Resting before k) : takeBatch.Abides (sharing S) e k
    fun batch _ k' => Busy before [] (bare (batch.map Queued.event)) ⟨0, []⟩ k' ∧
      ∀ q ∈ batch, q.event.Fits := by
  obtain ⟨hfree, hcount, ⟨dropped, ha⟩, hstage, hfits⟩ := h
  refine .atomically fun u hu => ⟨_, .of_moves ⟨_, _, _, _, _, rfl⟩
    (Account.moves_takes u k.account (max 1 u.settings.batchSize)) (by simp [hstage]) ?_,
    ⟨hfree, hcount, ⟨dropped, ?_⟩, hstage, hfits⟩, ?_⟩
  · exact fun hq q hm => hq q (List.mem_of_mem_drop hm)
  · rw [ha]
    simp
  · exact fun q hm => hu.sound.2.2 q (List.mem_of_mem_take hm)

theorem putBack_abides (h : Busy before fresh 0 d k) : (putBack d.requeue).Abides (sharing S) e k
    fun _ _ => Busy before fresh 0 { d with requeue := [] } := by
  obtain ⟨hfree, hcount, ⟨dropped, ha⟩, hstage, hfits⟩ := h
  have hheld : k.account.held = bare fresh + bare (d.requeue.map Queued.event) := by
    rw [ha]
    ac_rfl
  refine .atomically fun u hu => ⟨_, .of_moves ⟨_, _, _, _, _, rfl⟩
    (Account.moves_returns u hheld) (by simp [hstage]) ?_,
    hfree, hcount, ⟨dropped, ?_⟩, hstage, List.forall_mem_nil _⟩
  · exact fun hq => List.forall_mem_append.mpr ⟨hfits, hq⟩
  · rw [ha]
    simp

theorem countIngested_abides {n : Nat} (h : Busy before fresh 0 ⟨n, []⟩ k) :
    (countIngested n).Abides (sharing S) e k fun _ _ => Resting (before ++ fresh) := by
  obtain ⟨hfree, hcount, ⟨dropped, ha⟩, hstage, hfits⟩ := h
  have hheld : k.account.held = 0 + bare fresh := by simp [ha]
  refine .atomically fun u hu => ⟨_, .of_moves ⟨_, _, _, _, _, rfl⟩
    ((Account.moves_commits u hheld).trans (Account.moves_counts u ?_)) (by simp [hstage]) id, ?_,
    rfl, ⟨dropped, ?_⟩, hstage, hfits⟩
  · rw [ha, card_bare, Nat.zero_add]
    exact hcount
  · rw [List.append_nil]
    exact hfree
  · simp [ha]

theorem finish_abides (h : Busy before fresh 0 d k) :
    (finish d).Abides (sharing S) e k fun _ _ k' => ∃ stored, Resting stored k' := by
  have hend {e : Engine} {k : Share} (h : Busy before fresh 0 ⟨d.committed, []⟩ k) :
      Activity.Abides (sharing S) (do
        countIngested d.committed
        return d.committed) e k fun _ _ k' => ∃ stored, Resting stored k' :=
    .bind (countIngested_abides h) fun _ _ _ h => .pure' ⟨_, h⟩
  unfold finish
  split
  · exact .bind (putBack_abides h) fun _ _ _ h => hend h
  · next he =>
    obtain ⟨n, requeue⟩ := d
    obtain rfl : requeue = [] := by simpa using he
    exact hend h

theorem drainOnce_abides (h : Resting before k) :
    drainOnce.Abides (sharing S) e k fun _ _ k' => ∃ stored, Resting stored k' := by
  rw [drainOnce_eq]
  refine .bind (takeBatch_abides h) ?_
  rintro batch e₁ k₁ ⟨h₁, hf⟩
  unfold drainBatch
  split
  · next he =>
    rw [List.isEmpty_iff.mp he, List.map_nil, bare_nil] at h₁
    exact .pure' ⟨before, h₁⟩
  refine .bind (P := fun d _ k' => ∃ fresh, Busy before fresh 0 d k') ?_ ?_
  · -- What the groups still to come contain is held all the time.
    refine (Activity.Abides.foldlM (fun gs d _ k' => (∀ g ∈ gs, ∀ x ∈ g.2, x.Fits) ∧
      ∃ fresh, Busy before fresh (gs.map fun g => bare g.2).sum d k')
      ⟨forall_mem_byAttempts hf, [], ?_⟩ ?_).mono fun _ _ _ h => h.2
    · rw [bare_byAttempts]
      exact h₁
    · rintro ⟨n, events⟩ gs d e₂ k₂ ⟨hf, fresh, h₂⟩
      obtain ⟨hf, hgs⟩ := List.forall_mem_cons.mp hf
      rw [List.map_cons, List.sum_cons, add_comm] at h₂
      exact (drainGroup_abides h₂ hf).mono fun _ _ _ h => ⟨hgs, h⟩
  · rintro d e₂ k₂ ⟨fresh, h₂⟩
    exact finish_abides h₂

/-- The drain is through once it has found the queue empty. -/
theorem drainPending_abides (h : Resting before k) :
    drainPending.Abides (sharing S) e k fun _ _ => Settled 0 := by
  refine .goRound (fun _ k' => ∃ stored, Resting stored k') ⟨before, h⟩ ?_
  rintro n e₁ k₁ ⟨stored, h₁⟩
  refine .bind (P := fun depth _ k' => if depth = 0 then Settled 0 k' else k' = k₁)
    (.atomically fun u hu => ?_) ?_
  · dsimp only
    split
    · next hd =>
      have hq : u.queue = [] := List.length_eq_zero_iff.mp hd
      exact ⟨{ k₁ with stage := .through }, ⟨.inr ⟨⟨_, _, _, _, _, rfl⟩, rfl⟩, .refl u _,
        .inr ⟨rfl, by simp [h₁.stage], fun _ => hq⟩, id⟩, h₁.through⟩
    · exact ⟨k₁, .refl u k₁, rfl⟩
  · rintro depth e₂ k₂ h₂
    split at h₂
    · next hd =>
      rw [if_pos hd]
      exact .pure' h₂
    · next hd =>
      subst h₂
      rw [if_neg hd]
      exact .bind (drainOnce_abides h₁) fun _ _ _ h => .pure' h

theorem shutdown_abides (h : Resting before k) :
    shutdown.Abides (sharing S) e k fun _ _ => Settled 0 := by
  refine .bind (P := fun _ _ k' => k' = k) (.atomically fun u hu => ⟨k, ?_, rfl⟩) ?_
  · refine ⟨.inr ⟨⟨_, _, _, _, _, rfl⟩, rfl⟩, Account.moves_of_intake ?_ _,
      .inl ⟨rfl, fun _ => rfl⟩, id⟩
    rfl
  · rintro - e₁ _ rfl
    exact drainPending_abides h

/-- The loop ends after its queue has been empty. -/
theorem drainLoop_abides (h : Resting before k) :
    Service.Loop.drain.activity.Abides (sharing S) e k fun _ _ => Settled 0 := by
  refine .goRound (fun _ k' => ∃ stored, Resting stored k') ⟨before, h⟩ ?_
  rintro - e₁ k₁ ⟨stored, h₁⟩
  refine .bind (P := fun goesOn _ k' => if goesOn then ∃ stored, Resting stored k'
    else Settled 0 k') ?_ ?_
  · refine .bind (P := fun _ _ k' => k' = k₁) (.observe fun _ _ => rfl) ?_
    rintro stopping e₂ k₁ rfl
    split
    · exact .bind (drainPending_abides h₁) fun _ _ _ h => .pure' h
    refine .bind (P := fun _ _ k' => k' = k₁) (.observe fun _ _ => rfl) ?_
    rintro depth e₃ k₁ rfl
    split
    · exact .bind (drainOnce_abides h₁) fun _ _ _ h => .pure' h
    · exact .pure' ⟨stored, h₁⟩
  · rintro (_ | _) e₂ k₂ h₂
    · exact .pure' h₂
    · exact .pure' h₂

end Share

end Ingest

end EventStore
