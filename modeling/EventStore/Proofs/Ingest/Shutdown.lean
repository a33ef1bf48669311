import EventStore.Proofs.EventSet.Caching
import EventStore.Proofs.Ingest.Balance
import EventStore.Proofs.Ingest.Parties

/-!
# Shutting down

Any number of drains may empty one queue, and each may put back what it could not store after others
have found the queue empty. But a drain that has put something back goes on itself. So when all are
done, whatever calls to the store have failed meanwhile, the queue is empty, and what was accepted
has been stored once or counted as dropped (`closed_of_run`).
-/

namespace EventStore

namespace Ingest

theorem Account.Moves.opens {e e' : Engine} {a a' : Account} (h : Moves e a e' a') (n : Nat) :
    Moves e { a with undecided := a.undecided + n }
      e' { a' with undecided := a'.undecided + n } := by
  obtain ⟨hs, ⟨new, ha, hw, hf⟩, hc, hd⟩ := h
  refine ⟨hs, ⟨new, ha, hw, ?_⟩, hc, hd⟩
  simp only
  omega

theorem total_concat_opened (as : List Account) (n : Nat) : total (as ++ [.opened n]) =
    { total as with undecided := (total as).undecided + n } := by
  simp [total_append, total_singleton, Account.opened]

end Ingest

namespace Service

open Ingest (Share Account total accepts waiting)

variable {S : Config.EngineSection} {e e' e₀ : Engine} {ks : List Share}

-- ---- the calls -----------------------------------------------------------

namespace Call

def given : Call → List Event
  | queue c => c.given
  | _ => []

/-- Whether the call adds events to the queue. -/
def adds : Call → Bool
  | queue c => !c.drains
  | _ => false

/-- The call adds events to the queue, which the store can hold. -/
def Queues (c : Call) : Prop := c.adds = true ∧ ∀ x ∈ c.given, x.Fits

/-- The call goes on until it finds the queue empty. -/
def Empties : Call → Prop
  | queue .drainPending | queue .shutdown | loop .drain => True
  | _ => False

/-- What the call holds before its first step. -/
def begun (c : Call) : Share := if c.adds then .adding c.given.length else .draining

/-- Nothing else is at the stage of adding. -/
def Suits (c : Call) (k : Share) : Prop := k.stage = .adding → c.adds = true

/-- Of the events given, those that are accepted have been put into the queue. -/
def Settled (S : Config.EngineSection) (c : Call) (_ : c.Answer) : Share → Prop :=
  Ingest.Settled (bare (c.given.filter (accepts S)))

theorem hand_begun (c : Call) : c.begun.hand = .empty := by
  unfold begun
  split <;> rfl

theorem exists_account_begun (c : Call) : ∃ n, c.begun.account = .opened n := by
  unfold begun
  split <;> exact ⟨_, rfl⟩

theorem begun_of_empties {c : Call} (h : c.Empties) : c.begun = .draining := by
  unfold begun
  cases c with
  | queue c => cases c <;> first | rfl | cases h
  | _ => rfl

theorem activity_abides {c : Call} (h : c.Queues ∨ c.Empties) :
    c.activity.Abides (Ingest.sharing S) e c.begun fun a _ => c.Settled S a := by
  rcases h with ⟨ha, hf⟩ | h
  · cases c with
    | queue c =>
      cases c with
      | add x => exact Share.add_abides (hf x List.mem_cons_self)
      | addAll events => exact Share.addAll_abides hf
      | _ => cases ha
    | _ => cases ha
  · rw [begun_of_empties h]
    cases c with
    | queue c =>
      cases c with
      | drainPending => exact Share.drainPending_abides Share.resting_draining
      | shutdown => exact Share.shutdown_abides Share.resting_draining
      | _ => cases h
    | loop l =>
      cases l with
      | drain => exact Share.drainLoop_abides Share.resting_draining
      | sweep now => cases h
    | _ => cases h

/-- Calls that add to the queue and calls that empty it may go on at the same time. -/
theorem matched {allowed : Call → Prop} (h : ∀ c, allowed c → c.Queues ∨ c.Empties) :
    Scene.Matched (Ingest.sharing S) activity allowed Engine.Shaken begun Suits (Settled S) where
  call hc := activity_abides (h _ hc)
  holds {c s} := by
    show EventSet.Held s c.begun.hand
    rw [hand_begun]
    exact EventSet.held_empty s
  apart {c k} := by
    show k.hand.Apart c.begun.hand
    rw [hand_begun]
    exact EventSet.Hand.apart_empty k.hand
  begins {c} hk := by
    unfold begun at hk
    split at hk
    · assumption
    · cases hk
  remains hm hk hk' := by
    rcases hm.stage with ⟨hs, -⟩ | ⟨hs, -⟩
    · exact hk (hs ▸ hk')
    · rw [hs] at hk'
      cases hk'
  sound hs h := by
    have hsound := h.1.shaken hs
    obtain ⟨faults, clock, -, rfl⟩ := hs
    exact ⟨hsound, h.2⟩
  others hs := .of_shaken hs _

end Call

-- ---- what is preserved ---------------------------------------------------

/-- What has come of `e₀` is accounted for by what the calls hold. -/
structure Booked (e₀ e : Engine) (ks : List Share) : Prop where
  stored : EventSet.Accounted e₀ e (ks.map Share.hand)
  moves : ∃ given, Account.Moves e₀ (.opened given) e (total (ks.map Share.account))

theorem booked_upheld (allowed : Call → Prop) :
    Scene.Upholds (Ingest.sharing S) allowed Engine.Shaken Call.begun (Booked e₀) where
  call {c e ks} _ h := by
    obtain ⟨given, hm⟩ := h.moves
    obtain ⟨n, hn⟩ := c.exists_account_begun
    refine ⟨?_, given + n, ?_⟩
    · rw [List.map_append, List.map_singleton, c.hand_begun]
      exact (EventSet.accounted_preserved e₀).call h.stored
    · rw [List.map_append, List.map_singleton, hn, Ingest.total_concat_opened]
      exact hm.opens n
  task {e k e' k' before after} hs hk hm h := by
    obtain ⟨hstored, given, hmoves⟩ := h
    simp only [List.map_append, List.map_cons] at hstored hmoves
    refine ⟨?_, given, ?_⟩ <;> rw [List.map_append, List.map_cons]
    rotate_left
    · exact hmoves.trans (Ingest.moves_total _ _ hm.account)
    rcases hm.hand with ha | ⟨hq, hkk⟩
    · exact (EventSet.accounted_preserved e₀).task hs.1 hk ha hstored
    · rw [hkk]
      exact hstored.of_same (.of_queue hq)
  around {e e' ks} hs h := by
    obtain ⟨given, hm⟩ := h.moves
    refine ⟨(EventSet.accounted_preserved e₀).around hs h.stored, given, hm.trans ?_⟩
    obtain ⟨faults, clock, -, rfl⟩ := hs
    exact Account.moves_of_intake (by rfl) _

/-- Nothing is added to the queue, and somebody goes on draining as long as it is not empty. -/
structure Emptying (e : Engine) (ks : List Share) : Prop where
  added : ∀ k ∈ ks, k.stage ≠ .adding
  drained : e.queue ≠ [] → ∃ k ∈ ks, k.stage = .draining

theorem Emptying.closing (h : ∀ k ∈ ks, k.stage ≠ .adding) :
    Emptying e (ks ++ [Call.begun (.queue .shutdown)]) :=
  ⟨List.forall_mem_append.mpr ⟨h, List.forall_mem_singleton.mpr nofun⟩,
    fun _ => ⟨_, List.mem_append_right _ List.mem_cons_self, rfl⟩⟩

theorem Emptying.queue_eq_nil (h : Emptying e ks) (hks : ∀ k ∈ ks, k.stage = .through) :
    e.queue = [] := by
  by_contra hne
  obtain ⟨k, hk, hs⟩ := h.drained hne
  rw [hks k hk] at hs
  cases hs

theorem emptying_upheld :
    Scene.Upholds (Ingest.sharing S) Call.Empties Engine.Shaken Call.begun Emptying where
  call {c e ks} hc h := by
    rw [Call.begun_of_empties hc]
    refine ⟨List.forall_mem_append.mpr ⟨h.added, List.forall_mem_singleton.mpr nofun⟩,
      fun _ => ⟨_, List.mem_append_right _ List.mem_cons_self, rfl⟩⟩
  task {e k e' k' before after} _ _ hm h := by
    obtain ⟨hadded, hdrained⟩ := h
    obtain ⟨hb, hk, ha⟩ := List.forall_mem_append.mp hadded |>.imp_right List.forall_mem_cons.mp
    refine ⟨List.forall_mem_append.mpr ⟨hb, List.forall_mem_cons.mpr ⟨?_, ha⟩⟩, fun hq => ?_⟩
    · rcases hm.stage with ⟨hs, -⟩ | ⟨hs, -⟩
      · exact hs ▸ hk
      · rw [hs]
        nofun
    -- Who takes the step goes on, or leaves the queue as it was or empty.
    rcases hm.stage with ⟨hs, hthrough⟩ | ⟨-, hn, hempty⟩
    · cases hstage : k.stage with
      | adding => exact absurd hstage hk
      | draining => exact ⟨k', by simp, hs.trans hstage⟩
      | through =>
        rw [hthrough hstage] at hq
        obtain ⟨j, hj, hjs⟩ := hdrained hq
        refine ⟨j, ?_, hjs⟩
        simp only [List.mem_append, List.mem_cons] at hj ⊢
        rcases hj with hj | rfl | hj
        · exact .inl hj
        · rw [hstage] at hjs
          cases hjs
        · exact .inr (.inr hj)
    · cases hstage : k.stage with
      | adding => exact absurd hstage hk
      | draining => exact absurd (hempty hstage) hq
      | through => exact absurd hstage hn
  around {e e' ks} hs h := by
    obtain ⟨faults, clock, -, rfl⟩ := hs
    exact ⟨h.added, h.drained⟩

-- ---- a whole run ---------------------------------------------------------

abbrev Task := EventStore.Task Engine Call.Answer

abbrev Scene := EventStore.Scene Engine Call.Answer

def closing (s : Scene) : Scene := ⟨s.state, s.tasks ++ [⟨.queue .shutdown, Call.activity _⟩]⟩

def acceptedBy (S : Config.EngineSection) (ts : List Task) : Multiset Event :=
  (ts.map fun t => bare (t.call.given.filter (accepts S))).sum

/-- Since `e₀` all that waited then or has been accepted since has been committed once, or counted
as dropped, and nothing waits any more. -/
structure Closed (e₀ e : Engine) (accepted : Multiset Event) (committed : List Event)
    (dropped : Multiset Event) : Prop where
  quiet : EventSet.Quiet e
  queue : e.queue = []
  events : waiting e₀ + accepted = bare committed + dropped
  ingested : e.ingested = e₀.ingested + committed.length
  dropped : e.dropped = e₀.dropped + dropped.card
  /-- Each has a place of its own, in a bucket that is in use. -/
  distinct : (committed.map fun x => (x.bucket, x.id)).Nodup
  placed : ∀ x ∈ committed, ∃ b : Bucket, EventSet.Registered b e ∧ x.bucket = b.id
  /-- There the store holds it behind what was there before, and the index finds it. -/
  continues : ∀ {b : Bucket}, EventSet.Registered b e → ∃ i last log es,
    EventSet.Continues e₀ e b (EventSet.ofBucket b committed) i last log es

theorem total_of_settled {ts : List Task}
    (h : ts.Forall₂ (fun t k => ∃ a, t.rest.answer? = some a ∧ t.call.Settled S a k) ks) :
    (∀ k ∈ ks, k.hand.writes = none ∧ k.hand.registers = false ∧ k.stage = .through) ∧
      ∃ dropped, total (ks.map Share.account) = ⟨acceptedBy S ts, 0,
        bare ((ks.map Share.hand).flatMap EventSet.Hand.stored), dropped, 0, 0⟩ := by
  induction h with
  | nil => exact ⟨List.forall_mem_nil _, 0, rfl⟩
  | @cons t k ts ks hk _ ih =>
    obtain ⟨hks, dropped, htotal⟩ := ih
    obtain ⟨-, -, hw, hr, ⟨dropped', ha⟩, hs⟩ := hk
    refine ⟨List.forall_mem_cons.mpr ⟨⟨hw, hr, hs⟩, hks⟩, dropped' + dropped, ?_⟩
    rw [List.map_cons, ← List.singleton_append, Ingest.total_append, Ingest.total_singleton, ha,
      htotal]
    simp [acceptedBy]

theorem Booked.closed {accepted dropped : Multiset Event} (h : Booked e₀ e ks)
    (hquiet : EventSet.Quiet e) (hq : e.queue = [])
    (ht : total (ks.map Share.account) = ⟨accepted, 0,
      bare ((ks.map Share.hand).flatMap EventSet.Hand.stored), dropped, 0, 0⟩) :
    Closed e₀ e accepted ((ks.map Share.hand).flatMap EventSet.Hand.stored) dropped := by
  obtain ⟨hstored, given, hm⟩ := h
  generalize (ks.map Share.hand) = hands at hstored ht ⊢
  rw [ht] at hm
  obtain ⟨-, ⟨new, hnew, hw, -⟩, ⟨done, hdone, hi⟩, lost, hlost, hd⟩ := hm
  simp only [Account.opened, zero_add] at hnew hdone hlost hi hd
  refine ⟨hquiet, hq, ?_, ?_, ?_, hstored.distinct, fun x hx => ?_, fun hb => ?_⟩
  · rw [hnew]
    simpa [waiting, hq, Account.taken, Account.opened] using hw.symm
  · rw [← hdone, card_bare] at hi
    simpa using hi
  · rw [hd, hlost]
  · obtain ⟨b, hb⟩ := hstored.placed x hx
    cases hc : e.registry[b.hour]? with
    | none =>
      have hnone : x ∈ EventSet.ofBucket b (hands.flatMap EventSet.Hand.stored) :=
        List.mem_filter.mpr ⟨hx, by simp [hb]⟩
      rw [(hstored.absent hc).2] at hnone
      cases hnone
    | some c =>
      refine ⟨c, hquiet.registered hc, ?_⟩
      rw [hb, Bucket.id_congr (hquiet.hour hc).symm]
  · exact hstored.continues (hquiet.indexed hb (hquiet.idle hb))

/-- When the calls that add events are done, nobody is adding. -/
theorem not_adding {s : Scene} (h : s.Abides (Ingest.sharing S) (Call.Settled S) ks)
    (hsuit : s.tasks.Forall₂ (fun t => t.call.Suits) ks)
    (hadded : ∀ t ∈ s.tasks, t.call.adds = true → t.rest.answer?.isSome = true) :
    ∀ k ∈ ks, k.stage ≠ .adding := by
  intro k hk hstage
  have htasks := h.tasks.mp (fun _ _ => And.intro) hsuit
  obtain ⟨t, ht, habides, hadds⟩ := exists_mem_of_forall₂ htasks hk
  obtain ⟨a, ha⟩ := Option.isSome_iff_exists.mp (hadded t ht (hadds hstage))
  have hsettled : t.call.Settled S a k := habides.2.done ha
  rw [hsettled.stage] at hstage
  cases hstage

/-- However the steps of the calls alternate, and whatever calls to the store fail, when events are
added before a shutdown begins and none after, and the shutdown and all drains are done, the queue
is empty, and every event that was accepted has been committed once or counted as dropped. -/
theorem closed_of_run {e₀ : Engine} {s s' : Scene} (h₀ : EventSet.Quiet e₀)
    (hq₀ : ∀ q ∈ e₀.queue, q.event.Fits)
    (hr : Scene.Run Call.activity (fun c => c.Queues ∨ c.Empties) Engine.Shaken ⟨e₀, []⟩ s)
    (hadded : ∀ t ∈ s.tasks, t.call.adds = true → t.rest.answer?.isSome = true)
    (hr' : Scene.Run Call.activity Call.Empties Engine.Shaken (closing s) s')
    (hq : s'.isQuiet = true) :
    ∃ committed dropped,
      Closed e₀ s'.state (acceptedBy e₀.settings s'.tasks) committed dropped := by
  have hbooked : Booked e₀ e₀ [] := ⟨h₀.accounted, 0, .refl e₀ _⟩
  obtain ⟨ks, habides, hsuit, hbooked⟩ := Scene.exists_matched_of_run
    (Call.matched (S := e₀.settings) fun _ => id) (booked_upheld _) hr
    ⟨⟨h₀.toSound, rfl, hq₀⟩, .nil, .nil⟩ .nil hbooked
  have hstop : Call.Empties (.queue .shutdown) := trivial
  have hmatched : Scene.Matched (Ingest.sharing e₀.settings) Call.activity Call.Empties
      Engine.Shaken Call.begun Call.Suits (Call.Settled e₀.settings) := Call.matched fun _ => .inr
  have hempties := Emptying.closing (e := s.state) (not_adding habides hsuit hadded)
  have habides := habides.begins hmatched.holds (fun _ _ => hmatched.apart) (hmatched.call hstop)
  have hsuit : (closing s).tasks.Forall₂ (fun t => t.call.Suits)
      (ks ++ [Call.begun (.queue .shutdown)]) :=
    List.rel_append hsuit (.cons hmatched.begins .nil)
  obtain ⟨ks', habides', -, hbooked', hempties'⟩ := Scene.exists_matched_of_run hmatched
    ((booked_upheld _).and emptying_upheld) hr' habides hsuit
    ⟨(booked_upheld (S := e₀.settings) _).call hstop hbooked, hempties⟩
  obtain ⟨hfree, dropped, htotal⟩ := total_of_settled (habides'.settled hq)
  have hnil := hempties'.queue_eq_nil fun k hk => (hfree k hk).2.2
  have hquiet : EventSet.Quiet s'.state := hbooked'.stored.quiet habides'.sound.1 fun k hk => by
    obtain ⟨j, hj, rfl⟩ := List.mem_map.mp hk
    exact ⟨(hfree j hj).1, (hfree j hj).2.1⟩
  exact ⟨_, dropped, hbooked'.closed hquiet hnil htotal⟩

-- ---- one run -------------------------------------------------------------

def refusing (faults : List Fault) (s : Scene) : Scene :=
  ⟨{ s.state with store := { s.state.store with faults := faults } }, s.tasks⟩

theorem run_refusing {allowed : Call → Prop} (faults : List Fault) (s : Scene) :
    Scene.Run Call.activity allowed Engine.Shaken s (refusing faults s) :=
  .single (.around ⟨faults, s.state.clock, Nat.le_refl _, rfl⟩)

/-- An engine whose store refuses commits. -/
def reluctant : Engine :=
  .fresh { Store.inMemory with faults := [⟨.commit, none⟩] } .standard .standard

/-- Two events are queued, of which no bucket takes the second, and the drain loop takes both. -/
def taken : Scene := .turns Call.activity reluctant
  [.loop .drain, .queue (.addAll [Event.new 1709647200000, Event.new (-1)])]
  [1, 1, 1, 0, 0, 0, 0]

/-- A shutdown finds the queue empty, and then the loop puts back the first, which it could not
store. -/
def returned : Scene :=
  ([2, 2, 2] ++ List.replicate 25 0).foldl EventStore.Scene.turn (closing taken)

/-- Commits are accepted again, and the loop goes on. -/
def closed : Scene := (List.replicate 25 0).foldl EventStore.Scene.turn (refusing [] returned)

/-- The loop is the last to be done, with one event committed and the other dropped. -/
theorem closed_of_run_of_returned : ∃ e₀ s s', EventSet.Quiet e₀ ∧
    (∀ q ∈ e₀.queue, q.event.Fits) ∧
    Scene.Run Call.activity (fun c => c.Queues ∨ c.Empties) Engine.Shaken ⟨e₀, []⟩ s ∧
    (∀ t ∈ s.tasks, t.call.adds = true → t.rest.answer?.isSome = true) ∧
    Scene.Run Call.activity Call.Empties Engine.Shaken (closing s) s' ∧ s'.isQuiet = true ∧
    ∃ committed dropped, Closed e₀ s'.state (acceptedBy e₀.settings s'.tasks) committed dropped ∧
      committed.length = 1 ∧ dropped.card = 1 := by
  have h₀ : EventSet.Quiet reluctant :=
    EventSet.quiet_fresh _ (Query.Cache.sound_new _ _) _
  have hr : Scene.Run Call.activity (fun c => c.Queues ∨ c.Empties) Engine.Shaken
      ⟨reluctant, []⟩ taken := by
    refine Scene.run_turns (List.forall_mem_cons.mpr ⟨.inr trivial,
      List.forall_mem_singleton.mpr (.inl ⟨rfl, ?_⟩)⟩) _
    decide +kernel
  have hadded : ∀ t ∈ taken.tasks, t.call.adds = true → t.rest.answer?.isSome = true := by
    have hall : (taken.tasks.all fun t => !t.call.adds || t.rest.answer?.isSome) = true := by
      decide +kernel
    intro t ht ha
    simpa [ha] using List.all_eq_true.mp hall t ht
  have hr' : Scene.Run Call.activity Call.Empties Engine.Shaken (closing taken) closed :=
    ((Scene.run_places _ _).trans (run_refusing [] _)).trans (Scene.run_places _ _)
  have hq : closed.isQuiet = true := by decide +kernel
  obtain ⟨committed, dropped, hclosed⟩ := closed_of_run h₀ nofun hr hadded hr' hq
  have hingested : closed.state.ingested = 1 := by decide +kernel
  have hdropped : closed.state.dropped = 1 := by decide +kernel
  refine ⟨reluctant, taken, closed, h₀, nofun, hr, hadded, hr', hq, committed, dropped, hclosed,
    ?_, ?_⟩
  · exact (Nat.zero_add _).symm.trans (hclosed.ingested.symm.trans hingested)
  · exact (Nat.zero_add _).symm.trans (hclosed.dropped.symm.trans hdropped)

end Service

end EventStore
