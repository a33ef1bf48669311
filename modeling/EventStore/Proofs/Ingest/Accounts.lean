import EventStore.Proofs.Ingest.Parts
import EventStore.Proofs.Ingest.Report

/-!
# The accounts of the queue

Each call to the queue keeps an account of the events that it has queued, or taken from the queue.
No step of a call loses an event or makes one: what leaves the queue is held, and what is no longer
held is back in the queue, reported as committed or counted as dropped (`Account.Moves`). In the
end a call holds nothing.
-/

namespace EventStore

namespace Ingest

/-- What a call has done so far. -/
structure Account where
  /-- Events that it has put into the queue. -/
  accepted : Multiset Event
  /-- Events that it has taken from the queue and has not done with. -/
  held : Multiset Event
  /-- Events that have been reported to it as committed. -/
  committed : Multiset Event
  /-- Events that it has counted as dropped. -/
  dropped : Multiset Event
  /-- How many of the committed events are not counted as ingested yet. -/
  uncounted : Nat
  /-- How many of the events given are neither accepted nor counted as filtered yet. -/
  undecided : Nat

namespace Account

/-- Before the first step of a call that was given so many events. -/
def opened (given : Nat) : Account := ⟨0, 0, 0, 0, 0, given⟩

/-- What the call has taken from the queue for good or for now. -/
def taken (a : Account) : Multiset Event := a.held + a.committed + a.dropped

end Account

def waiting (e : Engine) : Multiset Event := bare (e.queue.map Queued.event)

/-- Events go from one account, or from the queue, to the other, and are counted. -/
structure Account.Moves (e : Engine) (a : Account) (e' : Engine) (a' : Account) : Prop where
  settings : e'.settings = e.settings
  accepted : ∃ new : Multiset Event, a'.accepted = a.accepted + new ∧
    waiting e' + a'.taken = waiting e + a.taken + new ∧
    e'.filtered + a'.undecided + new.card = e.filtered + a.undecided
  committed : ∃ new : Multiset Event, a'.committed = a.committed + new ∧
    e'.ingested + a'.uncounted = e.ingested + a.uncounted + new.card
  dropped : ∃ new : Multiset Event, a'.dropped = a.dropped + new ∧
    e'.dropped = e.dropped + new.card

namespace Account

variable {e e' e'' : Engine} {a a' a'' : Account}

theorem Moves.refl (e : Engine) (a : Account) : Moves e a e a :=
  ⟨rfl, ⟨0, by simp⟩, ⟨0, by simp⟩, ⟨0, by simp⟩⟩

theorem Moves.trans (h : Moves e a e' a') (h' : Moves e' a' e'' a'') : Moves e a e'' a'' := by
  obtain ⟨x, hx, hw, hf⟩ := h.accepted
  obtain ⟨y, hy, hw', hf'⟩ := h'.accepted
  obtain ⟨c, hc, hi⟩ := h.committed
  obtain ⟨c', hc', hi'⟩ := h'.committed
  obtain ⟨d, hd, hn⟩ := h.dropped
  obtain ⟨d', hd', hn'⟩ := h'.dropped
  refine ⟨h'.settings.trans h.settings, ⟨x + y, ?_, ?_, ?_⟩, ⟨c + c', ?_, ?_⟩, ⟨d + d', ?_, ?_⟩⟩
  · rw [hy, hx, add_assoc]
  · rw [hw', hw, add_assoc]
  · rw [Multiset.card_add]
    omega
  · rw [hc', hc, add_assoc]
  · rw [Multiset.card_add]
    omega
  · rw [hd', hd, add_assoc]
  · rw [Multiset.card_add]
    omega

theorem moves_of_intake (h : e'.intake = e.intake) (a : Account) : Moves e a e' a := by
  simp only [Engine.intake, Intake.mk.injEq] at h
  obtain ⟨hs, hq, hn, hf, hd⟩ := h
  exact ⟨hs, ⟨0, by simp [waiting, hq, hf]⟩, ⟨0, by simp [hn]⟩, ⟨0, by simp [hd]⟩⟩

variable {n : Nat} {rest : Multiset Event}

theorem moves_accepts (e : Engine) (events : List Event) (h : a.undecided = n + events.length) :
    Moves e a { e with queue := e.queue ++ events.map (⟨·, 0⟩) }
      { a with accepted := a.accepted + bare events, undecided := n } := by
  refine ⟨rfl, ⟨bare events, rfl, ?_, ?_⟩, ⟨0, by simp⟩, ⟨0, by simp⟩⟩
  · simp only [waiting, taken, List.map_append, List.map_map, Function.comp_def, List.map_id',
      bare_append]
    ac_rfl
  · rw [card_bare]
    simp only
    omega

theorem moves_filters {m : Nat} (e : Engine) (h : a.undecided = n + m) :
    Moves e a { e with filtered := e.filtered + m } { a with undecided := n } := by
  refine ⟨rfl, ⟨0, (add_zero _).symm, (add_zero _).symm, ?_⟩, ⟨0, by simp⟩, ⟨0, by simp⟩⟩
  simp only [Multiset.card_zero]
  omega

theorem moves_takes (e : Engine) (a : Account) (n : Nat) :
    Moves e a { e with queue := e.queue.drop n }
      { a with held := a.held + bare ((e.queue.take n).map Queued.event) } := by
  refine ⟨rfl, ⟨0, (add_zero _).symm, ?_, rfl⟩, ⟨0, by simp⟩, ⟨0, by simp⟩⟩
  have hq : bare (e.queue.map Queued.event) = bare ((e.queue.take n).map Queued.event) +
      bare ((e.queue.drop n).map Queued.event) := by
    rw [← bare_append, ← List.map_append, List.take_append_drop]
  simp only [waiting, taken, hq, add_zero]
  ac_rfl

theorem moves_returns (e : Engine) {batch : List Queued}
    (h : a.held = rest + bare (batch.map Queued.event)) :
    Moves e a { e with queue := batch ++ e.queue } { a with held := rest } := by
  refine ⟨rfl, ⟨0, (add_zero _).symm, ?_, rfl⟩, ⟨0, by simp⟩, ⟨0, by simp⟩⟩
  simp only [waiting, taken, h, List.map_append, bare_append, add_zero]
  ac_rfl

theorem moves_drops (e : Engine) {lost : Multiset Event} (h : a.held = rest + lost) :
    Moves e a { e with dropped := e.dropped + lost.card }
      { a with held := rest, dropped := a.dropped + lost } := by
  refine ⟨rfl, ⟨0, (add_zero _).symm, ?_, rfl⟩, ⟨0, by simp⟩, ⟨lost, rfl, rfl⟩⟩
  simp only [waiting, taken, h]
  ac_rfl

theorem moves_commits (e : Engine) {done : Multiset Event} (h : a.held = rest + done) :
    Moves e a e { a with held := rest, committed := a.committed + done,
                         uncounted := a.uncounted + done.card } := by
  refine ⟨rfl, ⟨0, (add_zero _).symm, ?_, rfl⟩, ⟨done, rfl, ?_⟩, ⟨0, by simp⟩⟩
  · simp only [taken, h]
    ac_rfl
  · rw [add_assoc]

theorem moves_counts (e : Engine) (h : a.uncounted = n) :
    Moves e a { e with ingested := e.ingested + n } { a with uncounted := 0 } :=
  ⟨rfl, ⟨0, by simp [waiting, taken]⟩, ⟨0, by simp [h]⟩, ⟨0, by simp⟩⟩

end Account

/-- The books of calls that add events, which take nothing from the queue. -/
def adding (settings : Config.EngineSection) : Bookkeeping Engine Account where
  Always e := e.settings = settings
  Moves e a e' a' := Account.Moves e a e' a' ∧
    a'.held = a.held ∧ a'.committed = a.committed ∧ a'.dropped = a.dropped ∧
      a'.uncounted = a.uncounted
  always h hs := h.1.settings.trans hs
  refl e a := ⟨.refl e a, rfl, rfl, rfl, rfl⟩
  trans := by
    rintro e e' e'' a a' a'' ⟨h, hh, hc, hd, hu⟩ ⟨h', hh', hc', hd', hu'⟩
    exact ⟨h.trans h', hh'.trans hh, hc'.trans hc, hd'.trans hd, hu'.trans hu⟩

/-- The books of drains, which accept nothing. -/
def draining (settings : Config.EngineSection) : Bookkeeping Engine Account where
  Always e := e.settings = settings
  Moves e a e' a' := Account.Moves e a e' a' ∧
    a'.accepted = a.accepted ∧ a'.undecided = a.undecided
  always h hs := h.1.settings.trans hs
  refl e a := ⟨.refl e a, rfl, rfl⟩
  trans := by
    rintro e e' e'' a a' a'' ⟨h, ha, hu⟩ ⟨h', ha', hu'⟩
    exact ⟨h.trans h', ha'.trans ha, hu'.trans hu⟩

variable {S : Config.EngineSection}

-- ---- adding --------------------------------------------------------------

/-- Exactly the events that pass are queued, and the others are counted as filtered. -/
theorem addAll_keeps (S : Config.EngineSection) (events : List Event) :
    (addAll events).Keeps (adding S) (.opened events.length) fun n a =>
      a.accepted = bare (events.filter (accepts S)) ∧ n = a.accepted.card ∧ a.undecided = 0 := by
  refine .bind (P := fun s a => S = s ∧ a = .opened events.length)
    (.observe fun e he => ⟨he.symm, rfl⟩) ?_
  rintro _ _ ⟨rfl, rfl⟩
  dsimp only
  have hle := List.length_filter_le (accepts S) events
  generalize events.filter (accepts S) = accepted at hle ⊢
  refine .bind (P := fun _ a =>
    a = ⟨bare accepted, 0, 0, 0, 0, events.length - accepted.length⟩) (.change fun e _ => ?_) ?_
  · have hm := Account.moves_accepts (a := .opened events.length) e accepted
      (Nat.sub_add_cancel hle).symm
    exact ⟨⟨bare accepted, 0, 0, 0, 0, _⟩, ⟨hm, rfl, rfl, rfl, rfl⟩, rfl⟩
  rintro - _ rfl
  refine .bind (P := fun _ a => a = ⟨bare accepted, 0, 0, 0, 0, 0⟩) (.change fun e _ => ?_) ?_
  · exact ⟨⟨bare accepted, 0, 0, 0, 0, 0⟩,
      ⟨Account.moves_filters e (Nat.zero_add _).symm, rfl, rfl, rfl, rfl⟩, rfl⟩
  rintro - _ rfl
  exact .pure' ⟨rfl, (card_bare _).symm, rfl⟩

theorem add_keeps (S : Config.EngineSection) (x : Event) :
    (add x).Keeps (adding S) (.opened 1) fun taken a =>
      a.accepted = bare ([x].filter (accepts S)) ∧ taken = accepts S x ∧ a.undecided = 0 := by
  refine .bind (addAll_keeps S [x]) ?_
  rintro n a ⟨ha, rfl, hu⟩
  refine .pure' ⟨ha, ?_, hu⟩
  rw [ha, card_bare]
  cases hx : accepts S x <;> simp [hx]

-- ---- draining ------------------------------------------------------------

theorem moves_of_works {e e' : Engine} (h : e.Works e') (a : Account) :
    (draining S).Moves e a e' a :=
  ⟨Account.moves_of_intake h.intake a, rfl, rfl⟩

theorem keeps_of_works {x : Activity Engine α} {Q : α → Prop} (h : x.WorksTo Q) (a : Account) :
    x.Keeps (draining S) a fun r a' => Q r ∧ a' = a :=
  (h.transfer a (fun _ _ => trivial) fun hw => moves_of_works hw a).mono
    fun _ _ ⟨ha, _, hq⟩ => ⟨hq, ha⟩

/-- The drain has still to do with `todo`, and what it has done so far comes on top of `before`
committed events. -/
structure Holding (before : Nat) (todo : Multiset Event) (d : Drained) (a : Account) : Prop where
  held : a.held = todo + bare (d.requeue.map Queued.event)
  uncounted : a.uncounted = d.committed
  committed : a.committed.card = before + d.committed

/-- The drain holds nothing, and all that it has committed are `before` events. -/
abbrev Idle (before : Nat) (a : Account) : Prop := Holding before 0 ⟨0, []⟩ a

theorem countDropped_keeps {n before : Nat} {todo lost : Multiset Event} {d : Drained} {a : Account}
    (h : Holding before (todo + lost) d a) (hl : lost.card = n) :
    (countDropped n).Keeps (draining S) a fun _ a' => Holding before todo d a' := by
  subst hl
  refine .change fun e _ => ⟨_, ⟨Account.moves_drops e ?_, rfl, rfl⟩, rfl, h.uncounted, h.committed⟩
  rw [h.held, add_right_comm]

/-- A report says which of the events that the drain holds are committed now. -/
theorem reported {before : Nat} {todo events : Multiset Event} {d : Drained} {a : Account}
    {r : EventSet.Report} (h : Holding before (todo + events) d a) (hr : r.Covers events) :
    ∃ (lost : Multiset Event) (a' : Account), lost.card = r.discarded ∧
      (∀ e, (draining S).Moves e a e a') ∧
      Holding before (todo + bare r.retry + lost)
        { d with committed := d.committed + r.committed.length } a' := by
  obtain ⟨lost, hl, rfl⟩ := hr
  have hheld : a.held = todo + bare r.retry + lost + bare (d.requeue.map Queued.event) +
      bare r.committed := by
    rw [h.held]
    ac_rfl
  refine ⟨lost, _, hl, fun e => ⟨Account.moves_commits e hheld, rfl, rfl⟩, rfl, ?_, ?_⟩
  · simp only [h.uncounted, card_bare]
  · simp only [Multiset.card_add, card_bare, h.committed, add_assoc]

theorem tryAgain_keeps {before attempts : Nat} {todo : Multiset Event} {d : Drained}
    {retry : List Event} {a : Account} (h : Holding before (todo + bare retry) d a) :
    (tryAgain d attempts retry).Keeps (draining S) a fun d' a' => Holding before todo d' a' := by
  unfold tryAgain
  split
  · next he =>
    rw [List.isEmpty_iff.mp he, bare_nil, add_zero] at h
    exact .pure' h
  refine .bind (P := fun _ a' => a' = a) (.observe fun _ _ => rfl) ?_
  rintro s _ rfl
  split
  · exact .bind (countDropped_keeps h (card_bare _)) fun _ _ h => .pure' h
  · refine .pure' ⟨?_, h.uncounted, h.committed⟩
    rw [h.held, List.map_append, bare_append, List.map_map, Function.comp_def, List.map_id']
    ac_rfl

theorem drainGroup_keeps {before attempts : Nat} {todo : Multiset Event} {d : Drained}
    {events : List Event} {a : Account} (h : Holding before (todo + bare events) d a) :
    (drainGroup d attempts events).Keeps (draining S) a fun d' a' => Holding before todo d' a' := by
  rw [drainGroup_eq]
  refine .bind (P := fun r a' => ∃ lost : Multiset Event, lost.card = r.discarded ∧
      Holding before (todo + bare r.retry + lost)
        { d with committed := d.committed + r.committed.length } a')
    (.finish (keeps_of_works (EventSet.addAll_covers events) a) ?_) ?_
  · rintro r _ ⟨hr, rfl⟩
    obtain ⟨lost, a', hl, hm, ha'⟩ := reported h hr
    exact ⟨a', hm, lost, hl, ha'⟩
  rintro r a ⟨lost, hl, h⟩
  unfold reckon
  dsimp only
  split
  · exact .bind (countDropped_keeps h hl) fun _ _ h => tryAgain_keeps h
  · next hd =>
    rw [Multiset.card_eq_zero.mp (by omega : lost.card = 0), add_zero] at h
    exact tryAgain_keeps h

theorem takeBatch_keeps {before : Nat} {a : Account} (h : Idle before a) :
    takeBatch.Keeps (draining S) a fun batch a' =>
      Holding before (bare (batch.map Queued.event)) ⟨0, []⟩ a' := by
  refine .atomically fun e _ => ?_
  refine ⟨_, ⟨Account.moves_takes e a (max 1 e.settings.batchSize), rfl, rfl⟩, ?_, h.uncounted,
    h.committed⟩
  simp [h.held]

theorem putBack_keeps {before : Nat} {d : Drained} {a : Account} (h : Holding before 0 d a) :
    (putBack d.requeue).Keeps (draining S) a fun _ a' =>
      Holding before 0 { d with requeue := [] } a' :=
  .change fun e _ => ⟨_, ⟨Account.moves_returns e h.held, rfl, rfl⟩, (add_zero _).symm,
    h.uncounted, h.committed⟩

theorem countIngested_keeps {n before : Nat} {a : Account} (h : Holding before 0 ⟨n, []⟩ a) :
    (countIngested n).Keeps (draining S) a fun _ a' => Idle (before + n) a' :=
  .change fun e _ => ⟨_, ⟨Account.moves_counts e h.uncounted, rfl, rfl⟩, h.held, rfl, h.committed⟩

theorem bare_byAttempts (batch : List Queued) :
    ((byAttempts batch).map fun g => bare g.2).sum = bare (batch.map Queued.event) := by
  generalize hs : Std.ExtTreeSet.ofList (batch.map Queued.attempts) compare = attempts
  have hkeys := bare_sum_of_keys Queued.event (fun q => some q.attempts) batch
    (List.nodup_reverse.mpr (nodup_toList attempts))
  simp only [Option.some_beq_some] at hkeys
  rw [byAttempts, hs, List.map_map]
  refine hkeys.trans ?_
  rw [List.filter_eq_self.mpr fun q hq => ?_]
  have hmem : q.attempts ∈ attempts := by
    rw [← hs, Std.ExtTreeSet.mem_ofList]
    exact List.contains_iff_mem.mpr (List.mem_map_of_mem hq)
  simpa using hmem

theorem forall_mem_byAttempts {P : Event → Prop} {batch : List Queued}
    (hf : ∀ q ∈ batch, P q.event) : ∀ g ∈ byAttempts batch, ∀ x ∈ g.2, P x := by
  intro g hg x hx
  obtain ⟨n, -, rfl⟩ := List.mem_map.mp hg
  obtain ⟨q, hq, rfl⟩ := List.mem_map.mp hx
  exact hf q (List.mem_filter.mp hq).1

theorem drainOnce_keeps {before : Nat} {a : Account} (h : Idle before a) :
    drainOnce.Keeps (draining S) a fun n a' => Idle (before + n) a' := by
  rw [drainOnce_eq]
  refine .bind (takeBatch_keeps h) fun batch a h => ?_
  unfold drainBatch
  split
  · next he =>
    rw [List.isEmpty_iff.mp he, List.map_nil, bare_nil] at h
    exact .pure' h
  refine .bind (P := fun d a' => Holding before 0 d a') ?_ fun d a h => ?_
  · -- What the groups still to come contain is held all the time.
    refine (Activity.Keeps.foldlM
      (fun gs d a' => Holding before (gs.map fun g => bare g.2).sum d a') ?_ ?_).mono
      fun d a' h => h
    · rw [bare_byAttempts]
      exact h
    · rintro ⟨n, events⟩ gs d a h
      rw [List.map_cons, List.sum_cons, add_comm] at h
      exact drainGroup_keeps h
  unfold finish
  split
  · exact .bind (putBack_keeps h) fun _ _ h => .bind (countIngested_keeps h) fun _ _ h => .pure' h
  · next he =>
    obtain ⟨n, requeue⟩ := d
    obtain rfl : requeue = [] := by simpa using he
    exact .bind (countIngested_keeps h) fun _ _ h => .pure' h

theorem drainPending_keeps {before : Nat} {a : Account} (h : Idle before a) :
    drainPending.Keeps (draining S) a fun n a' => Idle (before + n) a' := by
  refine .goRound (fun n a' => Idle (before + n) a') h fun n a h => ?_
  refine .bind (P := fun _ a' => a' = a) (.observe fun _ _ => rfl) ?_
  rintro depth _ rfl
  split
  · exact .pure' h
  · refine .bind (drainOnce_keeps h) fun m a' h' => .pure' ?_
    rwa [add_assoc] at h'

theorem shutdown_keeps {before : Nat} {a : Account} (h : Idle before a) :
    shutdown.Keeps (draining S) a fun n a' => Idle (before + n) a' := by
  refine .bind (P := fun _ a' => a' = a)
    (.change fun e _ => ⟨a, ⟨?_, rfl, rfl⟩, rfl⟩) ?_
  · refine Account.moves_of_intake ?_ a
    rfl
  rintro - _ rfl
  exact drainPending_keeps h

end Ingest

end EventStore
