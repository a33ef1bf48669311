import EventStore.Proofs.EventSet.History
import EventStore.Proofs.Ingest.Balance
import EventStore.Proofs.Ingest.Draining
import Mathlib.Data.List.Sublists

/-!
# Events are stored in the order of their arrival

Any number of calls add events to the queue, and drains, one after the other, store them. Commits
are refused now and then. As long as none that was refused goes through before the drain at work has
come to its end, the events of an hour are stored in the order in which they were accepted
(`in_order_of_run`); else later ones can overtake (`not_in_order_of_recovered`).
-/

namespace EventStore

namespace Ingest

open Std Operation EventSet

-- ---- calls that add ------------------------------------------------------

/-- What those do that add events: the events come to the end of the queue. -/
def arriving : Bookkeeping Engine Unit where
  Always _ := True
  Moves e _ e' _ := e'.store = e.store ∧ ∃ more, Meanwhile more e e'
  always _ _ := trivial
  refl e _ := ⟨rfl, [], .refl e⟩
  trans := fun ⟨hs, _, h⟩ ⟨hs', _, h'⟩ => ⟨hs'.trans hs, _, h.trans h'⟩

theorem addAll_arrives {events : List Event} (hf : ∀ x ∈ events, x.Fits) :
    (Ingest.addAll events).Keeps arriving () fun _ _ => True := by
  refine .bind (P := fun _ _ => True) (.observe fun _ _ => trivial) ?_
  rintro s - -
  refine .bind (P := fun _ _ => True) (.change fun e _ => ⟨(), ⟨rfl, ?_⟩, trivial⟩) ?_
  · exact ⟨events.filter (accepts s), rfl, fun _ h => h, rfl,
      fun x hx => hf x (List.mem_filter.mp hx).1⟩
  rintro - - -
  refine .bind (P := fun _ _ => True) (.change fun e _ => ⟨(), ⟨rfl, [], ?_⟩, trivial⟩) ?_
  · exact ⟨rfl, fun _ h => h, (List.append_nil _).symm, nofun⟩
  · exact fun _ _ _ => .pure' trivial

theorem Call.activity_arrives {c : Call} (hc : c.drains = false) (hf : ∀ x ∈ c.given, x.Fits) :
    c.activity.Keeps arriving () fun _ _ => True := by
  cases c with
  | add x => exact .bind (addAll_arrives hf) fun _ _ _ => .pure' trivial
  | addAll events => exact addAll_arrives hf
  | drainOnce | drainPending | shutdown => cases hc

-- ---- runs ----------------------------------------------------------------

/-- A moment of a run: the calls that add events, the drain that is under way, and the events that
have been accepted so far, in their order. -/
structure Moment where
  engine : Engine
  adding : List Task
  drain : Option (Activity Engine Nat)
  accepted : List Event

def arrived (e e' : Engine) : List Event := (e'.queue.drop e.queue.length).map Queued.event

/-- A call adds events, or a drain begins when the one before has come to its end; one of them takes
a step; or the store begins or ceases to refuse commits. If refusals are `lasting` they do not cease
while a drain is under way. -/
inductive Moment.Step (lasting : Bool) : Moment → Moment → Prop
  | adds {e ts d xs} (c : Call) (hc : c.drains = false) (hf : ∀ x ∈ c.given, x.Fits) :
    Step lasting ⟨e, ts, d, xs⟩ ⟨e, ts ++ [⟨c, c.activity⟩], d, xs⟩
  | accepts {e e' before after c x y d xs} (h : x.step? e = some (y, e')) :
    Step lasting ⟨e, before ++ ⟨c, x⟩ :: after, d, xs⟩
      ⟨e', before ++ ⟨c, y⟩ :: after, d, xs ++ arrived e e'⟩
  | drains {e ts xs} : Step lasting ⟨e, ts, none, xs⟩ ⟨e, ts, some drainOnce, xs⟩
  | goes {e e' ts x y xs} (h : x.step? e = some (y, e')) :
    Step lasting ⟨e, ts, some x, xs⟩ ⟨e', ts, some y, xs⟩
  | ends {e ts n xs} : Step lasting ⟨e, ts, some (.done n), xs⟩ ⟨e, ts, none, xs⟩
  | around {e e' ts d xs} (h : e.Wavers e') (hl : lasting = true → d.isSome = true →
      ∀ m, e.store.refusesCommit m = true → e'.store.refusesCommit m = true) :
    Step lasting ⟨e, ts, d, xs⟩ ⟨e', ts, d, xs⟩

abbrev Moment.Run (lasting : Bool) : Moment → Moment → Prop :=
  Relation.ReflTransGen (Moment.Step lasting)

/-- Nothing is queued, and the set stands for what is stored. -/
structure Begins (before : HourLogs) (e : Engine) : Prop extends e.Calm where
  holds : EventSet.Holds e before
  able : e.core.store.Able
  queue : e.queue = []

/-- The drain that is under way goes on by the rules. If there is none, nothing is in hand. -/
def GoesOn (before : HourLogs) (e : Engine) (k : Hand) : Option (Activity Engine Nat) → Prop
  | none => Rests before e k ∧ k.IsEmpty
  | some x => x.Abides (solo before) e k fun _ e' k' => Rests before e' k' ∧ k'.IsEmpty

/-- The drain at work and the calls that add keep the events of each hour in line. -/
structure Moment.Orderly (before : HourLogs) (m : Moment) (k : Hand) : Prop where
  calm : m.engine.Calm
  holds : Holds before m.engine k
  adding : ∀ t ∈ m.adding, t.rest.Keeps arriving () fun _ _ => True
  drain : GoesOn before m.engine k m.drain
  line : ∀ hour, (line m.engine k hour).Sublist (ofHour hour m.accepted)

variable {before : HourLogs} {e e' : Engine} {k : Hand} {more : List Event} {m m' : Moment}
  {d : Option (Activity Engine Nat)}

theorem Begins.orderly (h : Begins before e) : Moment.Orderly before ⟨e, [], none, []⟩
    ⟨fun _ => [], fun _ => [], fun _ => [], none⟩ where
  calm := h.toCalm
  holds := by
    refine ⟨fun hour => ?_, fun _ hb => absurd rfl hb, h.queue ▸ .nil, nofun, h.queue ▸ nofun⟩
    rw [List.append_nil]
    exact h.holds.kept hour
  adding := nofun
  drain := by
    refine ⟨⟨?_, h.able⟩, fun _ => rfl, fun _ => rfl⟩
    simp only [List.append_nil]
    exact ⟨h.holds.of_eq h.holds.cache rfl rfl rfl, h.holds.free⟩
  line hour := by simp [Ingest.line, h.queue, ofHour]

theorem arrived_eq (h : Meanwhile more e e') : arrived e e' = more := by
  rw [arrived, h.queue, List.drop_left, List.map_map]
  exact List.map_id _

/-- What happens meanwhile does not disturb a drain. -/
theorem Meanwhile.goesOn (h : Meanwhile more e e') (hd : GoesOn before e k d) :
    GoesOn before e' k d := by
  cases d with
  | none => exact ⟨hd.1.of_core h.core, hd.2⟩
  | some x =>
    refine Activity.Abides.others hd ⟨more, h⟩ ?_
    rintro _ s s' k ⟨hr, hk⟩ ⟨more, h⟩
    exact ⟨hr.of_core h.core, hk⟩

/-- Refusals may cease while no drain is under way. -/
theorem Moment.Orderly.around (h : Orderly before m k) (hw : m.engine.Wavers e')
    (hl : m.drain.isSome = true → ∀ name, m.engine.store.refusesCommit name = true →
      e'.store.refusesCommit name = true) :
    Orderly before { m with engine := e' } k := by
  obtain ⟨e, ts, d, xs⟩ := m
  obtain ⟨hcalm, hholds, hadding, hdrain, hline⟩ := h
  obtain ⟨⟨faults, clock, -, rfl⟩, hf⟩ := hw
  cases d with
  | none =>
    exact ⟨⟨hf, hcalm.unlocked⟩, ⟨hholds.kept, fun hour hb => absurd (hdrain.2.back hour) hb,
      hholds.sorted, hholds.tried, hholds.fits⟩, hadding, ⟨hdrain.1.of_core rfl, hdrain.2⟩, hline⟩
  | some x =>
    have hm : Meanwhile [] e
        { e with store := { e.store with faults := faults }, clock := clock } :=
      ⟨rfl, hl rfl, (List.append_nil _).symm, nofun⟩
    exact ⟨⟨hf, hcalm.unlocked⟩, hm.keeps hholds, hadding, hm.goesOn hdrain, hline⟩

theorem Moment.Orderly.step (h : Orderly before m k) (hs : m.Step true m') :
    ∃ k', Orderly before m' k' := by
  obtain ⟨hcalm, hholds, hadding, hdrain, hline⟩ := h
  cases hs with
  | adds c hc hf =>
    refine ⟨k, hcalm, hholds, ?_, hdrain, hline⟩
    refine List.forall_mem_append.mpr ⟨hadding, fun t ht => ?_⟩
    rw [List.mem_singleton.mp ht]
    exact c.activity_arrives hc hf
  | @accepts e e' before' after c x y d xs hx =>
    obtain ⟨hb, hx', ha⟩ := List.forall_mem_append.mp hadding |>.imp_right List.forall_mem_cons.mp
    obtain ⟨_, ⟨hstore, more, hm⟩, hy⟩ := hx'.step? trivial hx
    have hlocked : e'.core.locked = e.core.locked := congrArg Engine.locked hm.core
    refine ⟨k, ⟨hstore ▸ hcalm.faults, hlocked.trans hcalm.unlocked⟩, hm.keeps hholds,
      List.forall_mem_append.mpr ⟨hb, List.forall_mem_cons.mpr ⟨hy, ha⟩⟩, hm.goesOn hdrain,
      fun hour => ?_⟩
    rw [arrived_eq hm, hm.line_eq, ofHour_append]
    exact (hline hour).append_right _
  | drains => exact ⟨k, hcalm, hholds, hadding, drainOnce_abides hdrain.1 hdrain.2, hline⟩
  | goes hx =>
    obtain ⟨k', hm, hy⟩ := Activity.Abides.step? hdrain hcalm hholds hx
    obtain ⟨hcalm, hholds⟩ := hm.keeps hcalm hholds
    exact ⟨k', hcalm, hholds, hadding, hy, fun hour => (hm.line hour).trans (hline hour)⟩
  | ends => exact ⟨k, hcalm, hholds, hadding, hdrain, hline⟩
  | around hw hl => exact ⟨k, Orderly.around ⟨hcalm, hholds, hadding, hdrain, hline⟩ hw (hl rfl)⟩

/-- If no refused commit goes through before the drain at work has come to its end, the events of
an hour are stored in the order in which they were accepted, and those in the queue after them. -/
theorem in_order_of_run (h : Begins before e) (hr : Moment.Run true ⟨e, [], none, []⟩ m)
    (hour : Hour) : ∃ log, Bucket.Kept hour (before hour ++ log) m.engine.store.entries? ∧
      log.Sublist (ofHour hour m.accepted) ∧ (m.drain = none →
        (log ++ ofHour hour (m.engine.queue.map (·.event))).Sublist (ofHour hour m.accepted)) := by
  obtain ⟨k, hk⟩ : ∃ k, m.Orderly before k := by
    induction hr with
    | refl => exact ⟨_, h.orderly⟩
    | tail _ hs ih =>
      obtain ⟨k, hk⟩ := ih
      exact hk.step hs
  refine ⟨k.stored hour, hk.holds.kept hour, ?_, fun hd => ?_⟩
  · refine List.Sublist.trans ?_ (hk.line hour)
    rw [line, List.append_assoc, List.append_assoc]
    exact List.sublist_append_left ..
  · have hline := hk.line hour
    have hdrain := hk.drain
    rw [hd] at hdrain
    rwa [line, hdrain.2.back, hdrain.2.todo, List.append_nil, List.append_nil] at hline

-- ---- two runs ------------------------------------------------------------

namespace Moment

/-- The first call that adds and can takes a step. -/
def accepts (m : Moment) : Moment :=
  match Scene.advance m.adding m.engine with
  | some (ts, e) => ⟨e, ts, m.drain, m.accepted ++ arrived m.engine e⟩
  | none => m

/-- The drain takes a step, or it ends. -/
def goes (m : Moment) : Moment :=
  match m.drain with
  | none => m
  | some (.done _) => { m with drain := none }
  | some x =>
    match x.step? m.engine with
    | some (y, e) => { m with engine := e, drain := some y }
    | none => m

def arrives (m : Moment) (events : List Event) : Moment :=
  accepts^[3] { m with adding := m.adding ++ [⟨.addAll events, Call.activity _⟩] }

/-- A drain takes so many steps, a new one if none is under way. -/
def drains (m : Moment) (n : Nat) : Moment :=
  goes^[n] { m with drain := some (m.drain.getD drainOnce) }

def refuses (m : Moment) (faults : List Fault) : Moment :=
  { m with engine := { m.engine with store := { m.engine.store with faults := faults } } }

variable {lasting : Bool} {m₀ m : Moment}

theorem run_iterate {f : Moment → Moment} (hf : ∀ m, f m = m ∨ m.Step lasting (f m)) (n : Nat)
    (m : Moment) : Run lasting m (f^[n] m) := by
  induction n generalizing m with
  | zero => exact .refl
  | succ n ih =>
    rcases hf m with he | hs
    · rw [Function.iterate_succ_apply, he]
      exact ih m
    · exact .head hs (ih (f m))

theorem step_accepts (m : Moment) : m.accepts = m ∨ m.Step lasting m.accepts := by
  unfold accepts
  split
  · next ts e h =>
    obtain ⟨before, after, c, x, y, hts, rfl, hx⟩ := Scene.exists_of_advance h
    obtain ⟨e₀, ts₀, d, xs⟩ := m
    subst hts
    exact .inr (.accepts hx)
  · exact .inl rfl

theorem step_goes (m : Moment) : m.goes = m ∨ m.Step lasting m.goes := by
  obtain ⟨e, ts, d, xs⟩ := m
  match d with
  | none => exact .inl rfl
  | some (.done _) => exact .inr .ends
  | some (.step ready act next) =>
    simp only [goes]
    split
    · next h => exact .inr (.goes h)
    · exact .inl rfl
  | some (.loop body start next) => exact .inr (.goes rfl)

theorem Run.arrives (h : Run lasting m₀ m) {events : List Event} (hf : ∀ x ∈ events, x.Fits) :
    Run lasting m₀ (m.arrives events) :=
  (h.tail (.adds (.addAll events) rfl hf)).trans (run_iterate step_accepts 3 _)

theorem Run.drains (h : Run lasting m₀ m) (n : Nat) : Run lasting m₀ (m.drains n) := by
  refine h.trans (.trans ?_ (run_iterate step_goes n _))
  obtain ⟨e, ts, d, xs⟩ := m
  cases d with
  | none => exact .single .drains
  | some x => exact .refl

theorem Run.refuses (h : Run lasting m₀ m) {faults : List Fault}
    (hf : ∀ f ∈ faults, f.kind = .commit) (hl : lasting = true → m.drain.isNone = true) :
    Run lasting m₀ (m.refuses faults) := by
  refine h.tail (.around ⟨⟨faults, m.engine.clock, Nat.le_refl _, rfl⟩, hf⟩ fun h hd => ?_)
  rw [← Option.not_isNone, hl h] at hd
  cases hd

/-- The id and the time of a stored event. -/
def read (p : Bytes × Bytes) : Option (UInt32 × Int) :=
  (Bucket.decode p.1 p.2).toOption.map fun (id, x) => (id, x.millis)

/-- What is stored for an hour. -/
def stored (m : Moment) (hour : Hour) : List (Option (UInt32 × Int)) :=
  ((m.engine.store.entries? hour.eventsMap).getD ∅).toList.map read

end Moment

/-- An engine over an empty store. -/
def opening : Moment := ⟨.fresh .inMemory .standard .standard, [], none, []⟩

theorem begins_opening : Begins (fun _ => []) opening.engine where
  faults := nofun
  unlocked := rfl
  holds := holds_fresh (Query.Cache.sound_new _ _) (fun _ => ExtTreeMap.getElem?_empty) _
  able := ⟨trivial, rfl⟩
  queue := rfl

/-- One event arrives, and a drain stores nothing, because commits are refused. -/
def turnedAway : Moment :=
  (((opening.arrives [Event.new 1709647200000]).refuses [⟨.commit, none⟩]).drains 60)

/-- Then another event of the hour arrives. -/
def bothQueued : Moment := turnedAway.arrives [Event.new 1709647200001]

theorem run_bothQueued {lasting : Bool} : opening.Run lasting bothQueued := by
  have harrived : opening.Run lasting (opening.arrives [Event.new 1709647200000]) :=
    Moment.Run.arrives .refl (by decide +kernel)
  have hrefused : opening.Run lasting
      ((opening.arrives [Event.new 1709647200000]).refuses [⟨.commit, none⟩]) :=
    harrived.refuses (List.forall_mem_singleton.mpr rfl) fun _ => by decide +kernel
  exact (hrefused.drains 60).arrives (by decide +kernel)

/-- Commits are accepted again before the next drain. -/
def recovered : Moment := (bothQueued.refuses []).drains 60

/-- Commits are accepted again while the next drain is at work. -/
def overtaken : Moment := (((bothQueued.drains 5).refuses []).drains 60).drains 60

theorem in_order_of_run_of_recovered : ∃ m log, Begins (fun _ => []) opening.engine ∧
    opening.Run true m ∧ m.drain.isNone = true ∧
    m.stored ⟨474902⟩ = [some (1, 1709647200000), some (2, 1709647200001)] ∧
    Bucket.Kept ⟨474902⟩ ([] ++ log) m.engine.store.entries? ∧
    log.Sublist (ofHour ⟨474902⟩ m.accepted) := by
  have hr : opening.Run true recovered :=
    (run_bothQueued.refuses (List.forall_mem_nil _) fun _ => by decide +kernel).drains 60
  obtain ⟨log, hk, hs, -⟩ := in_order_of_run begins_opening hr ⟨474902⟩
  exact ⟨_, log, begins_opening, hr, by decide +kernel, by decide +kernel, hk, hs⟩

/-- Where refusals do not last as long as a drain is at work, events of an hour that have not been
tried yet overtake those that go back to the queue. -/
theorem not_in_order_of_recovered : ∃ m, Begins (fun _ => []) opening.engine ∧
    opening.Run false m ∧
    m.accepted = [Event.new 1709647200000, Event.new 1709647200001] ∧
    m.stored ⟨474902⟩ = [some (1, 1709647200001), some (2, 1709647200000)] ∧
    ¬∃ log, Bucket.Kept ⟨474902⟩ ([] ++ log) m.engine.store.entries? ∧
      log.Sublist (ofHour ⟨474902⟩ m.accepted) := by
  have hr : opening.Run false overtaken :=
    (((run_bothQueued.drains 5).refuses (List.forall_mem_nil _)
      fun h => absurd h Bool.false_ne_true).drains 60).drains 60
  have ha : overtaken.accepted = [Event.new 1709647200000, Event.new 1709647200001] := by
    decide +kernel
  have hst : overtaken.stored ⟨474902⟩ =
      [some (1, 1709647200001), some (2, 1709647200000)] := by decide +kernel
  refine ⟨_, begins_opening, hr, ha, hst, ?_⟩
  rintro ⟨log, hk, hs⟩
  have hentries := hst.symm.trans
    (congrArg (List.map Moment.read) (hk.entries Bucket.firstHour rfl))
  have hall : ∀ log ∈ (ofHour ⟨474902⟩ overtaken.accepted).sublists,
      [some (1, 1709647200001), some (2, 1709647200000)] ≠
        ((Bucket.firstHour.numbered 0 ([] ++ log)).map Event.entry).map Moment.read := by
    decide +kernel
  exact hall log (List.mem_sublists.mpr hs) hentries

end Ingest

end EventStore
