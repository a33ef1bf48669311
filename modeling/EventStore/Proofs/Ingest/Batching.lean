import EventStore.Proofs.EventSet.Accrual
import EventStore.Proofs.EventSet.Overlooking
import EventStore.Proofs.Ingest.HandOvers
import EventStore.Proofs.Ingest.Order

/-!
# It does not matter how events are batched

Over a store that refuses no calls each drain stores what it takes from the queue, whatever is
queued meanwhile (`Due.trails`). So once the queue has been emptied there is the same of each hour
as if the events had been added to the set one after the other (`batching_invisible`), however they
were spread over calls, and however many of them each drain took.
-/

namespace EventStore

namespace Ingest

open Std EventSet

variable {e e' u t : Engine} {before : HourLogs} {done events : List Event} {rounds : Nat}

/-- Events come to the hours in which they lie. -/
abbrev Gathers (e : Engine) (before : HourLogs) (done : List Event) (e' : Engine) : Prop :=
  Accrues e before (fun hour => ofHour hour done) e'

theorem Gathers.congr (h : Gathers e before done u)
    (hsame : ∀ hour, ofHour hour events = ofHour hour done) : Gathers e before events u := by
  have hlogs : (fun hour => ofHour hour events) = fun hour => ofHour hour done := funext hsame
  rw [Gathers, hlogs]
  exact h

/-- No hour comes to have more events than there are ids. -/
def HasRoom (before : HourLogs) (events : List Event) : Prop :=
  ∀ hour, (before hour).length + (ofHour hour events).length < 4294967296

theorem HasRoom.mono (h : HasRoom before events) (hp : done <+: events) :
    HasRoom before done := by
  obtain ⟨more, rfl⟩ := hp
  intro hour
  have := h hour
  rw [ofHour_append, List.length_append] at this
  omega

-- ---- events of one hour --------------------------------------------------

theorem put_ofHour {hour : Hour} (done : List Event) (hin : ∀ x ∈ events, x.hour? = some hour) :
    HourLogs.put (fun h => ofHour h done) hour (ofHour hour done ++ events) =
      fun h => ofHour h (done ++ events) := by
  funext h
  rw [put_apply, ofHour_append]
  split
  · next hh => rw [hh, ofHour_eq_self hin]
  · next hh => rw [ofHour_eq_nil hh hin, List.append_nil]

theorem Gathers.exists_addIn {hour : Hour} (h : Gathers e before done u) (hn : events ≠ [])
    (hin : ∀ x ∈ events, x.hour? = some hour ∧ x.Fits) (hroom : HasRoom before (done ++ events))
    (rounds : Nat) :
    ∃ b v stored e', (getOrCreate hour).result rounds u = some (.ok b, v) ∧
      (b.addAll events).result rounds v = some (.ok stored, e') ∧
      stored.length = events.length ∧ Gathers e before (done ++ events) e' := by
  have hhour : ∀ x ∈ events, x.hour? = some hour := fun x hx => (hin x hx).1
  have hroom := hroom hour
  rw [ofHour_append, ofHour_eq_self hhour, List.length_append] at hroom
  have hroom : (before hour ++ ofHour hour done).length + events.length < 4294967296 := by
    rw [List.length_append]
    omega
  have := Accrues.exists_addIn h hn hin hroom rounds
  rwa [put_ofHour done hhour] at this

-- ---- one at a time -------------------------------------------------------

/-- Adds events one after the other, whatever comes of each. -/
def addEach (events : List Event) : Activity Engine (List (Except EngineError Event)) :=
  events.mapM fun x => (EventSet.add x).run

theorem Gathers.exists_add (h : Gathers e before done u) {x : Event} (hf : x.Fits)
    (hroom : HasRoom before (done ++ [x])) (rounds : Nat) :
    ∃ r e', (EventSet.add x).result rounds u = some (r, e') ∧ r.isOk = Routed x ∧
      Gathers e before (done ++ [x]) e' := by
  cases hh : x.hour? with
  | none =>
    have hroute : route x = .error (.invalidTimestamp x.millis) := by rw [route, hh]
    refine ⟨.error (.invalidTimestamp x.millis), u, ?_, ?_, ?_⟩
    · rw [EventSet.add, hroute]
      rfl
    · simp [Routed, hh, Except.isOk, Except.toBool]
    · have hnone (hour : Hour) : ofHour hour [x] = [] := by simp [ofHour, hh]
      exact h.congr fun hour => by rw [ofHour_append, hnone, List.append_nil]
  | some hour =>
    have hroute : route x = .ok hour := by rw [route, hh]
    obtain ⟨b, v, stored, e', hget, hadd, hlen, h'⟩ := h.exists_addIn (List.cons_ne_nil x [])
      (by simpa using ⟨hh, hf⟩) hroom rounds
    obtain ⟨y, rfl⟩ : ∃ y, stored = [y] := List.length_eq_one_iff.mp hlen
    refine ⟨.ok y, e', ?_, ?_, h'⟩
    · rw [EventSet.add, hroute]
      show Operation.result rounds (getOrCreate hour >>= fun b => b.add x) u = _
      rw [Operation.result_bind, hget]
      show (b.add x).result rounds v = _
      rw [Bucket.add, Operation.result_bind, hadd]
      rfl
    · simp [Routed, hh, Except.isOk, Except.toBool]

theorem Gathers.exists_addEach (h : Gathers e before done u) (hf : ∀ x ∈ events, x.Fits)
    (hroom : HasRoom before (done ++ events)) (rounds : Nat) :
    ∃ answers e', (addEach events).run rounds u = some (answers, e') ∧
      answers.map Except.isOk = events.map Routed ∧ Gathers e before (done ++ events) e' := by
  induction events generalizing done u with
  | nil => exact ⟨[], u, rfl, rfl, (List.append_nil done).symm ▸ h⟩
  | cons x events ih =>
    obtain ⟨hx, hevents⟩ := List.forall_mem_cons.mp hf
    rw [List.append_cons] at hroom ⊢
    obtain ⟨r, v, hadd, hr, hv⟩ := h.exists_add hx (hroom.mono (List.prefix_append ..)) rounds
    obtain ⟨answers, e', hrun, hans, h'⟩ := ih hv hevents hroom
    refine ⟨r :: answers, e', ?_, by rw [List.map_cons, hr, hans, List.map_cons], h'⟩
    rw [addEach, List.mapM_cons]
    exact Activity.run_of_bind hadd (Activity.run_of_bind hrun rfl)

-- ---- a batch -------------------------------------------------------------

theorem Gathers.exists_addGroup {hour : Hour} (h : Gathers e before done u) (hn : events ≠ [])
    (hin : ∀ x ∈ events, x.hour? = some hour ∧ x.Fits) (hroom : HasRoom before (done ++ events))
    (r : Report) (rounds : Nat) :
    ∃ r' e', (addGroup r hour events).run rounds u = some (r', e') ∧ r'.retry = r.retry ∧
      Gathers e before (done ++ events) e' := by
  obtain ⟨b, v, stored, e', hget, hadd, -, h'⟩ := h.exists_addIn hn hin hroom rounds
  have hop : Operation.result rounds (do (← getOrCreate hour).addAll events) u =
      some (.ok stored, e') := by
    rw [Operation.result_bind, hget]
    exact hadd
  exact ⟨_, e', Activity.run_of_bind hop rfl, rfl, h'⟩

theorem Gathers.exists_addGroups (h : Gathers e before done u) {gs : List (Hour × List Event)}
    (hg : AreGroups gs) (hroom : HasRoom before (done ++ gs.flatMap Prod.snd)) (r : Report)
    (rounds : Nat) :
    ∃ r' e', (gs.foldlM (fun r (hour, group) => addGroup r hour group) r).run rounds u =
        some (r', e') ∧ r'.retry = r.retry ∧ Gathers e before (done ++ gs.flatMap Prod.snd) e' := by
  induction gs generalizing done u r with
  | nil => exact ⟨r, u, rfl, rfl, by simpa using h⟩
  | cons g gs ih =>
    obtain ⟨hour, group⟩ := g
    obtain ⟨⟨hn, hin⟩, hgs⟩ := List.forall_mem_cons.mp hg
    rw [List.flatMap_cons, ← List.append_assoc] at hroom ⊢
    obtain ⟨r₁, v, hadd, hr, hv⟩ := h.exists_addGroup hn hin
      (hroom.mono (List.prefix_append ..)) r rounds
    obtain ⟨r', e', hrun, hr', h'⟩ := ih hv hgs hroom r₁
    refine ⟨r', e', ?_, hr'.trans hr, h'⟩
    rw [List.foldlM_cons]
    exact Activity.run_of_bind hadd hrun

/-- All events are added that have an hour, and none is to be tried again. -/
theorem Gathers.exists_addAll (h : Gathers e before done u) (hf : ∀ x ∈ events, x.Fits)
    (hroom : HasRoom before (done ++ events)) (rounds : Nat) :
    ∃ r e', (EventSet.addAll events).run rounds u = some (r, e') ∧ r.retry = [] ∧
      Gathers e before (done ++ events) e' := by
  have hsame (hour : Hour) : ofHour hour (done ++ events) =
      ofHour hour (done ++ (groups events).flatMap Prod.snd) := by
    rw [ofHour_append, ofHour_append, ofHour_groups]
  obtain ⟨r, e', hrun, hr, h'⟩ := h.exists_addGroups (areGroups_groups hf)
    (fun hour => by rw [← hsame]; exact hroom hour) (unrouted events) rounds
  exact ⟨r, e', hrun, hr, h'.congr hsame⟩

-- ---- a drain -------------------------------------------------------------

/-- Events that have not been tried yet are handed over together. -/
theorem byAttempts_of_untried {batch : List Queued} (hn : batch ≠ [])
    (h : ∀ q ∈ batch, q.attempts = 0) : byAttempts batch = [(0, batch.map Queued.event)] := by
  have hzero : ∀ n, n ∈ (ExtTreeSet.ofList (batch.map Queued.attempts) compare).toList ↔ n = 0 := by
    intro n
    rw [ExtTreeSet.mem_toList, ExtTreeSet.mem_ofList]
    simp only [List.contains_iff_mem, List.mem_map]
    constructor
    · rintro ⟨q, hq, rfl⟩
      exact h q hq
    · rintro rfl
      obtain ⟨q, rest, rfl⟩ := List.exists_cons_of_ne_nil hn
      exact ⟨q, List.mem_cons_self, h q List.mem_cons_self⟩
  have hlist : (ExtTreeSet.ofList (batch.map Queued.attempts) compare).toList = [0] :=
    List.perm_singleton.mp ((List.perm_ext_iff_of_nodup (nodup_toList _) (by simp)).mpr
      (by simpa using hzero))
  have hall : batch.filter (·.attempts == 0) = batch :=
    List.filter_eq_self.mpr fun q hq => by simp [h q hq]
  rw [byAttempts, hlist]
  simp [hall]

theorem exists_reckon {r : Report} (hr : r.retry = []) (d : Drained) (attempts : Nat) (u : Engine)
    (rounds : Nat) : ∃ m, (reckon d attempts r).run rounds u =
      some ({ d with committed := d.committed + r.committed.length }, { u with dropped := m }) := by
  unfold reckon
  rw [hr]
  by_cases hd : 0 < r.discarded
  · rw [if_pos hd]
    exact ⟨u.dropped + r.discarded, rfl⟩
  · rw [if_neg hd]
    exact ⟨u.dropped, rfl⟩

theorem Gathers.exists_drainBatch (h : Gathers e before done u) {batch : List Queued}
    (hb : ∀ q ∈ batch, q.attempts = 0 ∧ q.event.Fits)
    (hroom : HasRoom before (done ++ batch.map Queued.event)) (rounds : Nat) :
    ∃ n e', (drainBatch batch).run rounds u = some (n, e') ∧ e'.queue = u.queue ∧
      Gathers e before (done ++ batch.map Queued.event) e' := by
  by_cases hn : batch = []
  · subst hn
    exact ⟨0, u, rfl, rfl, by simpa using h⟩
  obtain ⟨r, v, hrun, hr, hv⟩ :=
    h.exists_addAll (List.forall_mem_map.mpr fun q hq => (hb q hq).2) hroom rounds
  have hqueue : v.queue = u.queue :=
    congrArg Intake.queue (intake_of_addAll (Activity.ends_of_run Engine.Shaken.refl hrun))
  obtain ⟨m, hreckon⟩ := exists_reckon hr ⟨0, []⟩ 0 v rounds
  have hgroups : Activity.run rounds ((byAttempts batch).foldlM
      (fun d g => drainGroup d g.1 g.2) ⟨0, []⟩) u =
        some (⟨0 + r.committed.length, []⟩, { v with dropped := m }) := by
    rw [byAttempts_of_untried hn fun q hq => (hb q hq).1, List.foldlM_cons]
    exact Activity.run_of_bind (Activity.run_of_bind hrun hreckon) rfl
  refine ⟨0 + r.committed.length,
    { v with dropped := m, ingested := v.ingested + (0 + r.committed.length) },
    ?_, hqueue, hv.of_eq rfl rfl rfl rfl rfl rfl⟩
  rw [drainBatch, if_neg (by simpa using hn)]
  exact Activity.run_of_bind hgroups rfl

-- ---- among calls that add ------------------------------------------------

/-- More has been queued behind what the queue held, and the buckets and the store are as they
were. -/
structure Trails (more : List Queued) (u e : Engine) : Prop where
  eq : e = u.amid e.surroundings
  cache : e.cache = u.cache
  queue : e.queue = u.queue ++ more

variable {more more' left : List Queued}

theorem Trails.of_core (hc : e.core = u.core) (hs : e.store = u.store)
    (hq : e.queue = u.queue ++ more) : Trails more u e := by
  refine ⟨?_, ?_, hq⟩
  · have : ({ e.core with store := e.store } : Engine).amid e.surroundings =
        ({ u.core with store := e.store } : Engine).amid e.surroundings := by rw [hc]
    rw [hs] at this
    have he : e = ({ e.core with store := u.store } : Engine).amid e.surroundings := by
      rw [← hs]
      rfl
    exact he.trans this
  · have : e.core.cache = u.core.cache := by rw [hc]
    exact this

theorem Trails.trans (h : Trails more u t) (h' : Trails more' t e) :
    Trails (more ++ more') u e where
  eq := by
    rw [h'.eq, h.eq]
    rfl
  cache := h'.cache.trans h.cache
  queue := by rw [h'.queue, h.queue, List.append_assoc]

theorem Trails.gathers (h : Trails more t u) (hg : Gathers e before done t) :
    Gathers e before done u := by
  rw [h.eq]
  exact hg.of_eq h.cache rfl rfl rfl rfl rfl

theorem circumstantial_trails (more : List Queued) : Engine.Circumstantial (Trails more) where
  eq h := h.eq
  amid {e e' u} h hs := by
    have hcache : u.cache = e.cache := congrArg Engine.Surroundings.cache hs
    have hqueue : u.queue = e.queue := congrArg Engine.Surroundings.queue hs
    exact ⟨rfl, h.cache.trans hcache.symm, hqueue ▸ h.queue⟩

theorem change_respects {f : Engine → Engine} (hf : ∀ u, f u = u.amid (f u).surroundings)
    (hc : ∀ u, (f u).cache = u.cache)
    (hq : ∀ u e, e.queue = u.queue ++ more → (f e).queue = (f u).queue ++ more) :
    (Activity.change f).Respects (Trails more) := by
  refine ⟨fun u e h => ⟨rfl, rfl, ?_, ?_, hq u e h.queue⟩, fun _ => trivial⟩
  · calc
      f e = e.amid (f e).surroundings := hf e
      _ = (u.amid e.surroundings).amid (f e).surroundings :=
        congrArg (·.amid (f e).surroundings) h.eq
      _ = (f u).amid (f e).surroundings := congrArg (·.amid (f e).surroundings) (hf u).symm
  · exact (hc e).trans (h.cache.trans (hc u).symm)

theorem drainBatch_respects (batch : List Queued) (more : List Queued) :
    (drainBatch batch).Respects (Trails more) := by
  refine respects_drainBatch (circumstantial_trails more)
    (fun _ => change_respects (fun _ => rfl) (fun _ => rfl) fun _ _ h => h)
    (fun back => change_respects (fun _ => rfl) (fun _ => rfl) fun u e h => ?_)
    (fun _ => change_respects (fun _ => rfl) (fun _ => rfl) fun _ _ h => h) batch
  show back ++ e.queue = back ++ u.queue ++ more
  rw [h, List.append_assoc]

-- ---- runs ----------------------------------------------------------------

/-- What is due if nothing disturbs the drain at work: that these events are stored, and that these
are left in the queue. -/
inductive Due (e₀ : Engine) (before : HourLogs) (done : List Event) :
    Option (Activity Engine Nat) → Engine → List Queued → Prop
  | rests {e : Engine} (h : Gathers e₀ before done e) : Due e₀ before done none e e.queue
  | begins {e : Engine} (h : Gathers e₀ before done e) :
    Due e₀ before done (some drainOnce) e e.queue
  | goes {x : Activity Engine Nat} {n : Nat} {u t e : Engine} {more : List Queued}
    (hx : ∀ more, x.Respects (Trails more)) (hr : x.run 0 u = some (n, t)) (ht : Trails more u e)
    (h : Gathers e₀ before done t) : Due e₀ before done (some x) e (t.queue ++ more)

variable {e₀ : Engine} {d : Option (Activity Engine Nat)} {x y : Activity Engine Nat}

/-- What is queued meanwhile does not disturb a drain. -/
theorem Due.trails (h : Due e₀ before done d e left) (ht : Trails more e e') :
    Due e₀ before done d e' (left ++ more) := by
  cases h with
  | rests h => exact ht.queue ▸ .rests (ht.gathers h)
  | begins h => exact ht.queue ▸ .begins (ht.gathers h)
  | goes hx hr ht' h =>
    rw [List.append_assoc]
    exact .goes hx hr (ht'.trans ht) h

/-- The first step of a drain takes a batch, the others store it. -/
theorem Due.step (h : Due e₀ before done (some x) e left)
    (hleft : ∀ q ∈ left, q.attempts = 0 ∧ q.event.Fits)
    (hroom : HasRoom before (done ++ left.map Queued.event))
    (hs : x.step? e = some (y, e')) : ∃ batch left', left = batch ++ left' ∧
      Due e₀ before (done ++ batch.map Queued.event) (some y) e' left' := by
  cases h with
  | begins h =>
    obtain ⟨n, hn⟩ : ∃ n, n = max 1 e.settings.batchSize := ⟨_, rfl⟩
    have hstep : drainOnce.step? e =
        some (drainBatch (e.queue.take n), { e with queue := e.queue.drop n }) := by
      rw [hn]
      rfl
    rw [hstep] at hs
    cases hs
    have hsplit : e.queue = e.queue.take n ++ e.queue.drop n := (List.take_append_drop ..).symm
    have hroom : HasRoom before (done ++ (e.queue.take n).map Queued.event) := by
      refine hroom.mono ?_
      rw [List.prefix_append_right_inj]
      exact (List.take_prefix n e.queue).map _
    have hu : Gathers e₀ before done { e with queue := e.queue.drop n } :=
      h.of_eq rfl rfl rfl rfl rfl rfl
    obtain ⟨m, t, hrun, hqueue, ht⟩ :=
      hu.exists_drainBatch (fun q hq => hleft q (List.mem_of_mem_take hq)) hroom 0
    have htrails :
        Trails [] { e with queue := e.queue.drop n } { e with queue := e.queue.drop n } :=
      ⟨rfl, rfl, (List.append_nil _).symm⟩
    refine ⟨_, _, hsplit, ?_⟩
    have := Due.goes (drainBatch_respects (e.queue.take n)) hrun htrails ht
    rwa [List.append_nil, hqueue] at this
  | @goes x n u t e more hx hr ht h =>
    refine ⟨[], _, rfl, ?_⟩
    obtain ⟨rfl, -⟩ | ⟨y', u', hu, hr'⟩ := Activity.step?_of_run hr
    · cases hs
    obtain ⟨e'', he, ht', -⟩ := (hx more).step? ht hu
    rw [hs] at he
    cases he
    rw [List.map_nil, List.append_nil]
    exact .goes (fun more => (hx more).rest hu) hr' ht' h

theorem Due.ends {n : Nat} (h : Due e₀ before done (some (.done n)) e left) :
    Due e₀ before done none e left := by
  generalize hd : some (Activity.done n) = d at h
  cases h with
  | rests => cases hd
  | begins =>
    have := congrArg (Option.map fun x : Activity Engine Nat => (x.step? e).isSome) hd
    cases this
  | @goes x m u t e more hx hr ht h =>
    cases hd
    cases hr
    have := Due.rests (ht.gathers h)
    rwa [ht.queue] at this

/-- A step of a run, after which the store refuses nothing. -/
def Moment.Serves (m m' : Moment) : Prop := m.Step false m' ∧ m'.engine.store.faults = []

/-- Whatever has been accepted is stored or queued, or the drain at work will have stored it. -/
structure Moment.Sure (e₀ : Engine) (before : HourLogs) (m : Moment) : Prop where
  faults : m.engine.store.faults = []
  adding : ∀ t ∈ m.adding, t.rest.Keeps arriving () fun _ _ => True
  fits : ∀ x ∈ m.accepted, x.Fits
  due : ∃ done left, Due e₀ before done m.drain m.engine left ∧
    m.accepted = done ++ left.map Queued.event ∧ ∀ q ∈ left, q.attempts = 0 ∧ q.event.Fits

variable {m m' : Moment}

theorem Moment.Step.accepted_grows {lasting : Bool} (h : m.Step lasting m') :
    m.accepted <+: m'.accepted := by
  cases h with
  | accepts => exact List.prefix_append ..
  | _ => exact List.prefix_rfl

theorem Moment.Sure.step (h : Moment.Sure e₀ before m) (hs : m.Serves m')
    (hroom : HasRoom before m.accepted) : Moment.Sure e₀ before m' := by
  obtain ⟨hfaults, hadding, hfits, done, left, hdue, haccepted, hleft⟩ := h
  obtain ⟨hs, hfaults'⟩ := hs
  cases hs with
  | adds c hc hf =>
    refine ⟨hfaults', List.forall_mem_append.mpr ⟨hadding, fun t ht => ?_⟩, hfits,
      done, left, hdue, haccepted, hleft⟩
    rw [List.mem_singleton.mp ht]
    exact c.activity_arrives hc hf
  | @accepts e e' before' after c x y d xs hx =>
    obtain ⟨hb, hx', ha⟩ := List.forall_mem_append.mp hadding |>.imp_right List.forall_mem_cons.mp
    obtain ⟨_, ⟨hstore, more, hm⟩, hy⟩ := hx'.step? trivial hx
    have htrails : Trails (more.map (⟨·, 0⟩)) e e' := .of_core hm.core hstore hm.queue
    have hevents : (more.map (⟨·, 0⟩ : Event → Queued)).map Queued.event = more := by
      simp [Function.comp_def]
    refine ⟨hfaults', List.forall_mem_append.mpr ⟨hb, List.forall_mem_cons.mpr ⟨hy, ha⟩⟩, ?_,
      done, _, hdue.trails htrails, ?_, ?_⟩
    · rw [arrived_eq hm]
      exact List.forall_mem_append.mpr ⟨hfits, hm.fits⟩
    · rw [arrived_eq hm, List.map_append, hevents, ← List.append_assoc, ← haccepted]
    · exact List.forall_mem_append.mpr
        ⟨hleft, List.forall_mem_map.mpr fun x hx => ⟨rfl, hm.fits x hx⟩⟩
  | drains =>
    refine ⟨hfaults', hadding, hfits, done, left, ?_, haccepted, hleft⟩
    cases hdue with
    | rests h => exact .begins h
  | goes hx =>
    obtain ⟨batch, left', rfl, hdue'⟩ := hdue.step hleft (haccepted ▸ hroom) hx
    refine ⟨hfaults', hadding, hfits, _, left', hdue', ?_,
      fun q hq => hleft q (List.mem_append_right _ hq)⟩
    rw [haccepted, List.map_append, List.append_assoc]
  | ends => exact ⟨hfaults', hadding, hfits, done, left, hdue.ends, haccepted, hleft⟩
  | @around e e' ts d xs hw _ =>
    obtain ⟨⟨faults, clock, -, rfl⟩, -⟩ := hw
    have hstore : ({ e.store with faults := faults } : Store) = e.store :=
      congrArg (Store.mk e.store.backing) (hfaults'.trans hfaults.symm)
    have htrails :
        Trails [] e { e with store := { e.store with faults := faults }, clock := clock } :=
      .of_core rfl hstore (List.append_nil _).symm
    refine ⟨hfaults', hadding, hfits, done, left, ?_, haccepted, hleft⟩
    have := hdue.trails htrails
    rwa [List.append_nil] at this

theorem Moment.Sure.run (h : Moment.Sure e₀ before m)
    (hrun : Relation.ReflTransGen Moment.Serves m m') (hroom : HasRoom before m'.accepted) :
    Moment.Sure e₀ before m' := by
  induction hrun with
  | refl => exact h
  | tail _ hs ih =>
    have hroom := hroom.mono hs.1.accepted_grows
    exact (ih hroom).step hs hroom

/-- Once the queue has been emptied over a store that refuses nothing, there is the same in the
store and in the buckets as after the accepted events have been added one after the other: those of
each hour behind what the hour had, in their order. It does not matter which calls brought them, how
many each drain took, or what was queued while a drain was at work. -/
theorem batching_invisible (h : EventSet.Holds e before) (ha : e.store.Able) (hq : e.queue = [])
    (hrun : Relation.ReflTransGen Moment.Serves ⟨e, [], none, []⟩ m) (hd : m.drain = none)
    (hempty : m.engine.queue = [])
    (hroom : ∀ hour, (before hour).length + (ofHour hour m.accepted).length < 4294967296) :
    ∃ answers e', (addEach m.accepted).run 0 e = some (answers, e') ∧
      answers.map Except.isOk = m.accepted.map Routed ∧ Alike e' m.engine ∧
      ∀ hour, Bucket.Kept hour (before hour ++ ofHour hour m.accepted) m.engine.store.entries? := by
  have hfaults : e.store.faults = [] := by
    have := ha.available
    simp only [Store.isAvailable, Bool.and_eq_true, List.isEmpty_iff] at this
    exact this.1
  have hstart : Gathers e before [] e := Accrues.refl h ha
  have hsure : Moment.Sure e before m :=
    .run ⟨hfaults, List.forall_mem_nil _, List.forall_mem_nil _,
      [], [], hq ▸ .rests hstart, rfl, List.forall_mem_nil _⟩ hrun hroom
  obtain ⟨done, left, hdue, haccepted, -⟩ := hsure.due
  rw [hd] at hdue
  obtain ⟨hgathers⟩ := hdue
  rw [hempty, List.map_nil, List.append_nil] at haccepted
  rw [← haccepted] at hgathers
  obtain ⟨answers, e', hadd, hans, h'⟩ := hstart.exists_addEach hsure.fits hroom 0
  exact ⟨answers, e', hadd, hans, h'.alike hgathers, hgathers.holds.kept⟩

namespace Moment

/-- While the store is found to refuse nothing, doing the same again and again is a run. -/
theorem served_iterate {f : Moment → Moment} (hf : ∀ m, f m = m ∨ m.Step false (f m)) {n : Nat}
    (h : ∀ i < n, (f^[i + 1] m).engine.store.faults.isEmpty = true) :
    Relation.ReflTransGen Serves m (f^[n] m) := by
  induction n with
  | zero => exact .refl
  | succ n ih =>
    refine (ih fun i hi => h i (Nat.lt_succ_of_lt hi)).trans ?_
    have hn := List.isEmpty_iff.mp (h n (Nat.lt_succ_self n))
    rw [Function.iterate_succ_apply'] at hn ⊢
    rcases hf (f^[n] m) with he | hs
    · rw [he]
    · exact .single ⟨hs, hn⟩

theorem served_arrives (m : Moment) {events : List Event} (hf : ∀ x ∈ events, x.Fits)
    (h : ∀ i < 4, (accepts^[i] { m with
      adding := m.adding ++ [⟨.addAll events, Call.activity _⟩] }).engine.store.faults.isEmpty) :
    Relation.ReflTransGen Serves m (m.arrives events) :=
  .head ⟨.adds (.addAll events) rfl hf, List.isEmpty_iff.mp (h 0 (by decide))⟩
    (served_iterate step_accepts fun i hi => h (i + 1) (Nat.succ_lt_succ hi))

theorem served_drains (m : Moment) {n : Nat}
    (h : ∀ i < n + 1, (goes^[i] { m with
      drain := some (m.drain.getD drainOnce) }).engine.store.faults.isEmpty) :
    Relation.ReflTransGen Serves m (m.drains n) := by
  refine .trans ?_ (served_iterate step_goes fun i hi => h (i + 1) (Nat.succ_lt_succ hi))
  have hfaults := List.isEmpty_iff.mp (h 0 (Nat.succ_pos n))
  obtain ⟨e, ts, d, xs⟩ := m
  cases d with
  | none => exact .single ⟨.drains, hfaults⟩
  | some x => exact .refl

end Moment

/-- An engine over an empty store, of which a drain stores one event at a time. -/
def sparing : Moment :=
  ⟨.fresh .inMemory .standard { Config.EngineSection.standard with batchSize := 1 }, [], none, []⟩

/-- An event of 14:00 and one that has no hour arrive, then another of 14:00 while the first is
being stored, and two more drains follow. -/
def spread : Moment :=
  ((((sparing.arrives [Event.new 1709647200000, Event.new (-1)]).drains 8).arrives
    [Event.new 1709647200001]).drains 20).drains 10 |>.drains 20

/-- The two are stored with the ids that they get one after the other. -/
theorem batching_invisible_of_spread : ∃ m answers e',
    EventSet.Holds sparing.engine (fun _ => []) ∧
    Relation.ReflTransGen Moment.Serves sparing m ∧ m.accepted.length = 3 ∧
    m.stored ⟨474902⟩ = [some (1, 1709647200000), some (2, 1709647200001)] ∧
    (addEach m.accepted).run 0 sparing.engine = some (answers, e') ∧
    answers.map Except.isOk = [true, false, true] ∧ Alike e' m.engine := by
  have hholds : EventSet.Holds sparing.engine fun _ => [] :=
    holds_fresh (Query.Cache.sound_new _ _) (fun _ => ExtTreeMap.getElem?_empty) _
  have hrun : Relation.ReflTransGen Moment.Serves sparing spread :=
    (((((Moment.served_arrives _ (by decide +kernel) (by decide +kernel)).trans
      (Moment.served_drains _ (by decide +kernel))).trans
      (Moment.served_arrives _ (by decide +kernel) (by decide +kernel))).trans
      (Moment.served_drains _ (by decide +kernel))).trans
      (Moment.served_drains _ (by decide +kernel))).trans
      (Moment.served_drains _ (by decide +kernel))
  have hlength : spread.accepted.length = 3 := by decide +kernel
  have hrouted : spread.accepted.map Routed = [true, false, true] := by decide +kernel
  obtain ⟨answers, e', hadd, hans, halike, -⟩ := batching_invisible hholds ⟨trivial, rfl⟩ rfl hrun
    (Option.isNone_iff_eq_none.mp (by decide +kernel))
    (List.isEmpty_iff.mp (by decide +kernel)) fun hour => by
      have := List.length_filter_le (·.hour? == some hour) spread.accepted
      rw [hlength] at this
      exact Nat.lt_of_le_of_lt (Nat.add_le_add_left this 0) (by decide)
  exact ⟨spread, answers, e', hholds, hrun, hlength, by decide +kernel, hadd, hans.trans hrouted,
    halike⟩

end Ingest

end EventStore
