import EventStore.Proofs.Bucket.Undisturbed
import EventStore.Proofs.EventSet.Query

/-!
# What a set does undisturbed

Nobody else is at work, and the store refuses no calls: then what a set answers is settled by the
logs that it stands for. It counts what its buckets find (`count_result`), adds an event if there is
room in its hour (`add_result`), and is opened over whatever maps other sets have left behind
(`openAll_result`).
-/

namespace EventStore

open Std Query Operation

-- ---- counting ------------------------------------------------------------

namespace Bucket

variable {b : Bucket} {log : List Event} {c : Cell} {text : String}

theorem size_evaluate {q : Criteria} (hr : b.Represents log c) (hc : compile text = .ok q) :
    (c.data.index.evaluate q).size = (b.candidates log text 0).length := by
  have hpos : ∀ id ∈ (c.data.index.evaluate q).toList, decide (0 < id) = true := by
    intro id hid
    obtain ⟨x, hx, -⟩ := (hr.mem_evaluate hc).mp (ExtTreeSet.mem_toList.mp hid)
    have := (EventSet.bucket_of_committed? hx).2
    rw [id_of_committed? hx] at this
    exact decide_eq_true this
  rw [← ExtTreeSet.length_toList, ← List.filter_eq_self.mpr hpos]
  show (Positions.above _ 0).length = _
  rw [above_evaluate hr hc, List.length_map]

theorem countMatching_result {q : Criteria} {e : Engine} (hr : b.Represents log (e.cell b))
    (hs : e.cache.Sound) (hc : compile text = .ok q) (rounds : Nat) :
    (b.countMatching text).result rounds e =
      some (.ok (b.candidates log text 0).length, e.asked text) := by
  rw [countMatching, result_bind, matching_result b text hs hc rounds, ← size_evaluate hr hc]
  rfl

end Bucket

namespace EventSet

variable {e e' : Engine} {logs : HourLogs} {b : Bucket} {hour : Hour} {bs : List Bucket}
  {text : String} {range : TimeRange}

/-- What a bucket adds to a count. -/
def counted (text : String) (range : TimeRange) (logs : HourLogs) (b : Bucket) : List Event :=
  if covers range b then b.candidates (logs b.hour) text 0
  else b.found range 0 (b.candidates (logs b.hour) text 0)

theorem countAll_result {q : Criteria} (h : Holds e logs) (ha : e.store.isAvailable = true)
    (hc : compile text = .ok q) (range : TimeRange)
    (hbs : ∀ b ∈ bs, e.registry[b.hour]? = some b) (n rounds : Nat) :
    ∃ e', (countAll text range bs n).result rounds e =
      some (.ok (n + (bs.flatMap (counted text range logs)).length), e') := by
  induction bs generalizing e n with
  | nil => exact ⟨e, result_pure ..⟩
  | cons b bs ih =>
    have hrep := (h.inUse (hbs b List.mem_cons_self)).represents
    have hg : b.Readable e.store := fun _ => Store.serves_of_isAvailable ha _
    have h' := h.recalls (Engine.recalls_asked h.cache text)
    obtain ⟨e', hr⟩ := ih (e := e.asked text) h' ha
      (fun b hb => hbs b (List.mem_cons_of_mem _ hb)) (n + (counted text range logs b).length)
    refine ⟨e', ?_⟩
    rw [List.flatMap_cons, List.length_append, ← Nat.add_assoc, ← hr, countAll]
    split
    · next hcov =>
      rw [result_bind, Bucket.countMatching_result hrep h.cache hc, counted, if_pos hcov]
      rfl
    · next hcov =>
      rw [result_bind, Bucket.search_result hrep h.cache hg hc, counted, if_neg hcov]
      rfl

theorem counted_sublist (text : String) (range : TimeRange) (logs : HourLogs) (b : Bucket) :
    (counted text range logs b).Sublist (b.numbered 0 (logs b.hour)) := by
  unfold counted
  split
  · exact candidates_sublist _ _
  · exact (found_sublist _).trans (candidates_sublist _ _)

theorem count_result {q : Criteria} (h : Holds e logs) (ha : e.store.isAvailable = true)
    (hc : compile text = .ok q) (hr : range.start ≤ range.stop) (rounds : Nat) :
    ∃ e', (count text range).result rounds e = some (.ok ((e.registry.values.filter
      (visits range .start)).flatMap (counted text range logs)).length, e') := by
  have h₁ := h.recalls (Engine.recalls_asked h.cache text)
  obtain ⟨e', hres⟩ := countAll_result h₁ ha hc range
    (fun b hb => h₁.registered_of_mem (List.mem_filter.mp hb).1) 0 rounds
  refine ⟨e', ?_⟩
  rw [count, checked_result h.cache hc hr, result_bind,
    result_lift_run (run_select h₁.free range .start rounds)]
  rw [Nat.zero_add] at hres
  exact hres

-- ---- registering ---------------------------------------------------------

theorem alone_result {α : Type} {op : Operation α} {r : Except EngineError α}
    (hf : e.registering = false)
    (h : op.result rounds { e with registering := true } = some (r, e')) :
    (alone op).result rounds e = some (r, { e' with registering := false }) := by
  have hfree : (!e.registering) = true := (Bool.not_eq_true' _).mpr hf
  have hacquire : Activity.run rounds acquire e = some ((), { e with registering := true }) :=
    if_pos hfree
  exact result_between hacquire h rfl

theorem register_result (h : Holds e logs) (ha : e.store.Able) (hb : Spare b e logs)
    (hn : e.registry[b.hour]? = none) (rounds : Nat) :
    ∃ e', (register b).result rounds e = some (.ok b, e') ∧ e'.store.Able := by
  generalize hu : ({ e with registering := true } : Engine) = u
  have hb : b.InUse (logs b.hour) u := hu ▸ hb.inUse.of_eq rfl rfl
  have ha : u.store.Able := hu ▸ ha
  suffices hheld : ∃ e', Operation.result rounds (do
      if ← isLocked then
        if (← b.state) ≠ .locked then b.lock
      insert b
      return b) u = some (.ok b, e') ∧ e'.store.Able by
    obtain ⟨e', hr, ha'⟩ := hheld
    refine ⟨{ e' with registering := false }, alone_result h.free ?_, ha'⟩
    have hregistered : Operation.result rounds (liftM (registered? b.hour)) u =
        some (.ok none, u) := by
      rw [registered?, Activity.observe, result_lift, ← hu, hn]
    rw [hu, result_bind, hregistered]
    exact hr
  rw [result_bind, isLocked, Activity.observe, result_lift]
  dsimp only [Option.bind_some]
  split
  · rw [result_bind, Bucket.state, Bucket.observe, Activity.observe, result_lift]
    dsimp only [Option.bind_some]
    split
    · have hrep := hb.represents
      obtain ⟨e', hr, -, ha', -⟩ := Bucket.setLock_runs hrep.idle hb.writable
        (hrep.there hb.writable).2 true u rounds hb.here rfl ha
      rw [result_bind, Bucket.lock, hr]
      exact ⟨_, rfl, ha'⟩
    · exact ⟨_, rfl, ha⟩
  · exact ⟨_, rfl, ha⟩

theorem getOrCreate_result {id : UInt32} (h : Holds e logs) (ha : e.store.Able)
    (hid : hour.tokenSeconds? = some id) (rounds : Nat) :
    ∃ b e', (getOrCreate hour).result rounds e = some (.ok b, e') ∧ e'.store.Able ∧
      Holds e' logs ∧ e'.registry[hour]? = some b := by
  suffices hok : ∃ b e', (getOrCreate hour).result rounds e = some (.ok b, e') ∧ e'.store.Able by
    obtain ⟨b, e', hr, ha'⟩ := hok
    exact ⟨b, e', hr, ha', getOrCreate_triple h hour _ _ (ends_of_result hr)⟩
  have hbucket : Operation.result rounds (liftM (bucket? hour)) e =
      some (.ok e.registry[hour]?, e) := result_lift_run (run_ofRegistry h.free (·[hour]?) rounds)
  rw [getOrCreate, result_bind, hbucket]
  cases hb : e.registry[hour]? with
  | some b => exact ⟨b, e, result_pure .., ha⟩
  | none =>
    obtain ⟨b, e₁, ho, ha₁⟩ := Bucket.openAt_result hid ha (h.kept hour) rounds
    obtain ⟨rfl, hn, hs, hr⟩ := Bucket.openAt_triple hour e _ _ (ends_of_result ho)
    obtain ⟨hst, hsp⟩ := h.opened hs hn hr
    have h₁ : Holds e₁ logs := ⟨hst, (registering_eq hs).trans h.free⟩
    have hnone : e₁.registry[b.hour]? = none := by rw [registry_eq hs]; exact hb
    obtain ⟨e', hreg, ha'⟩ := register_result h₁ ha₁ hsp hnone rounds
    refine ⟨b, e', ?_, ha'⟩
    show (Bucket.openAt b.hour >>= register).result rounds e = _
    rw [result_bind, ho]
    exact hreg

-- ---- adding --------------------------------------------------------------

end EventSet

namespace Engine

def lastIdOf (e : Engine) (hour : Hour) : UInt32 :=
  match e.registry[hour]? with
  | some b => (e.data b).lastId
  | none => 0

/-- What is to come of adding an event. -/
def admitted (e : Engine) (x : Event) : Except EngineError Event :=
  match x.hour? with
  | none => .error (.invalidTimestamp x.millis)
  | some hour =>
    if (e.lastIdOf hour).toNat + 1 < 4294967296 then
      .ok { x with id := e.lastIdOf hour + 1, bucket := hour.tokenSeconds?.getD 0 }
    else .error (.bucketFull hour.key)

end Engine

namespace EventSet

variable {e e' : Engine} {logs : HourLogs} {b : Bucket} {hour : Hour} {bs : List Bucket}

theorem Holds.lastIdOf_eq (h : Holds e logs) (hour : Hour) :
    e.lastIdOf hour = (logs hour).length.toUInt32 := by
  unfold Engine.lastIdOf
  split
  · next b hb =>
    obtain rfl := h.hour hb
    exact (h.inUse hb).represents.last
  · next hn =>
    rw [h.absent hn]
    rfl

theorem add_result (h : Holds e logs) (ha : e.store.Able) (x : Event) (rounds : Nat) :
    ∃ e', (add x).result rounds e = some (e.admitted x, e') := by
  cases hh : x.hour? with
  | none =>
    have hroute : route x = .error (.invalidTimestamp x.millis) := by rw [route, hh]
    refine ⟨e, ?_⟩
    rw [add, hroute, Engine.admitted, hh]
    rfl
  | some hour =>
    obtain ⟨id, hid⟩ := Option.isSome_iff_exists.mp (Option.filter_eq_some_iff.mp hh).2
    obtain ⟨b, e₁, hr, ha₁, h₁, hb⟩ := getOrCreate_result h ha hid rounds
    obtain rfl := h₁.hour hb
    have hu := h₁.inUse hb
    have hrep := hu.represents
    obtain ⟨c', hrun⟩ := Bucket.addAll_runs (List.cons_ne_nil x []) hrep.idle hu.writable
      (hrep.there hu.writable).1 (by simpa using Event.contains_of_hour? hh)
    obtain ⟨e', hadd, -⟩ := hrun e₁ rounds hu.here rfl ha₁
    refine ⟨e', ?_⟩
    have hroute : route x = .ok b.hour := by rw [route, hh]
    rw [add, hroute, Engine.admitted, hh]
    show Operation.result rounds (getOrCreate b.hour >>= fun b => b.add x) e = _
    rw [result_bind, hr]
    show (b.add x).result rounds e₁ = _
    have hlast : (e₁.cell b).data.lastId = e.lastIdOf b.hour :=
      hrep.last.trans (h.lastIdOf_eq b.hour).symm
    dsimp only
    rw [Bucket.add, result_bind, hadd, hlast, List.length_singleton, b.named]
    split <;> rfl

-- ---- opening -------------------------------------------------------------

theorem mapM_openAt_result (ha : e.store.Able)
    (hk : ∀ hour, Bucket.Kept hour (logs hour) e.store.entries?) {hours : List Hour}
    (hn : ∀ hour ∈ hours, hour.tokenSeconds?.isSome) (rounds : Nat) :
    ∃ bs e', (hours.mapM Bucket.openAt).result rounds e = some (.ok bs, e') ∧ e'.store.Able ∧
      bs.map Bucket.hour = hours ∧ e'.registering = e.registering ∧
        ∀ m, (e'.store.entries? m).getD ∅ = (e.store.entries? m).getD ∅ := by
  induction hours generalizing e with
  | nil =>
    rw [List.mapM_nil]
    exact ⟨[], e, result_pure .., ha, rfl, rfl, fun _ => rfl⟩
  | cons hour hours ih =>
    obtain ⟨id, hid⟩ := Option.isSome_iff_exists.mp (hn hour List.mem_cons_self)
    obtain ⟨b, e₁, ho, ha₁⟩ := Bucket.openAt_result hid ha (hk hour) rounds
    obtain ⟨rfl, -, hs, index, last, -, hc⟩ :=
      Bucket.openAt_triple hour e _ _ (ends_of_result ho)
    have hp : b.Prepared e.store.entries? e₁.store.entries? :=
      .inr (.inr (congrArg Cell.view hc))
    obtain ⟨bs, e', hr, ha', hbs, hreg, hview⟩ := ih ha₁ (fun hour => (hk hour).prepared hp)
      fun hour hh => hn hour (List.mem_cons_of_mem _ hh)
    have hreg₁ : e₁.registering = e.registering := registering_eq (e := Bucket.grown e) hs
    refine ⟨b :: bs, e', ?_, ha', congrArg (b.hour :: ·) hbs, hreg.trans hreg₁,
      fun m => (hview m).trans (hp.getD_eq m)⟩
    rw [List.mapM_cons, result_bind, ho]
    show Operation.result rounds (List.mapM Bucket.openAt hours >>= _) e₁ = _
    rw [result_bind, hr]
    rfl

/-- Where all maps are those of buckets, a set can be opened, and has a bucket for every map of
events. -/
theorem openAll_result (ha : e.store.Able) (hf : e.registering = false)
    (hk : ∀ hour, Bucket.Kept hour (logs hour) e.store.entries?)
    (hn : ∀ m, (e.store.entries? m).isSome → Bucket.Names m) (rounds : Nat) :
    ∃ e', openAll.result rounds e = some (.ok (), e') ∧ e'.store.Able ∧
      (∀ m, (e'.store.entries? m).getD ∅ = (e.store.entries? m).getD ∅) ∧
        ∀ b : Bucket, (e.store.entries? b.eventsMap).isSome → (e'.registry[b.hour]?).isSome := by
  obtain ⟨names, s, hans, hs⟩ := ha.exists_answer (r := .mapNames) trivial
  obtain ⟨⟨-, hmem⟩, hv⟩ := Store.replies_of_ok hans
  have hv : s.entries? = e.store.entries? := hv
  have hcall : (call .mapNames).result rounds e = some (.ok names, { e with store := s }) := by
    have hact : ((e.store.answer .mapNames).1.mapError EngineError.store,
        { e with store := (e.store.answer .mapNames).2 }) = (.ok names, { e with store := s }) := by
      rw [hans]
      rfl
    exact congrArg some hact
  have hnamed : ∀ hour ∈ names.filterMap Hour.ofEventsMap?, hour.tokenSeconds?.isSome := by
    intro hour hh
    obtain ⟨m, hm, hof⟩ := List.mem_filterMap.mp hh
    obtain ⟨b, rfl | rfl⟩ := hn m ((hmem m).mp hm)
    · rw [Bucket.eventsMap, Hour.ofEventsMap?_eventsMap b.named] at hof
      rw [← Option.some.inj hof, b.named]
      rfl
    · rw [Bucket.optionsMap, Hour.ofEventsMap?_optionsMap b.named] at hof
      cases hof
  obtain ⟨bs, e₂, hr, ha₂, hbs, hreg, hview⟩ := mapM_openAt_result (e := { e with store := s }) hs
    (hv ▸ hk) hnamed rounds
  refine ⟨{ e₂ with registry := bs.foldl (fun r b => r.insert b.hour b) ∅ }, ?_, ha₂, ?_, ?_⟩
  · rw [openAll, result_bind, hcall]
    show Operation.result rounds ((names.filterMap Hour.ofEventsMap?).mapM Bucket.openAt >>= _)
      { e with store := s } = _
    rw [result_bind, hr]
    have hfree : (!e₂.registering) = true := by rw [hreg, hf]; rfl
    exact result_lift_run (if_pos hfree)
  · exact fun m => (hview m).trans (by rw [hv])
  · intro b hb
    refine isSome_getElem?_foldl_insert (.inl ?_)
    have hmap : b.hour ∈ bs.map Bucket.hour := by
      rw [hbs, List.mem_filterMap]
      exact ⟨_, (hmem _).mpr hb, Hour.ofEventsMap?_eventsMap b.named⟩
    simpa using hmap

end EventSet

end EventStore
