import EventStore.Proofs.Bucket.Marks
import EventStore.Proofs.Bucket.Search
import EventStore.Proofs.Bucket.Undisturbed

/-!
# A bucket that could not be dropped

Dropping a bucket takes up to four calls to the store, and each of them may fail. If the first fails
nothing has happened, and the bucket goes on with its events (`Active`). If a later one fails the
events are gone, but the bucket is still ready: it may have the index of events that it can no
longer load, and take no others (`stripped_of_refused`).
-/

namespace EventStore

open Query Operation

theorem Store.steady_sound : Steady Sound := ⟨fun {_ _ r} _ h => h.answer r, fun _ h => h⟩

theorem Activity.WorksTo.sound {x : Activity Engine α} {Q : α → Prop} {e e' : Engine}
    (h : x.WorksTo Q) (he : x.Ends Engine.Shaken e a e') (hs : e.store.Sound) : e'.store.Sound :=
  h.steady Store.steady_sound he hs

namespace Bucket

variable {b : Bucket} {log : List Event} {e e' : Engine} {goOn : Bool}

-- ---- in service ----------------------------------------------------------

/-- The bucket can be searched for the events of the log, and takes the next event of its hour. -/
structure Active (b : Bucket) (log : List Event) (e : Engine) : Prop where
  searches : ∀ {query q}, compile query = .ok q → ∀ most after range rounds,
    (b.search query most after range).result rounds e =
      some (.ok (b.found range most (b.candidates log query after)), e.asked query)
  /-- A search for everything in the hour finds all. -/
  finds : ∀ {range : TimeRange}, range.start.millis ≤ b.hour.startMillis →
    b.hour.endMillis ≤ range.stop.millis → ∀ rounds,
      (b.search "" 0 0 range).result rounds e = some (.ok (b.numbered 0 log), e.asked "")
  adds : ∀ {x : Event}, b.hour.contains x.millis = true → log.length + 1 < 4294967296 →
    ∀ rounds, ∃ e', (b.add x).result rounds e =
      some (.ok { x with id := log.length.toUInt32 + 1, bucket := b.id }, e')

theorem candidates_all (hr : log.length < 4294967296) :
    b.candidates log "" 0 = b.numbered 0 log := by
  refine List.filter_eq_self.mpr fun x hx => ?_
  have hx := (mem_numbered_zero hr).mp hx
  have hid : x.id ≠ 0 := by
    intro h0
    rw [committed?, if_pos h0] at hx
    cases hx
  have hpos : 0 < x.id := UInt32.pos_iff_ne_zero.mpr hid
  simp [hpos, satisfies]

theorem found_all {range : TimeRange} {events : List Event}
    (hin : ∀ x ∈ events, b.hour.contains x.millis = true)
    (hstart : range.start.millis ≤ b.hour.startMillis)
    (hstop : b.hour.endMillis ≤ range.stop.millis) : b.found range 0 events = events := by
  rw [found, passed, if_pos hstart, List.drop_zero, upTo, if_pos rfl]
  refine List.filter_eq_self.mpr fun x hx => ?_
  obtain ⟨hl, hu⟩ := Hour.contains_iff.mp (hin x hx)
  simp only [TimeRange.holds, Bool.and_eq_true, decide_eq_true_eq]
  omega

theorem Represents.active (hr : b.Represents log (e.cell b))
    (hw : (e.data b).state.isWritable = true) (hn : b.number < e.opened.size) (hc : e.cache.Sound)
    (ha : e.store.Able) : b.Active log e where
  searches hq most after range rounds :=
    search_result hr hc (fun _ => Store.serves_of_isAvailable ha.available _) hq most after range
      rounds
  finds {range} hstart hstop rounds := by
    have hs := search_result hr hc (fun _ => Store.serves_of_isAvailable ha.available _)
      (show compile "" = .ok .all from rfl) 0 0 range rounds
    rwa [found_all hr.contains hstart hstop, candidates_all hr.kept.room] at hs
  adds {x} hx hroom rounds := by
    obtain ⟨c', hrun⟩ := addAll_runs (b := b) (c := e.cell b) (List.cons_ne_nil x []) hr.idle hw
      (hr.there hw).1 (by simpa using hx)
    obtain ⟨e', hadd, -⟩ := hrun e rounds hn rfl ha
    have hlast : (e.cell b).data.lastId.toNat = log.length := by
      rw [hr.last]
      exact UInt32.toNat_ofNat_of_lt' hr.kept.room
    rw [if_pos (by rw [hlast]; exact hroom), hr.last] at hadd
    refine ⟨e', ?_⟩
    rw [Bucket.add, result_bind, hadd]
    rfl

-- ---- failing -------------------------------------------------------------

theorem Represents.entries_ne (hr : b.Represents log c) (hl : log ≠ []) :
    (c.view b.eventsMap).getD ∅ ≠ ∅ := by
  intro h
  have he := hr.kept.entries b rfl
  obtain ⟨x, log, rfl⟩ := List.exists_cons_of_ne_nil hl
  rw [h] at he
  cases he

theorem Left.events_gone {c c' : Cell} (h : b.Left goOn c c') (hs : c.data.state = .ready) :
    c' = c ∨ (c'.view b.eventsMap).getD ∅ = ∅ ∧ c'.data.state = .ready := by
  have hd : c.data.state ≠ .dropped := by
    rw [hs]
    decide
  cases h with
  | untouched => exact .inl rfl
  | stripped _ hv =>
    refine .inr ⟨?_, hs⟩
    rcases hv with rfl | rfl
    · simp [Request.effect]
    · simp [withoutMaps_apply]
  | restarting _ hv =>
    rw [if_neg hd] at hv
    refine .inr ⟨?_, hs⟩
    rw [show (⟨⟨Index.empty, 0, c.data.state, false⟩, _⟩ : Cell).view = _ from rfl, hv.getD_eq]
    simp [withoutMaps_apply]

/-- A ready bucket with the events of the log, over a store in order. -/
structure Dropping (b : Bucket) (log : List Event) (e : Engine) : Prop where
  here : b.number < e.opened.size
  represents : b.Represents log (e.cell b)
  events : log ≠ []
  ready : (e.data b).state = .ready
  cache : e.cache.Sound
  store : e.store.Sound

/-- So it is between the operations of a session. -/
theorem Session.dropping {hour : Hour} (h : Session hour e (some b) log) (hl : log ≠ [])
    (hready : (e.data b).state = .ready) (hs : e.store.Sound) : b.Dropping log e :=
  ⟨h.standing.here, h.standing.represents, hl, hready, h.standing.cache, hs⟩

/-- Where dropping a bucket with events fails, the bucket has got no further than `Left` says. If
the events are still in the store all is as it was, and when the store is available again the bucket
goes on; otherwise they are gone though it is ready. -/
theorem left_of_discard_error (h : b.Dropping log e) {p : EngineError}
    (he : (b.discard goOn).Ends e (.error p) e') :
    b.Left goOn (e.cell b) (e'.cell b) ∧
      (e'.store.entries? b.eventsMap = e.store.entries? b.eventsMap →
        e'.cell b = e.cell b ∧
          ∀ u, e'.Shaken u → u.store.isAvailable = true → b.Active log u) ∧
      (e'.store.entries? b.eventsMap ≠ e.store.entries? b.eventsMap →
        (e'.store.entries? b.eventsMap).getD ∅ = ∅ ∧ (e'.data b).state = .ready) := by
  obtain ⟨hn, hr, hl, hready, hc, hs⟩ := h
  obtain ⟨hsp, -, hu⟩ := discard_does b goOn (e.cell b) e hn rfl _ e' he
  have hgone := hu.left.events_gone hready
  refine ⟨hu.left, fun hsame => ?_, fun hother => ?_⟩
  -- There are events, so the map that is still there is not one that has been emptied.
  · have hcell : e'.cell b = e.cell b := by
      refine hgone.resolve_right fun hg => hr.entries_ne hl ?_
      exact (congrArg (Option.getD · ∅) hsame).symm.trans hg.1
    refine ⟨hcell, fun u hshaken ha => ?_⟩
    obtain ⟨hsu, hcu⟩ := Spares.of_shaken b hshaken
    have hcu : u.cell b = e.cell b := hcu.trans hcell
    have hs' : e'.store.Sound := (works_discard b goOn).sound he hs
    have hsu' : u.store.Sound := by
      obtain ⟨faults, clock, -, rfl⟩ := hshaken
      exact hs'
    have hw : (u.data b).state.isWritable = true := by
      rw [show u.data b = e.data b from congrArg Cell.data hcu, hready]
      rfl
    exact (hcu ▸ hr).active hw ((hsp.trans hsu).size ▸ hn) ((hsp.trans hsu).sound hc) ⟨hsu', ha⟩
  · exact hgone.resolve_left fun hcell => hother (congrArg (Cell.view · b.eventsMap) hcell)

-- ---- two runs ------------------------------------------------------------

/-- A bucket with an event is to be dropped while the store refuses calls. -/
def dropRefused (faults : List Fault) : Operation (Bucket × Except EngineError Bool) := do
  let b ← openAt ⟨474902⟩
  let _ ← b.addAll [firstEvent]
  refuse faults
  let r ← outcome (b.discard false)
  return (b, r)

theorem exists_dropping (faults : List Fault) (P : Bucket → Engine → Bool)
    (h : ((dropRefused faults).result 0 (.fresh .inMemory .standard .standard)).any
      (fun (r, e') => r.toOption.any fun (b, done) =>
        !done.toBool && (e'.data b).state = .ready && P b e') = true) :
    ∃ b e p e', b.Dropping [firstEvent] e ∧ (b.discard false).Ends e (.error p) e' ∧
      P b e' = true := by
  obtain ⟨⟨r, e'⟩, h, hp⟩ := (Option.any_eq_true _ _).mp h
  cases r with
  | error p => cases hp
  | ok r =>
    obtain ⟨b, done⟩ := r
    simp only [Except.toOption, Option.any_some, Bool.and_eq_true, decide_eq_true_eq] at hp
    obtain ⟨⟨hdone, hready⟩, hp⟩ := hp
    cases done with
    | ok done => cases hdone
    | error p =>
      obtain ⟨_, e₁, ho, h⟩ := result_bind_ok h
      obtain ⟨stored, e₂, ha, h⟩ := result_bind_ok h
      obtain ⟨_, e₃, hf, h⟩ := result_bind_ok h
      obtain ⟨_, e₄, hd, h⟩ := result_bind_ok h
      cases h
      cases hf
      replace ho := ends_of_result ho
      replace ha := ends_of_result ha
      replace hd := ends_outcome (ends_of_result hd)
      have hsession : Session ⟨474902⟩ e₂ (some b) [firstEvent] :=
        .addedAll (.opened (.start (Cache.sound_new _ _) rfl rfl) ho) fits_firstEvent ha
      have hsound : e₂.store.Sound :=
        (works_addAll b [firstEvent]).sound ha ((works_openAt _).sound ho trivial)
      obtain ⟨-, -, hu⟩ := discard_does b false _ _ hsession.standing.here rfl _ _ hd
      exact ⟨b, _, p, e', hsession.dropping (List.cons_ne_nil _ _) (hu.state.symm.trans hready)
        hsound, hd, hp⟩

/-- No map can be removed, and the bucket goes on. -/
theorem left_of_discard_error_of_refused : ∃ (b : Bucket) (e e' : Engine) (p : EngineError),
    b.Dropping [firstEvent] e ∧ (b.discard false).Ends e (.error p) e' ∧ e'.cell b = e.cell b ∧
      ∀ u, e'.Shaken u → u.store.isAvailable = true → b.Active [firstEvent] u := by
  obtain ⟨b, e, p, e', hd, he, hp⟩ := exists_dropping [⟨.removeMap, none⟩]
    (fun b e' => !((e'.store.entries? b.eventsMap).getD ∅).isEmpty) (by decide +kernel)
  obtain ⟨-, hkept, hgone⟩ := left_of_discard_error hd he
  have hsame : e'.store.entries? b.eventsMap = e.store.entries? b.eventsMap :=
    Classical.byContradiction fun hne => by simp [(hgone hne).1] at hp
  exact ⟨b, e, e', p, hd, he, hkept hsame⟩

def unrefused (e : Engine) : Engine := { e with store := { e.store with faults := [] } }

def firstRange : TimeRange := ⟨⟨1709647200, 0⟩, ⟨1709650800, 0⟩⟩

/-- Where only the map of the options cannot be removed, the events cannot be searched for any more
and no others can be added, also when the store is available again. -/
theorem stripped_of_refused : ∃ (b : Bucket) (e e' u : Engine) (p : EngineError),
    b.Dropping [firstEvent] e ∧ (b.discard false).Ends e (.error p) e' ∧ e'.Shaken u ∧
      u.store.isAvailable = true ∧ (∃ p u', (b.search "" 0 0 firstRange).Ends u (.error p) u') ∧
      ∃ p u', (b.add firstEvent).Ends u (.error p) u' := by
  obtain ⟨b, e, p, e', hd, he, hp⟩ :=
    exists_dropping [⟨.removeMap, some (⟨474902⟩ : Hour).optionsMap⟩] (fun b e' =>
      (unrefused e').store.isAvailable &&
        ((b.search "" 0 0 firstRange).result 0 (unrefused e')).any (!·.1.toBool) &&
        ((b.add firstEvent).result 0 (unrefused e')).any (!·.1.toBool)) (by decide +kernel)
  have hfails {α : Type} {op : Operation α} {u : Engine}
      (h : (op.result 0 u).any (!·.1.toBool) = true) : ∃ p u', op.Ends u (.error p) u' := by
    obtain ⟨⟨r, u'⟩, hr, hp⟩ := (Option.any_eq_true _ _).mp h
    cases r with
    | ok a => cases hp
    | error p => exact ⟨p, u', ends_of_result hr⟩
  simp only [Bool.and_eq_true] at hp
  exact ⟨b, e, e', unrefused e', p, hd, he, ⟨[], e'.clock, Nat.le_refl _, rfl⟩, hp.1.1,
    hfails hp.1.2, hfails hp.2⟩

end Bucket

end EventStore
