import EventStore.Engine.EventSet
import EventStore.Proofs.Engine.Keeping
import EventStore.Proofs.Time.Order

/-!
# The hours of events

An event goes to the bucket of its hour. The bucket never turns it away as one of another hour
(`Bucket.addAll_failsWith`), events of one hour of universal time go to one bucket, and the tokens
and keys of the hours are in the order of time (`EventSet.hours_of_routed`).
-/

namespace EventStore

-- ---- failing -------------------------------------------------------------

/-- Anybody may do anything. -/
def Engine.anything : Bookkeeping Engine Unit where
  Always _ := True
  Moves _ _ _ _ := True
  always _ _ := trivial
  refl _ _ := trivial
  trans _ _ := trivial

namespace Operation

/-- However the engine changes between its steps, `E` holds of the error if the operation fails. -/
def FailsWith (op : Operation α) (E : EngineError → Prop) : Prop :=
  op.run.Keeps Engine.anything () fun r _ => ∀ p, r = .error p → E p

namespace FailsWith

open Activity

variable {op : Operation α} {E : EngineError → Prop}

theorem pure' (a : α) : (pure a : Operation α).FailsWith E := Keeps.pure' nofun

theorem throw' {p : EngineError} (h : E p) : (throw p : Operation α).FailsWith E :=
  Keeps.pure' fun _ he => Except.error.inj he ▸ h

theorem bind {f : α → Operation β} (h : op.FailsWith E) (hf : ∀ a, (f a).FailsWith E) :
    (op >>= f).FailsWith E := by
  refine Keeps.bind h fun r _ hr => ?_
  cases r with
  | ok a => exact hf a
  | error p =>
    refine Keeps.pure' fun q hq => ?_
    cases hq
    exact hr p rfl

theorem attempt {act : Engine → Except EngineError α × Engine}
    (h : ∀ e p, (act e).1 = .error p → E p) : (attempt act).FailsWith E :=
  Keeps.atomically fun e _ => ⟨(), trivial, h e⟩

/-- A call fails as the store does. -/
theorem call (r : Request α) : (call r).FailsWith fun p => ∃ q, p = .store q := by
  refine .attempt fun e p hp => ?_
  dsimp only at hp
  generalize (e.store.answer r).1 = answer at hp
  cases answer with
  | ok a =>
    have hp : Except.ok a = Except.error p := hp
    cases hp
  | error q => exact ⟨q, (Except.error.inj hp).symm⟩

theorem change (b : Bucket) (f : BucketData → BucketData) :
    (liftM (b.change f) : Operation Unit).FailsWith E :=
  Keeps.bind (Keeps.change (Q := fun _ _ => True) fun _ _ => ⟨(), trivial, trivial⟩)
    fun _ _ _ => Keeps.pure' nofun

/-- A failure that is looked at is not yet one of the whole. -/
theorem settle {k : Except EngineError α → Operation β} {F : EngineError → Prop}
    (h : op.FailsWith F) (hok : ∀ a, (k (.ok a)).FailsWith E)
    (herr : ∀ p, F p → (k (.error p)).FailsWith E) : (outcome op >>= k).FailsWith E := by
  refine Keeps.bind (P := fun r _ => ∃ r', r = .ok r' ∧ ∀ p, r' = .error p → F p)
    (Keeps.bind h fun r _ hr => Keeps.pure' ⟨r, rfl, hr⟩) ?_
  rintro _ - ⟨r, rfl, hr⟩
  cases r with
  | ok a => exact hok a
  | error p => exact herr p (hr p rfl)

theorem alone (b : Bucket) (h : op.FailsWith E) : (b.alone op).FailsWith E :=
  Keeps.bind (Keeps.whenever (Q := fun _ _ => True) fun _ _ _ => ⟨(), trivial, trivial⟩)
    fun _ _ _ => Keeps.bind h fun _ _ hr =>
      Keeps.bind (Keeps.change (Q := fun _ _ => True) fun _ _ => ⟨(), trivial, trivial⟩)
        fun _ _ _ => Keeps.pure' hr

end FailsWith

end Operation

-- ---- buckets -------------------------------------------------------------

namespace Bucket

open Operation

variable {b : Bucket} {events : List Event}

theorem reserve_error {d : BucketData} (h : ∀ x ∈ events, b.hour.contains x.millis = true)
    (he : b.reserve events d = .error p) :
    p = .bucketDropped s!"{b.hour.key} is {d.state.name}" ∨ p = .bucketFull b.hour.key := by
  have hf : events.find? (fun x => !b.hour.contains x.millis) = none :=
    List.find?_eq_none.mpr fun x hx => by simp [h x hx]
  unfold reserve checkWritable at he
  rw [hf] at he
  split at he
  · simp only [bind, Except.bind] at he
    split at he
    · cases he
    · cases he
      exact .inr rfl
  · cases he
    exact .inl rfl

/-- What keeps a bucket from taking events of its hour has nothing to do with their time. -/
theorem addAll_failsWith (h : ∀ x ∈ events, b.hour.contains x.millis = true) :
    (b.addAll events).FailsWith fun p => ∀ ms, p ≠ .invalidTimestamp ms := by
  unfold addAll
  split
  · exact .pure' []
  refine .alone b (.bind (.attempt fun e p hp ms hms => ?_) fun last =>
    .settle (.call _) (fun _ => ?_) fun p hp => ?_)
  · subst hms
    split at hp
    · cases hp
    · next q hr =>
      cases hp
      rcases reserve_error h hr with he | he <;> cases he
  · exact .bind (.change b _) fun _ => .pure' _
  · obtain ⟨q, rfl⟩ := hp
    refine .bind (.change b _) fun _ => .throw' fun ms hms => ?_
    cases hms

end Bucket

-- ---- hours ---------------------------------------------------------------

/-- The date and the hour of the day of a timestamp, in universal time. -/
def universalHour (ms : Int) : Date × Int :=
  (Date.ofNumber (ms / 86400000), ms % 86400000 / 3600000)

theorem universalHour_eq_iff {ms ms' : Int} :
    universalHour ms = universalHour ms' ↔ ms / 3600000 = ms' / 3600000 := by
  have hdate : Date.ofNumber (ms / 86400000) = Date.ofNumber (ms' / 86400000) ↔
      ms / 86400000 = ms' / 86400000 := by
    refine ⟨fun h => ?_, fun h => h ▸ rfl⟩
    rw [← Date.number_ofNumber (ms / 86400000), h, Date.number_ofNumber]
  rw [universalHour, universalHour, Prod.mk.injEq, hdate]
  omega

namespace EventSet

theorem route_eq_ok {e : Event} {h : Hour} (he : route e = .ok h) :
    h.number = e.millis / 3600000 ∧ h.contains e.millis = true ∧ ∃ t, h.tokenSeconds? = some t := by
  unfold route at he
  split at he
  · next hh =>
    cases he
    have hc := Event.contains_of_hour? hh
    obtain ⟨-, ht⟩ := (Option.filter_eq_some_iff ..).mp hh
    obtain ⟨hs, hend⟩ := Hour.contains_iff.mp hc
    unfold Hour.endMillis Hour.startMillis Hour.startSeconds at *
    exact ⟨by omega, hc, Option.isSome_iff_exists.mp ht⟩
  · cases he

/-- Routed events are in the hours that they are routed to, whose buckets do not turn them away;
they have the same hour if theirs is one hour of universal time; and starts, tokens and keys of the
hours have one order. In the years 0 to 9999 keys and names of maps are read as what they stand for,
and a key that is read is written as it was. -/
theorem hours_of_routed {e e' : Event} {h h' : Hour} (he : route e = .ok h)
    (he' : route e' = .ok h') :
    (h.contains? e.millis = some true ∧ ∀ b : Bucket, b.hour = h → ∀ events : List Event,
      (∀ x ∈ events, route x = .ok h) →
        (b.addAll events).FailsWith fun p => ∀ ms, p ≠ .invalidTimestamp ms) ∧
    (h = h' ↔ universalHour e.millis = universalHour e'.millis) ∧
    (∃ t t', h.tokenSeconds? = some t ∧ h'.tokenSeconds? = some t' ∧
      (compare h h' = .lt ↔ h.startSeconds < h'.startSeconds) ∧
      (t < t' ↔ h.startSeconds < h'.startSeconds) ∧
      (h.key < h'.key ↔ h.startSeconds < h'.startSeconds)) ∧
    (∀ k : Hour, 0 ≤ k.date.year → k.date.year ≤ 9999 →
      Hour.ofKey? k.key = some k ∧ Hour.ofEventsMap? k.eventsMap = some k ∧
        Hour.ofEventsMap? k.optionsMap = none) ∧
    ∀ (text : String) (k : Hour), Hour.ofKey? text = some k → k.key = text := by
  obtain ⟨hn, hc, t, ht⟩ := route_eq_ok he
  obtain ⟨hn', hc', t', ht'⟩ := route_eq_ok he'
  refine ⟨⟨?_, ?_⟩, ?_, ⟨t, t', ht, ht', ?_, ?_, ?_⟩, fun k hy hy' => ?_,
    fun _ _ => Hour.key_of_ofKey?⟩
  · rw [Hour.contains?_of_token ht, hc]
  · rintro b rfl events hroute
    exact Bucket.addAll_failsWith fun x hx => (route_eq_ok (hroute x hx)).2.1
  · rw [universalHour_eq_iff, ← hn, ← hn']
    exact ⟨fun hh => hh ▸ rfl, fun hh => by cases h; cases h'; exact congrArg Hour.mk hh⟩
  · show compare h.number h'.number = .lt ↔ _
    rw [Std.compare_eq_lt]
    unfold Hour.startSeconds
    omega
  · rw [UInt32.lt_iff_toNat_lt, ← Int.ofNat_lt, Hour.toNat_token ht, Hour.toNat_token ht']
  · have hy := Hour.year_of_token ht
    have hy' := Hour.year_of_token ht'
    rw [Hour.key_lt_iff (by unfold Hour.date; omega) (by unfold Hour.date; omega)]
    unfold Hour.startSeconds
    omega
  · have hk := (Hour.ofKey?_key hy hy').1
    exact ⟨hk, Hour.ofEventsMap?_eventsMap_of_key hk, Hour.ofEventsMap?_optionsMap_of_key hk⟩

/-- The last millisecond of a year and the first of the next. -/
theorem hours_of_routed_of_newYear :
    let e := Event.new 1704067199999
    let e' := Event.new 1704067200000
    let h : Hour := ⟨473351⟩
    let h' : Hour := ⟨473352⟩
    route e = .ok h ∧ route e' = .ok h' ∧ h.contains? e.millis = some true ∧
      universalHour e.millis ≠ universalHour e'.millis ∧ h.key < h'.key ∧
      Hour.ofEventsMap? h'.eventsMap = some h' ∧ h'.key = "2024010100" := by
  intro e e' h h'
  have hh : e.hour? = some h := by decide
  have hh' : e'.hour? = some h' := by decide
  have he : route e = .ok h := by rw [route, hh]
  have he' : route e' = .ok h' := by rw [route, hh']
  obtain ⟨⟨hc, -⟩, hsame, ⟨t, t', -, -, -, -, hkey⟩, hnames, hback⟩ := hours_of_routed he he'
  refine ⟨he, he', hc, ?_, ?_, ?_, ?_⟩
  · rw [ne_eq, ← hsame]
    decide
  · rw [hkey]
    decide
  · exact (hnames h' (by decide) (by decide)).2.1
  · exact hback "2024010100" h' rfl

end EventSet

end EventStore
