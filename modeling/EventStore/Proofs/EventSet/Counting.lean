import EventStore.Proofs.EventSet.Restart

/-!
# Counting and querying

The hours that lie in a range as a whole are counted from their indexes, without a look at the times
of events. A count never comes to less than a query finds, and it comes to the same exactly if in
each of these hours the search finds what the index counts (`EventSet.count_eq_length_query_iff`).
So it is unless the range starts in a leap second: such a start is before the next hour, but its
millisecond is one of that hour.
-/

namespace EventStore

open Std Query Operation

theorem length_flatMap_eq_iff {f g : α → List β} {l : List α}
    (h : ∀ a ∈ l, (f a).length ≤ (g a).length) :
    (l.flatMap f).length ≤ (l.flatMap g).length ∧
      ((l.flatMap g).length = (l.flatMap f).length ↔ ∀ a ∈ l, (g a).length = (f a).length) := by
  induction l with
  | nil => simp
  | cons a l ih =>
    obtain ⟨ha, hl⟩ := List.forall_mem_cons.mp h
    obtain ⟨hle, heq⟩ := ih hl
    rw [List.forall_mem_cons, ← heq]
    simp only [List.flatMap_cons, List.length_append]
    omega

namespace EventSet

variable {store : Store} {e : Engine} {logs : HourLogs} {b : Bucket} {text : String}
  {range : TimeRange} {rounds : Nat}

-- ---- hours that lie in the range -----------------------------------------

theorem covers_iff : covers range b = true ↔
    range.start ≤ b.hour.start ∧ b.hour.last ≤ range.stop := by
  simp [covers]

theorem visits_of_covers (h : covers range b = true) : visits range .start b = true := by
  obtain ⟨hstart, hlast⟩ := covers_iff.mp h
  rw [Instant.le_iff] at hstart hlast
  simp only [Hour.start, Hour.last, Hour.startSeconds] at hstart hlast
  have hfirst : range.start.seconds / 3600 ≤ b.hour.number := by omega
  have hlast : b.hour.number ≤ range.stop.seconds / 3600 := by omega
  simp only [visits, Bool.and_eq_true, decide_eq_true_eq, Bool.or_eq_true]
  exact ⟨⟨hfirst, hlast⟩, .inl rfl⟩

theorem found_of_covers {events : List Event}
    (hw : ∀ x ∈ events, b.hour.contains x.millis = true) (hc : covers range b = true)
    (hn : range.start.nanos < 1000000000) : b.found range 0 events = events := by
  obtain ⟨hstart, hlast⟩ := covers_iff.mp hc
  have hstart : range.start.millis ≤ b.hour.startMillis := by
    simpa [Instant.millis, Hour.start, Hour.startMillis] using Instant.millis_le hstart hn
  have hlast : b.hour.endMillis ≤ range.stop.millis + 1 := by
    have := Instant.millis_le hlast (show (999000000 : Nat) < 1000000000 by decide)
    simp only [Instant.millis, Hour.last, Hour.endMillis, Hour.startMillis] at this ⊢
    omega
  have hpassed : b.passed range events = 0 := if_pos hstart
  rw [Bucket.found, hpassed, List.drop_zero, upTo_of_le (.inl rfl), List.filter_eq_self]
  intro x hx
  have := Hour.contains_iff.mp (hw x hx)
  simp only [TimeRange.holds, Bool.and_eq_true, decide_eq_true_eq]
  omega

/-- A search of the bucket finds as many events as its index counts. -/
def Tallies (e : Engine) (b : Bucket) (text : String) (range : TimeRange) (rounds : Nat) : Prop :=
  ∃ found u u', (b.search text 0 0 range).result rounds e = some (.ok found, u) ∧
    (b.countMatching text).result rounds e = some (.ok found.length, u')

theorem tallies_iff {q : Criteria} (h : Holds e logs) (ha : e.store.isAvailable = true)
    (hc : compile text = .ok q) (hb : e.registry[b.hour]? = some b) :
    Tallies e b text range rounds ↔ (b.candidates (logs b.hour) text 0).length =
      (b.found range 0 (b.candidates (logs b.hour) text 0)).length := by
  have hrep := (h.inUse hb).represents
  have hg : b.Readable e.store := fun _ => Store.serves_of_isAvailable ha _
  simp [Tallies, Bucket.search_result hrep h.cache hg hc,
    Bucket.countMatching_result hrep h.cache hc]

-- ---- all buckets ---------------------------------------------------------

/-- What a bucket adds to a count is at least what is found in it, and as much if it is not counted
from its index. -/
theorem counted_found (text : String) (range : TimeRange) (logs : HourLogs) (b : Bucket) :
    (b.found range 0 (b.candidates (logs b.hour) text 0)).length ≤
        (counted text range logs b).length ∧
      ((counted text range logs b).length =
          (b.found range 0 (b.candidates (logs b.hour) text 0)).length ↔
        (covers range b = true → (b.candidates (logs b.hour) text 0).length =
          (b.found range 0 (b.candidates (logs b.hour) text 0)).length)) := by
  unfold counted
  split
  · next hc => simp [hc, (found_sublist _).length_le]
  · next hc => simp [hc]

theorem count_eq_length_listed_iff {q : Criteria} (h : Holds e logs)
    (ha : e.store.isAvailable = true) (hc : compile text = .ok q) (range : TimeRange)
    (rounds : Nat) :
    (listed e logs text range .start).length ≤ ((e.registry.values.filter
        (visits range .start)).flatMap (counted text range logs)).length ∧
      (((e.registry.values.filter (visits range .start)).flatMap
          (counted text range logs)).length = (listed e logs text range .start).length ↔
        ∀ b ∈ e.buckets, covers range b = true → Tallies e b text range rounds) := by
  obtain ⟨hle, heq⟩ := length_flatMap_eq_iff (l := e.registry.values.filter (visits range .start))
    fun b _ => (counted_found text range logs b).1
  refine ⟨hle, heq.trans ⟨fun hall b hb hcov => ?_, fun hall b hb => ?_⟩⟩
  · refine (tallies_iff h ha hc (h.registered_of_mem hb)).mpr ?_
    refine (counted_found text range logs b).2.mp (hall b ?_) hcov
    exact List.mem_filter.mpr ⟨hb, visits_of_covers hcov⟩
  · have hb := (List.mem_filter.mp hb).1
    exact (counted_found text range logs b).2.mpr fun hcov =>
      (tallies_iff h ha hc (h.registered_of_mem hb)).mp (hall b hb hcov)

/-- Where a query can be read, a count never comes to less than the query finds, and to the same
exactly if in every hour that lies in the range the search finds what the index counts. So it is
unless the range starts in a leap second. Where the query cannot be read, both tell why. -/
theorem count_eq_length_query_iff (hv : ∀ m, store.entries? m = none) (h : Lived store e)
    (ha : e.store.isAvailable = true) (text : String) (hr : range.start ≤ range.stop)
    (rounds : Nat) :
    match compile text with
    | .error p => ∃ u u',
      (query text range 0 .start).result rounds e = some (.error (.query p), u) ∧
        (count text range).result rounds e = some (.error (.query p), u')
    | .ok _ => ∃ events n u u',
      (query text range 0 .start).result rounds e = some (.ok events, u) ∧
        (count text range).result rounds e = some (.ok n, u') ∧ events.length ≤ n ∧
        (n = events.length ↔
          ∀ b ∈ e.buckets, covers range b = true → Tallies e b text range rounds) ∧
        (range.start.nanos < 1000000000 → n = events.length) := by
  obtain ⟨logs, hl⟩ := (h.reached hv).holds
  cases hc : compile text with
  | error p =>
    exact ⟨_, _, query_refused hl.cache hc hr .., checked_refused hl.cache hc hr rounds⟩
  | ok q =>
    obtain ⟨u, hquery, -⟩ := query_result hl ha hc hr 0 .start rounds
    obtain ⟨u', hcount⟩ := count_result hl ha hc hr rounds
    obtain ⟨hle, hiff⟩ := count_eq_length_listed_iff hl ha hc range rounds
    refine ⟨_, _, u, u', hquery, hcount, hle, hiff, fun hn => hiff.mpr fun b hb hcov => ?_⟩
    have hb := hl.registered_of_mem hb
    rw [tallies_iff hl ha hc hb, found_of_covers ?_ hcov hn]
    exact (hl.inUse hb).represents.contains

def twoHours : TimeRange := ⟨⟨1709643600, 0⟩, ⟨1709650800, 0⟩⟩

/-- So it is with one event in an hour that lies in the range. -/
theorem count_eq_length_query_iff_of_added : ∃ e : Engine,
    (∀ m, Store.inMemory.entries? m = none) ∧ Lived .inMemory e ∧ e.store.isAvailable = true ∧
      twoHours.start ≤ twoHours.stop ∧ ∃ events n u u',
        (query "level = \"error\"" twoHours 0 .start).result 0 e = some (.ok events, u) ∧
          (count "level = \"error\"" twoHours).result 0 e = some (.ok n, u') ∧
            n = events.length := by
  have hv : ∀ m, Store.inMemory.entries? m = none := fun _ => ExtTreeMap.getElem?_empty
  obtain ⟨_, e, hend, ha⟩ := exists_ends_of_isOk 0 (add Bucket.firstEvent)
    (.fresh .inMemory .standard .standard) (·.store.isAvailable) (by decide +kernel)
  have hl : Lived .inMemory e :=
    .add (.start (Cache.sound_new _ _)) (Bucket.fits_firstEvent _ (List.mem_singleton_self _)) hend
  have hr : twoHours.start ≤ twoHours.stop := by decide
  refine ⟨e, hv, hl, ha, hr, ?_⟩
  have hcounts := count_eq_length_query_iff hv hl ha "level = \"error\"" hr 0
  have hok : (compile "level = \"error\"").isOk = true := by decide +kernel
  cases hc : compile "level = \"error\"" with
  | error p => rw [hc] at hok; cases hok
  | ok q =>
    rw [hc] at hcounts
    obtain ⟨events, n, u, u', hquery, hcount, -, -, heq⟩ := hcounts
    exact ⟨events, n, u, u', hquery, hcount, heq (by decide)⟩

/-- The range starts half a second into the leap second before the hour of the event. The hour lies
in the range, and the event before it. -/
theorem count_ne_length_query_of_leapSecond :
    ((do
      let _ ← add (Event.new 1709647200100)
      let events ← query "" ⟨⟨1709647199, 1500000000⟩, ⟨1709650800, 0⟩⟩ 0 .start
      let n ← count "" ⟨⟨1709647199, 1500000000⟩, ⟨1709650800, 0⟩⟩
      return (events.length, n) : Operation (Nat × Nat)).result 0
        (.fresh .inMemory .standard .standard)).map (·.1.toOption) = some (some (0, 1)) := by
  decide +kernel

end EventSet

end EventStore
