import EventStore.Proofs.EventSet.Bounded
import Mathlib.Data.List.Flatten

/-!
# The buckets that a query visits

A query looks only into the hours from that of its start to that of its end. A search of any other
hour finds nothing, so a query answers what a search of every bucket would find, one after the other
(`EventSet.query_eq_flatMap_search_iff`). An end in a leap second is the one exception: it belongs
to the hour that it ends, and its millisecond to the next.
-/

namespace EventStore

open Std Query Operation

theorem flatMap_filter_eq_iff {p : α → Bool} {f : α → List β} {l : List α} :
    (l.filter p).flatMap f = l.flatMap f ↔ ∀ a ∈ l, p a = false → f a = [] := by
  induction l with
  | nil => simp
  | cons a l ih =>
    rw [List.forall_mem_cons, ← ih, List.flatMap_cons]
    cases hp : p a with
    | true => simp [hp]
    | false =>
      have hpart : ((l.filter p).flatMap f).Sublist (l.flatMap f) := List.filter_sublist.flatMap f
      rw [List.filter_cons_of_neg (by simp [hp])]
      refine ⟨fun h => ?_, fun ⟨hnil, h⟩ => by rw [hnil rfl, List.nil_append, h]⟩
      have hlen := congrArg List.length h
      rw [List.length_append] at hlen
      have hle := hpart.length_le
      exact ⟨fun _ => List.eq_nil_of_length_eq_zero (by omega), hpart.eq_of_length (by omega)⟩

-- ---- hours beside a range ------------------------------------------------

theorem Hour.number_ofInstant_mono {t u : Instant} (h : t ≤ u) :
    (ofInstant t).number ≤ (ofInstant u).number := by
  rw [Instant.le_iff] at h
  simp only [ofInstant]
  omega

/-- The milliseconds of the hour lie before or after those of the range. -/
def TimeRange.Avoids (r : TimeRange) (hour : Hour) : Prop :=
  r.stop.millis < hour.startMillis ∨ hour.endMillis ≤ r.start.millis

theorem TimeRange.avoids_before {r : TimeRange} {hour : Hour}
    (h : hour.number < (Hour.ofInstant r.start).number) : r.Avoids hour := by
  simp only [Hour.ofInstant] at h
  simp only [Avoids, Instant.millis, Hour.endMillis, Hour.startMillis, Hour.startSeconds]
  omega

theorem TimeRange.avoids_after {r : TimeRange} {hour : Hour}
    (h : (Hour.ofInstant r.stop).number < hour.number) (hn : r.stop.nanos < 1000000000) :
    r.Avoids hour := by
  simp only [Hour.ofInstant] at h
  simp only [Avoids, Instant.millis, Hour.endMillis, Hour.startMillis, Hour.startSeconds]
  omega

namespace Bucket

variable {b : Bucket} {e : Engine} {text : String} {range : TimeRange}

theorem search_result_of_avoids {q : Criteria} (hs : e.cache.Sound) (hc : compile text = .ok q)
    (h : range.Avoids b.hour) (most : Nat) (after : UInt32) (rounds : Nat) :
    (b.search text most after range).result rounds e = some (.ok [], e.asked text) := by
  have hamid (positions : Positions) : b.amid most after range positions = pure [] := if_pos h
  rw [search_result_eq b hs hc, among_result_eq, hamid, result_pure, ite_self]

end Bucket

namespace EventSet

variable {e : Engine} {b : Bucket} {text : String} {range : TimeRange} {token : Token}

-- ---- buckets that are left out -------------------------------------------

def reaches (token : Token) (b : Bucket) : Bool :=
  token.isStart || (token.bucket.toNat : Int) ≤ b.hour.startSeconds

/-- Registered buckets from that of the token on, in the order of time. -/
def reached (e : Engine) (token : Token) : List Bucket := e.buckets.filter (reaches token)

theorem visits_iff : visits range token b = true ↔
    (Hour.ofInstant range.start).number ≤ b.hour.number ∧
      b.hour.number ≤ (Hour.ofInstant range.stop).number ∧ reaches token b = true := by
  simp [visits, reaches, and_assoc]

/-- Buckets that are reached and not visited lie beside the range, or after the hour in which it
ends. -/
theorem flatMap_visits_eq {finds : Bucket → List Event}
    (hfinds : ∀ b ∈ e.buckets, range.Avoids b.hour → finds b = []) :
    (e.buckets.filter (visits range token)).flatMap finds = ((reached e token).filter fun b =>
      b.hour.number ≤ (Hour.ofInstant range.stop).number).flatMap finds := by
  have hsplit : e.buckets.filter (visits range token) = ((reached e token).filter fun b =>
      b.hour.number ≤ (Hour.ofInstant range.stop).number).filter fun b =>
        (Hour.ofInstant range.start).number ≤ b.hour.number := by
    simp only [reached, List.filter_filter]
    refine List.filter_congr fun b _ => ?_
    rw [Bool.eq_iff_iff, visits_iff]
    simp
  rw [hsplit]
  refine flatMap_filter_eq_iff.mpr fun b hb hlt => ?_
  have hb := (List.mem_filter.mp (List.mem_filter.mp hb).1).1
  exact hfinds b hb (TimeRange.avoids_before (by simpa using hlt))

/-- Without a limit a query answers what searches find in the registered buckets from that of the
token on, one after the other, up to the hour in which the range ends. That is all that they find
exactly if there is nothing to be found in later buckets, and so it is unless the range ends in a
leap second. -/
theorem query_eq_flatMap_search_iff {q : Criteria} (h : Evolved false e)
    (ha : e.store.isAvailable = true) (hc : compile text = .ok q) (hr : range.start ≤ range.stop)
    (token : Token) (rounds : Nat) :
    (Hour.ofInstant range.start).number ≤ (Hour.ofInstant range.stop).number ∧
    (reached e token).Pairwise (·.hour.number < ·.hour.number) ∧
    ∃ finds : Bucket → List Event,
      (∀ b ∈ reached e token, ∃ u, (b.search text 0 (after token b) range).result rounds e =
        some (.ok (finds b), u)) ∧
      ∃ found u, (query text range 0 token).result rounds e = some (.ok found, u) ∧
        found = ((reached e token).filter fun b =>
          b.hour.number ≤ (Hour.ofInstant range.stop).number).flatMap finds ∧
        (found = (reached e token).flatMap finds ↔ ∀ b ∈ reached e token,
          (Hour.ofInstant range.stop).number < b.hour.number → finds b = []) ∧
        (range.stop.nanos < 1000000000 → found = (reached e token).flatMap finds) := by
  have h := intact_of_evolved h
  obtain ⟨finds, hfinds⟩ := exists_finds h ha hc range token rounds
  have hregistered {b : Bucket} (hb : b ∈ e.buckets) : Registered b e := by
    obtain ⟨hour, hb⟩ := exists_of_mem_values hb
    exact h.registered hb
  have hempty : ∀ b ∈ e.buckets, range.Avoids b.hour → finds b = [] := by
    intro b hb hav
    have hall := (hfinds b (hregistered hb)).2 e 0 (.refl h.cache)
    rw [Bucket.search_result_of_avoids h.cache hc hav] at hall
    simpa [upTo] using hall
  have hasked := Engine.recalls_asked h.cache text
  have hvisited : ∀ b ∈ e.buckets.filter (visits range token), ∀ u most,
      (e.asked text).Recalls u → (b.search text most (after token b) range).result rounds u =
        some (.ok (upTo most (finds b)), u.asked text) := fun b hb u most hu =>
    (hfinds b (hregistered (List.mem_filter.mp hb).1)).2 u most (hasked.trans hu)
  obtain ⟨u, hquery, -⟩ :=
    searchAll_upTo 0 (h.asked hasked.asked).cache hvisited [] (.inl rfl)
  have hiff : ((reached e token).filter fun b =>
        b.hour.number ≤ (Hour.ofInstant range.stop).number).flatMap finds =
      (reached e token).flatMap finds ↔ ∀ b ∈ reached e token,
        (Hour.ofInstant range.stop).number < b.hour.number → finds b = [] := by
    rw [flatMap_filter_eq_iff]
    simp only [decide_eq_false_iff_not, Int.not_le]
  refine ⟨Hour.number_ofInstant_mono hr, (values_ordered h.hour).filter _, finds, fun b hb => ?_,
    _, u, ?_, rfl, hiff, fun hn => hiff.mpr fun b hb hlt => ?_⟩
  · have hsearch := (hfinds b (hregistered (List.mem_filter.mp hb).1)).2 e 0 (.refl h.cache)
    rw [upTo_of_le (.inl rfl)] at hsearch
    exact ⟨_, hsearch⟩
  · rw [query, checked_result h.cache hc hr, result_bind,
      result_lift_run (run_select (h.asked hasked.asked).free range token rounds)]
    rw [upTo_of_le (.inl rfl), List.nil_append, flatMap_visits_eq hempty] at hquery
    exact hquery
  · exact hempty b (List.mem_filter.mp hb).1 (TimeRange.avoids_after hlt hn)

def acrossHours : TimeRange := ⟨⟨1709647200, 1000000⟩, ⟨1709650800, 0⟩⟩

/-- So it is with events in two hours, after the first of them. -/
theorem query_eq_flatMap_search_iff_of_added : ∃ e, Evolved false e ∧ e.store.isAvailable = true ∧
    compile "" = .ok .all ∧ acrossHours.start ≤ acrossHours.stop ∧ ∃ found u,
      (query "" acrossHours 0 ⟨1709647200, 1⟩).result 0 e = some (.ok found, u) ∧
      found.length = 2 ∧ ∃ finds : Bucket → List Event,
        found = (reached e ⟨1709647200, 1⟩).flatMap finds := by
  have hrun : (Activity.run 0 (addAll ofTwoHours) (.fresh .inMemory .standard .standard)).any
      (fun (_, e) => e.store.isAvailable &&
        ((query "" acrossHours 0 ⟨1709647200, 1⟩).result 0 e).any fun (r, _) =>
          r.toOption.any (·.length == 2)) = true := by decide +kernel
  obtain ⟨⟨report, e⟩, hadd, hrun⟩ := (Option.any_eq_true _ _).mp hrun
  obtain ⟨ha, hrun⟩ := (Bool.and_eq_true ..).mp hrun
  have he : Evolved false e := .addAll (.start (Cache.sound_new _ _)) (by decide +kernel)
    (Activity.ends_of_run Engine.Shaken.refl hadd)
  have hc : compile "" = .ok .all := rfl
  have hr : acrossHours.start ≤ acrossHours.stop := by decide
  obtain ⟨-, -, finds, -, found, u, hquery, -, -, hfound⟩ :=
    query_eq_flatMap_search_iff he ha hc hr ⟨1709647200, 1⟩ 0
  rw [hquery] at hrun
  exact ⟨e, he, ha, hc, hr, found, u, hquery, beq_iff_eq.mp hrun, finds, hfound (by decide)⟩

/-- The range ends half a second into the leap second before the hour of the event. A search of the
hour finds the event, and the query leaves the hour out. -/
theorem query_ne_flatMap_search_of_leapSecond :
    ((do
      let _ ← add (Event.new 1709647200100)
      let found ← query "" ⟨⟨1709643600, 0⟩, ⟨1709647199, 1500000000⟩⟩ 0 .start
      let each ← (← buckets).mapM fun b =>
        b.search "" 0 (after .start b) ⟨⟨1709643600, 0⟩, ⟨1709647199, 1500000000⟩⟩
      return (found.length, each.flatten.length) : Operation (Nat × Nat)).result 0
        (.fresh .inMemory .standard .standard)).map (·.1.toOption) = some (some (0, 1)) := by
  decide +kernel

end EventSet

end EventStore
