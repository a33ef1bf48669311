import EventStore.Proofs.Bucket.Search
import EventStore.Proofs.EventSet.Query
import EventStore.Proofs.EventSet.Throughout

/-!
# A query with a limit

What a bucket answers does not depend on how much it is asked for, except where it stops
(`Bucket.Indexed.search_result`). So a query with a limit answers the first events of those that it
answers without one, and these stand in the order of places (`query_bounded`).
-/

namespace EventStore

open Query Operation

namespace Bucket

variable {b : Bucket} {c : Cell} {e : Engine} {text : String} {after : UInt32}

/-- The events of a bucket that satisfy a query and have ids above `after`. -/
structure Satisfying (b : Bucket) (after : UInt32) (events : List Event) : Prop where
  ascending : events.Pairwise (·.id < ·.id)
  bucket : ∀ x ∈ events, x.bucket = b.id
  above : ∀ x ∈ events, after < x.id

theorem Satisfying.nil (b : Bucket) (after : UInt32) : b.Satisfying after [] :=
  ⟨.nil, nofun, nofun⟩

theorem Satisfying.sublist {events part : List Event} (h : b.Satisfying after events)
    (hs : part.Sublist events) : b.Satisfying after part :=
  ⟨h.ascending.sublist hs, fun x hx => h.bucket x (hs.subset hx),
    fun x hx => h.above x (hs.subset hx)⟩

theorem place_of_loaded? {entries : Entries} {id : UInt32} {x : Event}
    (h : b.loaded? entries id = some x) : x.id = id ∧ x.bucket = b.id := by
  obtain ⟨y, -, rfl⟩ := Option.map_eq_some_iff.mp h
  exact ⟨rfl, rfl⟩

theorem exists_loaded {entries : Entries} {ids : List UInt32}
    (h : ∀ id ∈ ids, (b.loaded? entries id).isSome) :
    ∃ events : List Event, ids = events.map Event.id ∧
      ∀ x ∈ events, b.loaded? entries x.id = some x := by
  induction ids with
  | nil => exact ⟨[], rfl, by simp⟩
  | cons id ids ih =>
    obtain ⟨hid, hids⟩ := List.forall_mem_cons.mp h
    obtain ⟨events, rfl, hx⟩ := ih hids
    obtain ⟨x, hload⟩ := Option.isSome_iff_exists.mp hid
    obtain ⟨rfl, -⟩ := place_of_loaded? hload
    exact ⟨x :: events, rfl, List.forall_mem_cons.mpr ⟨hload, hx⟩⟩

theorem exists_satisfying {q : Criteria} {entries : Entries} {i : Index} {last : UInt32}
    (hi : indexOf entries.toList = .ok (i, last)) (hc : compile text = .ok q) (after : UInt32) :
    ∃ events : List Event, (i.evaluate q).above after = events.map Event.id ∧
      (∀ x ∈ events, b.loaded? entries x.id = some x) ∧ b.Satisfying after events := by
  have hload : ∀ id ∈ (i.evaluate q).above after, (b.loaded? entries id).isSome := by
    intro id hid
    obtain ⟨x, hx, -⟩ := (mem_evaluate_of_indexOf hi hc).mp (Positions.mem_above.mp hid).1
    simp [loaded?, hx]
  obtain ⟨events, hids, hx⟩ := exists_loaded hload
  have hsorted := Positions.sorted_above (i.evaluate q) after
  rw [hids, List.pairwise_map] at hsorted
  refine ⟨events, hids, hx, hsorted.imp Std.compare_eq_lt.mp,
    fun x h => (place_of_loaded? (hx x h)).2, fun x h => ?_⟩
  have hmem : x.id ∈ (i.evaluate q).above after := hids ▸ List.mem_map_of_mem h
  exact (Positions.mem_above.mp hmem).2

theorem among_result_eq (b : Bucket) (e : Engine) (most : Nat) (after : UInt32) (range : TimeRange)
    (positions : Positions) (rounds : Nat) :
    (b.among most after range positions).result rounds e =
      if (e.data b).state = .dropped then some (.ok [], e)
      else (b.amid most after range positions).result rounds e := by
  have hstate : Operation.result rounds (liftM b.state) e = some (.ok (e.data b).state, e) :=
    result_lift ..
  rw [among_eq, result_bind, hstate]
  show (if _ then _ else _ : Operation (List Event)).result rounds e = _
  split <;> rfl

/-- A search goes through the same events of the bucket however many it is asked for. -/
theorem Indexed.amid_result {q : Criteria} (hi : b.Indexed c) (hc : compile text = .ok q)
    (after : UInt32) (range : TimeRange) :
    ∃ all, b.Satisfying after all ∧ ∀ e, e.cell b = c → b.Readable e.store → ∀ most rounds,
      (b.amid most after range (c.data.index.evaluate q)).result rounds e =
        some (.ok (upTo most all), e) := by
  obtain ⟨entries, hentries, hi⟩ := hi
  obtain ⟨events, hids, hload, hsat⟩ := exists_satisfying (b := b) hi hc after
  have hnil (most : Nat) : upTo most [] = [] := by simp [upTo]
  unfold amid
  split
  · exact ⟨[], .nil b after, fun e _ _ most rounds => by rw [hnil, result_pure]⟩
  dsimp only
  split
  · exact ⟨[], .nil b after, fun e _ _ most rounds => by rw [hnil, result_pure]⟩
  have hpart (first : Nat) : b.Satisfying after
      ((events.drop first).filter fun x => range.holds x.millis) :=
    hsat.sublist (List.filter_sublist.trans (List.drop_sublist first events))
  have hloads {e : Engine} (he : e.cell b = c) (hg : b.Readable e.store) (id : UInt32)
      (rounds : Nat) : (b.load id).result rounds e = some (.ok (b.loaded? entries id), e) :=
    load_result (hg id) ((congrFun (congrArg Cell.view he) _).trans hentries) hi rounds
  have hcollect {e : Engine} (he : e.cell b = c) (hg : b.Readable e.store)
      (first most rounds : Nat) : (b.collect range most
        (((c.data.index.evaluate q).above after).drop first) []).result rounds e =
          some (.ok (upTo most ((events.drop first).filter fun x => range.holds x.millis)), e) := by
    rw [hids, ← List.map_drop]
    refine collect_result (fun x hx => ?_) (.inr (Nat.zero_le _))
    rw [hloads he hg, hload x (List.mem_of_mem_drop hx)]
  split
  · refine ⟨_, hpart 0, fun e he hg most rounds => ?_⟩
    rw [result_bind, result_pure]
    exact hcollect he hg 0 most rounds
  · let time (i : Nat) := ((b.loaded? entries
      ((((c.data.index.evaluate q).above after).toArray).getD i 0)).map Event.millis).getD
        Text.minInt64
    refine ⟨_, hpart (Seek.position time range.start.millis
      ((c.data.index.evaluate q).above after).toArray.size), fun e he hg most rounds => ?_⟩
    have htimes (i : Nat) : (b.timeOf ((((c.data.index.evaluate q).above after).toArray).getD i
        0)).result rounds e = some (.ok (time i), e) := timeOf_result (hloads he hg _ rounds)
    rw [result_bind, Seek.seek_result fun i _ => htimes i]
    exact hcollect he hg _ most rounds

/-- What there is in a bucket for a query, of which a search answers as much as it is asked for. -/
theorem Indexed.search_result {q : Criteria} (hi : b.Indexed (e.cell b)) (hg : b.Readable e.store)
    (hc : compile text = .ok q) (after : UInt32) (range : TimeRange) (rounds : Nat) :
    ∃ all, b.Satisfying after all ∧ ∀ u most, e.Recalls u →
      (b.search text most after range).result rounds u =
        some (.ok (upTo most all), u.asked text) := by
  obtain ⟨all, hall, hr⟩ := hi.amid_result hc after range
  by_cases hd : (e.data b).state = .dropped
  · refine ⟨[], .nil b after, ?_⟩
    rintro _ most ⟨cache, hcache, rfl⟩
    rw [search_result_eq b hcache hc, among_result_eq]
    exact (if_pos hd).trans (by simp [upTo])
  · refine ⟨all, hall, ?_⟩
    rintro _ most ⟨cache, hcache, rfl⟩
    rw [search_result_eq b hcache hc, among_result_eq]
    exact (if_neg hd).trans (hr (Engine.asked { e with cache := cache } text) rfl hg most rounds)

end Bucket

namespace EventSet

variable {e : Engine} {text : String} {range : TimeRange} {token : Token}

theorem exists_finds {q : Criteria} (h : Throughout Intact e) (ha : e.store.isAvailable = true)
    (hc : compile text = .ok q) (range : TimeRange) (token : Token) (rounds : Nat) :
    ∃ finds : Bucket → List Event, ∀ b, Registered b e →
      b.Satisfying (after token b) (finds b) ∧ ∀ u most, e.Recalls u →
        (b.search text most (after token b) range).result rounds u =
          some (.ok (upTo most (finds b)), u.asked text) := by
  have hfinds (b : Bucket) : ∃ all, Registered b e → b.Satisfying (after token b) all ∧
      ∀ u most, e.Recalls u → (b.search text most (after token b) range).result rounds u =
        some (.ok (upTo most all), u.asked text) := by
    by_cases hb : Registered b e
    · obtain ⟨all, hall⟩ := (h.each hb).indexed.search_result
        (fun _ => Store.serves_of_isAvailable ha _) hc (after token b) range rounds
      exact ⟨all, fun _ => hall⟩
    · exact ⟨[], fun h => absurd h hb⟩
  choose finds hfinds using hfinds
  exact ⟨finds, hfinds⟩

theorem exists_query_result {q : Criteria} (h : Throughout Intact e)
    (ha : e.store.isAvailable = true) (hc : compile text = .ok q) (hr : range.start ≤ range.stop)
    (token : Token) (rounds : Nat) : ∃ all : List Event, all.Pairwise (·.token.Before ·.token) ∧
      ∀ most, ∃ e', (query text range most token).result rounds e =
        some (.ok (upTo most all), e') := by
  have hu := h.asked (Engine.recalls_asked h.cache text).asked
  obtain ⟨finds, hfinds⟩ := exists_finds hu ha hc range token rounds
  have hreg : ∀ b ∈ e.registry.values, Registered b (e.asked text) := by
    intro b hb
    obtain ⟨hour, hb⟩ := exists_of_mem_values hb
    exact hu.registered hb
  refine ⟨(e.registry.values.filter (visits range token)).flatMap finds, ?_, fun most => ?_⟩
  · exact pairwise_flatMap h.hour (fun b hb => (hfinds b (hreg b hb)).1.ascending)
      (fun b hb => (hfinds b (hreg b hb)).1.bucket) _
  · obtain ⟨e', he, -⟩ := searchAll_upTo most hu.cache
      (fun b hb u most hu => (hfinds b (hreg b (List.mem_filter.mp hb).1)).2 u most hu) []
      (Nat.eq_zero_or_pos most)
    refine ⟨e', ?_⟩
    rw [query, checked_result h.cache hc hr, result_bind,
      result_lift_run (run_select hu.free range token rounds)]
    exact he

/-- With a limit a query answers the first events of those that it answers without one, which stand
in the order of buckets, and within a bucket of ids. If it is refused it is so with every limit. -/
theorem query_bounded (h : Evolved false e) (ha : e.store.isAvailable = true) (text : String)
    (range : TimeRange) (token : Token) (rounds : Nat) : ∃ r e₀,
      (query text range 0 token).result rounds e = some (r, e₀) ∧
      (∀ most, 1 ≤ most → ∃ e₁, (query text range most token).result rounds e =
        some (r.map (·.take most), e₁)) ∧
      ∀ found, r = .ok found → found.Pairwise (·.token.Before ·.token) := by
  have h := intact_of_evolved h
  by_cases hr : range.start ≤ range.stop
  · cases hc : compile text with
    | error p =>
      exact ⟨_, _, query_refused h.cache hc hr 0 token rounds,
        fun most _ => ⟨_, query_refused h.cache hc hr most token rounds⟩,
        fun _ hfound => by cases hfound⟩
    | ok q =>
      obtain ⟨all, hall, hquery⟩ := exists_query_result h ha hc hr token rounds
      obtain ⟨e₀, h₀⟩ := hquery 0
      refine ⟨.ok all, e₀, h₀, fun most hm => ?_, fun _ hfound => Except.ok.inj hfound ▸ hall⟩
      obtain ⟨e₁, h₁⟩ := hquery most
      exact ⟨e₁, h₁.trans (by simp [upTo, Nat.ne_of_gt hm, Except.map])⟩
  · exact ⟨_, _, query_reversed hr 0 token rounds e,
      fun most _ => ⟨_, query_reversed hr most token rounds e⟩,
      fun _ hfound => by cases hfound⟩

/-- Two events of one hour and one of the next, the last first. -/
def ofTwoHours : List Event :=
  [Event.new 1709650800000, Event.new 1709647200000, Event.new 1709647200001]

/-- They are added, and two of the three are asked for. -/
theorem query_bounded_of_added : ∃ e found e₀ e₁, Evolved false e ∧ e.store.isAvailable = true ∧
    (query "" ⟨⟨1709647200, 0⟩, ⟨1709654399, 0⟩⟩ 0 .start).result 0 e = some (.ok found, e₀) ∧
    (query "" ⟨⟨1709647200, 0⟩, ⟨1709654399, 0⟩⟩ 2 .start).result 0 e =
      some (.ok (found.take 2), e₁) ∧
    found.length = 3 ∧ found.Pairwise (·.token.Before ·.token) := by
  have hrun : (Activity.run 0 (addAll ofTwoHours) (.fresh .inMemory .standard .standard)).any
      (fun (_, e) => e.store.isAvailable &&
        ((query "" ⟨⟨1709647200, 0⟩, ⟨1709654399, 0⟩⟩ 0 .start).result 0 e).any fun (r, _) =>
          r.toOption.any (·.length == 3)) = true := by decide +kernel
  obtain ⟨⟨report, e⟩, hadd, hrun⟩ := (Option.any_eq_true _ _).mp hrun
  obtain ⟨ha, hrun⟩ := (Bool.and_eq_true ..).mp hrun
  have he : Evolved false e := .addAll (.start (Cache.sound_new _ _)) (by decide +kernel)
    (Activity.ends_of_run Engine.Shaken.refl hadd)
  obtain ⟨r, e₀, h₀, hfirst, hr⟩ :=
    query_bounded he ha "" ⟨⟨1709647200, 0⟩, ⟨1709654399, 0⟩⟩ .start 0
  obtain ⟨e₁, h₁⟩ := hfirst 2 (by decide)
  rw [h₀] at hrun
  cases r with
  | error p => cases hrun
  | ok found => exact ⟨e, found, e₀, e₁, he, ha, h₀, h₁, beq_iff_eq.mp hrun, hr found rfl⟩

end EventSet

end EventStore
