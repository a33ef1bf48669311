import EventStore.Proofs.Bucket.Representation
import EventStore.Proofs.Engine.Seek

/-!
# What a search finds

A search goes through the events that satisfy the query, from the position on at which a seek
for the start of the range has ended (`search_result`). It finds all that it should where the
seek passes no event of the range. -/

namespace EventStore

open Std Query Operation

/-- The first `most` of some events, or all of them if `most` is zero. -/
def upTo (most : Nat) (events : List Event) : List Event :=
  if most = 0 then events else events.take most

theorem mem_of_mem_upTo {x : Event} (h : x ∈ upTo most l) : x ∈ l := by
  unfold upTo at h
  split at h
  · exact h
  · exact List.mem_of_mem_take h

theorem mem_upTo_cons (x : Event) (l : List Event) (most : Nat) : x ∈ upTo most (x :: l) := by
  unfold upTo
  split
  · exact List.mem_cons_self
  · next h0 =>
    obtain ⟨n, rfl⟩ := Nat.exists_eq_succ_of_ne_zero h0
    exact List.mem_cons_self

theorem upTo_of_le (h : most = 0 ∨ l.length ≤ most) : upTo most l = l := by
  unfold upTo
  split
  · rfl
  · next h0 => exact List.take_of_length_le (h.resolve_left h0)

theorem append_upTo (h : most = 0 ∨ l.length < most) (l' : List Event) :
    l ++ upTo (if most = 0 then 0 else most - l.length) l' = upTo most (l ++ l') := by
  unfold upTo
  by_cases h0 : most = 0
  · simp [h0]
  · have hlt : l.length < most := h.resolve_left h0
    have hk : most - l.length ≠ 0 := Nat.sub_ne_zero_of_lt hlt
    rw [if_neg h0, if_neg hk, if_neg h0, List.take_append,
      List.take_of_length_le (Nat.le_of_lt hlt)]

theorem upTo_append_of_full (h : 0 < most ∧ most ≤ (upTo most l).length) (l' : List Event) :
    upTo most (l ++ l') = upTo most l := by
  obtain ⟨h0, hl⟩ := h
  rw [upTo, if_neg (Nat.ne_of_gt h0), List.length_take] at hl
  rw [upTo, if_neg (Nat.ne_of_gt h0), upTo, if_neg (Nat.ne_of_gt h0),
    List.take_append_of_le_length (Nat.le_trans hl (Nat.min_le_right ..))]

theorem upTo_of_not_full (h : ¬ (0 < most ∧ most ≤ (upTo most l).length)) :
    upTo most l = l ∧ (most = 0 ∨ l.length < most) := by
  by_cases h0 : most = 0
  · exact ⟨upTo_of_le (.inl h0), .inl h0⟩
  · rw [upTo, if_neg h0, List.length_take] at h
    have hlt : l.length < most := by omega
    exact ⟨upTo_of_le (.inr (Nat.le_of_lt hlt)), .inr hlt⟩

namespace Bucket

variable {b : Bucket} {log : List Event} {query : String} {after : UInt32}
  {range : TimeRange} {most : Nat}

/-- The log's events above an id that satisfy a query, as they are stored. -/
def candidates (b : Bucket) (log : List Event) (query : String) (after : UInt32) : List Event :=
  (b.numbered 0 log).filter fun e => after < e.id && satisfies query e.properties

/-- How many candidates a search leaves out. -/
def passed (b : Bucket) (range : TimeRange) (events : List Event) : Nat :=
  if range.start.millis ≤ b.hour.startMillis then 0
  else
    Seek.position (fun i => (events[i]?.map Event.millis).getD Text.minInt64) range.start.millis
      events.length

/-- What a search answers. -/
def found (b : Bucket) (range : TimeRange) (most : Nat) (events : List Event) : List Event :=
  upTo most ((events.drop (b.passed range events)).filter fun e => range.holds e.millis)

-- ---- the parts of a search -----------------------------------------------

theorem mem_candidates {x : Event} (hr : log.length < 4294967296) :
    x ∈ b.candidates log query after ↔
      b.committed? log x.id = some x ∧ after < x.id ∧ satisfies query x.properties = true := by
  simp [candidates, mem_numbered_zero hr]

/-- The ids in the index that satisfy a query are those of the candidates. -/
theorem above_evaluate {q : Criteria} (hr : b.Represents log c) (hc : compile query = .ok q)
    (after : UInt32) :
    Positions.above (c.data.index.evaluate q) after =
      (b.candidates log query after).map Event.id := by
  have hlen := hr.kept.room
  have hlt : ((b.candidates log query after).map Event.id).Pairwise
      fun p q => compare p q = .lt := by
    refine List.pairwise_map.mpr (((pairwise_numbered ?_).filter _).imp fun {x y} h => ?_)
    · simpa using hlen
    · exact Std.compare_eq_lt.mpr h
  refine eq_of_ascending (fun p : UInt32 => p) (Positions.sorted_above _ _) hlt fun p => ?_
  rw [Positions.mem_above, hr.mem_evaluate hc, List.mem_map]
  constructor
  · rintro ⟨⟨x, hx, hs⟩, ha⟩
    obtain rfl := id_of_committed? hx
    exact ⟨x, (mem_candidates hlen).mpr ⟨hx, ha, hs⟩, rfl⟩
  · rintro ⟨x, hx, rfl⟩
    obtain ⟨hx, ha, hs⟩ := (mem_candidates hlen).mp hx
    exact ⟨⟨x, hx, hs⟩, ha⟩

def Readable (b : Bucket) (s : Store) : Prop := ∀ id, s.Serves (.get b.eventsMap (idKey id))

theorem Represents.load_result {e : Engine} (hr : b.Represents log (e.cell b))
    (hg : b.Readable e.store) (hl : log ≠ []) (id : UInt32) (rounds : Nat) :
    (b.load id).result rounds e = some (.ok (b.committed? log id), e) := by
  have he := hr.kept.entries b rfl
  have hi := hr.kept.indexOf_eq
  cases hes : (e.cell b).view b.eventsMap with
  | none =>
    obtain ⟨x, log, rfl⟩ := List.exists_cons_of_ne_nil hl
    rw [hes] at he
    cases he
  | some es =>
    rw [hes, Option.getD_some] at hi
    rw [Bucket.load_result (hg id) hes hi, hr.kept.loaded?_eq (by rw [hes, Option.getD_some])]

theorem timeOf_result {e : Engine} {id : UInt32}
    (h : (b.load id).result rounds e = some (.ok x, e)) :
    (b.timeOf id).result rounds e = some (.ok ((x.map Event.millis).getD Text.minInt64), e) := by
  rw [timeOf, result_bind, h]
  rfl

/-- Going on from what has been found before, which is the latest first. -/
theorem collect_result {e : Engine} {events : List Event} {before : List Event}
    (h : ∀ x ∈ events, (b.load x.id).result rounds e = some (.ok (some x), e))
    (hb : most = 0 ∨ before.length ≤ most) :
    (b.collect range most (events.map Event.id) before).result rounds e =
      some (.ok (upTo most
        (before.reverse ++ events.filter fun x => range.holds x.millis)), e) := by
  induction events generalizing before with
  | nil =>
    rw [List.map_nil, collect, List.filter_nil, List.append_nil, upTo_of_le (by simpa using hb)]
    exact result_pure ..
  | cons x events ih =>
    have ht : ∀ y ∈ events, (b.load y.id).result rounds e = some (.ok (some y), e) :=
      fun y hy => h y (List.mem_cons_of_mem _ hy)
    rw [List.map_cons, collect]
    split
    · next hm =>
      have hall : upTo most before.reverse = before.reverse := upTo_of_le (by simpa using hb)
      rw [upTo_append_of_full ⟨hm.1, by simpa [hall] using hm.2⟩, hall]
      exact result_pure ..
    · next hm =>
      have hlt : most = 0 ∨ before.length < most := by omega
      rw [result_bind, h x (by simp)]
      show (b.collect range most (events.map Event.id) _).result rounds e = _
      cases hx : range.holds x.millis with
      | true =>
        refine (ih ht (by simpa [Nat.succ_le_iff] using hlt)).trans ?_
        simp [hx]
      | false =>
        refine (ih ht (hlt.imp_right Nat.le_of_lt)).trans ?_
        simp [hx]

theorem found_of_outside {events : List Event} (hw : ∀ x ∈ events, b.hour.contains x.millis = true)
    (h : range.stop.millis < b.hour.startMillis ∨ b.hour.endMillis ≤ range.start.millis) :
    b.found range most events = [] := by
  have hn : ∀ k, (events.drop k).filter (fun x => range.holds x.millis) = [] := by
    intro k
    refine List.filter_eq_nil_iff.mpr fun x hx => ?_
    have := Hour.contains_iff.mp (hw x (List.mem_of_mem_drop hx))
    simp only [TimeRange.holds, Bool.and_eq_true, decide_eq_true_eq]
    omega
  rw [found, hn, upTo, List.take_nil, ite_self]

theorem Represents.contains (hr : b.Represents log c) :
    ∀ x ∈ b.candidates log query after, b.hour.contains x.millis = true := by
  intro x hx
  obtain ⟨hx, -, -⟩ := (mem_candidates hr.kept.room).mp hx
  unfold committed? at hx
  split at hx
  · cases hx
  · obtain ⟨y, hy, he⟩ := Option.map_eq_some_iff.mp hx
    rw [show x.millis = y.millis from (congrArg Event.millis he).symm]
    exact hr.kept.within y (List.mem_of_getElem? hy)

section

variable {e : Engine} {ids : Array UInt32} {events : List Event} {rounds : Nat}
  (hids : ids.toList = events.map Event.id)
  (hload : ∀ x ∈ events, (b.load x.id).result rounds e = some (.ok (some x), e))
include hids hload

theorem collect_drop_result (range : TimeRange) (most first : Nat) :
    (b.collect range most (ids.toList.drop first) []).result rounds e =
      some (.ok (upTo most ((events.drop first).filter fun x => range.holds x.millis)), e) := by
  rw [hids, ← List.map_drop]
  exact collect_result (fun x hx => hload x (List.mem_of_mem_drop hx)) (.inr (Nat.zero_le _))

theorem timeAt_result {i : Nat} (hi : i < ids.size) : (b.timeOf (ids.getD i 0)).result rounds e =
    some (.ok ((events[i]?.map Event.millis).getD Text.minInt64), e) := by
  have hid : ids.getD i 0 = (events[i]?.map Event.id).getD 0 := by
    rw [Array.getD_eq_getD_getElem?, ← Array.getElem?_toList, hids, List.getElem?_map]
  have hlt : i < events.length := by
    rwa [← Array.length_toList, hids, List.length_map] at hi
  rw [hid, List.getElem?_eq_getElem hlt]
  exact timeOf_result (hload _ (List.getElem_mem hlt))

end

/-- What a search finds, whatever the order of times. -/
theorem search_result {q : Criteria} {e : Engine} (hr : b.Represents log (e.cell b))
    (hs : e.cache.Sound) (hg : b.Readable e.store) (hc : compile query = .ok q) (most : Nat)
    (after : UInt32) (range : TimeRange) (rounds : Nat) :
    (b.search query most after range).result rounds e =
      some (.ok (b.found range most (b.candidates log query after)), e.asked query) := by
  have hm := matching_result b query hs hc rounds
  -- Looking the query up has changed nothing but the cache.
  replace hr : b.Represents log ((e.asked query).cell b) := hr
  replace hg : b.Readable (e.asked query).store := hg
  rw [search, result_bind, hm]
  show Operation.result rounds (liftM b.state >>= _) (e.asked query) = _
  rw [result_bind, state, Bucket.observe, Activity.observe, result_lift]
  show Operation.result rounds (if (e.data b).state = .dropped then _ else _) (e.asked query) = _
  split
  · next hd =>
    obtain ⟨rfl, -⟩ := hr.dropped hd
    rw [result_pure]
    simp [candidates, numbered, found, upTo]
  split
  · next ho =>
    rw [result_pure, found_of_outside hr.contains ho]
  have hids : ((((e.data b).index.evaluate q).above after).toArray).toList =
      (b.candidates log query after).map Event.id := above_evaluate hr hc after
  generalize (((e.data b).index.evaluate q).above after).toArray = ids at hids
  by_cases he : b.candidates log query after = []
  · have : ids.isEmpty = true := by
      rw [he, List.map_nil, Array.toList_eq_nil_iff] at hids
      rw [hids]
      rfl
    rw [he]
    simp [this, result_pure, found, upTo]
  have hne : ¬ ids.isEmpty = true := by
    intro h
    rw [Array.isEmpty_iff.mp h] at hids
    exact he (List.map_eq_nil_iff.mp hids.symm)
  have hlog : log ≠ [] := by
    rintro rfl
    exact he rfl
  have hload (x : Event) (hx : x ∈ b.candidates log query after) :
      (b.load x.id).result rounds (e.asked query) = some (.ok (some x), e.asked query) := by
    rw [hr.load_result hg hlog, ((mem_candidates hr.kept.room).mp hx).1]
  rw [if_neg hne]
  show Operation.result rounds (if _ then _ else _) _ = _
  split
  · next hb =>
    rw [result_bind, result_pure]
    refine (collect_drop_result hids hload range most 0).trans ?_
    rw [found, passed, if_pos hb]
  · next hb =>
    rw [result_bind, Seek.seek_result fun i hi => timeAt_result hids hload hi]
    refine (collect_drop_result hids hload range most _).trans ?_
    rw [found, passed, if_neg hb, ← Array.length_toList, hids, List.length_map]

-- ---- when nothing is left out --------------------------------------------

def sought (range : TimeRange) (most : Nat) (events : List Event) : List Event :=
  upTo most (events.filter fun e => range.holds e.millis)

/-- A search finds what it should exactly if no event of the range is passed. -/
theorem found_eq_sought_iff {events : List Event} (hd : events.Nodup) :
    b.found range most events = sought range most events ↔
      ∀ x ∈ events.take (b.passed range events), range.holds x.millis = false := by
  have hsplit : (events.filter fun x => range.holds x.millis) =
      ((events.take (b.passed range events)).filter fun x => range.holds x.millis) ++
        (events.drop (b.passed range events)).filter fun x => range.holds x.millis := by
    rw [← List.filter_append, List.take_append_drop]
  constructor
  · intro h x hx
    cases hp : range.holds x.millis with
    | false => rfl
    | true =>
      -- Otherwise the first event passed would have been found, among those that are not passed.
      have hm : x ∈ (events.take (b.passed range events)).filter fun x => range.holds x.millis :=
        List.mem_filter.mpr ⟨hx, hp⟩
      obtain ⟨y, l, hl⟩ := List.exists_cons_of_ne_nil (List.ne_nil_of_mem hm)
      rw [found, sought, hsplit, hl, List.cons_append] at h
      have hy : y ∈ (events.drop (b.passed range events)).filter fun x => range.holds x.millis :=
        mem_of_mem_upTo (h ▸ mem_upTo_cons y _ most)
      have hy' : y ∈ (events.take (b.passed range events)).filter fun x => range.holds x.millis :=
        hl ▸ List.mem_cons_self
      rw [← List.take_append_drop (b.passed range events) events, List.nodup_append] at hd
      exact absurd rfl (hd.2.2 y (List.mem_filter.mp hy').1 y (List.mem_filter.mp hy).1)
  · intro h
    have : (events.take (b.passed range events)).filter (fun x => range.holds x.millis) = [] := by
      simpa [List.filter_eq_nil_iff] using h
    rw [found, sought, hsplit, this, List.nil_append]

/-- Nothing of the range is passed where the range begins with the hour or before, where there are
only few events, and where times do not decrease. -/
theorem holds_passed {events : List Event}
    (h : range.start.millis ≤ b.hour.startMillis ∨ events.length ≤ Seek.smallWindow ∨
      events.Pairwise (·.millis ≤ ·.millis)) :
    ∀ x ∈ events.take (b.passed range events), range.holds x.millis = false := by
  intro x hx
  have hlt : ¬ range.start.millis ≤ b.hour.startMillis →
      ∃ i < Seek.position (fun i => (events[i]?.map Event.millis).getD Text.minInt64)
        range.start.millis events.length, events[i]? = some x := by
    intro hn
    rw [passed, if_neg hn] at hx
    obtain ⟨i, hi⟩ := List.getElem?_of_mem hx
    rw [List.getElem?_take] at hi
    split at hi
    · next hlt => exact ⟨i, hlt, hi⟩
    · cases hi
  -- What is passed is too early for the range.
  have hearly : ¬ range.start.millis ≤ b.hour.startMillis → x.millis < range.start.millis := by
    intro hn
    obtain ⟨i, hlt, hi⟩ := hlt hn
    have : (events[i]?.map Event.millis).getD Text.minInt64 < range.start.millis := by
      rcases h with h | h | h
      · exact absurd h hn
      · exact Seek.position_small h i hlt
      · refine (Seek.position_sorted fun j k hjk hk => ?_).1 i hlt
        rw [List.getElem?_eq_getElem hk, List.getElem?_eq_getElem (Nat.lt_of_le_of_lt hjk hk)]
        rcases Nat.eq_or_lt_of_le hjk with rfl | hjk
        · exact Int.le_refl _
        · exact List.pairwise_iff_getElem.mp h j k _ hk hjk
    simpa [hi] using this
  by_cases hn : range.start.millis ≤ b.hour.startMillis
  · rw [passed, if_pos hn] at hx
    cases hx
  · have := hearly hn
    simp [TimeRange.holds, Int.not_le.mpr this]

theorem nodup_candidates (hr : log.length < 4294967296) : (b.candidates log query after).Nodup := by
  refine ((pairwise_numbered (by simpa using hr)).imp fun {x y} h => ?_).filter _
  rintro rfl
  exact UInt32.lt_irrefl _ h

/-- The first event lies in the second half of the hour, and twenty more in the first. -/
def lateFirst : List Event :=
  Event.new 1709649000000 :: (List.range 20).map fun i => Event.new (1709647800000 + Int64.ofNat i)

/-- A seek among these, for a time between, ends behind them all and passes the event that was
sought. -/
theorem search_passes_lateFirst :
    ((do
      let b ← openAt ⟨474902⟩
      let _ ← b.addAll lateFirst
      b.search "" 0 0 ⟨⟨1709648400, 0⟩, ⟨1709650799, 0⟩⟩ : Operation (List Event)).result 0
        (.fresh .inMemory .standard .standard)).map (·.1.toOption) = some (some []) ∧
      sought ⟨⟨1709648400, 0⟩, ⟨1709650799, 0⟩⟩ 0 lateFirst = [Event.new 1709649000000] := by
  constructor <;> decide +kernel

end Bucket

end EventStore
