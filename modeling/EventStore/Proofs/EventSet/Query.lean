import EventStore.Proofs.Bucket.Search
import EventStore.Proofs.EventSet.History

/-!
# What a set answers to a query

In a store that takes every call a query answers the events that its buckets find, one bucket
after the other (`query_result`). They stand in the order of places, after the token. Where no
bucket passes an event of the range they are all stored events that satisfy the query, lie in
the range and come after the token (`mem_listed_iff`).
-/

namespace EventStore

open Std Query Operation

-- ---- places --------------------------------------------------------------

/-- Places are in the order of buckets, and within a bucket of ids. -/
def Token.Before (t u : Token) : Prop := t.bucket < u.bucket ∨ t.bucket = u.bucket ∧ t.id < u.id

namespace Token

variable {t u v : Token}

theorem Before.irrefl (t : Token) : ¬ t.Before t := by
  rintro (h | ⟨-, h⟩) <;> exact UInt32.lt_irrefl _ h

theorem Before.trans (h : t.Before u) (h' : u.Before v) : t.Before v := by
  rcases h with h | ⟨he, h⟩ <;> rcases h' with h' | ⟨he', h'⟩
  · exact .inl (UInt32.lt_trans h h')
  · exact .inl (he' ▸ h)
  · exact .inl (he ▸ h')
  · exact .inr ⟨he.trans he', UInt32.lt_trans h h'⟩

end Token

/-- Whether a range takes a time. A leap second at the end of an hour is before the next hour. -/
def TimeRange.Takes (r : TimeRange) (ms : Int) : Prop :=
  r.holds ms = true ∧ ms / 3600000 ≤ (Hour.ofInstant r.stop).number

theorem TimeRange.takes_iff {r : TimeRange} (h : r.stop.nanos < 1000000000) (ms : Int) :
    r.Takes ms ↔ r.holds ms = true := by
  refine and_iff_left_of_imp fun hm => ?_
  simp only [holds, Bool.and_eq_true, decide_eq_true_eq] at hm
  unfold Instant.millis at hm
  show ms / 3600000 ≤ r.stop.seconds / 3600
  omega

theorem Bucket.toNat_id (b : Bucket) : (b.id.toNat : Int) = b.hour.startSeconds :=
  Hour.toNat_token b.named

-- ---- stored events -------------------------------------------------------

/-- The store holds the event, as it is handed out. -/
def Engine.Stores (e : Engine) (x : Event) : Prop :=
  ∃ (b : Bucket) (es : Entries), e.store.entries? b.eventsMap = some es ∧ b.loaded? es x.id = some x

/-- Only the cache differs, and it still only remembers. -/
def Engine.Recalls (e e' : Engine) : Prop :=
  ∃ cache, Cache.Sound cache ∧ e' = { e with cache := cache }

theorem Engine.Recalls.refl {e : Engine} (h : e.cache.Sound) : e.Recalls e := ⟨e.cache, h, rfl⟩

theorem Engine.Recalls.trans {e e' e'' : Engine} (h : e.Recalls e') (h' : e'.Recalls e'') :
    e.Recalls e'' := by
  obtain ⟨cache, -, rfl⟩ := h
  obtain ⟨cache', hc, rfl⟩ := h'
  exact ⟨cache', hc, rfl⟩

theorem Engine.Recalls.asked {e e' : Engine} (h : e.Recalls e') : e.Asked e' := by
  obtain ⟨cache, hc, rfl⟩ := h
  exact ⟨e.store.faults, e.clock, cache, Nat.le_refl _, hc, rfl⟩

theorem Engine.recalls_asked {e : Engine} (hs : e.cache.Sound) (text : String) :
    e.Recalls (e.asked text) :=
  ⟨_, (hs.getOrCompile e.clock text).2, rfl⟩

namespace EventSet

variable {e e' : Engine} {logs logs' : HourLogs} {b : Bucket} {hour : Hour}
  {bs : List Bucket} {x y : Event} {text : String} {range : TimeRange} {token : Token}

theorem bucket_of_committed? {log : List Event} {id : UInt32} (h : b.committed? log id = some x) :
    x.bucket = b.id ∧ 0 < x.id := by
  unfold Bucket.committed? at h
  split at h
  · cases h
  · next h0 =>
    obtain ⟨y, -, rfl⟩ := Option.map_eq_some_iff.mp h
    exact ⟨rfl, UInt32.pos_iff_ne_zero.mpr h0⟩

theorem committed?_congr {b' : Bucket} (h : b'.hour = b.hour) (log : List Event) (id : UInt32) :
    b'.committed? log id = b.committed? log id := by
  rw [Bucket.committed?, Bucket.id_congr h, Bucket.committed?]

theorem committed?_of_prefix {log log' : List Event} {id : UInt32} (hl : log <+: log')
    (h : b.committed? log id = some x) : b.committed? log' id = some x := by
  unfold Bucket.committed? at h ⊢
  split at h
  · cases h
  · next h0 =>
    obtain ⟨y, hy, rfl⟩ := Option.map_eq_some_iff.mp h
    obtain ⟨more, rfl⟩ := hl
    rw [if_neg h0, List.getElem?_append_left (List.getElem?_eq_some_iff.mp hy).1, hy]
    rfl

theorem Stands.stores_iff (h : Stands e logs) : e.Stores x ↔
    ∃ (b : Bucket), e.registry[b.hour]? = some b ∧ b.committed? (logs b.hour) x.id = some x := by
  constructor
  · rintro ⟨b, es, hes, hl⟩
    rw [(h.kept b.hour).loaded?_eq (by rw [hes, Option.getD_some])] at hl
    cases hb : e.registry[b.hour]? with
    | none =>
      rw [h.absent hb] at hl
      simp [Bucket.committed?] at hl
    | some b' =>
      have hh := h.hour hb
      refine ⟨b', hh ▸ hb, ?_⟩
      rw [committed?_congr hh, hh]
      exact hl
  · rintro ⟨b, hb, hc⟩
    have hu := h.inUse hb
    obtain ⟨he, -⟩ := hu.represents.there hu.writable
    obtain ⟨es, hes⟩ := Option.isSome_iff_exists.mp he
    refine ⟨b, es, hes, ?_⟩
    have he : (e.store.entries? b.eventsMap).getD ∅ = es := by
      rw [show e.store.entries? b.eventsMap = some es from hes, Option.getD_some]
    rw [(h.kept b.hour).loaded?_eq he]
    exact hc

theorem Stands.stores_mono (h : Stands e logs) (h' : Stands e' logs') (hg : logs.Grow logs')
    (hx : e.Stores x) :
    e'.Stores x := by
  obtain ⟨b, hb, hc⟩ := h.stores_iff.mp hx
  have hc' := committed?_of_prefix (hg b.hour) hc
  cases hb' : e'.registry[b.hour]? with
  | none =>
    rw [h'.absent hb'] at hc'
    simp [Bucket.committed?] at hc'
  | some b' =>
    have hh := h'.hour hb'
    refine h'.stores_iff.mpr ⟨b', hh ▸ hb', ?_⟩
    rw [committed?_congr hh, hh]
    exact hc'

-- ---- the parts of a query ------------------------------------------------

theorem run_ofRegistry {α : Type} (hf : e.registering = false)
    (f : ExtTreeMap Hour Bucket compare → α) (rounds : Nat) :
    Activity.run rounds (do return f (← registry)) e = some (f e.registry, e) := by
  show (if (!e.registering) = true then _ else _) = _
  rw [hf]
  rfl

theorem run_select (h : e.registering = false) (range : TimeRange) (token : Token) (rounds : Nat) :
    Activity.run rounds (select range token) e =
      some (e.registry.values.filter (visits range token), e) :=
  run_ofRegistry h (·.values.filter (visits range token)) rounds

def gathered (text : String) (range : TimeRange) (token : Token) (logs : HourLogs)
    (bs : List Bucket) : List Event :=
  bs.flatMap fun b => b.found range 0 (b.candidates (logs b.hour) text (after token b))

theorem Holds.recalls (h : Holds e logs) (hr : e.Recalls e') : Holds e' logs := h.asked hr.asked

/-- If each bucket answers the first of what it has, as many as it is asked for, so do all of them
one after the other. -/
theorem searchAll_upTo {finds : Bucket → List Event} (most : Nat) (hs : e.cache.Sound)
    (hbs : ∀ b ∈ bs, ∀ u most, e.Recalls u →
      (b.search text most (after token b) range).result rounds u =
        some (.ok (upTo most (finds b)), u.asked text))
    (found : List Event) (hm : most = 0 ∨ found.length < most) :
    ∃ e', (searchAll text range most token bs found).result rounds e =
      some (.ok (upTo most (found ++ bs.flatMap finds)), e') ∧ e.Recalls e' := by
  induction bs generalizing e found with
  | nil =>
    refine ⟨e, ?_, .refl hs⟩
    rw [searchAll, List.flatMap_nil, List.append_nil, upTo_of_le (hm.imp_right Nat.le_of_lt)]
    exact result_pure ..
  | cons b bs ih =>
    have hr := Engine.recalls_asked hs text
    rw [searchAll, result_bind, hbs b List.mem_cons_self e _ (.refl hs), List.flatMap_cons]
    show ∃ e', Operation.result rounds (if 0 < most ∧ most ≤ (found ++ _).length then _ else _)
      (e.asked text) = _ ∧ _
    rw [append_upTo hm, ← List.append_assoc]
    split
    · next hfull =>
      rw [upTo_append_of_full hfull]
      exact ⟨e.asked text, result_pure .., hr⟩
    · next hfew =>
      -- The search goes on with the next bucket, since this one has had too few events.
      obtain ⟨hall, hm'⟩ := upTo_of_not_full hfew
      rw [hall]
      obtain ⟨e', hres, hr'⟩ := ih (hs.getOrCompile e.clock text).2
        (fun b hb u most hu => hbs b (List.mem_cons_of_mem _ hb) u most (hr.trans hu))
        (found ++ finds b) hm'
      exact ⟨e', hres, hr.trans hr'⟩

theorem searchAll_result {q : Criteria} (range : TimeRange) {most : Nat} (token : Token)
    (found : List Event) (h : Holds e logs) (ha : e.store.isAvailable = true)
    (hc : compile text = .ok q) (hbs : ∀ b ∈ bs, e.registry[b.hour]? = some b)
    (hm : most = 0 ∨ found.length < most) (rounds : Nat) :
    ∃ e', (searchAll text range most token bs found).result rounds e =
      some (.ok (upTo most (found ++ gathered text range token logs bs)), e') ∧ e.Recalls e' := by
  refine searchAll_upTo _ h.cache (fun b hb u most hu => ?_) found hm
  have hrep := ((h.recalls hu).inUse (by obtain ⟨cache, -, rfl⟩ := hu; exact hbs b hb)).represents
  have hg : b.Readable u.store := by
    obtain ⟨cache, -, rfl⟩ := hu
    exact fun _ => Store.serves_of_isAvailable ha _
  exact Bucket.search_result hrep (h.recalls hu).cache hg hc most _ range rounds

/-- What a query goes through, in the order in which it does. -/
def listed (e : Engine) (logs : HourLogs) (text : String) (range : TimeRange) (token : Token) :
    List Event :=
  gathered text range token logs (e.registry.values.filter (visits range token))

theorem Stands.registered_of_mem (h : Stands e logs) (hb : b ∈ e.registry.values) :
    e.registry[b.hour]? = some b := by
  obtain ⟨hour, hb⟩ := exists_of_mem_values hb
  rw [h.hour hb]
  exact hb

section

variable {α : Type} {k : Operation α}

theorem checked_reversed (hr : ¬ range.start ≤ range.stop) (rounds : Nat) (e : Engine) :
    (do checkRange range; let _ ← Bucket.criteria text; k : Operation α).result rounds e =
      some (.error (.query (.badTimeRange range.reversedText)), e) := by
  have hcheck : checkRange range = .error (.query (.badTimeRange range.reversedText)) := if_neg hr
  rw [hcheck, result_bind]
  rfl

theorem checked_refused {p : QueryError} (hs : e.cache.Sound) (hc : compile text = .error p)
    (hr : range.start ≤ range.stop) (rounds : Nat) :
    (do checkRange range; let _ ← Bucket.criteria text; k : Operation α).result rounds e =
      some (.error (.query p), e.asked text) := by
  have hcheck : checkRange range = .ok () := if_pos hr
  rw [hcheck, result_bind]
  show Operation.result rounds (Bucket.criteria text >>= _) e = _
  rw [result_bind, Bucket.criteria, result_attempt]
  simp only [(hs.getOrCompile e.clock text).1, hc]
  rfl

theorem checked_result {q : Criteria} (hs : e.cache.Sound) (hc : compile text = .ok q)
    (hr : range.start ≤ range.stop) (rounds : Nat) :
    (do checkRange range; let _ ← Bucket.criteria text; k : Operation α).result rounds e =
      k.result rounds (e.asked text) := by
  have hcheck : checkRange range = .ok () := if_pos hr
  rw [hcheck, result_bind]
  show Operation.result rounds (Bucket.criteria text >>= _) e = _
  rw [result_bind, Bucket.criteria_result hs hc]
  rfl

end

/-- A query answers the first events of those that it goes through. -/
theorem query_result {q : Criteria} (h : Holds e logs) (ha : e.store.isAvailable = true)
    (hc : compile text = .ok q) (hr : range.start ≤ range.stop) (most : Nat) (token : Token)
    (rounds : Nat) :
    ∃ e', (query text range most token).result rounds e =
      some (.ok (upTo most (listed e logs text range token)), e') ∧ e.Recalls e' := by
  have hasked := Engine.recalls_asked h.cache text
  have h₁ := h.recalls hasked
  obtain ⟨e', hres, hr'⟩ := searchAll_result range token [] h₁ ha hc
    (fun b hb => h₁.registered_of_mem (List.mem_filter.mp hb).1) (Nat.eq_zero_or_pos most) rounds
  refine ⟨e', ?_, hasked.trans hr'⟩
  rw [query, checked_result h.cache hc hr, result_bind,
    result_lift_run (run_select h₁.free range token rounds)]
  exact hres

theorem query_reversed (hr : ¬ range.start ≤ range.stop) (most : Nat) (token : Token) (rounds : Nat)
    (e : Engine) :
    (query text range most token).result rounds e =
      some (.error (.query (.badTimeRange range.reversedText)), e) :=
  checked_reversed hr rounds e

theorem query_refused {p : QueryError} (hs : e.cache.Sound) (hc : compile text = .error p)
    (hr : range.start ≤ range.stop) (most : Nat) (token : Token) (rounds : Nat) :
    (query text range most token).result rounds e = some (.error (.query p), e.asked text) :=
  checked_refused hs hc hr rounds

-- ---- what a query goes through -------------------------------------------

theorem values_ordered {r : ExtTreeMap Hour Bucket compare}
    (h : ∀ {hour : Hour} {b : Bucket}, r[hour]? = some b → b.hour = hour) :
    r.values.Pairwise (·.hour.number < ·.hour.number) := by
  rw [values_eq, List.pairwise_map]
  refine ExtTreeMap.ordered_keys_toList.imp_of_mem fun {p p'} hp hp' hlt => ?_
  have hlt : compare p.1.number p'.1.number = .lt := hlt
  rw [h (ExtTreeMap.mem_toList_iff_getElem?_eq_some.mp hp),
    h (ExtTreeMap.mem_toList_iff_getElem?_eq_some.mp hp')]
  exact Std.compare_eq_lt.mp hlt

theorem values_ascending {r : ExtTreeMap Hour Bucket compare}
    (h : ∀ {hour : Hour} {b : Bucket}, r[hour]? = some b → b.hour = hour) :
    r.values.Pairwise (·.id < ·.id) := by
  refine (values_ordered h).imp fun {b b'} hlt => ?_
  have hi := b.toNat_id
  have hi' := b'.toNat_id
  rw [Hour.startSeconds] at hi hi'
  rw [UInt32.lt_iff_toNat_lt]
  omega

theorem Stands.mem_found (h : Stands e logs)
    (hx : x ∈ b.found range 0 (b.candidates (logs b.hour) text (after token b))) :
    b.committed? (logs b.hour) x.id = some x ∧ after token b < x.id ∧
      satisfies text x.properties = true ∧ range.holds x.millis = true := by
  obtain ⟨hd, hr⟩ := List.mem_filter.mp hx
  obtain ⟨hc, ha, hs⟩ := (Bucket.mem_candidates (h.kept b.hour).room).mp (List.mem_of_mem_drop hd)
  exact ⟨hc, ha, hs, hr⟩

theorem lt_after {id : UInt32} :
    after token b < id ↔
      (token.isStart = false ∧ b.id = token.bucket → token.id < id) ∧
      (token.isStart = true ∨ b.id ≠ token.bucket → 0 < id) := by
  unfold after
  cases hs : token.isStart with
  | true => simp
  | false => by_cases hb : b.id = token.bucket <;> simp [hb]

theorem start_of_isStart (h : token.isStart = true) : token = .start := by
  simpa [Token.isStart] using h

theorem before_of_lt_after (hv : visits range token b = true) (hb : x.bucket = b.id)
    (ha : after token b < x.id) :
    token.Before x.token := by
  obtain ⟨h₁, h₂⟩ := lt_after.mp ha
  simp only [visits, Bool.and_eq_true, Bool.or_eq_true, decide_eq_true_eq] at hv
  show token.bucket < x.bucket ∨ token.bucket = x.bucket ∧ token.id < x.id
  rw [hb]
  cases hs : token.isStart with
  | true =>
    have hpos := h₂ (.inl hs)
    rw [start_of_isStart hs]
    by_cases h0 : b.id = 0
    · exact .inr ⟨h0.symm, hpos⟩
    · exact .inl (UInt32.pos_iff_ne_zero.mpr h0)
  | false =>
    have hle : token.bucket ≤ b.id := by
      have := hv.2.resolve_left (by simp [hs])
      rw [← b.toNat_id] at this
      rw [UInt32.le_iff_toNat_le]
      omega
    by_cases he : b.id = token.bucket
    · exact .inr ⟨he.symm, h₁ ⟨hs, he⟩⟩
    · exact .inl (UInt32.lt_of_le_of_ne hle (Ne.symm he))

theorem lt_after_of_before (hb : x.bucket = b.id) (h0 : 0 < x.id) (h : token.Before x.token) :
    after token b < x.id := by
  refine lt_after.mpr ⟨?_, fun _ => h0⟩
  rintro ⟨-, he⟩
  rcases h with h | ⟨-, h⟩
  · have h : token.bucket < x.bucket := h
    rw [hb, he] at h
    exact absurd h (UInt32.lt_irrefl _)
  · exact h

theorem candidates_sublist (log : List Event) (after : UInt32) :
    (b.candidates log text after).Sublist (b.numbered 0 log) :=
  List.filter_sublist

theorem found_sublist (events : List Event) : (b.found range 0 events).Sublist events :=
  List.filter_sublist.trans (List.drop_sublist ..)

theorem pairwise_flatMap {r : ExtTreeMap Hour Bucket compare}
    (h : ∀ {hour : Hour} {b : Bucket}, r[hour]? = some b → b.hour = hour)
    {part : Bucket → List Event} (hp : ∀ b ∈ r.values, (part b).Pairwise (·.id < ·.id))
    (hb : ∀ b ∈ r.values, ∀ x ∈ part b, x.bucket = b.id) (p : Bucket → Bool) :
    ((r.values.filter p).flatMap part).Pairwise (·.token.Before ·.token) := by
  refine List.pairwise_flatMap.mpr ⟨fun b hv => ?_, ?_⟩
  · have hv := (List.mem_filter.mp hv).1
    exact (hp b hv).imp_of_mem fun hx hy hlt => .inr ⟨(hb b hv _ hx).trans (hb b hv _ hy).symm, hlt⟩
  · refine ((values_ascending h).filter _).imp_of_mem fun {b c} hv hw hlt x hx y hy => .inl ?_
    show x.bucket < y.bucket
    rw [hb b (List.mem_filter.mp hv).1 x hx, hb c (List.mem_filter.mp hw).1 y hy]
    exact hlt

theorem Stands.pairwise_flatMap (h : Stands e logs) {part : Bucket → List Event}
    (hp : ∀ b, (part b).Sublist (b.numbered 0 (logs b.hour))) (p : Bucket → Bool) :
    ((e.registry.values.filter p).flatMap part).Pairwise (·.token.Before ·.token) := by
  have hroom (b : Bucket) : (0 : UInt32).toNat + (logs b.hour).length < 4294967296 := by
    simpa using (h.kept b.hour).room
  refine EventSet.pairwise_flatMap h.hour (fun b _ => ?_) (fun b _ x hx => ?_) p
  · exact (Bucket.pairwise_numbered (hroom b)).sublist (hp b)
  · exact (Bucket.mem_numbered (hroom b) ((hp b).subset hx)).2.2.1

theorem Stands.pairwise_listed (h : Stands e logs) :
    (listed e logs text range token).Pairwise (·.token.Before ·.token) :=
  h.pairwise_flatMap (fun _ => (found_sublist _).trans (candidates_sublist _ _)) _

theorem nodup_of_before {l : List Event} (h : l.Pairwise (·.token.Before ·.token)) : l.Nodup := by
  refine h.imp ?_
  rintro x _ hb rfl
  exact Token.Before.irrefl _ hb

theorem Stands.nodup_listed (h : Stands e logs) : (listed e logs text range token).Nodup :=
  nodup_of_before h.pairwise_listed

theorem Stands.hour_of_committed (h : Stands e logs)
    (hc : b.committed? (logs b.hour) x.id = some x) :
    x.millis / 3600000 = b.hour.number := by
  have hm := (Bucket.mem_numbered_zero (h.kept b.hour).room).mpr hc
  unfold Bucket.committed? at hc
  split at hc
  · cases hc
  · obtain ⟨y, hy, he⟩ := Option.map_eq_some_iff.mp hc
    have := Hour.contains_iff.mp ((h.kept b.hour).within y (List.mem_of_getElem? hy))
    rw [show x.millis = y.millis from (congrArg Event.millis he).symm]
    simp only [Hour.startMillis, Hour.endMillis, Hour.startSeconds] at this
    omega

theorem Stands.of_mem_listed (h : Stands e logs) (hx : x ∈ listed e logs text range token) :
    e.Stores x ∧ token.Before x.token ∧ satisfies text x.properties = true ∧
      range.Takes x.millis := by
  obtain ⟨b, hb, hx⟩ := List.mem_flatMap.mp hx
  obtain ⟨hb, hv⟩ := List.mem_filter.mp hb
  have hb := h.registered_of_mem hb
  obtain ⟨hc, ha, hs, hr⟩ := h.mem_found hx
  refine ⟨h.stores_iff.mpr ⟨b, hb, hc⟩,
    before_of_lt_after hv (bucket_of_committed? hc).1 ha, hs, hr, ?_⟩
  rw [h.hour_of_committed hc]
  simp only [visits, Bool.and_eq_true, decide_eq_true_eq] at hv
  exact hv.1.2

/-- The range starts with an hour, or in the bucket of the hour in which it starts times do not
decrease. -/
def InOrder (range : TimeRange) (e : Engine) : Prop :=
  range.start.millis % 3600000 = 0 ∨ ∀ x y, e.Stores x → e.Stores y →
    (x.bucket.toNat : Int) = range.start.millis / 3600000 * 3600 → x.bucket = y.bucket →
      x.id ≤ y.id → x.millis ≤ y.millis

/-- Then no bucket passes an event of the range. -/
theorem Stands.mem_found_of_committed (h : Stands e logs) (ho : InOrder range e)
    (hb : e.registry[b.hour]? = some b) (hc : b.committed? (logs b.hour) x.id = some x)
    (ha : after token b < x.id) (hs : satisfies text x.properties = true)
    (hr : range.holds x.millis = true) :
    x ∈ b.found range 0 (b.candidates (logs b.hour) text (after token b)) := by
  have hroom := (h.kept b.hour).room
  have hnumber := h.hour_of_committed hc
  have hmem : x ∈ b.candidates (logs b.hour) text (after token b) :=
    (Bucket.mem_candidates hroom).mpr ⟨hc, ha, hs⟩
  have hstart : range.start.millis ≤ x.millis := by
    simp only [TimeRange.holds, Bool.and_eq_true, decide_eq_true_eq] at hr
    exact hr.1
  have hsorted : range.start.millis ≤ b.hour.startMillis ∨
      (b.candidates (logs b.hour) text (after token b)).Pairwise (·.millis ≤ ·.millis) := by
    by_cases hle : range.start.millis ≤ b.hour.startMillis
    · exact .inl hle
    simp only [Hour.startMillis, Hour.startSeconds] at hle ⊢
    have hhour : range.start.millis / 3600000 = b.hour.number := by omega
    rcases ho with ho | ho
    · omega
    refine .inr
      (((Bucket.pairwise_numbered (by simpa using hroom)).filter _).imp_of_mem
        fun {y z} hy hz hlt => ?_)
    obtain ⟨hcy, -⟩ := (Bucket.mem_candidates hroom).mp hy
    obtain ⟨hcz, -⟩ := (Bucket.mem_candidates hroom).mp hz
    refine ho y z (h.stores_iff.mpr ⟨b, hb, hcy⟩) (h.stores_iff.mpr ⟨b, hb, hcz⟩) ?_ ?_
      (UInt32.le_of_lt hlt)
    · rw [(bucket_of_committed? hcy).1, b.toNat_id, hhour, Hour.startSeconds]
    · rw [(bucket_of_committed? hcy).1, (bucket_of_committed? hcz).1]
  have hnodup : (b.candidates (logs b.hour) text (after token b)).Nodup :=
    Bucket.nodup_candidates hroom
  have hfound : b.found range 0 (b.candidates (logs b.hour) text (after token b)) =
      Bucket.sought range 0 _ :=
    (Bucket.found_eq_sought_iff hnodup).mpr (Bucket.holds_passed (hsorted.imp_right .inr))
  rw [hfound]
  exact List.mem_filter.mpr ⟨hmem, hr⟩

theorem Stands.mem_listed_iff (h : Stands e logs) (ho : InOrder range e) :
    x ∈ listed e logs text range token ↔
      e.Stores x ∧ token.Before x.token ∧ satisfies text x.properties = true ∧
      range.Takes x.millis := by
  refine ⟨h.of_mem_listed, ?_⟩
  rintro ⟨hx, ht, hs, hr, hstop⟩
  obtain ⟨b, hb, hc⟩ := h.stores_iff.mp hx
  obtain ⟨hbucket, hpos⟩ := bucket_of_committed? hc
  rw [h.hour_of_committed hc] at hstop
  refine List.mem_flatMap.mpr ⟨b, List.mem_filter.mpr ⟨mem_values hb, ?_⟩, ?_⟩
  · have hlow : (Hour.ofInstant range.start).number ≤ b.hour.number := by
      rw [← h.hour_of_committed hc]
      simp only [TimeRange.holds, Bool.and_eq_true, decide_eq_true_eq] at hr
      unfold Instant.millis at hr
      show range.start.seconds / 3600 ≤ _
      omega
    have htoken : token.isStart = true ∨ (token.bucket.toNat : Int) ≤ b.hour.startSeconds := by
      refine .inr ?_
      rw [← b.toNat_id, ← hbucket]
      rcases ht with ht | ⟨ht, -⟩
      · have := UInt32.lt_iff_toNat_lt.mp ht
        show (token.bucket.toNat : Int) ≤ x.token.bucket.toNat
        omega
      · rw [ht]
        exact Int.le_refl _
    simp only [visits, Bool.and_eq_true, Bool.or_eq_true, decide_eq_true_eq]
    exact ⟨⟨hlow, hstop⟩, htoken⟩
  · exact h.mem_found_of_committed ho hb hc (lt_after_of_before hbucket hpos ht) hs hr

end EventSet

end EventStore
