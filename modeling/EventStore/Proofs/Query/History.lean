import EventStore.Proofs.Query.Cache

/-!
# What a cache holds after a history of calls

`Cache.Recalls` tells what is true of a cache that started empty, after any calls to it: it holds at
most as many queries as fit, each once, each with what it compiles to and from a call that looked it
up in vain, and it has counted every lookup. Each call keeps it so (`Recalls.after_append`), so it
is true of every history (`recalls_after`).
-/

namespace EventStore.Query.Cache

inductive Call
  | get (query : String)
  | getOrCompile (query : String)
  | purgeExpired
  | clear

namespace Call

def isLookup : Call → Bool
  | get _ | getOrCompile _ => true
  | purgeExpired | clear => false

/-- The cache after a call at the time `now`. -/
def after (c : Cache) (now : Nat) : Call → Cache
  | get query => (c.get now query).2
  | getOrCompile query => (c.getOrCompile now query).2
  | purgeExpired => (c.purgeExpired now).2
  | clear => c.clear

end Call

/-- Calls with their times, the earliest first. -/
abbrev History := List (Nat × Call)

def History.lookups (h : History) : Nat := h.countP (·.2.isLookup)

/-- The clock never goes back, up to `now`. -/
def History.Until (h : History) (now : Nat) : Prop := (h.map (·.1) ++ [now]).Pairwise (· ≤ ·)

instance (h : History) (now : Nat) : Decidable (h.Until now) :=
  inferInstanceAs (Decidable (List.Pairwise ..))

def after (c : Cache) (h : History) : Cache := h.foldl (fun c (now, call) => call.after c now) c

theorem after_append (c : Cache) (h : History) (now : Nat) (call : Call) :
    c.after (h ++ [(now, call)]) = call.after (c.after h) now := by
  simp [after]

/-- At the time `t` the query was looked up in vain, and then compiled and kept. -/
def Inserted (c : Cache) (h : History) (query : String) (t : Nat) : Prop :=
  ∃ before rest, h = before ++ (t, .getOrCompile query) :: rest ∧
    ((c.after before).get t query).1 = none

theorem Inserted.append {c : Cache} {h : History} (hi : Inserted c h query t) (h' : History) :
    Inserted c (h ++ h') query t := by
  obtain ⟨before, rest, rfl, hn⟩ := hi
  exact ⟨before, rest ++ h', by simp, hn⟩

theorem Inserted.le {c : Cache} {h : History} (hi : Inserted c h query t) (hu : h.Until now) :
    t ≤ now := by
  obtain ⟨before, rest, rfl, -⟩ := hi
  exact (List.pairwise_append.mp hu).2.2 t (by simp) now (by simp)

-- ---- single calls --------------------------------------------------------

/-- How long entries hold, how many fit, and how many lookups there were. -/
def figures (c : Cache) : Nat × Nat × Nat := (c.ttl, c.capacity, c.hits + c.misses)

theorem find?_eq_some {c : Cache} {e : CacheEntry} (h : c.find? query = some e) :
    e ∈ c.entries ∧ e.query = query :=
  ⟨List.mem_of_find?_eq_some h, by simpa using List.find?_some h⟩

theorem mem_without {entries : List CacheEntry} {e : CacheEntry} (h : e ∈ without query entries) :
    e ∈ entries ∧ e.query ≠ query := by
  simpa [without] using h

/-- No query is there twice. -/
def Distinct (entries : List CacheEntry) : Prop := (entries.map (·.query)).Nodup

theorem Distinct.sublist {entries kept : List CacheEntry} (h : Distinct entries)
    (hs : kept.Sublist entries) : Distinct kept :=
  List.Nodup.sublist (hs.map _) h

theorem Distinct.cons_without {entries : List CacheEntry} (h : Distinct entries) (e : CacheEntry) :
    Distinct (e :: without e.query entries) := by
  refine List.nodup_cons.mpr ⟨fun he => ?_, h.sublist List.filter_sublist⟩
  obtain ⟨e', he', hq⟩ := List.mem_map.mp he
  exact (mem_without he').2 hq

theorem length_without_lt {entries : List CacheEntry} {e : CacheEntry} (h : e ∈ entries) :
    (without e.query entries).length < entries.length := by
  refine List.length_filter_lt_length_iff_exists.mpr ⟨e, h, ?_⟩
  simp

section
variable {c : Cache} {now : Nat} {query : String}

/-- What looking a query up does to the entries: nothing, or it drops the one that has expired, or
it moves one to the front. -/
theorem entries_get (c : Cache) (now : Nat) (query : String) :
    ((c.get now query).1 = none ∧ ((c.get now query).2.entries = c.entries ∨
      (c.get now query).2.entries = without query c.entries)) ∨
    ∃ e ∈ c.entries, e.query = query ∧ now - e.storedAt < c.ttl ∧
      (c.get now query).1 = some e.criteria ∧
      (c.get now query).2.entries = e :: without query c.entries := by
  unfold get
  cases hf : c.find? query with
  | none => exact .inl ⟨rfl, .inl rfl⟩
  | some e =>
    obtain ⟨he, hq⟩ := find?_eq_some hf
    by_cases hx : c.isExpired now e = true
    · exact .inl ⟨by simp [hx], .inr (by simp [hx])⟩
    · refine .inr ⟨e, he, hq, ?_, by simp [hx], by simp [hx]⟩
      simpa [isExpired] using hx

theorem figures_get (c : Cache) (now : Nat) (query : String) :
    (c.get now query).2.figures = (c.ttl, c.capacity, c.hits + c.misses + 1) := by
  unfold get figures
  split
  · split
    · rw [Nat.add_assoc]
    · rw [Nat.add_right_comm]
  · rw [Nat.add_assoc]

theorem getOrCompile_of_some (h : (c.get now query).1 = some criteria) :
    c.getOrCompile now query = (.ok criteria, (c.get now query).2) := by
  unfold getOrCompile
  split
  · next hg =>
    rw [hg] at h ⊢
    cases h
    rfl
  · next hg =>
    rw [hg] at h
    cases h

theorem getOrCompile_of_none (h : (c.get now query).1 = none) :
    c.getOrCompile now query = match compile query with
      | .ok criteria => (.ok criteria, (c.get now query).2.insert now query criteria)
      | .error e => (.error e, (c.get now query).2) := by
  unfold getOrCompile
  split
  · next hg =>
    rw [hg] at h
    cases h
  · next hg =>
    cases compile query <;> simp only [hg]

theorem purgeExpired_eq (c : Cache) (now : Nat) : (c.purgeExpired now).2 =
    { c with entries := c.entries.filter fun e => !c.isExpired now e } := by
  simp [purgeExpired, List.partition_eq_filter_filter, Function.comp_def]

end

-- ---- what every call keeps -----------------------------------------------

/-- What is held fits, each query once and with what it compiles to. -/
structure Tidy (c : Cache) : Prop where
  bounded : c.entries.length ≤ c.capacity
  distinct : Distinct c.entries
  sound : c.Sound

variable {c c₀ : Cache} {now : Nat} {query : String} {h : History}

theorem Tidy.keep (ht : c.Tidy) {entries : List CacheEntry} (hs : entries.Sublist c.entries) :
    Tidy { c with entries := entries } :=
  ⟨Nat.le_trans hs.length_le ht.bounded, ht.distinct.sublist hs,
    fun e he => ht.sound e (hs.subset he)⟩

theorem Tidy.get (ht : c.Tidy) (now : Nat) (query : String) :
    (c.get now query).2.Tidy ∧ ∀ e ∈ (c.get now query).2.entries, e ∈ c.entries := by
  have hs := (ht.sound.get now query).1
  have hcap : (c.get now query).2.capacity = c.capacity :=
    congrArg (·.2.1) (figures_get c now query)
  rcases entries_get c now query with ⟨-, he | he⟩ | ⟨e, hm, rfl, -, -, he⟩
  · exact ⟨⟨he ▸ hcap ▸ ht.bounded, he ▸ ht.distinct, hs⟩, fun _ he' => he ▸ he'⟩
  · have hsub : (without query c.entries).Sublist c.entries := List.filter_sublist
    exact ⟨⟨he ▸ hcap ▸ Nat.le_trans hsub.length_le ht.bounded, he ▸ ht.distinct.sublist hsub, hs⟩,
      fun e' he' => hsub.subset (he ▸ he')⟩
  · refine ⟨⟨he ▸ hcap ▸ Nat.le_trans (length_without_lt hm) ht.bounded,
      he ▸ ht.distinct.cons_without e, hs⟩, fun e' he' => ?_⟩
    rw [he] at he'
    rcases List.mem_cons.mp he' with rfl | he'
    · exact hm
    · exact (mem_without he').1

theorem Tidy.insert (ht : c.Tidy) (hc : compile query = .ok criteria) (now : Nat) :
    (c.insert now query criteria).Tidy ∧ ∀ e ∈ (c.insert now query criteria).entries,
      e ∈ c.entries ∨ e = ⟨query, criteria, now⟩ := by
  refine ⟨⟨?_, ?_, ht.sound.insert hc now⟩, fun e he => ?_⟩
  · exact List.length_take_le ..
  · exact (ht.distinct.cons_without ⟨query, criteria, now⟩).sublist (List.take_sublist ..)
  · rcases List.mem_cons.mp (List.mem_of_mem_take he) with rfl | he
    · exact .inr rfl
    · exact .inl (mem_without he).1

/-- A call keeps entries, and adds at most the one that was looked up in vain. -/
theorem Tidy.after (ht : c.Tidy) (now : Nat) (call : Call) : (call.after c now).Tidy ∧
    ∀ e ∈ (call.after c now).entries, e ∈ c.entries ∨
      call = .getOrCompile e.query ∧ e.storedAt = now ∧ (c.get now e.query).1 = none := by
  cases call with
  | get query => exact (ht.get now query).imp_right fun hm e he => .inl (hm e he)
  | getOrCompile query =>
    obtain ⟨hg, hm⟩ := ht.get now query
    cases ho : (c.get now query).1 with
    | some criteria =>
      simp only [Call.after, getOrCompile_of_some ho]
      exact ⟨hg, fun e he => .inl (hm e he)⟩
    | none =>
      simp only [Call.after, getOrCompile_of_none ho]
      cases hc : compile query with
      | error p => exact ⟨hg, fun e he => .inl (hm e he)⟩
      | ok criteria =>
        refine (hg.insert hc now).imp_right fun hi e he => ?_
        rcases hi e he with he | rfl
        · exact .inl (hm e he)
        · exact .inr ⟨rfl, rfl, ho⟩
  | purgeExpired =>
    rw [Call.after, purgeExpired_eq]
    exact ⟨ht.keep List.filter_sublist, fun e he => .inl (List.mem_filter.mp he).1⟩
  | clear => exact ⟨ht.keep (List.nil_sublist _), nofun⟩

theorem figures_after (c : Cache) (now : Nat) (call : Call) : (call.after c now).figures =
    (c.ttl, c.capacity, c.hits + c.misses + if call.isLookup then 1 else 0) := by
  cases call with
  | get query => exact figures_get c now query
  | getOrCompile query =>
    have hg := figures_get c now query
    cases ho : (c.get now query).1 with
    | some criteria =>
      simp only [Call.after, getOrCompile_of_some ho]
      exact hg
    | none =>
      simp only [Call.after, getOrCompile_of_none ho]
      cases compile query <;> exact hg
  | purgeExpired =>
    rw [Call.after, purgeExpired_eq]
    rfl
  | clear => rfl

-- ---- histories -----------------------------------------------------------

/-- What is true of the cache `c` after the history `h`, which began with an empty one. -/
structure Recalls (ttl maxEntries : Nat) (h : History) (c : Cache) : Prop where
  tidy : c.Tidy
  figures : c.figures = (ttl, max 1 maxEntries, h.lookups)
  inserted : ∀ e ∈ c.entries, Inserted (.new ttl maxEntries) h e.query e.storedAt

variable {ttl maxEntries : Nat}

theorem Recalls.after_append {call : Call}
    (hr : Recalls ttl maxEntries h ((new ttl maxEntries).after h)) :
    Recalls ttl maxEntries (h ++ [(now, call)])
      ((new ttl maxEntries).after (h ++ [(now, call)])) := by
  obtain ⟨ht, hf, hi⟩ := hr
  rw [Cache.after_append]
  obtain ⟨ht', hm⟩ := ht.after now call
  refine ⟨ht', ?_, fun e he => ?_⟩
  · simp only [Cache.figures, Prod.mk.injEq] at hf
    rw [figures_after, hf.1, hf.2.1, hf.2.2]
    simp [History.lookups, List.countP_append, List.countP_cons]
  · rcases hm e he with he | ⟨rfl, rfl, hn⟩
    · exact (hi e he).append _
    · exact ⟨h, [], rfl, hn⟩

theorem recalls_after (ttl maxEntries : Nat) (h : History) :
    Recalls ttl maxEntries h ((new ttl maxEntries).after h) := by
  have hrev : ∀ l : History,
      Recalls ttl maxEntries l.reverse ((new ttl maxEntries).after l.reverse) := by
    intro l
    induction l with
    | nil => exact ⟨⟨Nat.zero_le _, .nil, nofun⟩, rfl, nofun⟩
    | cons p l ih =>
      rw [List.reverse_cons]
      exact ih.after_append
  exact h.reverse_reverse ▸ hrev h.reverse

namespace Recalls

variable (hr : Recalls ttl maxEntries h c)
include hr

theorem size_le : c.size ≤ max 1 maxEntries := by
  have := hr.figures
  simp only [Cache.figures, Prod.mk.injEq] at this
  exact this.2.1 ▸ hr.tidy.bounded

theorem counted : c.hits + c.misses = h.lookups := by
  have := hr.figures
  simp only [Cache.figures, Prod.mk.injEq] at this
  exact this.2.2

/-- What is found was compiled from the query, at a time less than `ttl` ago. -/
theorem found (hu : h.Until now) (hg : (c.get now query).1 = some criteria) :
    compile query = .ok criteria ∧
      ∃ t, Inserted (.new ttl maxEntries) h query t ∧ t ≤ now ∧ now - t < ttl := by
  refine ⟨(hr.tidy.sound.get now query).2 criteria hg, ?_⟩
  rcases entries_get c now query with ⟨hn, -⟩ | ⟨e, he, rfl, hx, -⟩
  · rw [hn] at hg
    cases hg
  · have hi := hr.inserted e he
    have := hr.figures
    simp only [Cache.figures, Prod.mk.injEq] at this
    exact ⟨e.storedAt, hi, hi.le hu, this.1 ▸ hx⟩

theorem entries_of_error (hp : compile query = .error p) (now : Nat) :
    (c.getOrCompile now query).2.entries = c.entries := by
  have hf : c.find? query = none := by
    refine Option.eq_none_iff_forall_ne_some.mpr fun e he => ?_
    obtain ⟨hm, rfl⟩ := find?_eq_some he
    rw [hr.tidy.sound e hm] at hp
    cases hp
  simp [getOrCompile, get, hf, hp]

end Recalls

end EventStore.Query.Cache
