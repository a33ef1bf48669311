import EventStore.Api.Body
import EventStore.Proofs.Json.Reader
import EventStore.Proofs.Results
import EventStore.Proofs.Time.Shift

/-!
# The ranges of searches

What a body says is the start or the end of a search can be represented. The range of the search has
these ends, and it exists just when an hour before its end can be represented
(`Search.range_of_read`); that is so even where the hour is not wanted.
-/

namespace EventStore

variable {start stop : Option Instant} {now : Instant} {range : TimeRange}

theorem TimeRange.resolve?_eq_some_iff : resolve? start stop now = some range ↔
    range.stop = stop.getD now ∧
      ∃ t, range.stop.shift? (-3600) = some t ∧ range.start = start.getD t := by
  unfold resolve?
  rw [Option.map_eq_some_iff]
  constructor
  · rintro ⟨t, ht, rfl⟩
    exact ⟨rfl, t, ht, rfl⟩
  · rintro ⟨hstop, t, ht, hstart⟩
    exact ⟨t, hstop ▸ ht, by rw [← hstart, ← hstop]⟩

namespace Api

open Json

/-- Both ends, if they are given, can be represented. -/
structure Search.Representable (s : Search) : Prop where
  start : ∀ t ∈ s.start, t.Representable
  stop : ∀ t ∈ s.stop, t.Representable

variable {s : Search} {body : String}

theorem yields_instant : Yields instant Instant.Representable := by
  refine .after fun text => ?_
  split
  · next t h => exact .pure (Timestamp.representable_of_read? h)
  · exact .unsuitable

theorem yields_countPart : ∀ part ∈ countParts, ∀ s : Search, s.Representable →
    Yields (part.read s) Search.Representable := by
  intro part hpart s hs
  simp only [countParts, List.mem_cons, List.not_mem_nil, or_false] at hpart
  rcases hpart with rfl | rfl | rfl
  · exact .after fun _ => .pure ⟨hs.start, hs.stop⟩
  · exact yields_instant.optional.bind fun _ ht => .pure ⟨ht, hs.stop⟩
  · exact yields_instant.optional.bind fun _ ht => .pure ⟨hs.start, ht⟩

theorem yields_pagePart : ∀ part ∈ pageParts, ∀ s : Search, s.Representable →
    Yields (part.read s) Search.Representable := by
  intro part hpart s hs
  rw [pageParts, List.mem_append, List.mem_singleton] at hpart
  rcases hpart with hpart | rfl
  · exact yields_countPart part hpart s hs
  · exact .after fun _ => .pure ⟨hs.start, hs.stop⟩

theorem Search.representable_of_read
    (h : readFront pageSearch body = .ok s ∨ readFront countSearch body = .ok s) :
    s.Representable := by
  have hblank : Search.blank.Representable := ⟨nofun, nofun⟩
  rcases h with h | h
  · exact (Yields.record hblank yields_pagePart).readFront h
  · exact (Yields.record hblank yields_countPart).readFront h

/-- A search that is read from a body has a range exactly if its end, or now if there is none, comes
an hour at least after the first instant there is. A range has the ends that are given, and it
starts an hour before its end if no start is. -/
theorem Search.range_of_read
    (h : readFront pageSearch body = .ok s ∨ readFront countSearch body = .ok s)
    (hnow : now.Representable) :
    ((∃ range, s.range? now = some range) ↔
        (Instant.leastSeconds + 3600) * 1000000000 ≤ (s.stop.getD now).inNanos) ∧
      ∀ range, s.range? now = some range → range.stop = s.stop.getD now ∧
        (∀ t, s.start = some t → range.start = t) ∧
        (s.start = none → range.start.inNanos = range.stop.inNanos - 3600 * 1000000000) := by
  have hs := representable_of_read h
  have hstop : (s.stop.getD now).Representable := by
    cases hgiven : s.stop with
    | none => exact hnow
    | some t => exact hs.stop t hgiven
  constructor
  · have hshift : (∃ t, (s.stop.getD now).shift? (-3600) = some t) ↔ _ :=
      Instant.exists_shift?_iff hstop
    have := hstop.greatest
    constructor
    · rintro ⟨range, hr⟩
      obtain ⟨hend, t, ht, -⟩ := TimeRange.resolve?_eq_some_iff.mp hr
      obtain ⟨hle, -⟩ := hshift.mp ⟨t, hend ▸ ht⟩
      omega
    · intro hle
      obtain ⟨t, ht⟩ := hshift.mpr (by omega)
      exact ⟨⟨s.start.getD t, s.stop.getD now⟩,
        TimeRange.resolve?_eq_some_iff.mpr ⟨rfl, t, ht, rfl⟩⟩
  · intro range hr
    obtain ⟨hend, t, ht, hstart⟩ := TimeRange.resolve?_eq_some_iff.mp hr
    refine ⟨hend, fun t' ht' => ?_, fun hnone => ?_⟩
    · rw [hstart, ht', Option.getD_some]
    · rw [hstart, hnone, Option.getD_none, Instant.inNanos_of_shift? ht (by decide)]
      omega

/-- With an end alone, of 14:00, the range is the hour up to it. -/
theorem Search.range_of_read_of_end : ∃ s range,
    readFront pageSearch "\x7b\"end\": \"2024-03-05T14:00:00Z\"\x7d" = .ok s ∧
      (⟨1709650000, 0⟩ : Instant).Representable ∧ s.range? ⟨1709650000, 0⟩ = some range ∧
      range.stop = ⟨1709647200, 0⟩ ∧ range.start.inNanos = 1709643600000000000 := by
  have hread : (readFront pageSearch "\x7b\"end\": \"2024-03-05T14:00:00Z\"\x7d").toOption.any
      (fun s => s.start.isNone && s.stop == some ⟨1709647200, 0⟩) = true := by decide +kernel
  obtain ⟨s, hs, hends⟩ := (Option.any_eq_true _ _).mp hread
  rw [toOption_eq_some_iff] at hs
  simp only [Bool.and_eq_true, Option.isNone_iff_eq_none, beq_iff_eq] at hends
  have hnow : (⟨1709650000, 0⟩ : Instant).Representable := by decide
  obtain ⟨hexists, hends'⟩ := range_of_read (.inl hs) hnow
  obtain ⟨range, hr⟩ := hexists.mpr (by rw [hends.2]; decide)
  obtain ⟨hstop, -, hstart⟩ := hends' range hr
  rw [hends.2, Option.getD_some] at hstop
  refine ⟨s, range, hs, hnow, hr, hstop, ?_⟩
  rw [hstart hends.1, hstop]
  rfl

/-- Within the first hour there is no range, though both ends are given. -/
theorem Search.range_of_firstHour : ∃ s,
    readFront pageSearch ("\x7b\"start\": \"-262143-01-01T00:00:00Z\", " ++
        "\"end\": \"-262143-01-01T00:30:00Z\"\x7d") = .ok s ∧
      s.start = some ⟨Instant.leastSeconds, 0⟩ ∧
      s.stop = some ⟨Instant.leastSeconds + 1800, 0⟩ ∧ ∀ now, s.range? now = none := by
  have hread : (readFront pageSearch ("\x7b\"start\": \"-262143-01-01T00:00:00Z\", " ++
      "\"end\": \"-262143-01-01T00:30:00Z\"\x7d")).toOption.any (fun s =>
        s.start == some ⟨Instant.leastSeconds, 0⟩ &&
          s.stop == some ⟨Instant.leastSeconds + 1800, 0⟩) = true := by decide +kernel
  obtain ⟨s, hs, hends⟩ := (Option.any_eq_true _ _).mp hread
  rw [toOption_eq_some_iff] at hs
  simp only [Bool.and_eq_true, beq_iff_eq] at hends
  refine ⟨s, hs, hends.1, hends.2, fun now => ?_⟩
  rw [range?, TimeRange.resolve?, hends.2]
  rfl

end Api

end EventStore
