import EventStore.Proofs.Engine.Work
import EventStore.Proofs.Store.View
import Mathlib.Algebra.Order.Group.Multiset

/-!
# Every event is reported on

When events are added together, each of them is reported as committed, as one to be tried again, or
as lost (`EventSet.Report.Covers`), whatever happens meanwhile. Events are compared up to the place
that a bucket gives them.
-/

namespace EventStore

open Std

/-- The event without a place in a bucket. -/
def Event.bare (e : Event) : Event := { e with id := 0, bucket := 0 }

/-- Events regardless of order and of their places. -/
def bare (events : List Event) : Multiset Event := (events.map Event.bare : List Event)

@[simp] theorem bare_nil : bare [] = 0 := rfl

@[simp] theorem bare_append (xs ys : List Event) : bare (xs ++ ys) = bare xs + bare ys := by
  simp [bare, ← Multiset.coe_add]

@[simp] theorem card_bare (xs : List Event) : (bare xs).card = xs.length := by simp [bare]

theorem bare_numbered (b : Bucket) (last : UInt32) (events : List Event) :
    bare (b.numbered last events) = bare events := by
  have h : (b.numbered last events).map Event.bare = events.map Event.bare := by
    induction events generalizing last with
    | nil => rfl
    | cons e rest ih => rw [Bucket.numbered, List.map_cons, ih, List.map_cons]; rfl
  rw [bare, h, bare]

section

variable {α κ : Type} [DecidableEq κ] (f : α → Event)

theorem bare_filter_add (p : α → Bool) (xs : List α) :
    bare ((xs.filter p).map f) + bare ((xs.filter (!p ·)).map f) = bare (xs.map f) := by
  have h : (xs.filter p ++ xs.filter (!p ·)).Perm xs := List.filter_append_perm p xs
  rw [← bare_append, ← List.map_append]
  exact Multiset.coe_eq_coe.mpr ((h.map f).map _)

theorem perm_of_keys (key : α → Option κ) (xs : List α) {keys : List κ} (hn : keys.Nodup) :
    (keys.flatMap fun k => xs.filter (key · == some k)).Perm
      (xs.filter fun x => keys.any (key x == some ·)) := by
  induction keys with
  | nil => simp
  | cons k keys ih =>
    obtain ⟨hk, hn⟩ := List.nodup_cons.mp hn
    have hfirst : xs.filter (key · == some k) =
        (xs.filter fun x => (k :: keys).any (key x == some ·)).filter (key · == some k) := by
      rw [List.filter_filter]
      refine List.filter_congr fun x _ => ?_
      cases hx : (key x == some k) <;> simp [hx]
    have hrest : (xs.filter fun x => keys.any (key x == some ·)) =
        (xs.filter fun x => (k :: keys).any (key x == some ·)).filter (!key · == some k) := by
      rw [List.filter_filter]
      refine List.filter_congr fun x _ => ?_
      cases hx : (key x == some k) with
      | false => simp [hx]
      | true =>
        have : keys.any (key x == some ·) = false := by
          rw [eq_of_beq hx, List.any_eq_false]
          rintro k' hk' he
          rw [Option.some.inj (eq_of_beq he)] at hk
          exact hk hk'
        simp [hx, this]
    rw [List.flatMap_cons, hfirst]
    exact ((ih hn).append_left _).trans (hrest ▸ List.filter_append_perm _ _)

theorem bare_flatMap {β : Type} (g : β → List Event) (xs : List β) :
    bare (xs.flatMap g) = (xs.map fun x => bare (g x)).sum := by
  induction xs with
  | nil => rfl
  | cons x xs ih => simp [ih]

theorem bare_sum_of_keys (key : α → Option κ) (xs : List α) {keys : List κ} (hn : keys.Nodup) :
    (keys.map fun k => bare ((xs.filter (key · == some k)).map f)).sum =
      bare ((xs.filter fun x => keys.any (key x == some ·)).map f) := by
  rw [← bare_flatMap, ← List.map_flatMap]
  exact Multiset.coe_eq_coe.mpr (((perm_of_keys key xs hn).map f).map _)

end

namespace EventSet

/-- The events are those committed, those to be tried again and as many lost as the report says. -/
def Report.Covers (r : Report) (events : Multiset Event) : Prop :=
  ∃ lost : Multiset Event, lost.card = r.discarded ∧
    bare r.committed + bare r.retry + lost = events

theorem covers_unrouted (events : List Event) :
    (unrouted events).Covers (bare (events.filter (·.hour?.isNone))) :=
  ⟨bare (events.filter (·.hour?.isNone)), by simp [unrouted], by simp [unrouted]⟩

theorem addGroup_covers {r : Report} {before : Multiset Event} (h : r.Covers before) (hour : Hour)
    (events : List Event) :
    (addGroup r hour events).WorksTo fun r' => r'.Covers (before + bare events) := by
  obtain ⟨lost, hl, hr⟩ := h
  refine .bind (works_addTo hour events) fun result hres => ?_
  cases result with
  | ok stored =>
    obtain ⟨b, last, rfl⟩ := hres stored rfl
    refine .pure' ⟨lost, hl, ?_⟩
    rw [bare_append, bare_numbered, ← hr]
    ac_rfl
  | error p =>
    dsimp only
    split
    · refine .pure' ⟨lost, hl, ?_⟩
      rw [bare_append, ← hr]
      ac_rfl
    · refine .pure' ⟨lost + bare events, ?_, ?_⟩
      · rw [Multiset.card_add, hl, card_bare]
      · rw [← hr]
        ac_rfl

theorem mem_hoursOf {hour : Hour} {events : List Event} :
    hour ∈ (hoursOf events).toList ↔ ∃ x ∈ events, x.hour? = some hour := by
  rw [hoursOf, ExtTreeSet.mem_toList, ExtTreeSet.mem_ofList]
  simp

theorem bare_groups (events : List Event) :
    bare (events.filter (·.hour?.isNone)) + ((groups events).map fun g => bare g.2).sum =
      bare events := by
  rw [groups, List.map_map]
  show _ + ((hoursOf events).toList.map
    fun hour => bare (events.filter (·.hour? == some hour))).sum = _
  have hkeys := bare_sum_of_keys id Event.hour? events (nodup_toList (hoursOf events))
  have hsplit := bare_filter_add id (·.hour?.isNone) events
  simp only [List.map_id] at hkeys hsplit
  rw [hkeys, ← hsplit]
  congr 2
  refine List.filter_congr fun x hx => ?_
  cases hh : x.hour? with
  | none => simp
  | some hour => simpa using mem_hoursOf.mpr ⟨x, hx, hh⟩

/-- Each event is reported on once, whatever happens meanwhile. -/
theorem addAll_covers (events : List Event) :
    (addAll events).WorksTo fun r => r.Covers (bare events) := by
  refine (Activity.Keeps.foldlM (k := ()) (fun gs r _ => ∃ before, r.Covers before ∧
    before + (gs.map fun g => bare g.2).sum = bare events)
    ⟨_, covers_unrouted events, bare_groups events⟩ ?_).mono ?_
  · rintro ⟨hour, group⟩ gs r - ⟨before, hr, hb⟩
    refine (addGroup_covers hr hour group).mono fun r' _ h => ⟨_, h, ?_⟩
    rw [← hb, List.map_cons, List.sum_cons, add_assoc]
  · rintro r - ⟨before, hr, hb⟩
    rw [List.map_nil, List.sum_nil, add_zero] at hb
    exact hb ▸ hr

end EventSet

end EventStore
