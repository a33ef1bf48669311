import EventStore.Proofs.Bucket.Undropped
import EventStore.Proofs.EventSet.Throughout

/-!
# Events and the hours of their maps

A bucket takes only events of its hour. So over a store in which every event lies in the hour of its
map they all do so at any time, whatever calls fail (`EventSet.EvolvedFrom.filed`).
-/

namespace EventStore

open Std Query Operation

-- ---- the store -----------------------------------------------------------

theorem Record.of_getElem?_applyAll {rs : List Record} {es : Entries} {key value : Bytes}
    (h : (applyAll es rs)[key]? = some value) :
    es[key]? = some value ∨ ∃ r ∈ rs, r.value? = some value := by
  induction rs generalizing es with
  | nil => exact .inl h
  | cons r rs ih =>
    rcases ih h with h | ⟨r', hr, hv⟩
    · rw [getElem?_apply] at h
      split at h
      · exact .inr ⟨r, List.mem_cons_self, h⟩
      · exact .inl h
    · exact .inr ⟨r', List.mem_cons_of_mem _ hr, hv⟩

/-- The store is in order, and each event in the map of an hour lies in the hour. -/
structure Store.Filed (s : Store) : Prop where
  sound : s.Sound
  within : ∀ (b : Bucket) (es : Entries) (key value : Bytes) (x : Event),
    s.entries? b.eventsMap = some es → es[key]? = some value →
      Binary.readEvent? value = some x → b.hour.contains x.millis = true

namespace Store.Filed

variable {s s' : Store} {α : Type}

theorem of_none (hs : s.Sound) (hv : ∀ m, s.entries? m = none) : s.Filed :=
  ⟨hs, fun b _ _ _ _ hes => absurd hes (by simp [hv])⟩

theorem answer (h : s.Filed) {r : Request α} (hr : r.IsProper) : (s.answer r).2.Filed := by
  refine ⟨h.sound.answer r, fun b es key value x hes hkey hx => ?_⟩
  cases ha : s.answer r with
  | mk a s' =>
    rw [ha] at hes
    cases a with
    | error p =>
      rw [h.sound.entries?_of_error ha] at hes
      exact h.within b es key value x hes hkey hx
    | ok a =>
      rw [(replies_of_ok ha).2] at hes
      cases r with
      | openMap name =>
        simp only [Request.effect] at hes
        split at hes
        · next hm =>
          cases hv : s.entries? name with
          | none =>
            simp only [hv, Option.getD_none, Option.some.injEq] at hes
            subst hes
            simp at hkey
          | some es' =>
            simp only [hv, Option.getD_some, Option.some.injEq] at hes
            exact h.within b es key value x (hm ▸ hv.trans (congrArg some hes)) hkey hx
        · exact h.within b es key value x hes hkey hx
      | removeMap name =>
        simp only [Request.effect] at hes
        split at hes
        · cases hes
        · exact h.within b es key value x hes hkey hx
      | commit tx =>
        simp only [Request.effect, Option.map_eq_some_iff] at hes
        obtain ⟨es', hes', rfl⟩ := hes
        rcases Record.of_getElem?_applyAll hkey with hkey | ⟨record, hrecord, hv⟩
        · exact h.within b es' key value x hes' hkey hx
        · obtain ⟨w, hw, hm⟩ := List.mem_filterMap.mp hrecord
          split at hm
          · next hmap =>
            cases hm
            exact hr w hw b x hmap (by rw [hv]; exact hx)
          · cases hm
      | _ => exact h.within b es key value x hes hkey hx

theorem steady : Store.Steady Store.Filed :=
  ⟨fun hr h => h.answer hr, fun _ h => ⟨h.sound, h.within⟩⟩

theorem contains (h : s.Filed) {b : Bucket} {es : Entries} {id : UInt32} {x : Event}
    (hes : s.entries? b.eventsMap = some es) (hx : b.loaded? es id = some x) :
    b.hour.contains x.millis = true := by
  obtain ⟨y, hy, rfl⟩ := Option.map_eq_some_iff.mp hx
  obtain ⟨value, hkey, hy⟩ := Option.bind_eq_some_iff.mp hy
  exact h.within b es _ value y hes hkey hy

end Store.Filed

namespace EventSet

variable {store : Store} {e e' : Engine} {b : Bucket}

-- ---- histories -----------------------------------------------------------

/-- What a set can have come to that began over a store, with one caller at a time and whatever
calls to the store have failed. -/
inductive EvolvedFrom (store : Store) : Engine → Prop
  | start {cache settings} (hc : Cache.Sound cache) :
    EvolvedFrom store (.fresh store cache settings)
  | openAll {e e' : Engine} {r} (h : EvolvedFrom store e) (he : EventSet.openAll.Ends e r e') :
    EvolvedFrom store e'
  | getOrCreate {e e' : Engine} {hour r} (h : EvolvedFrom store e)
    (he : (EventSet.getOrCreate hour).Ends e r e') : EvolvedFrom store e'
  | add {e e' : Engine} {x r} (h : EvolvedFrom store e) (hf : Event.Fits x)
    (he : (EventSet.add x).Ends e r e') : EvolvedFrom store e'
  | addAll {e e' : Engine} {events r} (h : EvolvedFrom store e) (hf : ∀ x ∈ events, Event.Fits x)
    (he : (EventSet.addAll events).Ends Engine.Shaken e r e') : EvolvedFrom store e'
  | lock {e e' : Engine} {r} (h : EvolvedFrom store e) (he : EventSet.lock.Ends e r e') :
    EvolvedFrom store e'
  | unlock {e e' : Engine} {r} (h : EvolvedFrom store e) (he : EventSet.unlock.Ends e r e') :
    EvolvedFrom store e'
  | purge {e e' : Engine} {r} (h : EvolvedFrom store e) (he : EventSet.purge.Ends e r e') :
    EvolvedFrom store e'
  | dropData {e e' : Engine} {now r} (h : EvolvedFrom store e)
    (he : (EventSet.dropData now).Ends e r e') : EvolvedFrom store e'
  | asked {e e' : Engine} (h : EvolvedFrom store e) (he : e.Asked e') : EvolvedFrom store e'
  | beside {e : Engine} (h : EvolvedFrom store e) (retention : Int)
    (settings : Config.EngineSection) (queue : List Queued) (ingested filtered dropped : Nat)
    (stopping : Bool) : EvolvedFrom store { e with
      retention := retention, settings := settings, queue := queue, ingested := ingested,
      filtered := filtered, dropped := dropped, stopping := stopping }

theorem EvolvedFrom.evolved (h : EvolvedFrom store e) : Evolved true e := by
  induction h with
  | start hc => exact .start hc
  | openAll _ he ih => exact .openAll ih he
  | getOrCreate _ he ih => exact .getOrCreate ih he
  | add _ hf he ih => exact .add ih hf he
  | addAll _ hf he ih => exact .addAll ih hf he
  | lock _ he ih => exact .lock ih he
  | unlock _ he ih => exact .unlock ih he
  | purge _ he ih => exact .purge ih he (.inl rfl)
  | dropData _ he ih => exact .dropData ih he (.inl rfl)
  | asked _ he ih => exact .asked ih he
  | beside _ retention settings queue ingested filtered dropped stopping ih =>
    exact .beside ih retention settings queue ingested filtered dropped stopping

/-- What is true of the store at the beginning, and cannot be lost, is true of it at any time. -/
theorem EvolvedFrom.steady {P : Store → Prop} (hP : Store.Steady P) (h : EvolvedFrom store e)
    (hs : P store) : P e.store := by
  induction h with
  | start => exact hs
  | openAll _ he ih => exact works_openAll.steady hP he ih
  | getOrCreate _ he ih => exact (works_getOrCreate _).steady hP he ih
  | add _ _ he ih => exact (works_add _).steady hP he ih
  | addAll _ _ he ih => exact (addAll_covers _).steady hP he ih
  | lock _ he ih => exact (works_setAllLocks true).steady hP he ih
  | unlock _ he ih => exact (works_setAllLocks false).steady hP he ih
  | purge _ he ih => exact works_purge.steady hP he ih
  | dropData _ he ih => exact (works_dropData _).steady hP he ih
  | asked _ he ih =>
    obtain ⟨faults, clock, cache, -, -, rfl⟩ := he
    exact hP.faults faults ih
  | beside _ _ _ _ _ _ _ _ ih => exact ih

theorem EvolvedFrom.sound (h : EvolvedFrom store e) (hs : store.Sound) : e.store.Sound :=
  h.steady Store.steady_sound hs

/-- If all events lie in the hours of their maps at the beginning they always do. -/
theorem EvolvedFrom.filed (h : EvolvedFrom store e) (hs : store.Filed) : e.store.Filed :=
  h.steady Store.Filed.steady hs

end EventSet

end EventStore
