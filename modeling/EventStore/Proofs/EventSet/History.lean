import EventStore.Proofs.EventSet.Operations

/-!
# What a set can have been through

A set begins over an empty store. Events are added, buckets locked and evicted, and now and
then the set is opened anew. After every such history the set stands for logs of what is
committed (`Reached.holds`).
-/

namespace EventStore

open Std Query Operation

namespace EventSet

variable {e e' : Engine} {logs : HourLogs} {b : Bucket} {hour : Hour} {bs : List Bucket}

-- ---- opening a set -------------------------------------------------------

/-- Buckets that have been opened, and not been registered yet. -/
structure Collected (bs : List Bucket) (e : Engine) (logs : HourLogs) : Prop where
  cache : e.cache.Sound
  kept : ∀ hour, Bucket.Kept hour (logs hour) e.store.entries?
  inUse : ∀ b ∈ bs, b.InUse (logs b.hour) e
  apart : bs.Pairwise fun b b' => b.number ≠ b'.number

theorem Collected.opened (h : Collected bs e logs) (hs : b.Spares (Bucket.grown e) e')
    (hn : b.number = e.opened.size) (hr : b.Rebuilt e.store.entries? (e'.cell b)) :
    Collected (bs ++ [b]) e' logs := by
  obtain ⟨hu, hp⟩ := Bucket.InUse.opened (h.kept b.hour) hs hn hr
  refine ⟨hs.sound h.cache, fun hour => (h.kept hour).prepared hp, fun b' hb' => ?_, ?_⟩
  · rcases List.mem_append.mp hb' with hb' | hb'
    · exact (h.inUse b' hb').opening hs hn hp
    · rw [List.mem_singleton.mp hb']
      exact hu
  · refine List.pairwise_append.mpr ⟨h.apart, List.pairwise_singleton .., fun b' hb' b'' hb'' => ?_⟩
    rw [List.mem_singleton.mp hb'', hn]
    exact Nat.ne_of_lt (h.inUse b' hb').here

theorem mapM_openAt_triple (h : Collected bs e logs) (hours : List Hour) :
    (hours.mapM Bucket.openAt).Triple e
      (fun more e' => Collected (bs ++ more) e' logs ∧ more.map Bucket.hour = hours)
      (fun _ _ => True) := by
  induction hours generalizing e bs with
  | nil =>
    rw [List.mapM_nil]
    exact .pure' ⟨by rwa [List.append_nil], rfl⟩
  | cons hour hours ih =>
    rw [List.mapM_cons]
    refine .bind (P := fun b e' => Collected (bs ++ [b]) e' logs ∧ b.hour = hour)
      ((Bucket.openAt_triple hour e).mono ?_ fun _ _ _ => trivial) ?_
    · rintro b e' ⟨hh, hn, hs, hr⟩
      exact ⟨h.opened hs hn hr, hh⟩
    rintro b e₁ ⟨h₁, rfl⟩
    refine .bind (ih h₁) ?_
    rintro more e₂ ⟨h₂, hm⟩
    refine .pure' ⟨?_, congrArg (b.hour :: ·) hm⟩
    rwa [List.append_assoc] at h₂

theorem getElem?_foldl_insert {r : ExtTreeMap Hour Bucket compare}
    (h : (bs.foldl (fun r b => r.insert b.hour b) r)[hour]? = some b) :
    b ∈ bs ∧ b.hour = hour ∨ r[hour]? = some b := by
  induction bs generalizing r with
  | nil => exact .inr h
  | cons b' bs ih =>
    rcases ih h with ⟨hm, hh⟩ | h
    · exact .inl ⟨List.mem_cons_of_mem _ hm, hh⟩
    · rcases getElem?_insert_eq_some.mp h with ⟨hh, rfl⟩ | ⟨-, h⟩
      · exact .inl ⟨List.mem_cons_self, hh.symm⟩
      · exact .inr h

theorem mem_of_getElem?_foldl_insert
    (h : (bs.foldl (fun r b => r.insert b.hour b) (∅ : ExtTreeMap Hour Bucket compare))[hour]? =
      some b) : b ∈ bs ∧ b.hour = hour := by
  refine (getElem?_foldl_insert h).resolve_right ?_
  rw [ExtTreeMap.getElem?_empty]
  nofun

theorem isSome_getElem?_foldl_insert {r : ExtTreeMap Hour Bucket compare}
    (h : (∃ b ∈ bs, b.hour = hour) ∨ (r[hour]?).isSome) :
    ((bs.foldl (fun r b => r.insert b.hour b) r)[hour]?).isSome := by
  induction bs generalizing r with
  | nil =>
    rcases h with ⟨b, hb, -⟩ | h
    · cases hb
    · exact h
  | cons b' bs ih =>
    refine ih ?_
    by_cases hh : b'.hour = hour
    · subst hh
      rw [ExtTreeMap.getElem?_insert_self]
      exact .inr rfl
    · rw [getElem?_insert_of_ne (Ne.symm hh)]
      rcases h with ⟨b, hb, hb'⟩ | h
      · rcases List.mem_cons.mp hb with rfl | hb
        · exact absurd hb' hh
        · exact .inl ⟨b, hb, hb'⟩
      · exact .inr h

theorem Collected.registered (h : Collected bs e logs)
    (hl : ∀ hour, logs hour ≠ [] → ∃ b ∈ bs, b.hour = hour) :
    Stands { e with registry := bs.foldl (fun r b => r.insert b.hour b) ∅ } logs := by
  refine {
    cache := h.cache
    kept := h.kept
    hour := fun hb => (mem_of_getElem?_foldl_insert hb).2
    inUse := fun {h' b'} hb' => ?_
    apart := fun {h₁ h₂ b₁ b₂} hb₁ hb₂ hne => ?_
    absent := fun {h'} hn => ?_ }
  · obtain ⟨hm, rfl⟩ := mem_of_getElem?_foldl_insert hb'
    exact (h.inUse b' hm).of_eq rfl rfl
  · obtain ⟨hm₁, rfl⟩ := mem_of_getElem?_foldl_insert hb₁
    obtain ⟨hm₂, rfl⟩ := mem_of_getElem?_foldl_insert hb₂
    obtain ⟨i, hi, rfl⟩ := List.getElem_of_mem hm₁
    obtain ⟨j, hj, rfl⟩ := List.getElem_of_mem hm₂
    rcases Nat.lt_trichotomy i j with hij | rfl | hij
    · exact List.pairwise_iff_getElem.mp h.apart i j hi hj hij
    · exact absurd rfl hne
    · exact (List.pairwise_iff_getElem.mp h.apart j i hj hi hij).symm
  · refine Decidable.byContradiction fun hne => ?_
    have := isSome_getElem?_foldl_insert (r := ∅) (.inl (hl h' hne))
    rw [hn] at this
    cases this

/-- Whatever is committed has a map, so its bucket is found. -/
theorem openAll_triple (hc : e.cache.Sound)
    (hk : ∀ hour, Bucket.Kept hour (logs hour) e.store.entries?)
    (hn : ∀ hour : Hour, hour.tokenSeconds? = none → logs hour = []) :
    openAll.Triple e (fun _ e' => Holds e' logs) (fun _ _ => True) := by
  refine .bind (P := fun names e' => e'.cache.Sound ∧ e'.store.entries? = e.store.entries? ∧
      ∀ m, m ∈ names ↔ (e.store.entries? m).isSome)
    ((call_triple (r := .mapNames) nofun e).mono ?_ fun _ _ _ => trivial) ?_
  · rintro names _ ⟨store, clock, ⟨-, hm⟩, hv, rfl⟩
    exact ⟨hc, hv, hm⟩
  rintro names e₁ ⟨hc₁, hv, hm⟩
  have h₁ : Collected [] e₁ logs := ⟨hc₁, hv ▸ hk, by simp, .nil⟩
  refine .bind (mapM_openAt_triple h₁ _) ?_
  rintro found e₂ ⟨h₂, hf⟩
  refine .lift fun _ e' hr => ?_
  obtain ⟨u, ⟨faults, clock, -, rfl⟩, hfree, hr⟩ := Activity.ends_whenever.mp hr
  cases hr
  have := h₂.registered fun hour hne => ?_
  · exact ⟨this.of_eq this.cache rfl rfl rfl, (Bool.not_eq_true' _).mp hfree⟩
  -- An hour with a log has a map of events, and the map has told its hour.
  cases ht : hour.tokenSeconds? with
  | none => exact absurd (hn hour ht) hne
  | some id =>
    have he := (hk hour).entries ⟨0, hour, id, ht⟩ rfl
    have hmap : hour.eventsMap ∈ names := by
      rw [hm]
      cases hs : e.store.entries? hour.eventsMap with
      | some es => rfl
      | none =>
        obtain ⟨x, rest, hl⟩ := List.exists_cons_of_ne_nil hne
        rw [show Bucket.eventsMap ⟨0, hour, id, ht⟩ = hour.eventsMap from rfl, hs, hl] at he
        cases he
    have hmem : hour ∈ found.map Bucket.hour := by
      rw [hf, List.mem_filterMap]
      exact ⟨_, hmap, Hour.ofEventsMap?_eventsMap ht⟩
    simpa using hmem

theorem Stands.log_eq_nil (h : Stands e logs) (hn : hour.tokenSeconds? = none) :
    logs hour = [] := by
  refine h.absent (Option.eq_none_iff_forall_ne_some.mpr fun b hb => ?_)
  have := b.named
  rw [h.hour hb, hn] at this
  cases this

-- ---- histories -----------------------------------------------------------

/-- What a set can have come to, from an empty store on. Calls to the store may fail at any time,
but those of an eviction do not. -/
inductive Reached : Engine → Prop
  | start {store cache settings} (hc : Cache.Sound cache)
    (hv : ∀ m, Store.entries? store m = none) : Reached (.fresh store cache settings)
  | restart {e e' : Engine} {cache settings} (h : Reached e) (hc : Cache.Sound cache)
    (he : openAll.Ends (.fresh e.store cache settings) (.ok ()) e') : Reached e'
  | add {e e' : Engine} {x r} (h : Reached e) (hf : Event.Fits x)
    (he : (EventSet.add x).Ends e r e') : Reached e'
  | addAll {e e' : Engine} {events r} (h : Reached e) (hf : ∀ x ∈ events, Event.Fits x)
    (he : (EventSet.addAll events).Ends Engine.Shaken e r e') : Reached e'
  | lock {e e' : Engine} {r} (h : Reached e) (he : EventSet.lock.Ends e r e') : Reached e'
  | unlock {e e' : Engine} {r} (h : Reached e) (he : EventSet.unlock.Ends e r e') : Reached e'
  | purge {e e' : Engine} {n} (h : Reached e) (he : EventSet.purge.Ends e (.ok n) e') : Reached e'
  | dropData {e e' : Engine} {now n} (h : Reached e)
    (he : (EventSet.dropData now).Ends e (.ok n) e') : Reached e'
  | asked {e e' : Engine} (h : Reached e) (he : e.Asked e') : Reached e'

theorem holds_fresh {store : Store} {cache : Cache} (hc : cache.Sound)
    (hv : ∀ m, store.entries? m = none) (settings : Config.EngineSection) :
    Holds (.fresh store cache settings) fun _ => [] := by
  have hnone (h : Hour) (b : Bucket) :
      (Engine.fresh store cache settings).registry[h]? ≠ some b := by
    rw [show (Engine.fresh store cache settings).registry[h]? = none from
      ExtTreeMap.getElem?_empty]
    nofun
  refine ⟨{
    cache := hc
    kept := fun hour => ⟨by simp, by simp, by simp, fun b _ => ?_⟩
    hour := fun hb => absurd hb (hnone _ _)
    inUse := fun hb => absurd hb (hnone _ _)
    apart := fun hb => absurd hb (hnone _ _)
    absent := fun _ => rfl }, rfl⟩
  rw [show (Engine.fresh store cache settings).store.entries? b.eventsMap = none from hv _]
  rfl

/-- A set always stands for logs. -/
theorem Reached.holds (h : Reached e) : ∃ logs, Holds e logs := by
  induction h with
  | start hc hv => exact ⟨_, holds_fresh hc hv _⟩
  | restart _ hc he ih =>
    obtain ⟨logs, hl⟩ := ih
    exact ⟨logs, openAll_triple (e := .fresh _ _ _) hc hl.kept (fun _ => hl.log_eq_nil) _ _ he⟩
  | add _ hf he ih =>
    obtain ⟨logs, hl⟩ := ih
    have := add_triple hl hf _ _ he
    split at this
    · obtain ⟨b, -, hl', -⟩ := this
      exact ⟨_, hl'⟩
    · exact ⟨logs, this⟩
  | addAll _ hf he ih =>
    obtain ⟨logs, hl⟩ := ih
    obtain ⟨logs', hl', -⟩ := holds_of_addAll hl hf he
    exact ⟨logs', hl'⟩
  | lock _ he ih =>
    obtain ⟨logs, hl⟩ := ih
    have := setAllLocks_triple hl true _ _ he
    split at this <;> exact ⟨logs, this⟩
  | unlock _ he ih =>
    obtain ⟨logs, hl⟩ := ih
    have := setAllLocks_triple hl false _ _ he
    split at this <;> exact ⟨logs, this⟩
  | purge _ he ih =>
    obtain ⟨logs, hl⟩ := ih
    exact purge_triple hl _ _ he
  | dropData _ he ih =>
    obtain ⟨logs, hl⟩ := ih
    exact dropData_triple hl _ _ _ he
  | asked _ he ih =>
    obtain ⟨logs, hl⟩ := ih
    exact ⟨logs, hl.asked he⟩

end EventSet

end EventStore
