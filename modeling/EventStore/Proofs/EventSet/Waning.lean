import EventStore.Proofs.EventSet.Caching
import EventStore.Proofs.Store.Sound

/-!
# Sets that lose buckets

While nothing is done with a set but that buckets are evicted and events asked for, the engine stays
what it was except for what is gone (`Waned`), and the maps of a bucket go first: whoever finds a
bucket's index empty, its state dropped or its place in the registry taken finds its map of events
gone from then on. `Learns` says what a call comes to that has found such buckets on its way; it is
shown here for the calls that evict (`evict_learns`).
-/

namespace EventStore

open Query Operation

/-- Maps may have gone. Those that are there are as they were. -/
def View.Fades (v v' : View) : Prop := ∀ m, v' m = v m ∨ v' m = none

theorem View.Fades.refl (v : View) : v.Fades v := fun _ => .inl rfl

theorem View.Fades.trans {v v' v'' : View} (h : v.Fades v') (h' : v'.Fades v'') : v.Fades v'' := by
  intro m
  rcases h' m with hm | hm
  · exact (h m).imp hm.trans hm.trans
  · exact .inr hm

/-- Whether a map can be removed or not, no other changes. -/
theorem Store.fades_removeMap (s : Store) (name : String) :
    s.entries?.Fades (s.answer (.removeMap name)).2.entries? := by
  have heffect : s.entries?.Fades ((Request.removeMap name).effect s.entries?) := by
    intro m
    simp only [Request.effect]
    split
    · exact .inr rfl
    · exact .inl rfl
  obtain ⟨r, s', hr⟩ : ∃ r s', s.answer (.removeMap name) = (r, s') := ⟨_, _, rfl⟩
  rw [hr]
  cases r with
  | ok had => exact (replies_of_ok hr).2 ▸ heffect
  | error p =>
    rcases entries?_of_removeMap_error hr with h | h
    · exact h ▸ .refl _
    · exact h ▸ heffect

namespace EventSet

variable {e₀ e e' : Engine} {b c : Bucket} {k k' : List Bucket}

def Gone (b : Bucket) (e : Engine) : Prop := e.store.entries? b.eventsMap = none

theorem Gone.fades (h : Gone b e) (hf : e.store.entries?.Fades e'.store.entries?) : Gone b e' :=
  (hf b.eventsMap).elim (·.trans h) id

/-- Since `e₀` buckets have been evicted, or are just being evicted. -/
structure Waned (e₀ e : Engine) : Prop where
  available : e.store.isAvailable = true
  cache : e.cache.Sound
  free : e.registering = false
  size : e.opened.size = e₀.opened.size
  maps : e₀.store.entries?.Fades e.store.entries?
  registry : ∀ {hour : Hour} {b : Bucket}, e.registry[hour]? = some b →
    e₀.registry[hour]? = some b
  kept : ∀ {b : Bucket}, Registered b e₀ → Registered b e ∨ Gone b e
  index : ∀ {b : Bucket}, Registered b e₀ → (e.data b).index = (e₀.data b).index ∨
    (e.data b).index = .empty ∧ Gone b e
  state : ∀ {b : Bucket}, Registered b e₀ → (e.data b).state = (e₀.data b).state ∨
    (e.data b).state = .dropped ∧ Gone b e

namespace Waned

theorem start (h₀ : Quiet e₀) (ha : e₀.store.isAvailable = true) : Waned e₀ e₀ where
  available := ha
  cache := h₀.cache
  free := h₀.registering
  size := rfl
  maps := .refl _
  registry := id
  kept := .inl
  index _ := .inl rfl
  state _ := .inl rfl

theorem asks (h : Waned e₀ e) {store : Store} {cache : Cache}
    (hf : e.store.entries?.Fades store.entries?) (ha : store.isAvailable = true)
    (hc : cache.Sound) (clock : Nat) :
    Waned e₀ { e with store := store, cache := cache, clock := clock } where
  available := ha
  cache := hc
  free := h.free
  size := h.size
  maps := h.maps.trans hf
  registry := h.registry
  kept hb := (h.kept hb).imp_right (·.fades hf)
  index hb := (h.index hb).imp_right fun ⟨hi, hg⟩ => ⟨hi, hg.fades hf⟩
  state hb := (h.state hb).imp_right fun ⟨hs, hg⟩ => ⟨hs, hg.fades hf⟩

/-- What changes about a bucket is that it is dropped, with its map gone. -/
theorem setData (h : Waned e₀ e) (h₀ : Quiet e₀) (hb : Registered b e₀) {d : BucketData}
    (hi : d.index = (e.data b).index ∨ d.index = .empty ∧ Gone b e)
    (hs : d.state = (e.data b).state ∨ d.state = .dropped ∧ Gone b e) :
    Waned e₀ (e.setData b d) := by
  -- Registered buckets of one number are the same.
  have hdata {c : Bucket} (hc : Registered c e₀) : b = c ∧ (e.setData b d).data c = d ∨
      (e.setData b d).data c = e.data c := by
    rw [Engine.data_setData (h.size ▸ h₀.here hb)]
    split
    · next hn => exact .inl ⟨h₀.apart hb hc hn, rfl⟩
    · exact .inr rfl
  refine { h with
    size := (size_setData ..).trans h.size
    index := fun hc => ?_
    state := fun hc => ?_ }
  · rcases hdata hc with ⟨rfl, hd⟩ | hd
    · rw [hd]
      rcases hi with hi | hi
      · exact hi ▸ h.index hc
      · exact .inr hi
    · exact hd ▸ h.index hc
  · rcases hdata hc with ⟨rfl, hd⟩ | hd
    · rw [hd]
      rcases hs with hs | hs
      · exact hs ▸ h.state hc
      · exact .inr hs
    · exact hd ▸ h.state hc

theorem forget (h : Waned e₀ e) (hg : Gone b e) :
    Waned e₀ { e with registry := e.registry.erase b.hour } := by
  refine { h with
    registry := fun hc => h.registry (getElem?_erase_eq_some.mp hc).2
    kept := fun {c} hc => ?_ }
  rcases h.kept hc with hk | hk
  · by_cases hh : c.hour = b.hour
    · refine .inr ?_
      show e.store.entries? c.eventsMap = none
      rw [Bucket.eventsMap, hh]
      exact hg
    · exact .inl (getElem?_erase_eq_some.mpr ⟨hh, hk⟩)
  · exact .inr hk

end Waned

-- ---- calls that share the set --------------------------------------------

/-- What a step can do, with the buckets that the call knows to be gone before and afterwards. -/
structure Wanes (e₀ e : Engine) (e' : Engine) (k' : List Bucket) : Prop where
  fades : e.store.entries?.Fades e'.store.entries?
  waned : Waned e₀ e'
  gone : ∀ b ∈ k', Gone b e'

/-- What is gone stays gone. -/
def waning (e₀ : Engine) : Sharing Engine (List Bucket) where
  Sound := Waned e₀
  Holds e k := ∀ b ∈ k, Gone b e
  May e k e' k' := Waned e₀ e → (∀ b ∈ k, Gone b e) → Wanes e₀ e e' k'
  Others _ e e' := e.store.entries?.Fades e'.store.entries?
  Apart _ _ := True
  stay _ _ hs hk := ⟨.refl _, hs, hk⟩
  sound hm hs hk := (hm hs hk).waned
  holds hm hs hk := (hm hs hk).gone
  refl _ _ := .refl _
  trans := .trans
  kept hf hk b hb := (hk b hb).fades hf
  symm _ := trivial
  others hm hs hk _ _ := ⟨(hm hs hk).fades, trivial⟩

/-- The operation may learn of more buckets that are gone than `k`. If it succeeds `Q` is true of
those and the answer, and `E` of those and the error if it fails. -/
def Learns (e₀ : Engine) {α : Type} (op : Operation α) (k : List Bucket)
    (Q : α → List Bucket → Prop) (E : EngineError → List Bucket → Prop) : Prop :=
  ∀ e, op.Abides (waning e₀) e k (fun a _ k' => k ⊆ k' ∧ Q a k') fun p _ k' => k ⊆ k' ∧ E p k'

namespace Learns

variable {α β : Type} {op : Operation α} {Q Q' : α → List Bucket → Prop}
  {E E' : EngineError → List Bucket → Prop}

theorem pure' {a : α} (h : Q a k) : Learns e₀ (pure a) k Q E := fun _ => ⟨List.Subset.refl k, h⟩

theorem throw' {p : EngineError} (h : E p k) : Learns e₀ (throw p : Operation α) k Q E :=
  fun _ => ⟨List.Subset.refl k, h⟩

theorem mono (h : Learns e₀ op k Q E) (hq : ∀ a k', k ⊆ k' → Q a k' → Q' a k')
    (he : ∀ p k', k ⊆ k' → E p k' → E' p k') : Learns e₀ op k Q' E' := fun e =>
  (h e).mono (fun a _ k' h => ⟨h.1, hq a k' h.1 h.2⟩) fun p _ k' h => ⟨h.1, he p k' h.1 h.2⟩

theorem bind {f : α → Operation β} {R : β → List Bucket → Prop} (h : Learns e₀ op k Q E)
    (hf : ∀ a k', k ⊆ k' → Q a k' → Learns e₀ (f a) k' R E) : Learns e₀ (op >>= f) k R E := by
  intro e
  refine (h e).bind fun a e' k' ⟨hk, hq⟩ => ?_
  exact (hf a k' hk hq e').mono (fun _ _ _ h => ⟨List.Subset.trans hk h.1, h.2⟩)
    fun _ _ _ h => ⟨List.Subset.trans hk h.1, h.2⟩

theorem attempt {act : Engine → Except EngineError α × Engine}
    (h : ∀ u, Waned e₀ u → (∀ b ∈ k, Gone b u) → ∃ k', k ⊆ k' ∧ Wanes e₀ u (act u).2 k' ∧
      match (act u).1 with
      | .ok a => Q a k'
      | .error p => E p k') : Learns e₀ (attempt act) k Q E := by
  refine fun e => .attempt fun u hu => ?_
  obtain ⟨k', hk, hw, hr⟩ := h u hu.sound hu.holds
  refine ⟨k', fun _ _ => hw, ?_⟩
  split
  · next hq => exact ⟨hk, by simpa only [hq] using hr⟩
  · next he => exact ⟨hk, by simpa only [he] using hr⟩

theorem whenever {ready : Engine → Bool} {act : Engine → α × Engine}
    (h : ∀ u, Waned e₀ u → (∀ b ∈ k, Gone b u) →
      ∃ k', k ⊆ k' ∧ Wanes e₀ u (act u).2 k' ∧ Q (act u).1 k') :
    Learns e₀ (liftM (Activity.whenever ready act)) k Q E := by
  refine fun e => .lift (.whenever fun u hu _ => ?_)
  obtain ⟨k', hk, hw, hq⟩ := h u hu.sound hu.holds
  exact ⟨k', fun _ _ => hw, hk, hq⟩

theorem observe {f : Engine → α} (h : ∀ u, Waned e₀ u → (∀ b ∈ k, Gone b u) →
    ∃ k', k ⊆ k' ∧ (∀ b ∈ k', Gone b u) ∧ Q (f u) k') :
    Learns e₀ (liftM (Activity.observe f)) k Q E :=
  whenever fun u hu hk =>
    have ⟨k', hsub, hk', hq⟩ := h u hu hk
    ⟨k', hsub, ⟨.refl _, hu, hk'⟩, hq⟩

theorem ofRegistry {f : Std.ExtTreeMap Hour Bucket compare → α}
    (h : ∀ u, Waned e₀ u → (∀ b ∈ k, Gone b u) →
      ∃ k', k ⊆ k' ∧ (∀ b ∈ k', Gone b u) ∧ Q (f u.registry) k') :
    Learns e₀ (liftM (do return f (← registry) : Activity Engine α)) k Q E := by
  refine fun e => .lift (.bind (P := fun r _ k' => k ⊆ k' ∧ Q (f r) k') (.whenever fun u hu _ => ?_)
    fun _ _ _ hq => .pure' hq)
  obtain ⟨k', hsub, hk', hq⟩ := h u hu.sound hu.holds
  exact ⟨k', fun hs _ => ⟨.refl _, hs, hk'⟩, hsub, hq⟩

end Learns

-- ---- eviction ------------------------------------------------------------

section

variable (h₀ : Quiet e₀) (hb : Registered b e₀)
include h₀ hb

theorem change_learns (f : BucketData → BucketData)
    (hi : ∀ d, (f d).index = d.index ∨ (f d).index = .empty ∧ b ∈ k)
    (hs : ∀ d, (f d).state = d.state ∨ (f d).state = .dropped ∧ b ∈ k)
    {E : EngineError → List Bucket → Prop} :
    Learns e₀ (liftM (b.change f)) k (fun _ _ => True) E :=
  .whenever fun _ hu hk => ⟨k, List.Subset.refl k, ⟨.refl _,
    hu.setData h₀ hb ((hi _).imp_right fun h => ⟨h.1, hk b h.2⟩)
      ((hs _).imp_right fun h => ⟨h.1, hk b h.2⟩), hk⟩, trivial⟩

theorem alone_learns {α : Type} {op : Operation α} {Q : α → List Bucket → Prop}
    {E : EngineError → List Bucket → Prop} (h : Learns e₀ op k Q E) :
    Learns e₀ (b.alone op) k Q E := by
  have hmark {e : Engine} {j : List Bucket} (writing : Bool) (he : Waned e₀ e)
      (hj : ∀ b ∈ j, Gone b e) :
      Wanes e₀ e (e.setData b { e.data b with writing := writing }) j :=
    ⟨.refl _, he.setData h₀ hb (.inl rfl) (.inl rfl), hj⟩
  refine fun e => .between (.whenever fun _ _ _ => ⟨k, hmark true, ?_⟩)
  refine (h _).mono (fun a e₂ k₂ hq => ?_) fun p e₂ k₂ he => ?_
  · exact .atomically fun _ _ => ⟨k₂, hmark false, hq⟩
  · exact .atomically fun _ _ => ⟨k₂, hmark false, he⟩

omit h₀ hb in
theorem removeMap_learns (b : Bucket) (name : String) :
    Learns e₀ (call (.removeMap name)) k (fun _ k' => b.eventsMap = name → b ∈ k')
      fun _ _ => True := by
  refine .attempt fun u hu hk => ?_
  have hfades := u.store.fades_removeMap name
  have havail := (u.store.isAvailable_answer (.removeMap name)).trans hu.available
  obtain ⟨r, s, hr⟩ : ∃ r s, u.store.answer (.removeMap name) = (r, s) := ⟨_, _, rfl⟩
  rw [hr] at hfades havail
  have hw := hu.asks hfades havail hu.cache u.clock
  have hgone : ∀ c ∈ k, Gone c { u with store := s } := fun c hc => (hk c hc).fades hfades
  simp only [hr]
  cases r with
  | error p => exact ⟨k, List.Subset.refl k, ⟨hfades, hw, hgone⟩, trivial⟩
  | ok had =>
    by_cases hn : b.eventsMap = name
    · refine ⟨b :: k, List.subset_cons_self b k, ⟨hfades, hw, ?_⟩, fun _ => List.mem_cons_self⟩
      refine List.forall_mem_cons.mpr ⟨?_, hgone⟩
      show s.entries? b.eventsMap = none
      rw [(Store.replies_of_ok hr).2, hn]
      exact if_pos rfl
    · exact ⟨k, List.Subset.refl k, ⟨hfades, hw, hgone⟩, fun h => absurd h hn⟩

theorem discard_learns :
    Learns e₀ (b.discard false) k (fun done k' => done = true → b ∈ k') fun _ _ => True := by
  have hclear {k : List Bucket} (hg : b ∈ k) : Learns e₀ (do
      b.setIndex .empty 0
      b.setState .dropped
      return true) k (fun done k' => done = true → b ∈ k') fun _ _ => True := by
    refine .bind (change_learns h₀ hb ({ · with index := .empty, lastId := 0 })
      (fun _ => .inr ⟨rfl, hg⟩) fun _ => .inl rfl) fun _ k₁ h₁ _ => ?_
    refine .bind (change_learns h₀ hb ({ · with state := .dropped }) (fun _ => .inl rfl)
      fun _ => .inr ⟨rfl, h₁ hg⟩) fun _ k₂ h₂ _ => ?_
    exact .pure' fun _ => h₂ (h₁ hg)
  refine alone_learns h₀ hb (.bind (Q := fun state k' => state = .dropped → b ∈ k')
    (.observe fun u hu hk => ?_) fun state k₁ _ hstate => ?_)
  · rcases hu.state hb with hs | ⟨-, hg⟩
    · -- No registered bucket is dropped from the start.
      have hw := (h₀.usable hb).writable
      refine ⟨k, List.Subset.refl k, hk, fun hd => ?_⟩
      rw [← hs, show (u.data b).state = .dropped from hd] at hw
      cases hw
    · exact ⟨b :: k, List.subset_cons_self b k, List.forall_mem_cons.mpr ⟨hg, hk⟩,
        fun _ => List.mem_cons_self⟩
  split
  · exact .pure' nofun
  dsimp only
  split
  · refine .bind (removeMap_learns b b.eventsMap) fun _ k₂ _ hg =>
      .bind (removeMap_learns b b.optionsMap) fun _ k₃ h₃ _ => ?_
    exact hclear (h₃ (hg rfl))
  · next hd => exact hclear (hstate (not_not.mp hd))

omit hb in
theorem evict_learns (hours : List Hour) (dropped : Nat) :
    Learns e₀ (evict hours dropped) k (fun _ _ => True) fun _ _ => True := by
  induction hours generalizing dropped k with
  | nil => exact .pure' trivial
  | cons hour rest ih =>
    refine .bind (Q := fun r _ => ∀ b, r = some b → Registered b e₀)
      (.ofRegistry fun u hu hk => ⟨k, List.Subset.refl k, hk, fun b hb =>
        h₀.registered (hu.registry hb)⟩) fun r k₁ _ hr => ?_
    cases r with
    | none => exact ih dropped
    | some b =>
      refine .bind (discard_learns h₀ (hr b rfl)) fun done k₂ _ hdone => ?_
      cases done with
      | false => exact ih dropped
      | true =>
        refine .bind (Q := fun _ _ => True) (.whenever fun u hu hk =>
          ⟨k₂, List.Subset.refl k₂, ?_, trivial⟩) fun _ _ _ _ => ih (dropped + 1)
        dsimp only
        split
        · exact ⟨.refl _, hu.forget (hk b (hdone rfl)), hk⟩
        · exact ⟨.refl _, hu, hk⟩

omit hb in
theorem evictOf_learns (f : Std.ExtTreeMap Hour Bucket compare → List Hour) :
    Learns e₀ (do evict (f (← registry)) 0) k (fun _ _ => True) fun _ _ => True :=
  .bind (Q := fun _ _ => True) (.whenever fun _ hu hk =>
    ⟨k, List.Subset.refl k, ⟨.refl _, hu, hk⟩, trivial⟩) fun r _ _ _ => evict_learns h₀ (f r) 0

omit hb in
theorem dropData_learns (now : Instant) :
    Learns e₀ (dropData now) k (fun _ _ => True) fun _ _ => True := by
  refine .bind (Q := fun _ _ => True) (.observe fun _ _ hk =>
    ⟨k, List.Subset.refl k, hk, trivial⟩) fun retention k₁ _ _ => ?_
  split
  · exact evictOf_learns h₀ (·.keys.filter (·.start < _))
  · exact .throw' trivial

end

end EventSet

end EventStore
