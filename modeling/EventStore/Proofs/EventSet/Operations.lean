import EventStore.Proofs.EventSet.State

/-!
# What a set's operations do

For each operation that changes a set of buckets: what becomes of the logs that the set stands
for. Calls to the store may fail at any time; where an operation fails, it has left the logs as
they were.
-/

namespace EventStore

open Std Query Operation

theorem Operation.call_triple {r : Request α} (hr : r.kind ≠ .removeMap) (e : Engine) :
    (call r).Triple e
      (fun a e' => ∃ store clock, r.Replies e.store.entries? a ∧
        store.entries? = r.effect e.store.entries? ∧
        e' = { e with store := store, clock := clock })
      (fun _ e' => ∃ store clock, store.entries? = e.store.entries? ∧
        e' = { e with store := store, clock := clock }) := by
  refine .step ?_
  rintro _ ⟨faults, clock, -, rfl⟩
  dsimp only
  cases ha : Store.answer r { e.store with faults := faults } with
  | mk a s =>
    cases a with
    | ok a =>
      obtain ⟨hr, hv⟩ := Store.replies_of_ok ha
      exact ⟨s, clock, hr, hv, rfl⟩
    | error p =>
      have hv := Store.entries?_of_error hr ha
      exact ⟨s, clock, hv, rfl⟩

namespace EventSet

/-- The set stands for the logs, and nobody is registering a bucket. -/
structure Holds (e : Engine) (logs : HourLogs) : Prop extends Stands e logs where
  free : e.registering = false

def HourLogs.Grow (logs logs' : HourLogs) : Prop := ∀ hour, logs hour <+: logs' hour

theorem HourLogs.Grow.refl (logs : HourLogs) : logs.Grow logs := fun _ => List.prefix_rfl

theorem HourLogs.Grow.trans {l l' l'' : HourLogs} (h : l.Grow l') (h' : l'.Grow l'') : l.Grow l'' :=
  fun hour => (h hour).trans (h' hour)

theorem HourLogs.grow_put (logs : HourLogs) (hour : Hour) (events : List Event) :
    logs.Grow (logs.put hour (logs hour ++ events)) := by
  intro h
  by_cases hh : h = hour
  · rw [hh, HourLogs.put_self]
    exact List.prefix_append ..
  · exact ⟨[], by rw [List.append_nil, HourLogs.put_of_ne hh]⟩

variable {e e' : Engine} {logs : HourLogs} {b : Bucket} {hour : Hour} {α : Type}

theorem Holds.shaken (h : Holds e logs) (hs : e.Shaken e') : Holds e' logs := by
  obtain ⟨faults, clock, -, rfl⟩ := hs
  exact ⟨h.of_eq h.cache rfl rfl rfl, h.free⟩

theorem Holds.asked (h : Holds e logs) (ha : e.Asked e') : Holds e' logs := by
  obtain ⟨faults, clock, cache, -, hc, rfl⟩ := ha
  exact ⟨h.of_eq hc rfl rfl rfl, h.free⟩

theorem Holds.changed {log : List Event} (h : Holds e logs) (hb : e.registry[b.hour]? = some b)
    (hc : b.Becomes log e e') : Holds e' (logs.put b.hour log) := by
  refine ⟨h.toStands.changed (h.clear hb) hc fun hn => ?_, (registering_eq hc.spares).trans h.free⟩
  rw [hb] at hn
  cases hn

theorem Holds.unchanged (h : Holds e logs) (hb : e.registry[b.hour]? = some b)
    (hc : b.Becomes (logs b.hour) e e') :
    Holds e' logs := by
  have := h.changed hb hc
  rwa [HourLogs.put_eq] at this

-- ---- the registry --------------------------------------------------------

theorem ends_registry {r : ExtTreeMap Hour Bucket compare}
    (h : Activity.Ends Engine.Shaken registry e r e') :
    e.Shaken e' ∧ r = e'.registry := by
  obtain ⟨u, hu, -, ha⟩ := Activity.ends_whenever.mp h
  cases ha
  exact ⟨hu, rfl⟩

theorem ends_ofRegistry {f : ExtTreeMap Hour Bucket compare → α} {a : α}
    (h : Activity.Ends Engine.Shaken (do return f (← registry)) e a e') :
    e.Shaken e' ∧ a = f e'.registry := by
  obtain ⟨_, u, hr, ha⟩ := Activity.ends_bind.mp h
  obtain ⟨hs, rfl⟩ := ends_registry hr
  obtain ⟨rfl, rfl⟩ := ha
  exact ⟨hs, rfl⟩

theorem registry_triple {E : EngineError → Engine → Prop} (h : Holds e logs) :
    Triple (liftM registry) e (fun r e' => Holds e' logs ∧ r = e'.registry) E := by
  refine .lift fun r e' hr => ?_
  obtain ⟨hs, hr⟩ := ends_registry hr
  exact ⟨h.shaken hs, hr⟩

theorem ofRegistry_triple {f : ExtTreeMap Hour Bucket compare → α} {E : EngineError → Engine → Prop}
    (h : Holds e logs) :
    Triple (liftM (do return f (← registry) : Activity Engine α)) e
      (fun r e' => Holds e' logs ∧ r = f e'.registry) E := by
  refine .lift fun r e' hr => ?_
  obtain ⟨hs, hr⟩ := ends_ofRegistry hr
  exact ⟨h.shaken hs, hr⟩

/-- While the registry is held no bucket is added, and it is free again in the end. -/
theorem alone_triple {op : Operation α} {Q : α → Engine → Prop} (h : Holds e logs)
    (hop : ∀ u, Stands u logs → u.opened = e.opened → u.registry = e.registry →
      u.store.entries? = e.store.entries? →
      op.Triple u (fun a e' => Stands e' logs ∧ Q a e') (fun _ e' => Stands e' logs))
    (hQ : ∀ a u v, u.registry = v.registry → Q a u → Q a v) :
    (alone op).Triple e (fun a e' => Holds e' logs ∧ Q a e') (fun _ e' => Holds e' logs) := by
  intro r e' hr
  obtain ⟨_, e₁, ha, hr⟩ := Activity.ends_bind.mp hr
  obtain ⟨r', e₂, hend, hr⟩ := Activity.ends_bind.mp hr
  obtain ⟨_, e₃, hl, hr⟩ := Activity.ends_bind.mp hr
  obtain ⟨rfl, rfl⟩ := hr
  obtain ⟨u, hu, -, ha⟩ := Activity.ends_whenever.mp ha
  obtain ⟨v, hv, hl⟩ := Activity.ends_atomically.mp hl
  cases ha
  cases hl
  have hheld : op.Triple { u with registering := true } (fun a e' => Stands e' logs ∧ Q a e')
      (fun _ e' => Stands e' logs) := by
    obtain ⟨faults, clock, -, rfl⟩ := hu
    exact hop _ (h.of_eq h.cache rfl rfl rfl) rfl rfl rfl
  have hend := hheld r' e₂ hend
  obtain ⟨faults, clock, -, rfl⟩ := hv
  cases r' with
  | ok a => exact ⟨⟨hend.1.of_eq hend.1.cache rfl rfl rfl, rfl⟩, hQ a e₂ _ rfl hend.2⟩
  | error p => exact ⟨hend.of_eq hend.cache rfl rfl rfl, rfl⟩

/-- While a bucket is being registered, it is in use and its hour has none. -/
structure Registering (b : Bucket) (e : Engine) (logs : HourLogs) : Prop where
  stands : Stands e logs
  spare : Spare b e logs
  absent : e.registry[b.hour]? = none

theorem Registering.of_eq (h : Registering b e logs) (hc : e'.cache.Sound)
    (ho : e'.opened = e.opened) (hr : e'.registry = e.registry)
    (hv : e'.store.entries? = e.store.entries?) :
    Registering b e' logs :=
  ⟨h.stands.of_eq hc ho hr hv, ⟨h.spare.inUse.of_eq ho hv, hr ▸ h.spare.clear⟩, hr ▸ h.absent⟩

theorem Registering.shaken (h : Registering b e logs) (hs : e.Shaken e') :
    Registering b e' logs := by
  obtain ⟨faults, clock, -, rfl⟩ := hs
  exact h.of_eq h.stands.cache rfl rfl rfl

theorem Registering.changed (h : Registering b e logs) (hc : b.Becomes (logs b.hour) e e') :
    Registering b e' logs := by
  have hr := registry_eq hc.spares
  have hclear : Clear b e := by
    intro h' b' hb' _
    refine ⟨?_, h.spare.clear h' b' hb'⟩
    rintro rfl
    rw [h.absent] at hb'
    cases hb'
  have hl : logs b.hour = [] := h.stands.absent h.absent
  have := h.stands.changed hclear hc fun _ => hl
  rw [HourLogs.put_eq] at this
  exact ⟨this, ⟨hc.inUse, hr ▸ h.spare.clear⟩, hr ▸ h.absent⟩

theorem Registering.atomically_triple {f : Engine → α × Engine} {P : α → Engine → Prop}
    {E : EngineError → Engine → Prop} (h : Registering b e logs)
    (hf : ∀ u, Registering b u logs → P (f u).1 (f u).2) :
    Triple (liftM (Activity.atomically f)) e P E := by
  refine .lift fun r e' hr => ?_
  obtain ⟨u, hu, hr⟩ := Activity.ends_atomically.mp hr
  have hend := hf u (h.shaken hu)
  rwa [hr] at hend

theorem Registering.insert_triple {E : EngineError → Engine → Prop} (h : Registering b e logs) :
    Triple (do
        insert b
        return b) e (fun b' e' => Stands e' logs ∧ e'.registry[b.hour]? = some b') E := by
  refine .bind (P := fun _ e' => Stands e' logs ∧ e'.registry[b.hour]? = some b)
    (h.atomically_triple fun u hu => ?_) fun _ e' h' => .pure' h'
  exact ⟨hu.stands.inserted hu.spare hu.absent, ExtTreeMap.getElem?_insert_self⟩

theorem register_triple (h : Holds e logs) (hb : Spare b e logs) : (register b).Triple e
    (fun b' e' => Holds e' logs ∧ e'.registry[b.hour]? = some b') (fun _ e' => Holds e' logs) := by
  refine alone_triple (Q := fun b' e' => e'.registry[b.hour]? = some b') h ?_
    fun _ _ _ hr h => hr ▸ h
  intro u hs ho hr hv
  have hu : Spare b u logs := ⟨hb.inUse.of_eq ho hv, hr ▸ hb.clear⟩
  refine .bind (P := fun r e' => r = e'.registry[b.hour]? ∧ Stands e' logs ∧ Spare b e' logs)
    (.lift ?_) ?_
  · intro r e' hend
    obtain ⟨_, ⟨faults, clock, -, rfl⟩, hend⟩ := Activity.ends_atomically.mp hend
    cases hend
    exact ⟨rfl, hs.of_eq hs.cache rfl rfl rfl, hu.inUse.of_eq rfl rfl, hu.clear⟩
  rintro (_ | other) e₁ ⟨hnone, hs₁, hb₁⟩
  · have h₁ : Registering b e₁ logs := ⟨hs₁, hb₁, hnone.symm⟩
    refine .bind (P := fun _ e' => Registering b e' logs) (h₁.atomically_triple fun _ hu => hu) ?_
    rintro (_ | _) e₂ h₂
    · exact h₂.insert_triple
    · refine .bind (P := fun _ e' => Registering b e' logs) (h₂.atomically_triple fun _ hu => hu) ?_
      intro state e₃ h₃
      by_cases hstate : state = .locked
      · simp only [hstate, ne_eq, not_true_eq_false, ↓reduceIte]
        exact h₃.insert_triple
      · simp only [ne_eq, hstate, not_false_eq_true, ↓reduceIte]
        refine .bind (P := fun _ e' => Registering b e' logs)
          ((Bucket.setLock_does b true _ e₃ h₃.spare.inUse.here rfl).mono ?_ ?_)
          fun _ _ h₄ => h₄.insert_triple
        · rintro - e' ⟨hs', -, -, -, hc⟩
          exact h₃.changed (h₃.spare.inUse.marked hs' hc)
        · rintro p e' ⟨hs', hc⟩
          exact (h₃.changed (h₃.spare.inUse.unchanged hs' hc)).stands
  · exact .pure' ⟨hs₁, hnone.symm⟩

/-- The bucket of an hour is there in the end, whatever happens; making it changes no log. -/
theorem getOrCreate_triple (h : Holds e logs) (hour : Hour) : (getOrCreate hour).Triple e
    (fun b e' => Holds e' logs ∧ e'.registry[hour]? = some b) (fun _ e' => Holds e' logs) := by
  refine .bind (ofRegistry_triple (f := (·[hour]?)) h) ?_
  rintro (_ | b) e₁ ⟨h₁, hr⟩
  · refine .bind (P := fun b e' => Holds e' logs ∧ Spare b e' logs ∧ b.hour = hour)
      ((Bucket.openAt_triple hour e₁).mono ?_ ?_) ?_
    · rintro b e' ⟨hh, hn, hs, hr⟩
      obtain ⟨hst, hsp⟩ := h₁.opened hs hn hr
      exact ⟨⟨hst, (registering_eq hs).trans h₁.free⟩, hsp, hh⟩
    · rintro p e' (⟨-, -, rfl⟩ | ⟨b, hh, hn, hs, v, hp, hc⟩)
      · exact h₁
      · have hv : e'.store.entries? = v := congrArg Cell.view hc
        exact ⟨h₁.opening hs hn (hv ▸ hp), (registering_eq hs).trans h₁.free⟩
    · rintro b e₂ ⟨h₂, hb, rfl⟩
      exact register_triple h₂ hb
  · exact .pure' ⟨h₁, hr.symm⟩

-- ---- adding --------------------------------------------------------------

theorem addTo_triple (h : Holds e logs) (hb : e.registry[hour]? = some b) (events : List Event)
    (hf : ∀ x ∈ events, x.Fits) : (b.addAll events).Triple e
      (fun stored e' => Holds e' (logs.put hour (logs hour ++ events)) ∧
        stored = b.numbered (logs hour).length.toUInt32 events)
      (fun _ e' => Holds e' logs) := by
  obtain rfl := h.hour hb
  have hu := h.inUse hb
  refine (Bucket.addAll_does b events _ e hu.here rfl).mono ?_ ?_
  · rintro stored e' ⟨hs, hst, hc, ha⟩
    exact ⟨h.changed hb (hu.added hs hc ha hf), by rw [hst, hu.represents.last]⟩
  · rintro p e' ⟨hs, hc⟩
    exact h.unchanged hb (hu.unchanged hs hc)

theorem add_triple (h : Holds e logs) {x : Event} (hf : x.Fits) : (add x).Triple e
    (fun stored e' => ∃ b : Bucket, x.hour? = some b.hour ∧
      Holds e' (logs.put b.hour (logs b.hour ++ [x])) ∧
      b.numbered (logs b.hour).length.toUInt32 [x] = [stored])
    (fun _ e' => Holds e' logs) := by
  refine .bind (P := fun hour e' => x.hour? = some hour ∧ e' = e) ?_ ?_
  · unfold route
    split
    · next hour hh => exact .pure' ⟨hh, rfl⟩
    · exact .throw' h
  rintro hour _ ⟨hh, rfl⟩
  refine .bind (getOrCreate_triple h hour) ?_
  rintro b e₁ ⟨h₁, hb⟩
  obtain rfl := h₁.hour hb
  refine .bind (addTo_triple h₁ hb [x] (by simpa using hf)) ?_
  rintro stored e₂ ⟨h₂, rfl⟩
  exact .pure' ⟨b, hh, h₂, rfl⟩

theorem holds_of_addGroup (h : Holds e logs) {r r' : Report} {events : List Event}
    (hf : ∀ x ∈ events, x.Fits)
    (he : Activity.Ends Engine.Shaken (addGroup r hour events) e r' e') :
    ∃ logs', Holds e' logs' ∧ logs.Grow logs' := by
  obtain ⟨result, e₁, hop, hr⟩ := Activity.ends_bind.mp he
  have htriple : Triple (do (← getOrCreate hour).addAll events) e
      (fun _ e' => ∃ logs', Holds e' logs' ∧ logs.Grow logs')
      (fun _ e' => ∃ logs', Holds e' logs' ∧ logs.Grow logs') := by
    refine .bind
      ((getOrCreate_triple h hour).mono (fun _ _ h => h) fun _ _ h => ⟨logs, h, .refl _⟩) ?_
    rintro b e₁ ⟨h₁, hb⟩
    refine (addTo_triple h₁ hb events hf).mono ?_ ?_
    · rintro stored e' ⟨h', -⟩
      exact ⟨_, h', logs.grow_put hour events⟩
    · exact fun _ _ h' => ⟨logs, h', .refl _⟩
  have := htriple result e₁ hop
  cases result with
  | ok stored =>
    obtain ⟨rfl, rfl⟩ := hr
    exact this
  | error p =>
    dsimp only at hr
    split at hr
    · obtain ⟨rfl, rfl⟩ := hr
      exact this
    · obtain ⟨rfl, rfl⟩ := hr
      exact this

theorem fits_of_mem_groups {events group : List Event} (hf : ∀ x ∈ events, x.Fits)
    (hg : (hour, group) ∈ groups events) :
    ∀ x ∈ group, x.Fits := by
  obtain ⟨hour', -, he⟩ := List.mem_map.mp hg
  cases he
  exact fun x hx => hf x (List.mem_filter.mp hx).1

theorem holds_of_addGroups (h : Holds e logs) {r r' : Report} {gs : List (Hour × List Event)}
    (hf : ∀ g ∈ gs, ∀ x ∈ g.2, x.Fits)
    (he : Activity.Ends Engine.Shaken
      (gs.foldlM (fun r (hour, group) => addGroup r hour group) r) e r' e') :
    ∃ logs', Holds e' logs' ∧ logs.Grow logs' := by
  induction gs generalizing e logs r with
  | nil =>
    obtain ⟨-, rfl⟩ := he
    exact ⟨logs, h, .refl _⟩
  | cons g gs ih =>
    rw [List.foldlM_cons] at he
    obtain ⟨r₁, e₁, hg, he⟩ := Activity.ends_bind.mp he
    obtain ⟨logs₁, h₁, hgrow⟩ := holds_of_addGroup h (hf g List.mem_cons_self) hg
    obtain ⟨logs', h', hgrow'⟩ := ih h₁ (fun g hg => hf g (List.mem_cons_of_mem _ hg)) he
    exact ⟨logs', h', hgrow.trans hgrow'⟩

theorem holds_of_addAll (h : Holds e logs) {r : Report} {events : List Event}
    (hf : ∀ x ∈ events, x.Fits) (he : Activity.Ends Engine.Shaken (addAll events) e r e') :
    ∃ logs', Holds e' logs' ∧ logs.Grow logs' :=
  holds_of_addGroups h (fun _ hg => fits_of_mem_groups hf hg) he

-- ---- locking -------------------------------------------------------------

/-- Locking or unlocking a registered bucket changes no log, and none is registered meanwhile. -/
theorem setLock_triple (h : Holds e logs) (hb : e.registry[hour]? = some b) (locked : Bool) :
    (b.setLock locked).Triple e (fun _ e' => Holds e' logs ∧ e'.registry = e.registry)
      (fun _ e' => Holds e' logs ∧ e'.registry = e.registry) := by
  obtain rfl := h.hour hb
  have hu := h.inUse hb
  refine (Bucket.setLock_does b locked _ e hu.here rfl).mono ?_ ?_
  · rintro - e' ⟨hs, -, -, -, hc⟩
    exact ⟨h.unchanged hb (hu.marked hs hc), registry_eq hs⟩
  · rintro p e' ⟨hs, hc⟩
    exact ⟨h.unchanged hb (hu.unchanged hs hc), registry_eq hs⟩

theorem setLocks_triple (h : Holds e logs) {bs : List Bucket}
    (hbs : ∀ b ∈ bs, ∃ hour : Hour, e.registry[hour]? = some b) (locked : Bool) :
    (bs.forM fun b => unlessDropped (b.setLock locked)).Triple e (fun _ e' => Holds e' logs)
      (fun _ e' => Holds e' logs) := by
  induction bs generalizing e with
  | nil => exact .pure' h
  | cons b bs ih =>
    obtain ⟨hour, hb⟩ := hbs b List.mem_cons_self
    show Triple (unlessDropped (b.setLock locked) >>= fun _ =>
      bs.forM fun b => unlessDropped (b.setLock locked)) e _ _
    refine .bind (P := fun _ e' => Holds e' logs ∧ e'.registry = e.registry)
      (.settle (setLock_triple h hb locked) ?_ ?_) ?_
    · exact fun _ _ h' => .pure' h'
    · rintro p e' h'
      split
      · next he => cases he
      · exact .pure' h'
      · exact .throw' h'.1
    · rintro - e' ⟨h', hr⟩
      exact ih h' fun b hb => hr ▸ hbs b (List.mem_cons_of_mem _ hb)

theorem values_eq (r : ExtTreeMap Hour Bucket compare) : r.values = r.toList.map Prod.snd := by
  obtain ⟨⟨q⟩⟩ := r
  induction q using Quotient.ind with
  | _ t =>
    show t.inner.values = (DTreeMap.Internal.Impl.Const.toList t.inner).map Prod.snd
    rw [DTreeMap.Internal.Impl.values_eq_map_snd,
      DTreeMap.Internal.Impl.Const.toList_eq_toListModel_map, List.map_map]
    rfl

theorem exists_of_mem_values {r : ExtTreeMap Hour Bucket compare} (h : b ∈ r.values) :
    ∃ hour : Hour, r[hour]? = some b := by
  rw [values_eq, List.mem_map] at h
  obtain ⟨⟨hour, b⟩, hb, rfl⟩ := h
  exact ⟨hour, ExtTreeMap.mem_toList_iff_getElem?_eq_some.mp hb⟩

theorem mem_values {r : ExtTreeMap Hour Bucket compare} (h : r[hour]? = some b) :
    b ∈ r.values := by
  rw [values_eq]
  exact List.mem_map.mpr ⟨(hour, b), ExtTreeMap.mem_toList_iff_getElem?_eq_some.mpr h, rfl⟩

theorem setAllLocks_triple (h : Holds e logs) (locked : Bool) : Triple (do
    setLocked locked
    (← buckets).forM fun b => unlessDropped (b.setLock locked)) e (fun _ e' => Holds e' logs)
      (fun _ e' => Holds e' logs) := by
  refine .bind (P := fun _ e' => Holds e' logs) (.lift ?_) ?_
  · intro _ e' hl
    obtain ⟨u, hu, hl⟩ := Activity.ends_atomically.mp hl
    cases hl
    have hu := h.shaken hu
    exact ⟨hu.of_eq hu.cache rfl rfl rfl, hu.free⟩
  rintro - e₁ h₁
  refine .bind (ofRegistry_triple (f := (·.values)) h₁) ?_
  rintro _ e₂ ⟨h₂, rfl⟩
  exact setLocks_triple h₂ (fun b hb => exists_of_mem_values hb) locked

-- ---- eviction ------------------------------------------------------------

theorem ends_forget (hb : e.registry[b.hour]? = some b) {a : Unit}
    (h : Activity.Ends Engine.Shaken (forget b) e a e') :
    Engine.Shaken { e with registry := e.registry.erase b.hour } e' := by
  obtain ⟨u, ⟨faults, clock, hclock, rfl⟩, -, h⟩ := Activity.ends_whenever.mp h
  rw [if_pos hb] at h
  cases h
  exact ⟨faults, clock, hclock, rfl⟩

/-- A bucket that is dropped leaves its hour without a log. Nothing but a call to the store can
fail. -/
theorem evict_triple (h : Holds e logs) (hours : List Hour) (n : Nat) : (evict hours n).Triple e
    (fun _ e' => ∃ logs', Holds e' logs') (fun p _ => ∃ q, p = .store q) := by
  induction hours generalizing e logs n with
  | nil => exact .pure' ⟨logs, h⟩
  | cons hour hours ih =>
    refine .bind (ofRegistry_triple (f := (·[hour]?)) h) ?_
    rintro (_ | b) e₁ ⟨h₁, hr⟩
    · exact ih h₁ n
    have hb := hr.symm
    have hu := h₁.inUse hb
    obtain rfl := h₁.hour hb
    refine .bind (P := fun done e' => b.Spares e₁ e' ∧ (done = false ∧ e'.cell b = e₁.cell b ∨
        done = true ∧ e'.cell b = b.emptied false (e₁.cell b)))
      ((Bucket.discard_does b false _ e₁ hu.here rfl).mono ?_ fun _ _ hp => hp.2.1) ?_
    · rintro done e' ⟨hs, -, ⟨rfl, -, hc⟩ | ⟨rfl, -, hc⟩⟩
      · exact ⟨hs, .inl ⟨rfl, hc⟩⟩
      · exact ⟨hs, .inr ⟨rfl, hc⟩⟩
    rintro done e₂ ⟨hs, ⟨rfl, hc⟩ | ⟨rfl, hc⟩⟩
    · exact ih (h₁.unchanged hb (hu.unchanged hs hc)) n
    · refine .bind (P := fun _ e' => Holds e' (logs.put b.hour [])) (.lift ?_)
        fun _ _ h' => ih h' (n + 1)
      intro _ e' hf
      have hr : e₂.registry[b.hour]? = some b := by rw [registry_eq hs, hb]
      have hv : e₂.store.entries? = (b.emptied false (e₁.cell b)).view := congrArg Cell.view hc
      have hcf : b.Confined e₁.store.entries? e₂.store.entries? :=
        hv ▸ b.confined_emptied (e₁.cell b)
      have hforgotten := h₁.forgotten hb hs hcf (hc ▸ hu.represents.emptied false)
      exact Holds.shaken ⟨hforgotten, (registering_eq hs).trans h₁.free⟩ (ends_forget hr hf)

theorem purge_triple (h : Holds e logs) :
    purge.Triple e (fun _ e' => ∃ logs', Holds e' logs') (fun p _ => ∃ q, p = .store q) := by
  refine .bind (registry_triple h) ?_
  rintro r e₁ ⟨h₁, -⟩
  exact evict_triple h₁ _ 0

theorem dropData_triple (h : Holds e logs) (now : Instant) : (dropData now).Triple e
    (fun _ e' => ∃ logs', Holds e' logs')
    (fun p e' => (∃ q, p = .store q) ∨ p = .outOfRange ∧ e.Shaken e') := by
  refine .bind (P := fun _ e' => e.Shaken e') (.lift fun span e' hr => ?_) fun span e₁ hs => ?_
  · obtain ⟨u, hu, hr⟩ := Activity.ends_atomically.mp hr
    cases hr
    exact hu
  split
  · refine .bind (registry_triple (h.shaken hs)) ?_
    rintro r e₂ ⟨h₂, -⟩
    exact (evict_triple h₂ _ 0).mono (fun _ _ h => h) fun _ _ hp => .inl hp
  · exact .throw' (.inr ⟨rfl, hs⟩)

end EventSet

end EventStore
