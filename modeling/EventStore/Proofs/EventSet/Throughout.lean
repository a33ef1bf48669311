import EventStore.Proofs.EventSet.Convergence
import EventStore.Proofs.EventSet.Effects

/-!
# What is true of every registered bucket

A set that is used by one caller at a time can have been through anything (`Evolved`): it begins
over whatever a store holds, events are added, buckets locked and evicted, calls to the store fail.
What lasts through all that can be done to one bucket (`Bucket.Lasting`) is then true of every
registered bucket (`Throughout`), since the buckets do not get into each other's way.
-/

namespace EventStore

open Std Query Operation

/-- Nothing that a set does to a bucket that it keeps makes this false of its cell. -/
structure Bucket.Lasting (P : Bucket → Cell → Prop) : Prop where
  view : ∀ {b : Bucket} {c : Cell} {v : View}, P b c → v b.eventsMap = c.view b.eventsMap →
    v b.optionsMap = c.view b.optionsMap → P b { c with view := v }
  prepared : ∀ {b b' : Bucket} {c : Cell} {v : View}, P b c → b'.Prepared c.view v →
    P b { c with view := v }
  rebuilt : ∀ {b : Bucket} {c : Cell} {v : View}, b.Rebuilt v c → P b c
  added : ∀ {b : Bucket} {c : Cell} {events : List Event}, P b c → b.Admits events c →
    (∀ x ∈ events, x.Fits) → P b (b.added events c)
  marked : ∀ {b : Bucket} {c : Cell} (locked : Bool), P b c → c.data.state.isWritable = true →
    (c.view b.optionsMap).isSome → P b (b.marked locked c)

namespace EventSet

/-- The registry is in order, nobody is at work, and `P` is true of each registered bucket. -/
structure Throughout (P : Bucket → Cell → Prop) (e : Engine) : Prop where
  cache : e.cache.Sound
  free : e.registering = false
  hour : ∀ {h : Hour} {b : Bucket}, e.registry[h]? = some b → b.hour = h
  here : ∀ {b : Bucket}, Registered b e → b.number < e.opened.size
  apart : ∀ {b c : Bucket}, Registered b e → Registered c e → b.number = c.number → b = c
  each : ∀ {b : Bucket}, Registered b e → P b (e.cell b)

variable {P : Bucket → Cell → Prop} {e e' : Engine} {b c : Bucket} {hour : Hour} {α : Type}

theorem Throughout.registered (h : Throughout P e) (hb : e.registry[hour]? = some b) :
    Registered b e := by
  rwa [Registered, h.hour hb]

theorem Throughout.of_eq (h : Throughout P e) (hc : e'.cache.Sound) (hf : e'.registering = false)
    (ho : e'.opened = e.opened) (hr : e'.registry = e.registry)
    (hv : e'.store.entries? = e.store.entries?) : Throughout P e' where
  cache := hc
  free := hf
  hour hb := h.hour (hr ▸ hb)
  here hb := ho ▸ h.here (show e.registry[_]? = some _ from hr ▸ hb)
  apart hb hc := h.apart (show e.registry[_]? = some _ from hr ▸ hb)
    (show e.registry[_]? = some _ from hr ▸ hc)
  each {b} hb := by
    have := h.each (show e.registry[b.hour]? = some b from hr ▸ hb)
    rwa [Engine.cell, Engine.data, ho, hv]

theorem Throughout.shaken (h : Throughout P e) (hs : e.Shaken e') : Throughout P e' := by
  obtain ⟨faults, clock, -, rfl⟩ := hs
  exact h.of_eq h.cache h.free rfl rfl rfl

theorem Throughout.asked (h : Throughout P e) (ha : e.Asked e') : Throughout P e' := by
  obtain ⟨faults, clock, cache, -, hc, rfl⟩ := ha
  exact h.of_eq hc h.free rfl rfl rfl

-- ---- one bucket ----------------------------------------------------------

theorem Throughout.spared (hl : Bucket.Lasting P) (h : Throughout P e) (hc : Registered c e)
    (hs : b.Spares e e') (hv : b.Confined e.store.entries? e'.store.entries?)
    (hne : c.hour ≠ b.hour ∧ c.number ≠ b.number) : P c (e'.cell c) := by
  obtain ⟨he, ho⟩ := hv.of_hour_ne hne.1
  rw [Engine.cell, hs.others c hne.2]
  exact hl.view (h.each hc) he ho

theorem Throughout.changed (hl : Bucket.Lasting P) (h : Throughout P e) (hb : Registered b e)
    (hs : b.Spares e e') (hv : b.Confined e.store.entries? e'.store.entries?)
    (hp : P b (e'.cell b)) : Throughout P e' := by
  have hr := registry_eq hs
  have hold {c : Bucket} (hc : Registered c e') : Registered c e := by
    rwa [Registered, hr] at hc
  refine {
    cache := hs.sound h.cache
    free := (registering_eq hs).trans h.free
    hour := fun hc => h.hour (hr ▸ hc)
    here := fun hc => hs.size ▸ h.here (hold hc)
    apart := fun hc hd => h.apart (hold hc) (hold hd)
    each := fun {c} hc => ?_ }
  by_cases hcb : c = b
  · exact hcb ▸ hp
  · exact h.spared hl (hold hc) hs hv ⟨hour_ne_of_registered hb (hold hc) hcb,
      fun hn => hcb (h.apart (hold hc) hb hn)⟩

theorem Throughout.unchanged (hl : Bucket.Lasting P) (h : Throughout P e) (hb : Registered b e)
    (hs : b.Spares e e') (hc : e'.cell b = e.cell b) : Throughout P e' := by
  have hv : e'.store.entries? = e.store.entries? := congrArg Cell.view hc
  refine h.changed hl hb hs ?_ (hc ▸ h.each hb)
  rw [hv]
  exact fun _ _ _ => rfl

theorem Throughout.brings (hl : Bucket.Lasting P) (h : Throughout P e) {cell : Cell}
    (hb : Brings e b cell e') (hp : b.Prepared e.store.entries? cell.view)
    (hr : e'.registry = e.registry) : Throughout P e' := by
  have hold {c : Bucket} (hc : Registered c e') : Registered c e := by
    rwa [Registered, hr] at hc
  refine {
    cache := hb.sound h.cache
    free := (registering_eq (e := Bucket.grown e) hb.spares).trans h.free
    hour := fun hc => h.hour (hr ▸ hc)
    here := fun hc => hb.size ▸ Nat.lt_succ_of_lt (h.here (hold hc))
    apart := fun hc hd => h.apart (hold hc) (hold hd)
    each := fun {c} hc => ?_ }
  rw [Engine.cell, hb.data_eq (h.here (hold hc)), hb.view]
  exact hl.prepared (h.each (hold hc)) hp

theorem Throughout.misses (hl : Bucket.Lasting P) (h : Throughout P e) (hm : Misses hour e e') :
    Throughout P e' := by
  cases hm with
  | unnamed _ hs => exact h.shaken hs
  | opened _ hp hb hr => exact h.brings hl hb hp hr

theorem Lasting.entered (hl : Bucket.Lasting P) {v : View} {cell : Cell} (hr : b.Rebuilt v cell)
    (locked : Bool) :
    P b (b.entered locked cell) ∧ b.Confined v (b.entered locked cell).view := by
  have hp := hl.rebuilt hr
  obtain ⟨index, last, -, rfl⟩ := hr
  have hw : (b.markedState v).isWritable = true := by
    unfold Bucket.markedState
    split <;> rfl
  have hc : b.Confined v (b.withMaps v) := fun m he ho => by
    rw [Bucket.withMaps_apply, if_neg (by simp [he, ho])]
  unfold Bucket.entered
  split
  · refine ⟨hl.marked true hp hw (by simp [Bucket.withMaps_apply]), fun m he ho => ?_⟩
    exact (b.confined_marked true _ m he ho).trans (hc m he ho)
  · exact ⟨hp, hc⟩

theorem Throughout.gets (hl : Bucket.Lasting P) (h : Throughout P e) (hg : Gets hour e b e') :
    Throughout P e' ∧ Registered b e' ∧ b.hour = hour := by
  cases hg with
  | found hb hs =>
    have h' := h.shaken hs
    obtain ⟨faults, clock, -, rfl⟩ := hs
    exact ⟨h', h'.registered hb, h.hour hb⟩
  | @made cell hnone hh hr hb hreg =>
    subst hh
    obtain ⟨hp, hcf⟩ := Lasting.entered hl hr e.locked
    have hget {hour : Hour} {c : Bucket} (hc : e'.registry[hour]? = some c) :
        hour = b.hour ∧ c = b ∨ hour ≠ b.hour ∧ e.registry[hour]? = some c := by
      rw [hreg] at hc
      exact getElem?_insert_eq_some.mp hc
    have hne {c : Bucket} (hc : Registered c e) : c.number ≠ b.number := by
      have := h.here hc
      rw [hb.number]
      omega
    refine ⟨{
      cache := hb.sound h.cache
      free := (registering_eq (e := Bucket.grown e) hb.spares).trans h.free
      hour := fun {hour c} hc => ?_
      here := fun {c} hc => ?_
      apart := fun {c d} hc hd hn => ?_
      each := fun {c} hc => ?_ }, ?_, rfl⟩
    · rcases hget hc with ⟨rfl, rfl⟩ | ⟨-, hc⟩
      · rfl
      · exact h.hour hc
    · rcases hget hc with ⟨-, rfl⟩ | ⟨-, hc⟩
      · exact hb.here
      · exact hb.size ▸ Nat.lt_succ_of_lt (h.here hc)
    · rcases hget hc with ⟨-, rfl⟩ | ⟨-, hc⟩ <;> rcases hget hd with ⟨-, rfl⟩ | ⟨-, hd⟩
      · rfl
      · exact absurd hn.symm (hne hd)
      · exact absurd hn (hne hc)
      · exact h.apart hc hd hn
    · rcases hget hc with ⟨-, rfl⟩ | ⟨hh, hc⟩
      · exact hb.cell ▸ hp
      · obtain ⟨he, ho⟩ := hcf.of_hour_ne hh
        rw [Engine.cell, hb.data_eq (h.here hc), hb.view]
        exact hl.view (h.each hc) he ho
    · rw [Registered, hreg]
      exact ExtTreeMap.getElem?_insert_self

-- ---- adding --------------------------------------------------------------

theorem getOrCreate_throughout (hl : Bucket.Lasting P) (h : Throughout P e) (hour : Hour) :
    (getOrCreate hour).Triple e
      (fun b e' => Throughout P e' ∧ Registered b e' ∧ b.hour = hour)
      (fun _ e' => Throughout P e') :=
  (getOrCreate_effect hour e).mono (fun _ _ hg => h.gets hl hg) fun _ _ hm => h.misses hl hm.2

theorem addTo_throughout (hl : Bucket.Lasting P) (h : Throughout P e) (hb : Registered b e)
    {events : List Event} (hf : ∀ x ∈ events, x.Fits) : (b.addAll events).Triple e
      (fun _ e' => Throughout P e') (fun _ e' => Throughout P e') := by
  refine (Bucket.addAll_does b events _ e (h.here hb) rfl).mono ?_ ?_
  · rintro stored e' ⟨hs, -, hc, ha⟩
    have hv : e'.store.entries? = (b.added events (e.cell b)).view := congrArg Cell.view hc
    refine h.changed hl hb hs (hv ▸ b.confined_added events (e.cell b)) ?_
    rw [hc]
    by_cases hn : events = []
    · subst hn
      rw [Bucket.added_nil]
      exact h.each hb
    · exact hl.added (h.each hb) (ha hn) hf
  · rintro p e' ⟨hs, hc⟩
    exact h.unchanged hl hb hs hc

theorem addIn_throughout (hl : Bucket.Lasting P) (h : Throughout P e) (hour : Hour)
    {events : List Event} (hf : ∀ x ∈ events, x.Fits) :
    Triple (do (← getOrCreate hour).addAll events) e
      (fun _ e' => Throughout P e') (fun _ e' => Throughout P e') :=
  .bind (getOrCreate_throughout hl h hour) fun _ _ h₁ => addTo_throughout hl h₁.1 h₁.2.1 hf

theorem add_throughout (hl : Bucket.Lasting P) (h : Throughout P e) {x : Event} (hf : x.Fits) :
    (add x).Triple e (fun _ e' => Throughout P e') (fun _ e' => Throughout P e') := by
  refine .bind (P := fun _ e' => Throughout P e') ?_ fun hour e₁ h₁ => ?_
  · cases route x with
    | ok hour => exact .pure' h
    | error p => exact .throw' h
  refine .bind (getOrCreate_throughout hl h₁ hour) fun b e₂ h₂ => ?_
  refine .bind (addTo_throughout hl h₂.1 h₂.2.1 (by simpa using hf)) fun stored e₃ h₃ => ?_
  split
  · exact .pure' h₃
  · exact .throw' h₃

theorem throughout_of_addGroup (hl : Bucket.Lasting P) (h : Throughout P e) {r r' : Report}
    {events : List Event} (hf : ∀ x ∈ events, x.Fits)
    (he : Activity.Ends Engine.Shaken (addGroup r hour events) e r' e') : Throughout P e' := by
  obtain ⟨result, e₁, hop, hr⟩ := Activity.ends_bind.mp he
  have h₁ := addIn_throughout hl h hour hf result e₁ hop
  cases result with
  | ok stored =>
    obtain ⟨-, rfl⟩ := hr
    exact h₁
  | error p =>
    dsimp only at hr
    split at hr <;> exact hr.2 ▸ h₁

theorem throughout_of_addGroups (hl : Bucket.Lasting P) (h : Throughout P e) {r r' : Report}
    {gs : List (Hour × List Event)} (hf : ∀ g ∈ gs, ∀ x ∈ g.2, x.Fits)
    (he : Activity.Ends Engine.Shaken
      (gs.foldlM (fun r (hour, group) => addGroup r hour group) r) e r' e') : Throughout P e' := by
  induction gs generalizing e r with
  | nil => exact he.2 ▸ h
  | cons g gs ih =>
    rw [List.foldlM_cons] at he
    obtain ⟨r₁, e₁, hg, he⟩ := Activity.ends_bind.mp he
    exact ih (throughout_of_addGroup hl h (hf g List.mem_cons_self) hg)
      (fun g hg => hf g (List.mem_cons_of_mem _ hg)) he

theorem throughout_of_addAll (hl : Bucket.Lasting P) (h : Throughout P e) {r : Report}
    {events : List Event} (hf : ∀ x ∈ events, x.Fits)
    (he : Activity.Ends Engine.Shaken (addAll events) e r e') : Throughout P e' :=
  throughout_of_addGroups hl h (fun _ hg => fits_of_mem_groups hf hg) he

-- ---- locking -------------------------------------------------------------

theorem setLock_throughout (hl : Bucket.Lasting P) (h : Throughout P e) (hb : Registered b e)
    (locked : Bool) : (b.setLock locked).Triple e
      (fun _ e' => Throughout P e' ∧ e'.registry = e.registry)
      (fun _ e' => Throughout P e' ∧ e'.registry = e.registry) := by
  refine (Bucket.setLock_does b locked _ e (h.here hb) rfl).mono ?_ ?_
  · rintro - e' ⟨hs, -, hw, ho, hc⟩
    have hv : e'.store.entries? = (b.marked locked (e.cell b)).view := congrArg Cell.view hc
    exact ⟨h.changed hl hb hs (hv ▸ b.confined_marked locked (e.cell b))
      (hc ▸ hl.marked locked (h.each hb) hw ho), registry_eq hs⟩
  · rintro p e' ⟨hs, hc⟩
    exact ⟨h.unchanged hl hb hs hc, registry_eq hs⟩

theorem setLocks_throughout (hl : Bucket.Lasting P) (h : Throughout P e) {bs : List Bucket}
    (hbs : ∀ b ∈ bs, Registered b e) (locked : Bool) :
    (bs.forM fun b => unlessDropped (b.setLock locked)).Triple e
      (fun _ e' => Throughout P e') (fun _ e' => Throughout P e') := by
  induction bs generalizing e with
  | nil => exact .pure' h
  | cons b bs ih =>
    show Triple (unlessDropped (b.setLock locked) >>= fun _ =>
      bs.forM fun b => unlessDropped (b.setLock locked)) e _ _
    refine .bind (P := fun _ e' => Throughout P e' ∧ e'.registry = e.registry)
      (.settle (setLock_throughout hl h (hbs b List.mem_cons_self) locked) ?_ ?_) ?_
    · exact fun _ _ h' => .pure' h'
    · rintro p e' h'
      split
      · next he => cases he
      · exact .pure' h'
      · exact .throw' h'.1
    · rintro - e' ⟨h', hr⟩
      exact ih h' fun b hb => by
        rw [Registered, hr]
        exact hbs b (List.mem_cons_of_mem _ hb)

theorem setAllLocks_throughout (hl : Bucket.Lasting P) (h : Throughout P e) (locked : Bool) :
    Triple (do
      setLocked locked
      (← buckets).forM fun b => unlessDropped (b.setLock locked)) e
      (fun _ e' => Throughout P e') (fun _ e' => Throughout P e') := by
  refine .bind (P := fun _ e' => Throughout P e') (.lift fun _ e' hs => ?_) fun _ e₁ h₁ => ?_
  · obtain ⟨u, hu, hs⟩ := Activity.ends_atomically.mp hs
    cases hs
    have hu := h.shaken hu
    exact hu.of_eq hu.cache hu.free rfl rfl rfl
  refine .bind (P := fun bs e' => Throughout P e' ∧ ∀ b ∈ bs, Registered b e')
    (.lift fun bs e' hbs => ?_) fun bs e₂ h₂ => setLocks_throughout hl h₂.1 h₂.2 locked
  obtain ⟨hs, rfl⟩ := ends_ofRegistry hbs
  refine ⟨h₁.shaken hs, fun b hb => ?_⟩
  obtain ⟨hour, hb⟩ := exists_of_mem_values hb
  exact (h₁.shaken hs).registered hb

-- ---- eviction ------------------------------------------------------------

theorem Throughout.forgotten (hl : Bucket.Lasting P) (h : Throughout P e) (hb : Registered b e)
    (hs : b.Spares e e') (hc : b.Confined e.store.entries? e'.store.entries?) :
    Throughout P { e' with registry := e'.registry.erase b.hour } := by
  have hget {hour : Hour} {c : Bucket} (hc : (e'.registry.erase b.hour)[hour]? = some c) :
      hour ≠ b.hour ∧ e.registry[hour]? = some c := by
    rw [registry_eq hs] at hc
    exact getElem?_erase_eq_some.mp hc
  refine {
    cache := hs.sound h.cache
    free := (registering_eq hs).trans h.free
    hour := fun hc => h.hour (hget hc).2
    here := fun hc => hs.size ▸ h.here (hget hc).2
    apart := fun hc hd => h.apart (hget hc).2 (hget hd).2
    each := fun {d} hd => ?_ }
  obtain ⟨hh, hd⟩ := hget hd
  have hp : P d (e'.cell d) := h.spared hl hd hs hc ⟨hh, fun hn => hh (by rw [h.apart hd hb hn])⟩
  exact hp

theorem confined_of_left {cell cell' : Cell} (h : b.Left false cell cell') :
    b.Confined cell.view cell'.view := by
  intro m he ho
  cases h with
  | untouched => rfl
  | stripped _ hv =>
    rcases hv with rfl | rfl
    · exact if_neg he
    · exact (b.withoutMaps_apply _ m).trans (if_neg (by simp [he, ho]))
  | restarting hg => cases hg

/-- What a bucket can come to that could not be dropped. -/
def Outlasts (P : Bucket → Cell → Prop) : Prop :=
  ∀ {b : Bucket} {c c' : Cell}, P b c → b.Left false c c' → P b c'

/-- Where a call to the store fails that is to remove a map, what is true of the bucket otherwise
need not be. -/
theorem evict_throughout (hl : Bucket.Lasting P) (h : Throughout P e) (hours : List Hour)
    (n : Nat) : (evict hours n).Triple e (fun _ e' => Throughout P e')
      (fun p e' => (∃ q, p = .store q) ∧ (Outlasts P → Throughout P e')) := by
  induction hours generalizing e n with
  | nil => exact .pure' h
  | cons hour hours ih =>
    refine .bind (P := fun r e' => Throughout P e' ∧ r = e'.registry[hour]?)
      (.lift fun r e' hr => ?_) ?_
    · obtain ⟨hs, hr⟩ := ends_ofRegistry hr
      exact ⟨h.shaken hs, hr⟩
    rintro (_ | b) e₁ ⟨h₁, hr⟩
    · exact ih h₁ n
    have hb := h₁.registered hr.symm
    refine .bind (P := fun done e' => b.Spares e₁ e' ∧ (done = false ∧ e'.cell b = e₁.cell b ∨
        done = true ∧ e'.cell b = b.emptied false (e₁.cell b)))
      ((Bucket.discard_does b false _ e₁ (h₁.here hb) rfl).mono ?_ ?_) ?_
    · rintro done e' ⟨hs, -, ⟨rfl, -, hc⟩ | ⟨rfl, -, hc⟩⟩
      · exact ⟨hs, .inl ⟨rfl, hc⟩⟩
      · exact ⟨hs, .inr ⟨rfl, hc⟩⟩
    · rintro p e' ⟨hs, hp, hu⟩
      refine ⟨hp, fun ho => h₁.changed hl hb hs (confined_of_left hu.left) ?_⟩
      exact ho (h₁.each hb) hu.left
    rintro done e₂ ⟨hs, ⟨rfl, hc⟩ | ⟨rfl, hc⟩⟩
    · exact ih (h₁.unchanged hl hb hs hc) n
    · refine .bind (P := fun _ e' => Throughout P e') (.lift fun _ e' hf => ?_)
        fun _ _ h' => ih h' (n + 1)
      have hr : e₂.registry[b.hour]? = some b := by rw [registry_eq hs]; exact hb
      have hv : e₂.store.entries? = (b.emptied false (e₁.cell b)).view := congrArg Cell.view hc
      have hq := h₁.forgotten hl hb hs (hv ▸ b.confined_emptied (e₁.cell b))
      exact hq.shaken (ends_forget hr hf)

theorem purge_throughout (hl : Bucket.Lasting P) (h : Throughout P e) :
    purge.Triple e (fun _ e' => Throughout P e')
      (fun p e' => (∃ q, p = .store q) ∧ (Outlasts P → Throughout P e')) :=
  .bind (P := fun _ e' => Throughout P e') (.lift fun _ _ hr => h.shaken (ends_registry hr).1)
    fun _ _ h₁ => evict_throughout hl h₁ _ 0

theorem dropData_throughout (hl : Bucket.Lasting P) (h : Throughout P e) (now : Instant) :
    (dropData now).Triple e (fun _ e' => Throughout P e')
      (fun p e' => (∃ q, p = .store q) ∧ (Outlasts P → Throughout P e') ∨ Throughout P e') := by
  refine .bind (P := fun _ e' => Throughout P e') (.lift fun span e' hr => ?_) fun span e₁ h₁ => ?_
  · obtain ⟨u, hu, hr⟩ := Activity.ends_atomically.mp hr
    cases hr
    exact h.shaken hu
  split
  · refine .bind (P := fun _ e' => Throughout P e')
      (.lift fun _ _ hr => h₁.shaken (ends_registry hr).1) fun _ _ h₂ => ?_
    exact (evict_throughout hl h₂ _ 0).mono (fun _ _ h => h) fun _ _ => .inl
  · exact .throw' (.inr h₁)

-- ---- opening a set -------------------------------------------------------

/-- `P` is true of buckets that have been opened, and not been registered yet. -/
structure Awaiting (P : Bucket → Cell → Prop) (bs : List Bucket) (e : Engine) : Prop where
  here : ∀ b ∈ bs, b.number < e.opened.size
  each : ∀ b ∈ bs, P b (e.cell b)
  apart : bs.Pairwise fun b c => b.number ≠ c.number

theorem Awaiting.opened (hl : Bucket.Lasting P) {bs : List Bucket} {cell : Cell}
    (h : Awaiting P bs e) (hb : Brings e b cell e') (hr : b.Rebuilt e.store.entries? cell) :
    Awaiting P (bs ++ [b]) e' := by
  have hp : b.Prepared e.store.entries? cell.view := by
    obtain ⟨index, last, -, rfl⟩ := hr
    exact b.prepared_withMaps _
  refine ⟨?_, ?_, ?_⟩
  · refine List.forall_mem_append.mpr ⟨fun c hc => ?_, List.forall_mem_singleton.mpr hb.here⟩
    exact hb.size ▸ Nat.lt_succ_of_lt (h.here c hc)
  · refine List.forall_mem_append.mpr ⟨fun c hc => ?_, List.forall_mem_singleton.mpr ?_⟩
    · rw [Engine.cell, hb.data_eq (h.here c hc), hb.view]
      exact hl.prepared (h.each c hc) hp
    · exact hb.cell ▸ hl.rebuilt hr
  · refine List.pairwise_append.mpr ⟨h.apart, List.pairwise_singleton .., fun c hc d hd => ?_⟩
    rw [List.mem_singleton.mp hd, hb.number]
    exact Nat.ne_of_lt (h.here c hc)

theorem mapM_openAt_throughout (hl : Bucket.Lasting P) {bs : List Bucket} (h : Throughout P e)
    (hbs : Awaiting P bs e) (hours : List Hour) : (hours.mapM Bucket.openAt).Triple e
      (fun more e' => Throughout P e' ∧ Awaiting P (bs ++ more) e')
      (fun _ e' => Throughout P e') := by
  induction hours generalizing e bs with
  | nil =>
    rw [List.mapM_nil]
    exact .pure' ⟨h, by rwa [List.append_nil]⟩
  | cons hour hours ih =>
    rw [List.mapM_cons]
    refine .bind (P := fun b e' => Throughout P e' ∧ Awaiting P (bs ++ [b]) e')
      ((Bucket.openAt_triple hour e).mono ?_ ?_) fun b e₁ h₁ => ?_
    · rintro b e' ⟨-, hn, hs, hr⟩
      have hb : Brings e b (e'.cell b) e' := .of_spares hn hs rfl
      refine ⟨h.brings hl hb ?_ (registry_eq (e := Bucket.grown e) hs), hbs.opened hl hb hr⟩
      obtain ⟨index, last, -, hc⟩ := hr
      exact hc ▸ b.prepared_withMaps _
    · rintro p e' (⟨-, -, rfl⟩ | ⟨b, -, hn, hs, v, hp, hc⟩)
      · exact h
      · exact h.brings hl (.of_spares hn hs hc) hp (registry_eq (e := Bucket.grown e) hs)
    · refine .bind (ih h₁.1 h₁.2) fun more e₂ h₂ => .pure' ?_
      rwa [List.append_assoc] at h₂

theorem openAll_throughout (hl : Bucket.Lasting P) (h : Throughout P e) :
    openAll.Triple e (fun _ e' => Throughout P e') (fun _ e' => Throughout P e') := by
  refine .bind (P := fun _ e' => Throughout P e')
    ((call_triple (r := .mapNames) nofun e).mono ?_ ?_) fun names e₁ h₁ => ?_
  · rintro names _ ⟨store, clock, -, hv, rfl⟩
    exact h.of_eq h.cache h.free rfl rfl hv
  · rintro p _ ⟨store, clock, hv, rfl⟩
    exact h.of_eq h.cache h.free rfl rfl hv
  have hnone : Awaiting P [] e₁ := ⟨by simp, by simp, .nil⟩
  refine .bind (mapM_openAt_throughout hl h₁ hnone _) fun found e₂ h₂ => .lift fun _ e' hr => ?_
  obtain ⟨h₂, hfound⟩ := h₂
  obtain ⟨u, ⟨faults, clock, -, rfl⟩, hfree, hr⟩ := Activity.ends_whenever.mp hr
  cases hr
  refine {
    cache := h₂.cache
    free := (Bool.not_eq_true' _).mp hfree
    hour := fun hb => (mem_of_getElem?_foldl_insert hb).2
    here := fun hb => hfound.here _ (mem_of_getElem?_foldl_insert hb).1
    apart := fun {b c} hb hc hn => ?_
    each := fun hb => hfound.each _ (mem_of_getElem?_foldl_insert hb).1 }
  obtain ⟨i, hi, rfl⟩ := List.getElem_of_mem (mem_of_getElem?_foldl_insert hb).1
  obtain ⟨j, hj, rfl⟩ := List.getElem_of_mem (mem_of_getElem?_foldl_insert hc).1
  rcases Nat.lt_trichotomy i j with hij | rfl | hij
  · exact absurd hn (List.pairwise_iff_getElem.mp hfound.apart i j hi hj hij)
  · rfl
  · exact absurd hn.symm (List.pairwise_iff_getElem.mp hfound.apart j i hj hi hij)

-- ---- histories -----------------------------------------------------------

/-- What a set can have come to that is used by one caller at a time, over whatever the store held.
Calls to the store may fail at any time, but only a history that is `lossy` has had one fail that
was to remove a map. -/
inductive Evolved (lossy : Bool) : Engine → Prop
  | start {store cache settings} (hc : Cache.Sound cache) :
    Evolved lossy (.fresh store cache settings)
  | openAll {e e' : Engine} {r} (h : Evolved lossy e) (he : EventSet.openAll.Ends e r e') :
    Evolved lossy e'
  | getOrCreate {e e' : Engine} {hour r} (h : Evolved lossy e)
    (he : (EventSet.getOrCreate hour).Ends e r e') : Evolved lossy e'
  | add {e e' : Engine} {x r} (h : Evolved lossy e) (hf : Event.Fits x)
    (he : (EventSet.add x).Ends e r e') : Evolved lossy e'
  | addAll {e e' : Engine} {events r} (h : Evolved lossy e) (hf : ∀ x ∈ events, Event.Fits x)
    (he : (EventSet.addAll events).Ends Engine.Shaken e r e') : Evolved lossy e'
  | lock {e e' : Engine} {r} (h : Evolved lossy e) (he : EventSet.lock.Ends e r e') :
    Evolved lossy e'
  | unlock {e e' : Engine} {r} (h : Evolved lossy e) (he : EventSet.unlock.Ends e r e') :
    Evolved lossy e'
  | purge {e e' : Engine} {r} (h : Evolved lossy e) (he : EventSet.purge.Ends e r e')
    (hs : lossy = true ∨ ∀ p, r ≠ .error (.store p)) : Evolved lossy e'
  | dropData {e e' : Engine} {now r} (h : Evolved lossy e)
    (he : (EventSet.dropData now).Ends e r e')
    (hs : lossy = true ∨ ∀ p, r ≠ .error (.store p)) : Evolved lossy e'
  | asked {e e' : Engine} (h : Evolved lossy e) (he : e.Asked e') : Evolved lossy e'
  /-- What a set does not look at is changed, or what it is told to keep. -/
  | beside {e : Engine} (h : Evolved lossy e) (retention : Int) (settings : Config.EngineSection)
    (queue : List Queued) (ingested filtered dropped : Nat) (stopping : Bool) :
    Evolved lossy { e with
      retention := retention, settings := settings, queue := queue, ingested := ingested,
      filtered := filtered, dropped := dropped, stopping := stopping }

theorem throughout_fresh {store : Store} {cache : Cache} (hc : cache.Sound)
    (settings : Config.EngineSection) : Throughout P (.fresh store cache settings) where
  cache := hc
  free := rfl
  hour hb := by simp [Engine.fresh] at hb
  here hb := by simp [Registered, Engine.fresh] at hb
  apart hb := by simp [Registered, Engine.fresh] at hb
  each hb := by simp [Registered, Engine.fresh] at hb

theorem throughout_of_triple {op : Operation α} {r : Except EngineError α}
    (h : op.Triple e (fun _ e' => Throughout P e') (fun _ e' => Throughout P e'))
    (he : op.Ends e r e') : Throughout P e' := by
  have := h r e' he
  cases r <;> exact this

/-- What lasts is true of every registered bucket, whatever the set has been through. -/
theorem throughout_of_evolved {lossy : Bool} (hl : Bucket.Lasting P)
    (ho : lossy = true → Outlasts P) (h : Evolved lossy e) : Throughout P e := by
  induction h with
  | start hc => exact throughout_fresh hc _
  | openAll _ he ih => exact throughout_of_triple (openAll_throughout hl ih) he
  | getOrCreate _ he ih =>
    exact throughout_of_triple ((getOrCreate_throughout hl ih _).mono (fun _ _ h => h.1)
      fun _ _ h => h) he
  | add _ hf he ih => exact throughout_of_triple (add_throughout hl ih hf) he
  | addAll _ hf he ih => exact throughout_of_addAll hl ih hf he
  | lock _ he ih => exact throughout_of_triple (setAllLocks_throughout hl ih true) he
  | unlock _ he ih => exact throughout_of_triple (setAllLocks_throughout hl ih false) he
  | @purge _ _ r _ he hs ih =>
    have := purge_throughout hl ih r _ he
    cases r with
    | ok n => exact this
    | error p =>
      obtain ⟨⟨q, rfl⟩, hkept⟩ := this
      exact hkept (ho (hs.resolve_right fun hs => hs q rfl))
  | @dropData _ _ now r _ he hs ih =>
    have := dropData_throughout hl ih now r _ he
    cases r with
    | ok n => exact this
    | error p =>
      obtain ⟨⟨q, rfl⟩, hkept⟩ | hkept := this
      · exact hkept (ho (hs.resolve_right fun hs => hs q rfl))
      · exact hkept
  | asked _ he ih => exact ih.asked he
  | beside _ _ _ _ _ _ _ _ ih => exact ih.of_eq ih.cache ih.free rfl rfl rfl

-- ---- buckets that can be used --------------------------------------------

/-- The bucket has its maps, and its index is that of its events; it takes more of them, and nobody
is at work on it. -/
structure Intact (b : Bucket) (c : Cell) : Prop where
  indexed : b.Indexed c
  options : (c.view b.optionsMap).isSome
  writable : c.data.state.isWritable = true
  idle : c.data.writing = false

theorem lasting_intact : Bucket.Lasting Intact where
  view {b c v} h he ho := by
    obtain ⟨es, hes, hi⟩ := h.indexed
    exact ⟨⟨es, he.trans hes, hi⟩, (congrArg Option.isSome ho).trans h.options, h.writable, h.idle⟩
  prepared {b b' c v} h hp := by
    obtain ⟨es, hes, hi⟩ := h.indexed
    exact ⟨⟨es, (hp.view_eq (by simp [hes])).trans hes, hi⟩,
      (congrArg Option.isSome (hp.view_eq h.options)).trans h.options, h.writable, h.idle⟩
  rebuilt {b c v} h := by
    have hi := h.indexed
    obtain ⟨index, last, -, rfl⟩ := h
    refine ⟨hi, by simp [Bucket.withMaps_apply], ?_, rfl⟩
    dsimp only [Bucket.markedState]
    split <;> rfl
  added {b c events} h ha hf := by
    have ho : (b.added events c).view b.optionsMap = c.view b.optionsMap :=
      if_neg b.eventsMap_ne_optionsMap.symm
    exact ⟨h.indexed.added ha.room hf, (congrArg Option.isSome ho).trans h.options, h.writable,
      h.idle⟩
  marked {b c} locked h hw ho := by
    obtain ⟨es, hes, hi⟩ := h.indexed
    refine ⟨⟨es, (if_neg b.eventsMap_ne_optionsMap).trans hes, hi⟩, ?_, ?_, h.idle⟩
    · simpa [Bucket.marked] using ho
    · cases locked <;> rfl

/-- Where no call has failed that was to remove a map, every registered bucket can be used. -/
theorem intact_of_evolved (h : Evolved false e) : Throughout Intact e :=
  throughout_of_evolved lasting_intact (absurd · Bool.false_ne_true) h

theorem Throughout.quiet (h : Throughout Intact e) : Quiet e := by
  refine { h with
    usable := fun hb => ?_
    indexed := fun hb _ => (h.each hb).indexed
    idle := fun hb => (h.each hb).idle
    registering := h.free }
  obtain ⟨es, hes, hi⟩ := (h.each hb).indexed
  refine ⟨Option.isSome_iff_exists.mpr ⟨es, hes⟩, (h.each hb).options, ?_, (h.each hb).writable⟩
  exact content_eq hes ▸ backed_of_indexed (h.each hb).indexed hes

end EventSet

end EventStore
