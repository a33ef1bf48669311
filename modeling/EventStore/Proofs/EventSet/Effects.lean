import EventStore.Proofs.EventSet.Operations

/-!
# What getting a bucket does

Events of an hour need its bucket, which is found or made. Here is said once and exactly what that
does to the engine, whether it succeeds (`Gets`) or fails (`Misses`), while calls to the store fail
at any time; everything about adding follows from it. Nothing is assumed of what the store holds.
-/

namespace EventStore

open Std Query Operation

/-- The cell of a bucket that is registered while new buckets are locked, or are not. -/
def Bucket.entered (b : Bucket) (locked : Bool) (c : Cell) : Cell :=
  if locked = true ∧ c.data.state ≠ .locked then b.marked true c else c

namespace EventSet

/-- A bucket has been opened and has come to the cell `c`. Nothing else has been touched, except
perhaps the registry. -/
structure Brings (e : Engine) (b : Bucket) (c : Cell) (e' : Engine) : Prop where
  number : b.number = e.opened.size
  cell : e'.cell b = c
  spares : b.Spares (Bucket.grown e) { e' with registry := e.registry }

/-- The bucket of an hour is found in the registry, or it is made and registered. -/
inductive Gets (hour : Hour) (e : Engine) (b : Bucket) (e' : Engine) : Prop
  | found (hb : e.registry[hour]? = some b) (hs : e.Shaken e')
  | made {c : Cell} (hn : e.registry[hour]? = none) (hh : b.hour = hour)
    (hr : b.Rebuilt e.store.entries? c) (hb : Brings e b (b.entered e.locked c) e')
    (hreg : e'.registry = e.registry.insert hour b)

/-- There is no bucket for the hour, and none has come of what was done: the hour can have none, or
one has been opened that could not be read or locked. -/
inductive Misses (hour : Hour) (e e' : Engine) : Prop
  | unnamed (hn : hour.tokenSeconds? = none) (hs : e.Shaken e')
  | opened {b : Bucket} {c : Cell} (hh : b.hour = hour)
    (hp : b.Prepared e.store.entries? c.view) (hb : Brings e b c e')
    (hreg : e'.registry = e.registry)

variable {e e' u v w : Engine} {b : Bucket} {c : Cell} {hour : Hour} {α : Type}

-- ---- frames --------------------------------------------------------------

theorem shaken_registry (h : e.Shaken e') : e'.registry = e.registry := by
  obtain ⟨faults, clock, -, rfl⟩ := h
  rfl

theorem shaken_locked (h : e.Shaken e') : e'.locked = e.locked := by
  obtain ⟨faults, clock, -, rfl⟩ := h
  rfl

theorem shaken_entries? (h : e.Shaken e') : e'.store.entries? = e.store.entries? := by
  obtain ⟨faults, clock, -, rfl⟩ := h
  rfl

theorem locked_eq (hs : b.Spares e e') : e'.locked = e.locked := by rw [hs.rest]

theorem Brings.of_spares (hn : b.number = e.opened.size) (hs : b.Spares (Bucket.grown e) u)
    (hc : u.cell b = c) : Brings e b c u := by
  refine ⟨hn, hc, ?_⟩
  rwa [← show u.registry = e.registry from registry_eq (e := Bucket.grown e) hs]

theorem Brings.of_shaken (h : Brings u b c e') (hs : e.Shaken u) : Brings e b c e' := by
  obtain ⟨faults, clock, hclock, rfl⟩ := hs
  obtain ⟨hn, hc, hsp⟩ := h
  exact ⟨hn, hc, ⟨hsp.size, hsp.others, Nat.le_trans hclock hsp.clock, hsp.rest⟩⟩

theorem Brings.size (h : Brings e b c e') : e'.opened.size = e.opened.size + 1 := by
  have hsize := Bucket.size_of_grown h.spares
  exact hsize

theorem Brings.here (h : Brings e b c e') : b.number < e'.opened.size := by
  have := h.size
  have := h.number
  omega

theorem Brings.data_eq (h : Brings e b c e') {b' : Bucket} (hb : b'.number < e.opened.size) :
    e'.data b' = e.data b' := by
  have hdata := Bucket.data_of_grown h.spares h.number hb
  exact hdata

theorem Brings.rest (h : Brings e b c e') : e' = { e with
    store := e'.store, clock := e'.clock, opened := e'.opened, registry := e'.registry } := by
  have := congrArg (fun u : Engine => { u with registry := e'.registry }) h.spares.rest
  exact this

theorem Brings.sound (h : Brings e b c e') (hc : e.cache.Sound) : e'.cache.Sound := by
  rw [h.rest]
  exact hc

theorem Brings.view (h : Brings e b c e') : e'.store.entries? = c.view := congrArg Cell.view h.cell

-- ---- the registry --------------------------------------------------------

theorem ends_alone {op : Operation α} {r : Except EngineError α} (h : (alone op).Ends e r e') :
    e.registering = false ∧ ∃ u v w, e.Shaken u ∧ op.Ends { u with registering := true } r v ∧
      v.Shaken w ∧ e' = { w with registering := false } := by
  obtain ⟨_, e₁, ha, h⟩ := Activity.ends_bind.mp h
  obtain ⟨r', v, hop, h⟩ := Activity.ends_bind.mp h
  obtain ⟨_, e₂, hl, h⟩ := Activity.ends_bind.mp h
  obtain ⟨rfl, rfl⟩ := h
  obtain ⟨u, hu, hfree, ha⟩ := Activity.ends_whenever.mp ha
  obtain ⟨w, hw, hl⟩ := Activity.ends_atomically.mp hl
  cases ha
  cases hl
  refine ⟨?_, u, v, w, hu, hop, hw, rfl⟩
  obtain ⟨faults, clock, -, rfl⟩ := hu
  exact (Bool.not_eq_true' _).mp hfree

/-- Nothing has happened to the engine but to the bucket, which is in the cell `c`. -/
def Sits (b : Bucket) (e : Engine) (c : Cell) (u : Engine) : Prop := b.Spares e u ∧ u.cell b = c

theorem Sits.shaken (h : Sits b e c u) (hs : u.Shaken v) : Sits b e c v :=
  have ⟨hsp, hc⟩ := Bucket.Spares.of_shaken b hs
  ⟨h.1.trans hsp, hc.trans h.2⟩

theorem Sits.atomically_triple {f : Engine → α × Engine} {Q : α → Engine → Prop}
    {E : EngineError → Engine → Prop} (h : Sits b e c u)
    (hf : ∀ v, Sits b e c v → Q (f v).1 (f v).2) :
    Triple (liftM (Activity.atomically f)) u Q E := by
  refine .lift fun a e' ha => ?_
  obtain ⟨v, hv, ha⟩ := Activity.ends_atomically.mp ha
  have := hf v (h.shaken hv)
  rwa [ha] at this

/-- A bucket of an hour that has none is registered, and locked before if it has to be. -/
theorem registering_triple (hb : b.number < e.opened.size) (hn : e.registry[b.hour]? = none) :
    Triple (do
      match ← registered? b.hour with
      | some other => return other
      | none =>
        if ← isLocked then
          if (← b.state) ≠ .locked then b.lock
        insert b
        return b) e
      (fun b' e' => b' = b ∧ ∃ u, Sits b e (b.entered e.locked (e.cell b)) u ∧
        e' = { u with registry := u.registry.insert b.hour b })
      (fun _ e' => Sits b e (e.cell b) e') := by
  have hinsert {c : Cell} (hc : c = b.entered e.locked (e.cell b)) {u : Engine}
      (hu : Sits b e c u) : Triple (do
        insert b
        return b) u (fun b' e' => b' = b ∧ ∃ u, Sits b e (b.entered e.locked (e.cell b)) u ∧
          e' = { u with registry := u.registry.insert b.hour b })
        (fun _ e' => Sits b e (e.cell b) e') := by
    refine .bind (P := fun _ e' => ∃ u, Sits b e c u ∧
      e' = { u with registry := u.registry.insert b.hour b })
      (hu.atomically_triple fun v hv => ⟨v, hv, rfl⟩) fun _ e' h => .pure' ?_
    exact ⟨rfl, hc ▸ h⟩
  have h₀ : Sits b e (e.cell b) e := ⟨.refl b e, rfl⟩
  refine .bind (P := fun r u => r = none ∧ Sits b e (e.cell b) u)
    (h₀.atomically_triple fun v hv => ⟨?_, hv⟩) ?_
  · show v.registry[b.hour]? = none
    rw [registry_eq hv.1, hn]
  rintro _ u₁ ⟨rfl, h₁⟩
  refine .bind (P := fun l u => l = e.locked ∧ Sits b e (e.cell b) u)
    (h₁.atomically_triple fun v hv => ⟨locked_eq hv.1, hv⟩) ?_
  rintro locked u₂ ⟨hl, h₂⟩
  cases locked with
  | false => exact hinsert (by simp [Bucket.entered, ← hl]) h₂
  | true =>
    refine .bind (P := fun s u => s = (e.data b).state ∧ Sits b e (e.cell b) u)
      (h₂.atomically_triple fun v hv => ⟨congrArg (·.data.state) hv.2, hv⟩) ?_
    rintro _ u₃ ⟨rfl, h₃⟩
    by_cases hs : (e.data b).state = .locked
    · simp only [hs, ne_eq, not_true_eq_false, ↓reduceIte]
      exact hinsert (by simp [Bucket.entered, Engine.cell, hs]) h₃
    · simp only [ne_eq, hs, not_false_eq_true, ↓reduceIte]
      have hc : b.marked true (e.cell b) = b.entered e.locked (e.cell b) := by
        simp [Bucket.entered, Engine.cell, hs, ← hl]
      refine .bind (P := fun _ u => Sits b e (b.marked true (e.cell b)) u)
        ((Bucket.setLock_does b true _ u₃ (h₃.1.size ▸ hb) h₃.2).mono ?_ ?_)
        fun _ u h => hinsert hc h
      · rintro - u ⟨hs, -, -, -, hc⟩
        exact ⟨h₃.1.trans hs, hc⟩
      · rintro p u ⟨hs, hc⟩
        exact ⟨h₃.1.trans hs, hc⟩

theorem spares_of_alone (hfree : e.registering = false) (hu : e.Shaken u)
    (hs : b.Spares { u with registering := true } v) (hw : v.Shaken w) :
    b.Spares e { w with registering := false } ∧
      Engine.cell { w with registering := false } b = v.cell b := by
  obtain ⟨faults, clock, hclock, rfl⟩ := hu
  obtain ⟨faults', clock', hclock', rfl⟩ := hw
  refine ⟨⟨hs.size, hs.others, Nat.le_trans hclock (Nat.le_trans hs.clock hclock'), ?_⟩, rfl⟩
  rw [hs.rest, ← hfree]

theorem register_effect (hb : b.number < e.opened.size) (hn : e.registry[b.hour]? = none) :
    (register b).Triple e
      (fun b' e' => b' = b ∧ e'.cell b = b.entered e.locked (e.cell b) ∧
        b.Spares e { e' with registry := e.registry } ∧
        e'.registry = e.registry.insert b.hour b)
      (fun _ e' => b.Spares e e' ∧ e'.cell b = e.cell b) := by
  intro r e' h
  obtain ⟨hfree, u, v, w, hu, hop, hw, rfl⟩ := ends_alone h
  obtain ⟨hsu, hcu⟩ := Bucket.Spares.of_shaken b hu
  have hru : u.registry = e.registry := registry_eq hsu
  have := registering_triple (e := { u with registering := true }) (b := b) (hsu.size ▸ hb)
    (hru ▸ hn) _ _ hop
  cases r with
  | ok b' =>
    obtain ⟨rfl, v, ⟨hs, hc⟩, rfl⟩ := this
    have hr : v.registry = e.registry := (registry_eq hs).trans hru
    obtain ⟨faults, clock, hclock, rfl⟩ := hw
    obtain ⟨hsp, hcell⟩ := spares_of_alone hfree hu hs ⟨faults, clock, hclock, rfl⟩
    have hc : v.cell b' = b'.entered e.locked (e.cell b') := locked_eq hsu ▸ hcu ▸ hc
    exact ⟨rfl, hcell.trans hc, hr ▸ hsp, congrArg (·.insert b'.hour b') hr⟩
  | error p =>
    obtain ⟨hs, hc⟩ := this
    obtain ⟨hsp, hcell⟩ := spares_of_alone hfree hu hs hw
    exact ⟨hsp, hcell.trans (hc.trans hcu)⟩

-- ---- getting a bucket ----------------------------------------------------

theorem getOrCreate_effect (hour : Hour) (e : Engine) : (getOrCreate hour).Triple e
    (fun b e' => Gets hour e b e')
    (fun _ e' => e.registry[hour]? = none ∧ Misses hour e e') := by
  refine .bind (P := fun r u => e.Shaken u ∧ r = e.registry[hour]?) (.lift fun r u hr => ?_) ?_
  · obtain ⟨hs, rfl⟩ := ends_ofRegistry hr
    exact ⟨hs, by rw [shaken_registry hs]⟩
  rintro (_ | b) u ⟨hs, hr⟩
  · have hr := hr.symm
    have hview := shaken_entries? hs
    have hgrown {b : Bucket} {v : Engine} (hsp : b.Spares (Bucket.grown u) v) :
        v.registry = e.registry := by
      rw [show v.registry = u.registry from registry_eq (e := Bucket.grown u) hsp,
        shaken_registry hs]
    refine .bind (P := fun b v => b.hour = hour ∧ b.number = u.opened.size ∧
        b.Spares (Bucket.grown u) v ∧ b.Rebuilt u.store.entries? (v.cell b))
      ((Bucket.openAt_triple hour u).mono (fun _ _ h => h) ?_) ?_
    · rintro p v (⟨-, hn, rfl⟩ | ⟨b, hh, hn, hsp, w, hp, hc⟩)
      · exact ⟨hr, .unnamed hn hs⟩
      · exact ⟨hr, .opened (c := ⟨.fresh, w⟩) hh (hview ▸ hp)
          (.of_shaken (.of_spares hn hsp hc) hs) (hgrown hsp)⟩
    rintro b v ⟨rfl, hn, hsp, hreb⟩
    have hreg := hgrown hsp
    have hlocked : v.locked = e.locked := by
      rw [show v.locked = u.locked from locked_eq (e := Bucket.grown u) hsp, shaken_locked hs]
    rw [hview] at hreb
    have hbrings : Brings e b (v.cell b) v := .of_shaken (.of_spares hn hsp rfl) hs
    refine (register_effect hbrings.here (hreg ▸ hr)).mono ?_ ?_
    · rintro b' w ⟨rfl, hc, hw, hins⟩
      refine .made hr rfl hreb ⟨hbrings.number, hlocked ▸ hc, ?_⟩ (hreg ▸ hins)
      rw [hreg] at hw
      have := hbrings.spares
      rw [← hreg] at this
      exact this.trans hw
    · rintro p w ⟨hw, hc⟩
      have hwreg : w.registry = e.registry := (registry_eq hw).trans hreg
      refine ⟨hr, .opened (c := v.cell b) rfl ?_ ⟨hbrings.number, hc, ?_⟩ hwreg⟩
      · obtain ⟨index, last, -, hcell⟩ := hreb
        rw [hcell]
        exact .inr (.inr rfl)
      · have := hbrings.spares
        rw [← hreg] at this
        have := this.trans hw
        rwa [← hwreg]
  · exact .pure' (.found hr.symm hs)

end EventSet

end EventStore
