import EventStore.Engine.Bucket
import EventStore.Proofs.Engine.Outcomes
import EventStore.Proofs.Store.View

/-!
# One bucket at a time

A bucket's operations see and change its data and the store, which make up its cell.
`Bucket.Does` says from which cell an operation leads to which, whatever the surroundings do,
and that it spares the rest of the engine.
-/

namespace EventStore

structure Cell where
  data : BucketData
  view : View

def Cell.busy (c : Cell) : Cell := { c with data := { c.data with writing := true } }

def Cell.idle (c : Cell) : Cell := { c with data := { c.data with writing := false } }

theorem Cell.idle_eq {c : Cell} (h : c.data.writing = false) : c.idle = c := by
  obtain ⟨⟨index, last, state, writing⟩, view⟩ := c
  cases h
  rfl

def Engine.cell (e : Engine) (b : Bucket) : Cell := ⟨e.data b, e.store.entries?⟩

/-- The events that are stored for the bucket's hour. -/
def Engine.content (e : Engine) (b : Bucket) : Entries := (e.store.entries? b.eventsMap).getD ∅

namespace Bucket

/-- What an operation on the bucket leaves alone. -/
structure Spares (b : Bucket) (e e' : Engine) : Prop where
  size : e'.opened.size = e.opened.size
  others : ∀ c : Bucket, c.number ≠ b.number → e'.data c = e.data c
  clock : e.clock ≤ e'.clock
  rest : e' = { e with store := e'.store, clock := e'.clock, opened := e'.opened }

theorem Spares.refl (b : Bucket) (e : Engine) : b.Spares e e :=
  ⟨rfl, fun _ _ => rfl, Nat.le_refl _, rfl⟩

theorem Spares.trans {b : Bucket} (h : b.Spares e e') (h' : b.Spares e' e'') : b.Spares e e'' where
  size := h'.size.trans h.size
  others c hc := (h'.others c hc).trans (h.others c hc)
  clock := Nat.le_trans h.clock h'.clock
  rest := by
    rw [h'.rest, h.rest]

theorem Spares.of_shaken (b : Bucket) (h : e.Shaken e') : b.Spares e e' ∧ e'.cell b = e.cell b := by
  obtain ⟨faults, clock, hc, rfl⟩ := h
  exact ⟨⟨rfl, fun _ _ => rfl, hc, rfl⟩, rfl⟩

theorem Spares.setData (b : Bucket) (e : Engine) (d : BucketData) : b.Spares e (e.setData b d) where
  size := by simp [Engine.setData]
  others c hc := by
    simp [Engine.setData, Engine.data, Array.getD_eq_getD_getElem?, Ne.symm hc]
  clock := Nat.le_refl _
  rest := rfl

theorem cell_setData {b : Bucket} {e : Engine} (h : b.number < e.opened.size) (d : BucketData) :
    (e.setData b d).cell b = ⟨d, e.store.entries?⟩ := by
  rw [Engine.cell, Engine.data_setData h, if_pos rfl]
  rfl

/-- From the cell `c` the operation leads to `Q` if it succeeds and to `E` if it fails, and spares
the rest of the engine. -/
def Does (b : Bucket) (op : Operation α) (c : Cell) (Q : α → Cell → Prop)
    (E : EngineError → Cell → Prop) : Prop :=
  ∀ e, b.number < e.opened.size → e.cell b = c →
    op.Triple e (fun a e' => b.Spares e e' ∧ Q a (e'.cell b))
      (fun p e' => b.Spares e e' ∧ E p (e'.cell b))

namespace Does

variable {b : Bucket} {c : Cell} {α β : Type} {op : Operation α} {Q Q' : α → Cell → Prop}
  {E E' : EngineError → Cell → Prop}

theorem pure' (h : Q a c) : b.Does (pure a) c Q E := by
  rintro e - rfl
  exact .pure' ⟨.refl b e, h⟩

theorem throw' (h : E p c) : b.Does (throw p) c Q E := by
  rintro e - rfl
  exact .throw' ⟨.refl b e, h⟩

theorem bind {k : α → Operation β} {P : α → Cell → Prop} {Q : β → Cell → Prop} (h : b.Does op c P E)
    (hk : ∀ a c', P a c' → b.Does (k a) c' Q E) : b.Does (op >>= k) c Q E := by
  intro e hn hc
  refine .bind (P := fun a e' => b.Spares e e' ∧ P a (e'.cell b)) (h e hn hc) ?_
  rintro a e' ⟨hs, hp⟩
  refine (hk a _ hp e' (hs.size ▸ hn) rfl).mono ?_ ?_
  · exact fun _ _ h => ⟨hs.trans h.1, h.2⟩
  · exact fun _ _ h => ⟨hs.trans h.1, h.2⟩

theorem step {act : Engine → Except EngineError α × Engine}
    (h : ∀ e, b.number < e.opened.size → e.cell b = c → match act e with
      | (.ok a, e') => b.Spares e e' ∧ Q a (e'.cell b)
      | (.error p, e') => b.Spares e e' ∧ E p (e'.cell b)) :
    b.Does (Operation.attempt act) c Q E := by
  intro e hn hc
  refine .step fun e₁ he => ?_
  obtain ⟨hs, hc₁⟩ := Spares.of_shaken b he
  have := h e₁ (hs.size ▸ hn) (hc₁.trans hc)
  split
  · next ha =>
    rw [ha] at this
    exact ⟨hs.trans this.1, this.2⟩
  · next ha =>
    rw [ha] at this
    exact ⟨hs.trans this.1, this.2⟩

theorem observe {f : BucketData → α} (h : Q (f c.data) c) : b.Does (liftM (b.observe f)) c Q E := by
  rintro e - rfl
  refine .lift fun a e' ha => ?_
  obtain ⟨e₁, he, ha⟩ := Activity.ends_atomically.mp ha
  obtain ⟨hs, hc⟩ := Spares.of_shaken b he
  cases ha
  rw [← hc] at h
  exact ⟨hs, h⟩

theorem change {f : BucketData → BucketData} {Q : Unit → Cell → Prop}
    (h : Q () { c with data := f c.data }) :
    b.Does (liftM (b.change f)) c Q E := by
  rintro e hn rfl
  refine .lift fun a e' ha => ?_
  obtain ⟨e₁, he, ha⟩ := Activity.ends_atomically.mp ha
  obtain ⟨hs, hc⟩ := Spares.of_shaken b he
  cases ha
  refine ⟨hs.trans (.setData ..), ?_⟩
  rw [cell_setData (hs.size ▸ hn)]
  rw [← hc] at h
  exact h

theorem after_change {f : BucketData → BucketData} {k : Unit → Operation α}
    (h : b.Does (k ()) { c with data := f c.data } Q E) :
    b.Does (liftM (b.change f) >>= k) c Q E := by
  refine .bind (P := fun _ c' => c' = { c with data := f c.data }) (.change rfl) ?_
  rintro - _ rfl
  exact h

theorem call {r : Request α} (hr : r.kind ≠ .removeMap)
    (h : ∀ a, r.Replies c.view a → Q a { c with view := r.effect c.view })
    (he : ∀ p, E (.store p) c) :
    b.Does (Operation.call r) c Q E := by
  refine .step fun e hn hc => ?_
  subst hc
  cases ha : e.store.answer r with
  | mk a s =>
    cases a with
    | ok a =>
      obtain ⟨hr, hv⟩ := Store.replies_of_ok ha
      refine ⟨⟨rfl, fun _ _ => rfl, Nat.le_refl _, rfl⟩, ?_⟩
      have := h a hr
      simp only [Engine.cell] at this ⊢
      rw [hv]
      exact this
    | error p =>
      refine ⟨⟨rfl, fun _ _ => rfl, Nat.le_refl _, rfl⟩, ?_⟩
      have := he p
      simp only [Engine.cell] at this ⊢
      rw [Store.entries?_of_error hr ha]
      exact this

/-- A map that cannot be removed may be gone all the same. -/
theorem remove {name : String} {Q : Bool → Cell → Prop}
    (h : Q (c.view name).isSome { c with view := (Request.removeMap name).effect c.view })
    (he : ∀ p v, v = c.view ∨ v = (Request.removeMap name).effect c.view →
      E (.store p) { c with view := v }) :
    b.Does (Operation.call (.removeMap name)) c Q E := by
  refine .step fun e hn hc => ?_
  subst hc
  cases ha : e.store.answer (.removeMap name) with
  | mk a s =>
    cases a with
    | ok a =>
      obtain ⟨hr, hv⟩ := Store.replies_of_ok ha
      refine ⟨⟨rfl, fun _ _ => rfl, Nat.le_refl _, rfl⟩, ?_⟩
      cases hr
      simp only [Engine.cell] at h ⊢
      rw [hv]
      exact h
    | error p =>
      exact ⟨⟨rfl, fun _ _ => rfl, Nat.le_refl _, rfl⟩,
        he p s.entries? (Store.entries?_of_removeMap_error ha)⟩

theorem settle {k : Except EngineError α → Operation β} {P : α → Cell → Prop}
    {F : EngineError → Cell → Prop} {Q : β → Cell → Prop} (h : b.Does op c P F)
    (hok : ∀ a c', P a c' → b.Does (k (.ok a)) c' Q E)
    (herr : ∀ p c', F p c' → b.Does (k (.error p)) c' Q E) :
    b.Does (Operation.outcome op >>= k) c Q E := by
  intro e hn hc
  refine .settle (h e hn hc) ?_ ?_
  · rintro a e' ⟨hs, hp⟩
    exact (hok a _ hp e' (hs.size ▸ hn) rfl).mono (fun _ _ h => ⟨hs.trans h.1, h.2⟩)
      (fun _ _ h => ⟨hs.trans h.1, h.2⟩)
  · rintro p e' ⟨hs, hp⟩
    exact (herr p _ hp e' (hs.size ▸ hn) rfl).mono (fun _ _ h => ⟨hs.trans h.1, h.2⟩)
      (fun _ _ h => ⟨hs.trans h.1, h.2⟩)

theorem alone (h : c.data.writing = false →
      b.Does op c.busy (fun a c' => Q a c'.idle) (fun p c' => E p c'.idle)) :
    b.Does (b.alone op) c Q E := by
  rintro e hn rfl r e' hr
  obtain ⟨_, e₁, ha, hr⟩ := Activity.ends_bind.mp hr
  obtain ⟨r', e₂, hop, hr⟩ := Activity.ends_bind.mp hr
  obtain ⟨_, e₃, hl, hr⟩ := Activity.ends_bind.mp hr
  obtain ⟨rfl, rfl⟩ := hr
  -- Between the steps the surroundings touch neither the cell nor what is spared.
  obtain ⟨u, hu, hw, ha⟩ := Activity.ends_whenever.mp ha
  obtain ⟨v, hv, hl⟩ := Activity.ends_atomically.mp hl
  cases ha
  cases hl
  obtain ⟨hsu, hcu⟩ := Spares.of_shaken b hu
  obtain ⟨hsv, hcv⟩ := Spares.of_shaken b hv
  have hnu : b.number < u.opened.size := hsu.size ▸ hn
  have hb : (u.setData b { u.data b with writing := true }).cell b = (e.cell b).busy := by
    rw [cell_setData hnu, ← hcu]
    rfl
  have hw : (e.cell b).data.writing = false := by
    rw [← hcu]
    exact (Bool.not_eq_true' _).mp hw
  have hs₁ : b.Spares e (u.setData b { u.data b with writing := true }) := hsu.trans (.setData ..)
  have hop := h hw _ (hs₁.size ▸ hn) hb r' e₂ hop
  have hi (hs : b.Spares e e₂) : b.Spares e (v.setData b { v.data b with writing := false }) ∧
      (v.setData b { v.data b with writing := false }).cell b = (e₂.cell b).idle := by
    have hs := hs.trans hsv
    refine ⟨hs.trans (.setData ..), ?_⟩
    rw [cell_setData (hs.size ▸ hn), ← hcv]
    rfl
  cases r' with
  | ok a =>
    obtain ⟨hs, hq⟩ := hop
    obtain ⟨hs, hc⟩ := hi (hs₁.trans hs)
    exact ⟨hs, hc ▸ hq⟩
  | error p =>
    obtain ⟨hs, hq⟩ := hop
    obtain ⟨hs, hc⟩ := hi (hs₁.trans hs)
    exact ⟨hs, hc ▸ hq⟩

end Does

end Bucket

end EventStore
