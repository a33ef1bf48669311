import EventStore.Engine.Basic

/-!
# What an activity can come to

`Activity.Ends` relates the state in which an activity starts to the answers and states in
which it can end while its surroundings interfere: before every step they may change the state
within bounds. For an engine these are `Engine.Shaken`: calls to the store begin or cease to be
refused, and time passes. `Operation.Triple` says of an operation what holds after it, whatever
the surroundings do, if it succeeds and if it fails. Its rules follow the ways in which
operations are put together.
-/

namespace EventStore

namespace Activity

variable {σ α β γ : Type} {around : σ → σ → Prop}

/-- Round after round, where `round` relates the start of a round to what can come of it. -/
inductive Goes (round : β → σ → β ⊕ γ → σ → Prop) : β → σ → γ → σ → Prop
  | last {b s c t} : round b s (.inr c) t → Goes round b s c t
  | again {b s b' u c t} : round b s (.inl b') u → Goes round b' u c t → Goes round b s c t

/-- From `s` the activity can end with the answer `a` in `t`. -/
def Ends (around : σ → σ → Prop) {α : Type} : Activity σ α → (s : σ) → (a : α) → (t : σ) → Prop
  | done a, s, b, t => a = b ∧ s = t
  | step ready act next, s, b, t =>
    ∃ u, around s u ∧ ready u = true ∧ (next (act u).1).Ends around (act u).2 b t
  | loop body start next, s, b, t =>
    ∃ c u, Goes (fun b s r u => (body b).Ends around s r u) start s c u ∧ (next c).Ends around u b t

theorem ends_bind {x : Activity σ α} {k : α → Activity σ β} {s t : σ} {b : β} :
    (x >>= k).Ends around s b t ↔ ∃ a u, x.Ends around s a u ∧ (k a).Ends around u b t := by
  show (x.bind k).Ends around s b t ↔ _
  induction x generalizing s with
  | done a =>
    constructor
    · exact fun h => ⟨a, s, ⟨rfl, rfl⟩, h⟩
    · rintro ⟨_, _, ⟨rfl, rfl⟩, h⟩
      exact h
  | step ready act next ih =>
    constructor
    · rintro ⟨u, hu, hr, h⟩
      obtain ⟨a, v, hx, hk⟩ := (ih _).mp h
      exact ⟨a, v, ⟨u, hu, hr, hx⟩, hk⟩
    · rintro ⟨a, v, ⟨u, hu, hr, hx⟩, hk⟩
      exact ⟨u, hu, hr, (ih _).mpr ⟨a, v, hx, hk⟩⟩
  | loop body start next _ ih =>
    constructor
    · rintro ⟨c, u, hg, h⟩
      obtain ⟨a, v, hx, hk⟩ := (ih _).mp h
      exact ⟨a, v, ⟨c, u, hg, hx⟩, hk⟩
    · rintro ⟨a, v, ⟨c, u, hg, hx⟩, hk⟩
      exact ⟨c, u, hg, (ih _).mpr ⟨a, v, hx, hk⟩⟩

theorem ends_atomically {act : σ → α × σ} {s t : σ} {a : α} :
    (atomically act).Ends around s a t ↔ ∃ u, around s u ∧ act u = (a, t) := by
  simp [atomically, Ends, Prod.ext_iff]

theorem ends_whenever {ready : σ → Bool} {act : σ → α × σ} {s t : σ} {a : α} :
    (whenever ready act).Ends around s a t ↔ ∃ u, around s u ∧ ready u = true ∧ act u = (a, t) := by
  simp [whenever, Ends, Prod.ext_iff]

-- ---- alone ---------------------------------------------------------------

theorem goes_of_rounds {round : β → σ → Option ((β ⊕ γ) × σ)} {rel : β → σ → β ⊕ γ → σ → Prop}
    (hr : ∀ b s r u, round b s = some (r, u) → rel b s r u) {most : Nat} {b : β} {s t : σ} {c : γ}
    (h : rounds round most b s = some (c, t)) : Goes rel b s c t := by
  induction most generalizing b s with
  | zero => cases h
  | succ most ih =>
    simp only [rounds] at h
    split at h
    · next b' u hb => exact .again (hr _ _ _ _ hb) (ih h)
    · next c' u hb =>
      cases h
      exact .last (hr _ _ _ _ hb)
    · cases h

/-- What comes of an activity that nobody disturbs is one of the ways in which it can end. -/
theorem ends_of_run (hs : ∀ s, around s s) {x : Activity σ α} {most : Nat} {s t : σ} {a : α}
    (h : x.run most s = some (a, t)) : x.Ends around s a t := by
  induction x generalizing s t with
  | done b =>
    cases h
    exact ⟨rfl, rfl⟩
  | step ready act next ih =>
    simp only [run] at h
    split at h
    · next hr => exact ⟨s, hs s, hr, ih _ h⟩
    · cases h
  | loop body start next ihb ihn =>
    simp only [run] at h
    split at h
    · next c u hc => exact ⟨c, u, goes_of_rounds (fun b s r u => ihb b) hc, ihn _ h⟩
    · cases h

end Activity

-- ---- engines -------------------------------------------------------------

/-- What the surroundings of an engine do: they change which calls the store refuses, and time
passes. -/
def Engine.Shaken (e e' : Engine) : Prop :=
  ∃ faults clock, e.clock ≤ clock ∧
    e' = { e with store := { e.store with faults := faults }, clock := clock }

/-- While time passes the store begins or ceases to refuse commits. -/
def Engine.Wavers (e e' : Engine) : Prop :=
  e.Shaken e' ∧ ∀ f ∈ e'.store.faults, f.kind = .commit

theorem Engine.Shaken.refl (e : Engine) : e.Shaken e :=
  ⟨e.store.faults, e.clock, Nat.le_refl _, rfl⟩

namespace Operation

/-- From `e` the operation can end with the result `r` in `e'`, its surroundings being what they
are. -/
def Ends (op : Operation α) (e : Engine) (r : Except EngineError α) (e' : Engine) : Prop :=
  Activity.Ends Engine.Shaken op.run e r e'

/-- What comes of an operation that nobody disturbs, with `rounds` rounds for each of its loops. -/
def result (rounds : Nat) (op : Operation α) (e : Engine) :
    Option (Except EngineError α × Engine) :=
  Activity.run rounds op.run e

theorem ends_of_result {op : Operation α} (h : op.result rounds e = some (r, e')) :
    op.Ends e r e' :=
  Activity.ends_of_run Engine.Shaken.refl h

theorem result_pure (rounds : Nat) (a : α) (e : Engine) :
    result rounds (pure a) e = some (.ok a, e) := rfl

theorem result_bind {op : Operation α} {k : α → Operation β} : result rounds (op >>= k) e =
    (result rounds op e).bind fun
      | (.ok a, e) => result rounds (k a) e
      | (.error p, e) => some (.error p, e) := by
  unfold result
  rw [ExceptT.run_bind]
  refine (Activity.run_bind ..).trans ?_
  congr 1
  funext ⟨r, e'⟩
  cases r <;> rfl

theorem result_attempt (rounds : Nat) (act : Engine → Except EngineError α × Engine) (e : Engine) :
    result rounds (attempt act) e = some (act e) := rfl

theorem result_lift (rounds : Nat) (act : Engine → α × Engine) (e : Engine) :
    result rounds (liftM (Activity.atomically act) : Operation α) e =
      some (.ok (act e).1, (act e).2) := rfl

theorem result_lift_run {x : Activity Engine α} (h : Activity.run rounds x e = some (a, e')) :
    result rounds (liftM x : Operation α) e = some (.ok a, e') := by
  change Activity.run rounds (x >>= fun a => pure (Except.ok a)) e = some (Except.ok a, e')
  refine (Activity.run_bind ..).trans ?_
  rw [h]
  rfl

theorem result_between {before after : Activity Engine Unit} {op : Operation α}
    {r : Except EngineError α} {e₁ e₂ : Engine}
    (hb : Activity.run rounds before e = some ((), e₁)) (ho : op.result rounds e₁ = some (r, e₂))
    (ha : Activity.run rounds after e₂ = some ((), e')) :
    result rounds (ExceptT.mk do
      before
      let r ← op.run
      after
      return r) e = some (r, e') := by
  have hr : Activity.run rounds op.run e₁ = some (r, e₂) := ho
  refine (Activity.run_bind ..).trans ?_
  rw [hb]
  refine (Activity.run_bind ..).trans ?_
  rw [hr]
  refine (Activity.run_bind ..).trans ?_
  rw [ha]
  rfl

theorem exists_ends_of_isOk (rounds : Nat) (op : Operation α) (e : Engine) (p : Engine → Bool)
    (h : (op.result rounds e).map (fun r => r.1.isOk && p r.2) = some true) :
    ∃ a e', op.Ends e (.ok a) e' ∧ p e' = true := by
  obtain ⟨⟨r, e'⟩, hr, ho⟩ := Option.map_eq_some_iff.mp h
  cases r with
  | ok a => exact ⟨a, e', ends_of_result hr, ho⟩
  | error p => cases ho

theorem exists_ends_of_any (rounds : Nat) (op : Operation α) (e : Engine) (p : α → Engine → Bool)
    (h : (op.result rounds e).any (fun r => r.1.toOption.any (p · r.2)) = true) :
    ∃ a e', op.Ends e (.ok a) e' ∧ p a e' = true := by
  obtain ⟨⟨r, e'⟩, hr, ho⟩ := (Option.any_eq_true _ _).mp h
  cases r with
  | ok a => exact ⟨a, e', ends_of_result hr, ho⟩
  | error p => cases ho

theorem ends_bind_ok {op : Operation α} {k : α → Operation β} {b : β}
    (h : (op >>= k).Ends e (.ok b) e') :
    ∃ a e₁, op.Ends e (.ok a) e₁ ∧ (k a).Ends e₁ (.ok b) e' := by
  unfold Ends at h
  rw [ExceptT.run_bind, Activity.ends_bind] at h
  obtain ⟨r, e₁, h₁, h₂⟩ := h
  cases r with
  | ok a => exact ⟨a, e₁, h₁, h₂⟩
  | error p =>
    obtain ⟨hp, -⟩ := h₂
    cases hp

theorem ends_lift_ok {act : Engine → α × Engine}
    (h : Ends (liftM (Activity.atomically act)) e (.ok a) e') :
    ∃ u, e.Shaken u ∧ act u = (a, e') := by
  obtain ⟨b, e₁, ha, hb, rfl⟩ := Activity.ends_bind.mp h
  cases hb
  exact Activity.ends_atomically.mp ha

theorem ends_outcome {op : Operation α} {r : Except EngineError α}
    (h : Ends (outcome op) e (.ok r) e') : op.Ends e r e' := by
  obtain ⟨r', e₁, ho, hr, rfl⟩ := Activity.ends_bind.mp h
  cases hr
  exact ho

theorem result_bind_ok {op : Operation α} {k : α → Operation β} {b : β}
    (h : result rounds (op >>= k) e = some (.ok b, e')) :
    ∃ a e₁, op.result rounds e = some (.ok a, e₁) ∧ (k a).result rounds e₁ = some (.ok b, e') := by
  rw [result_bind, Option.bind_eq_some_iff] at h
  obtain ⟨⟨r, e₁⟩, h₁, h₂⟩ := h
  cases r with
  | ok a => exact ⟨a, e₁, h₁, h₂⟩
  | error p => cases h₂

-- ---- what holds afterwards -----------------------------------------------

/-- After `op`, `Q` holds of the answer and the engine, or `E` of the error and the engine. -/
def Triple (op : Operation α) (e : Engine) (Q : α → Engine → Prop)
    (E : EngineError → Engine → Prop) : Prop :=
  ∀ r e', op.Ends e r e' → match r with
    | .ok a => Q a e'
    | .error p => E p e'

theorem Triple.mono (h : Triple op e Q E) (hq : ∀ a e', Q a e' → Q' a e')
    (he : ∀ p e', E p e' → E' p e') :
    Triple op e Q' E' := by
  intro r e' hr
  cases r with
  | ok a => exact hq _ _ (h _ _ hr)
  | error p => exact he _ _ (h _ _ hr)

theorem Triple.pure' (h : Q a e) : Triple (pure a) e Q E := by
  rintro r e' ⟨rfl, rfl⟩
  exact h

theorem Triple.throw' (h : E p e) : Triple (throw p : Operation α) e Q E := by
  rintro r e' ⟨rfl, rfl⟩
  exact h

theorem Triple.bind {op : Operation α} {k : α → Operation β} (h : Triple op e P E)
    (hk : ∀ a e', P a e' → Triple (k a) e' Q E) : Triple (op >>= k) e Q E := by
  intro r e' hr
  unfold Ends at hr
  rw [ExceptT.run_bind, Activity.ends_bind] at hr
  obtain ⟨r₁, e₁, h₁, h₂⟩ := hr
  cases r₁ with
  | ok a => exact hk a e₁ (h _ _ h₁) r e' h₂
  | error p =>
    obtain ⟨rfl, rfl⟩ := h₂
    exact h _ _ h₁

theorem Triple.lift {x : Activity Engine α}
    (h : ∀ a e', Activity.Ends Engine.Shaken x e a e' → Q a e') :
    Triple (liftM x : Operation α) e Q E := by
  intro r e' hr
  change Activity.Ends Engine.Shaken (x >>= fun a => pure (.ok a)) e r e' at hr
  rw [Activity.ends_bind] at hr
  obtain ⟨a, e₁, ha, rfl, rfl⟩ := hr
  exact h _ _ ha

theorem Triple.step {act : Engine → Except EngineError α × Engine}
    (h : ∀ e₁, e.Shaken e₁ → match act e₁ with
      | (.ok a, e') => Q a e'
      | (.error p, e') => E p e') : Triple (attempt act) e Q E := by
  intro r e' hr
  obtain ⟨e₁, he, ha⟩ := Activity.ends_atomically.mp hr
  have h := h e₁ he
  rw [ha] at h
  cases r <;> exact h

theorem Triple.settle {op : Operation α} {k : Except EngineError α → Operation β}
    (h : Triple op e P F) (hok : ∀ a e', P a e' → Triple (k (.ok a)) e' Q E)
    (herr : ∀ p e', F p e' → Triple (k (.error p)) e' Q E) :
    Triple (outcome op >>= k) e Q E := by
  refine .bind (P := fun r e' => match r with
    | .ok a => P a e'
    | .error p => F p e') (.lift fun r e' hr => ?_) ?_
  · have := h r e' hr
    cases r <;> exact this
  rintro (p | a) e' hr
  · exact herr p e' hr
  · exact hok a e' hr

end Operation

end EventStore
