import EventStore.Proofs.Engine.Sharing

/-!
# Activities that cannot tell states apart

An activity respects a relation of states (`Activity.Respects`) if from related states each of its
steps answers the same and leaves related states. So its answers do not depend on what the relation
leaves open: alone it comes to the same (`Respects.run`), and so do any number of such activities in
any order of their steps (`Scene.Run.respects`).
-/

namespace EventStore

namespace Activity

variable {σ α β γ : Type} {R : σ → σ → Prop} {s t s' : σ}

/-- From related states each step answers the same, and leaves related states. -/
def Respects (R : σ → σ → Prop) : {α : Type} → Activity σ α → Prop
  | _, done _ => True
  | _, step ready act next =>
    (∀ s t, R s t → ready s = ready t ∧ (act s).1 = (act t).1 ∧ R (act s).2 (act t).2) ∧
      ∀ b, (next b).Respects R
  | _, loop body _ next => (∀ b, (body b).Respects R) ∧ ∀ c, (next c).Respects R

namespace Respects

theorem pure' (a : α) : (pure a : Activity σ α).Respects R := trivial

theorem bind {x : Activity σ α} {f : α → Activity σ β} (h : x.Respects R)
    (hf : ∀ a, (f a).Respects R) : (x >>= f).Respects R := by
  show (x.bind f).Respects R
  induction x with
  | done a => exact hf a
  | step ready act next ih => exact ⟨h.1, fun b => ih b (h.2 b) hf⟩
  | loop body start next _ ih => exact ⟨h.1, fun c => ih c (h.2 c) hf⟩

theorem goRound {body : β → Activity σ (β ⊕ γ)} (h : ∀ b, (body b).Respects R) (start : β) :
    (goRound body start).Respects R := ⟨h, fun _ => trivial⟩

theorem foldlM {f : β → α → Activity σ β} (h : ∀ b a, (f b a).Respects R) (xs : List α) (b : β) :
    (xs.foldlM f b).Respects R := by
  induction xs generalizing b with
  | nil => exact pure' b
  | cons x xs ih =>
    rw [List.foldlM_cons]
    exact bind (h b x) ih

/-- What is left after a step respects what the whole did. -/
theorem rest {x y : Activity σ α} (h : x.Respects R) (hx : x.step? s = some (y, s')) :
    y.Respects R := by
  cases x with
  | done a => cases hx
  | step ready act next =>
    simp only [Activity.step?] at hx
    split at hx
    · cases hx
      exact h.2 _
    · cases hx
  | loop body start next =>
    cases hx
    refine bind (h.1 start) ?_
    rintro (b | c)
    · exact h
    · exact h.2 c

theorem step? {x y : Activity σ α} (h : x.Respects R) (hst : R s t)
    (hx : x.step? s = some (y, s')) : ∃ t', x.step? t = some (y, t') ∧ R s' t' ∧ y.Respects R := by
  have hy := h.rest hx
  cases x with
  | done a => cases hx
  | step ready act next =>
    obtain ⟨hready, hanswer, hr⟩ := h.1 s t hst
    simp only [Activity.step?] at hx
    split at hx
    · next hs =>
      cases hx
      refine ⟨(act t).2, ?_, hr, hy⟩
      rw [Activity.step?, if_pos (hready ▸ hs), hanswer]
    · cases hx
  | loop body start next =>
    cases hx
    exact ⟨t, rfl, hst, hy⟩

theorem rounds {body : β → Activity σ (β ⊕ γ)} {most : Nat}
    (h : ∀ {b s t r s'}, R s t → (body b).run most s = some (r, s') →
      ∃ t', (body b).run most t = some (r, t') ∧ R s' t')
    {n : Nat} {b : β} {c : γ} (hst : R s t)
    (hs : Activity.rounds (fun b s => (body b).run most s) n b s = some (c, s')) :
    ∃ t', Activity.rounds (fun b s => (body b).run most s) n b t = some (c, t') ∧ R s' t' := by
  induction n generalizing b s t with
  | zero => cases hs
  | succ n ih =>
    simp only [Activity.rounds] at hs ⊢
    split at hs
    · next b' u hb =>
      obtain ⟨t', ht', hu⟩ := h hst hb
      simpa only [ht'] using ih hu hs
    · next c' u hb =>
      cases hs
      obtain ⟨t', ht', hu⟩ := h hst hb
      exact ⟨t', by simp only [ht'], hu⟩
    · cases hs

/-- Alone an activity comes to the same from related states. -/
theorem run {x : Activity σ α} (h : x.Respects R) (hst : R s t) {most : Nat} {a : α}
    (hs : x.run most s = some (a, s')) : ∃ t', x.run most t = some (a, t') ∧ R s' t' := by
  induction x generalizing s t s' with
  | done b =>
    cases hs
    exact ⟨t, rfl, hst⟩
  | step ready act next ih =>
    obtain ⟨hready, hanswer, hr⟩ := h.1 s t hst
    simp only [Activity.run] at hs ⊢
    split at hs
    · next hs' =>
      rw [if_pos (hready ▸ hs'), ← hanswer]
      exact ih _ (h.2 _) hr hs
    · cases hs
  | loop body start next ihb ihn =>
    simp only [Activity.run] at hs ⊢
    split at hs
    · next c u hc =>
      obtain ⟨t', ht', hu⟩ := rounds (R := R) (fun hst hb => ihb _ (h.1 _) hst hb) hst hc
      simpa only [ht'] using ihn c (h.2 c) hu hs
    · cases hs

theorem map_run {x : Activity σ α} (h : x.Respects R) (hst : R s t) (hts : R t s) {most : Nat} :
    (x.run most s).map (·.1) = (x.run most t).map (·.1) := by
  cases hs : x.run most s with
  | some r =>
    obtain ⟨t', ht, -⟩ := h.run hst hs
    rw [ht]
    rfl
  | none =>
    cases ht : x.run most t with
    | none => rfl
    | some r =>
      obtain ⟨s', hs', -⟩ := h.run hts ht
      rw [hs'] at hs
      cases hs

end Respects

end Activity

-- ---- operations ----------------------------------------------------------

namespace Operation

variable {α β : Type} {R : Engine → Engine → Prop}

/-- From related engines each step of the operation answers the same. -/
def Respects (R : Engine → Engine → Prop) (op : Operation α) : Prop := Activity.Respects R op.run

namespace Respects

variable {op : Operation α}

theorem pure' (a : α) : (pure a : Operation α).Respects R := trivial

theorem throw' (p : EngineError) : (throw p : Operation α).Respects R := trivial

theorem result (r : Except EngineError α) : (liftM r : Operation α).Respects R := by
  cases r <;> trivial

theorem bind {f : α → Operation β} (h : op.Respects R) (hf : ∀ a, (f a).Respects R) :
    (op >>= f).Respects R := by
  refine Activity.Respects.bind h ?_
  rintro (p | a)
  · exact trivial
  · exact hf a

theorem lift {x : Activity Engine α} (h : x.Respects R) : (liftM x : Operation α).Respects R :=
  Activity.Respects.bind h fun _ => trivial

theorem outcome (h : op.Respects R) : (outcome op).Respects R := lift (x := op.run) h

/-- An operation between two activities, of which the second comes whether it fails or not. -/
theorem between {before after : Activity Engine Unit} (hb : before.Respects R)
    (h : op.Respects R) (ha : after.Respects R) : Operation.Respects R (ExceptT.mk do
      before
      let r ← op.run
      after
      return r) :=
  Activity.Respects.bind hb fun _ => Activity.Respects.bind h fun _ =>
    Activity.Respects.bind ha fun _ => trivial

theorem forM {f : α → Operation Unit} (h : ∀ a, (f a).Respects R) (xs : List α) :
    (xs.forM f).Respects R := by
  induction xs with
  | nil => exact pure' ()
  | cons x xs ih =>
    exact bind (h x) fun _ => ih

end Respects

end Operation

-- ---- several parties -----------------------------------------------------

namespace Scene

variable {σ C : Type} {Answer : C → Type} {activity : (c : C) → Activity σ (Answer c)}
  {allowed : C → Prop} {around R : σ → σ → Prop} {s t s' : Scene σ Answer}

/-- The same calls have still to do the same. -/
structure Follows (R : σ → σ → Prop) (s t : Scene σ Answer) : Prop where
  state : R s.state t.state
  tasks : s.tasks = t.tasks
  respects : ∀ x ∈ s.tasks, x.rest.Respects R

theorem Follows.step (h : s.Follows R t) (hc : ∀ c, allowed c → (activity c).Respects R)
    (ha : ∀ {u v u'}, R u v → around u u' → ∃ v', around v v' ∧ R u' v')
    (hs : s.Step activity allowed around s') :
    ∃ t', t.Step activity allowed around t' ∧ s'.Follows R t' := by
  obtain ⟨t, ts⟩ := t
  obtain ⟨hr, rfl, hts⟩ := h
  cases hs with
  | call hcall =>
    refine ⟨_, .call hcall, hr, rfl, fun x hx => ?_⟩
    rcases List.mem_append.mp hx with hx | hx
    · exact hts x hx
    · exact List.mem_singleton.mp hx ▸ hc _ hcall
  | @task u u' before after c x y hx =>
    obtain ⟨t', hx', hr', hy⟩ := (hts ⟨c, x⟩ (by simp)).step? hr hx
    refine ⟨_, .task hx', hr', rfl, fun z hz => ?_⟩
    rcases List.mem_append.mp hz with hz | hz
    · exact hts z (List.mem_append_left _ hz)
    rcases List.mem_cons.mp hz with rfl | hz
    · exact hy
    · exact hts z (List.mem_append_right _ (List.mem_cons_of_mem _ hz))
  | around haround =>
    obtain ⟨v', hv, hr'⟩ := ha hr haround
    exact ⟨_, .around hv, hr', rfl, hts⟩

/-- Whatever comes of a scene can come of one with a related state. -/
theorem Run.respects (hrun : Run activity allowed around s s') (h : s.Follows R t)
    (hc : ∀ c, allowed c → (activity c).Respects R)
    (ha : ∀ {u v u'}, R u v → around u u' → ∃ v', around v v' ∧ R u' v') :
    ∃ t', Run activity allowed around t t' ∧ s'.Follows R t' := by
  induction hrun with
  | refl => exact ⟨t, .refl, h⟩
  | tail _ hs ih =>
    obtain ⟨u, hu, hf⟩ := ih
    obtain ⟨t', ht, hf'⟩ := hf.step hc ha hs
    exact ⟨t', hu.tail ht, hf'⟩

end Scene

end EventStore
