import EventStore.Proofs.Engine.Sharing

/-!
# Readers of a state that goes on changing

A reader that looks only at what stays as it was at some moment finds at each later step what it
would have found then (`Activity.Mirrors`). So it comes to what it would have come to alone at that
moment, whatever others do between its steps (`Scene.Run.mirrors`), and it waits for nobody
(`Scene.exists_done_of_mirrors`).
-/

namespace EventStore

namespace Activity

variable {σ α β : Type} {Later : σ → Prop} {s₁ u u' : σ}

/-- Wherever `Later` holds each step finds what it finds in `s₁`, and changes nothing. -/
def Mirrors (Later : σ → Prop) (s₁ : σ) : {α : Type} → Activity σ α → Prop
  | _, done _ => True
  | _, step ready act next =>
    (∀ u, Later u → ready u = true ∧ act u = ((act s₁).1, u)) ∧ (next (act s₁).1).Mirrors Later s₁
  | _, loop .. => False

namespace Mirrors

theorem after {act : σ → α × σ} {f : α → Activity σ β} (h : ∀ u, Later u → act u = ((act s₁).1, u))
    (hf : (f (act s₁).1).Mirrors Later s₁) : (atomically act >>= f).Mirrors Later s₁ :=
  ⟨fun u hu => ⟨rfl, h u hu⟩, hf⟩

theorem step? {x y : Activity σ α} (h : x.Mirrors Later s₁) (h₁ : Later s₁) (hu : Later u)
    (hs : x.step? u = some (y, u')) :
    u' = u ∧ y.Mirrors Later s₁ ∧ ∀ rounds, y.run rounds s₁ = x.run rounds s₁ := by
  cases x with
  | done a => cases hs
  | loop => exact h.elim
  | step ready act next =>
    obtain ⟨hact, hnext⟩ := h
    obtain ⟨hr, ha⟩ := hact u hu
    obtain ⟨hr₁, ha₁⟩ := hact s₁ h₁
    rw [Activity.step?, if_pos hr, ha] at hs
    cases hs
    refine ⟨rfl, hnext, fun rounds => ?_⟩
    rw [Activity.run, if_pos hr₁, ha₁]

/-- What is true of answers, and of what one step leads from, is true of a reader. -/
theorem induction {x : Activity σ α} {P : Activity σ α → Prop} (h : x.Mirrors Later s₁)
    (hu : Later u) (hdone : ∀ a, P (done a))
    (hstep : ∀ y z, y.step? u = some (z, u) → P z → P y) : P x := by
  induction x with
  | done a => exact hdone a
  | loop => exact h.elim
  | step ready act next ih =>
    obtain ⟨hact, hnext⟩ := h
    obtain ⟨hr, ha⟩ := hact u hu
    refine hstep _ (next (act s₁).1) ?_ (ih _ hnext hdone hstep)
    rw [Activity.step?, if_pos hr, ha]

theorem exists_run {x : Activity σ α} (h : x.Mirrors Later s₁) :
    ∃ a, ∀ u, Later u → ∀ rounds, x.run rounds u = some (a, u) := by
  induction x with
  | done a => exact ⟨a, fun _ _ _ => rfl⟩
  | loop => exact h.elim
  | step ready act next ih =>
    obtain ⟨hact, hnext⟩ := h
    obtain ⟨a, ha⟩ := ih _ hnext
    refine ⟨a, fun u hu rounds => ?_⟩
    obtain ⟨hr, hu'⟩ := hact u hu
    rw [Activity.run, if_pos hr, hu']
    exact ha u hu rounds

end Mirrors

end Activity

namespace Operation

variable {α β : Type} {Later : Engine → Prop} {e₁ : Engine}

theorem call_mirrors {r : Request α} {a : α} {f : α → Operation β} (h₁ : Later e₁)
    (h : ∀ u, Later u → u.store.answer r = (.ok a, u.store))
    (hf : Activity.Mirrors Later e₁ (f a).run) : Activity.Mirrors Later e₁ (call r >>= f).run := by
  have hact (u : Engine) (hu : Later u) : ((u.store.answer r).1.mapError EngineError.store,
      { u with store := (u.store.answer r).2 }) = (Except.ok a, u) := by
    rw [h u hu]
    rfl
  refine Activity.Mirrors.after (fun u hu => ?_) ?_
  · exact (hact u hu).trans (congrArg (·, u) (congrArg Prod.fst (hact e₁ h₁)).symm)
  · show Activity.Mirrors Later e₁ (ExceptT.bindCont f ((e₁.store.answer r).1.mapError _))
    rw [h e₁ h₁]
    exact hf

end Operation

namespace Scene

variable {σ C : Type} {Answer : C → Type} {activity : (c : C) → Activity σ (Answer c)}
  {allowed : C → Prop} {around : σ → σ → Prop} {s s' : Scene σ Answer} {place : Nat} {c : C}
  {x y : Activity σ (Answer c)} {Later : σ → Prop} {s₁ u : σ}

theorem turn_of_step? (ht : s.tasks[place]? = some ⟨c, x⟩) (hx : x.step? s.state = some (y, u)) :
    s.turn place = ⟨u, s.tasks.set place ⟨c, y⟩⟩ := by
  simp only [turn, ht, hx]

theorem getElem?_tasks_turn (ht : s.tasks[place]? = some ⟨c, x⟩)
    (hx : x.step? s.state = some (y, u)) : (s.turn place).tasks[place]? = some ⟨c, y⟩ := by
  rw [turn_of_step? ht hx, List.getElem?_set_self (List.getElem?_eq_some_iff.mp ht).1]

theorem Step.at_place (hs : s.Step activity allowed around s')
    (ht : s.tasks[place]? = some ⟨c, x⟩) : s'.tasks[place]? = some ⟨c, x⟩ ∨
      s' = s.turn place ∧ ∃ y, x.step? s.state = some (y, s'.state) ∧
        s'.tasks[place]? = some ⟨c, y⟩ := by
  cases hs with
  | call _ =>
    refine .inl ?_
    rwa [List.getElem?_append_left (List.getElem?_eq_some_iff.mp ht).1]
  | around _ => exact .inl ht
  | @task u u' before after c' x' y' hx =>
    by_cases hp : place = before.length
    · subst hp
      have he : (⟨c', x'⟩ : Task σ Answer) = ⟨c, x⟩ := by simpa using ht
      cases he
      refine .inr ⟨?_, y', hx, by simp⟩
      rw [turn_of_step? ht hx]
      simp
    · refine .inl ?_
      rw [getElem?_replaced before after ⟨c', x'⟩ ⟨c', y'⟩, if_neg hp]
      exact ht

/-- Calls keep their places, and what is done stays so. -/
theorem Run.at_place (hr : Run activity allowed around s s')
    (ht : s.tasks[place]? = some ⟨c, x⟩) : ∃ y, s'.tasks[place]? = some ⟨c, y⟩ ∧
      (x.answer?.isSome = true → y = x) := by
  induction hr with
  | refl => exact ⟨x, ht, fun _ => rfl⟩
  | tail _ hs ih =>
    obtain ⟨y, hy, hx⟩ := ih
    rcases hs.at_place hy with h | ⟨-, z, hz, h⟩
    · exact ⟨y, h, hx⟩
    · refine ⟨z, h, fun hd => ?_⟩
      rw [hx hd] at hz
      cases x with
      | done => cases hz
      | step => cases hd
      | loop => cases hd

/-- A task that has moved on has done so at some moment. -/
theorem Run.passes (hr : Run activity allowed around s s')
    (ht : s.tasks[place]? = some ⟨c, x⟩) : s'.tasks[place]? = some ⟨c, x⟩ ∨
      ∃ s₁ y, Run activity allowed around s s₁ ∧ s₁.tasks[place]? = some ⟨c, x⟩ ∧
        x.step? s₁.state = some (y, (s₁.turn place).state) ∧
        (s₁.turn place).tasks[place]? = some ⟨c, y⟩ ∧
        Run activity allowed around (s₁.turn place) s' := by
  induction hr with
  | refl => exact .inl ht
  | @tail u v hu hs ih =>
    rcases ih with hx | ⟨s₁, y, h₁, hx, hy, hz, h⟩
    · rcases hs.at_place hx with h | ⟨rfl, y, hy, h⟩
      · exact .inl h
      · exact .inr ⟨u, y, hu, hx, hy, h, .refl⟩
    · exact .inr ⟨s₁, y, h₁, hx, hy, hz, h.tail hs⟩

/-- While what it looks at stays as it was, a reader has still to do what it would have to do alone
at that moment. -/
theorem Run.mirrors (hr : Run activity allowed around s s')
    (ht : s.tasks[place]? = some ⟨c, x⟩) (hx : x.Mirrors Later s₁) (h₁ : Later s₁)
    (hl : ∀ u, Run activity allowed around s u → Later u.state) :
    ∃ y, s'.tasks[place]? = some ⟨c, y⟩ ∧ y.Mirrors Later s₁ ∧
      ∀ rounds, y.run rounds s₁ = x.run rounds s₁ := by
  induction hr with
  | refl => exact ⟨x, ht, hx, fun _ => rfl⟩
  | @tail u v hu hs ih =>
    obtain ⟨y, hy, hm, hrun⟩ := ih
    rcases hs.at_place hy with h | ⟨-, z, hz, h⟩
    · exact ⟨y, h, hm, hrun⟩
    · obtain ⟨-, hm', hrun'⟩ := hm.step? h₁ (hl u hu) hz
      exact ⟨z, h, hm', fun rounds => (hrun' rounds).trans (hrun rounds)⟩

theorem exists_done_of_mirrors (ht : s.tasks[place]? = some ⟨c, x⟩) (hx : x.Mirrors Later s₁)
    (hl : Later s.state) : ∃ n a,
      ((List.replicate n place).foldl turn s).tasks[place]? = some ⟨c, .done a⟩ := by
  refine hx.induction (P := fun x => ∀ ts, ts[place]? = some ⟨c, x⟩ → ∃ n a,
    ((List.replicate n place).foldl turn ⟨s.state, ts⟩).tasks[place]? = some ⟨c, .done a⟩) hl
    (fun a ts ht => ⟨0, a, ht⟩) (fun y z hz ih ts ht => ?_) s.tasks ht
  have hturn := getElem?_tasks_turn (s := ⟨s.state, ts⟩) ht hz
  rw [turn_of_step? (s := ⟨s.state, ts⟩) ht hz] at hturn
  obtain ⟨n, a, h⟩ := ih _ hturn
  refine ⟨n + 1, a, ?_⟩
  rw [List.replicate_succ, List.foldl_cons, turn_of_step? (s := ⟨s.state, ts⟩) ht hz]
  exact h

end Scene

end EventStore
