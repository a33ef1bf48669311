import EventStore.Proofs.Engine.Proceeding

/-!
# Activities that come to an end

An activity halts (`Activity.Halts`) if, whatever its surroundings do before each of its steps, none
of them has to wait and no loop goes round for ever. Then it can be run to its end among
surroundings that change the state step by step, in any pattern (`Halts.exists_run`), and that end
is one of those that `Activity.Ends` speaks of.
-/

namespace EventStore

namespace Activity

variable {σ α β γ : Type} {around : σ → σ → Prop} {s t u : σ} {a : α}

/-- No round is left unfinished, and in the end there is a last one. -/
inductive Spins (halts : β → σ → Prop) (round : β → σ → β ⊕ γ → σ → Prop) : β → σ → Prop
  | intro {b s} (hb : halts b s) (h : ∀ b' u, round b s (.inl b') u → Spins halts round b' u) :
    Spins halts round b s

/-- From `s` the activity comes to an end. -/
def Halts (around : σ → σ → Prop) {α : Type} : Activity σ α → σ → Prop
  | done _, _ => True
  | step ready act next, s =>
    ∀ u, around s u → ready u = true ∧ (next (act u).1).Halts around (act u).2
  | loop body start next, s =>
    Spins (fun b s => (body b).Halts around s) (fun b s r u => (body b).Ends around s r u) start s ∧
      ∀ c u, Goes (fun b s r u => (body b).Ends around s r u) start s c u → (next c).Halts around u

-- ---- a run among others --------------------------------------------------

/-- The activity in surroundings that change the state as `shake` says before each of its steps; the
number of steps so far goes along with the state. -/
def among (shake : Nat → σ → σ) {α : Type} : Activity σ α → Activity (Nat × σ) α
  | done a => done a
  | step ready act next =>
    step (fun (n, s) => ready (shake n s))
      (fun (n, s) => ((act (shake n s)).1, n + 1, (act (shake n s)).2))
      fun b => (next b).among shake
  | loop body start next => loop (fun b => (body b).among shake) start fun c => (next c).among shake

variable {shake : Nat → σ → σ}

theorem goes_of_among {round : β → Nat × σ → β ⊕ γ → Nat × σ → Prop}
    {rel : β → σ → β ⊕ γ → σ → Prop} (hr : ∀ b p r q, round b p r q → rel b p.2 r q.2)
    {b : β} {p q : Nat × σ} {c : γ} (h : Goes round b p c q) : Goes rel b p.2 c q.2 := by
  induction h with
  | last hb => exact .last (hr _ _ _ _ hb)
  | again hb _ ih => exact .again (hr _ _ _ _ hb) ih

theorem ends_of_among (hs : ∀ n s, around s (shake n s)) {x : Activity σ α} {p q : Nat × σ} {a : α}
    (h : (x.among shake).Ends Eq p a q) : x.Ends around p.2 a q.2 := by
  induction x generalizing p q with
  | done b =>
    obtain ⟨rfl, rfl⟩ := h
    exact ⟨rfl, rfl⟩
  | step ready act next ih =>
    obtain ⟨_, rfl, hr, h⟩ := h
    exact ⟨_, hs p.1 p.2, hr, ih _ h⟩
  | loop body start next ihb ihn =>
    obtain ⟨c, u, hg, h⟩ := h
    exact ⟨c, u.2, goes_of_among (fun b _ _ _ => ihb b) hg, ihn c h⟩

theorem ends_of_run_among (hs : ∀ n s, around s (shake n s)) {x : Activity σ α} {most n m : Nat}
    (h : (x.among shake).run most (n, s) = some (a, m, t)) : x.Ends around s a t :=
  ends_of_among hs (ends_of_run (fun _ => rfl) h)

theorem rounds_mono {round round' : β → σ → Option ((β ⊕ γ) × σ)}
    (hr : ∀ b s r, round b s = some r → round' b s = some r) {most more : Nat} (hm : most ≤ more)
    {b : β} {s : σ} {r : γ × σ} (h : rounds round most b s = some r) :
    rounds round' more b s = some r := by
  induction most generalizing more b s with
  | zero => cases h
  | succ most ih =>
    obtain ⟨more, rfl⟩ : ∃ k, more = k + 1 := Nat.exists_eq_succ_of_ne_zero (by omega)
    simp only [rounds] at h ⊢
    split at h
    · next hb =>
      rw [hr _ _ _ hb]
      exact ih (Nat.le_of_succ_le_succ hm) h
    · next hb =>
      rw [hr _ _ _ hb]
      exact h
    · cases h

theorem run_of_bind {x : Activity σ α} {k : α → Activity σ β} {most : Nat}
    {r : Option (β × σ)} (hx : x.run most s = some (a, t)) (hk : (k a).run most t = r) :
    (x >>= k).run most s = r :=
  (run_bind ..).trans (by rw [hx]; exact hk)

theorem step?_of_run {x : Activity σ α} (h : x.run 0 s = some (a, t)) :
    x = done a ∧ t = s ∨ ∃ y u, x.step? s = some (y, u) ∧ y.run 0 u = some (a, t) := by
  cases x with
  | done b =>
    cases h
    exact .inl ⟨rfl, rfl⟩
  | step ready act next =>
    simp only [run] at h
    split at h
    · next hr => exact .inr ⟨_, _, if_pos hr, h⟩
    · cases h
  | loop body start next => cases h

theorem run_mono {most more : Nat} (hm : most ≤ more) {x : Activity σ α} {r : α × σ}
    (h : x.run most s = some r) : x.run more s = some r := by
  induction x generalizing s with
  | done => exact h
  | step ready act next ih =>
    simp only [run] at h ⊢
    split at h
    · next hr => rw [if_pos hr]; exact ih _ h
    · cases h
  | loop body start next ihb ihn =>
    simp only [run] at h ⊢
    split at h
    · next hc =>
      rw [rounds_mono (fun b s r => ihb b) hm hc]
      exact ihn _ h
    · cases h

/-- An activity that halts has an end, whatever happens around it. -/
theorem Halts.exists_run {x : Activity σ α} (h : x.Halts around s)
    (hs : ∀ n s, around s (shake n s)) (n : Nat) :
    ∃ most a m t, (x.among shake).run most (n, s) = some (a, m, t) := by
  induction x generalizing s n with
  | done a => exact ⟨0, a, n, s, rfl⟩
  | step ready act next ih =>
    obtain ⟨hready, hnext⟩ := h _ (hs n s)
    obtain ⟨most, a, m, t, hrun⟩ := ih _ hnext (n + 1)
    exact ⟨most, a, m, t, (if_pos hready).trans hrun⟩
  | @loop α' β' γ' body start next ihb ihn =>
    obtain ⟨hspins, hnext⟩ := h
    -- The rounds come first, by what makes them few enough, then what follows the last of them.
    have hrounds : ∃ most c m t, rounds (fun b p => ((body b).among shake).run most p) most start
        (n, s) = some (c, m, t) := by
      clear hnext
      induction hspins generalizing n with
      | @intro b s hb hround ih =>
        obtain ⟨most, r, m, u, hrun⟩ := ihb b hb n
        cases r with
        | inr c =>
          refine ⟨most + 1, c, m, u, ?_⟩
          rw [rounds, run_mono (Nat.le_succ most) hrun]
        | inl b' =>
          obtain ⟨most', c, m', t, hrest⟩ := ih b' u (ends_of_run_among hs hrun) m
          refine ⟨max most most' + 1, c, m', t, ?_⟩
          rw [rounds, run_mono (Nat.le_succ_of_le (Nat.le_max_left ..)) hrun]
          exact rounds_mono (fun b p r => run_mono (Nat.le_succ_of_le (Nat.le_max_right ..)))
            (Nat.le_max_right ..) hrest
    obtain ⟨most, c, m, u, hrounds⟩ := hrounds
    have hran : Goes (fun b p r q => ((body b).among shake).run most p = some (r, q)) start (n, s)
        c (m, u) := goes_of_rounds (fun _ _ _ _ h => h) hrounds
    have hgoes : Goes (fun b s r u => (body b).Ends around s r u) start s c u :=
      goes_of_among (fun b p r q h => ends_of_run_among hs h) hran
    obtain ⟨most', a, m', t, hrun⟩ := ihn c (hnext c u hgoes) m
    refine ⟨max most most', a, m', t, ?_⟩
    rw [among, run, rounds_mono (fun b p r => run_mono (Nat.le_max_left ..)) (Nat.le_max_left ..)
      hrounds]
    exact run_mono (Nat.le_max_right ..) hrun

-- ---- rules ---------------------------------------------------------------

namespace Halts

variable {x : Activity σ α} {k : α → Activity σ β}

theorem pure' (a : α) : (pure a : Activity σ α).Halts around s := trivial

theorem bind (h : x.Halts around s)
    (hk : ∀ a t, x.Ends around s a t → (k a).Halts around t) : (x >>= k).Halts around s := by
  show (x.bind k).Halts around s
  induction x generalizing s with
  | done a => exact hk a s ⟨rfl, rfl⟩
  | step ready act next ih =>
    intro u hu
    obtain ⟨hready, hnext⟩ := h u hu
    exact ⟨hready, ih _ hnext fun a t ht => hk a t ⟨u, hu, hready, ht⟩⟩
  | loop body start next _ ih =>
    exact ⟨h.1, fun c u hg => ih c (h.2 c u hg) fun a t ht => hk a t ⟨c, u, hg, ht⟩⟩

theorem whenever {ready : σ → Bool} {act : σ → α × σ} (h : ∀ u, around s u → ready u = true) :
    (whenever ready act).Halts around s := fun u hu => ⟨h u hu, trivial⟩

theorem atomically {act : σ → α × σ} : (atomically act).Halts around s := whenever fun _ _ => rfl

theorem goRound {body : β → Activity σ (β ⊕ γ)} {b : β}
    (h : Spins (fun b s => (body b).Halts around s) (fun b s r u => (body b).Ends around s r u)
      b s) : (goRound body b).Halts around s := ⟨h, fun _ _ _ => trivial⟩

theorem of_proceeds (h : x.Proceeds fun _ => True) : x.Halts around s := by
  induction x generalizing s with
  | done a => trivial
  | step ready act next ih => exact fun u _ => ⟨(h.1 u trivial).1, ih _ (h.2 _)⟩
  | loop => exact h.elim

theorem foldlM {f : β → α → Activity σ β} (inv : List α → σ → Prop) {xs : List α} {b : β}
    (h : inv xs s) (hf : ∀ b x xs s, inv (x :: xs) s → (f b x).Halts around s ∧
      ∀ b' t, (f b x).Ends around s b' t → inv xs t) : (xs.foldlM f b).Halts around s := by
  induction xs generalizing b s with
  | nil => exact .pure' b
  | cons x xs ih =>
    rw [List.foldlM_cons]
    obtain ⟨hx, hxs⟩ := hf b x xs s h
    exact hx.bind fun b' t ht => ih (hxs b' t ht)

end Halts

end Activity

-- ---- operations ----------------------------------------------------------

namespace Operation

variable {α β : Type} {e : Engine} {op : Operation α}

/-- The operation comes to an end, while calls to the store fail in any pattern. -/
def Halts (op : Operation α) (e : Engine) : Prop := Activity.Halts Engine.Shaken op.run e

namespace Halts

theorem pure' (a : α) : (pure a : Operation α).Halts e := trivial

theorem throw' (p : EngineError) : (throw p : Operation α).Halts e := trivial

theorem bind {P : α → Engine → Prop} {E : EngineError → Engine → Prop} {k : α → Operation β}
    (h : op.Halts e) (ht : op.Triple e P E) (hk : ∀ a e', P a e' → (k a).Halts e') :
    (op >>= k).Halts e := by
  refine Activity.Halts.bind h fun r e' he => ?_
  cases r with
  | ok a => exact hk a e' (ht _ _ he)
  | error p => exact trivial

theorem lift {x : Activity Engine α} (h : x.Halts Engine.Shaken e) :
    (liftM x : Operation α).Halts e := Activity.Halts.bind h fun _ _ _ => trivial

theorem of_proceeds (h : op.Proceeds fun _ => True) : op.Halts e := Activity.Halts.of_proceeds h

end Halts

end Operation

end EventStore
