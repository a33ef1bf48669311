import EventStore.Proofs.Engine.Keeping
import Mathlib.Data.List.Forall2
import Mathlib.Logic.Relation

/-!
# Parties that share a state

Several parties take turns with one state. What a party may do to it in a step depends on what it
holds, and what it holds the others leave alone: such are the rules of a `Sharing`. An activity
abides by them (`Activity.Abides`) if each of its steps is one that is allowed, whatever the others
have done before. So, if all do, no party is ever disturbed in what it holds, and what the steps
of each preserve holds throughout (`Scene.exists_abides_of_run`).
-/

namespace EventStore

/-- Rules by which parties share a state. -/
structure Sharing (σ κ : Type) where
  /-- What is true of the state at any time. -/
  Sound : σ → Prop
  /-- What is true of the state as long as a party holds `k`. -/
  Holds : σ → κ → Prop
  /-- The steps of a party, with what it holds before and afterwards. -/
  May : σ → κ → σ → κ → Prop
  /-- What the others can do while a party holds `k`. -/
  Others : κ → σ → σ → Prop
  /-- What two parties can hold at a time. -/
  Apart : κ → κ → Prop
  stay (s : σ) (k : κ) : May s k s k
  sound {s s' : σ} {k k' : κ} : May s k s' k' → Sound s → Holds s k → Sound s'
  holds {s s' : σ} {k k' : κ} : May s k s' k' → Sound s → Holds s k → Holds s' k'
  refl (k : κ) (s : σ) : Others k s s
  trans {k : κ} {s s' s'' : σ} : Others k s s' → Others k s' s'' → Others k s s''
  kept {k : κ} {s s' : σ} : Others k s s' → Holds s k → Holds s' k
  symm {j k : κ} : Apart j k → Apart k j
  others {s s' : σ} {j k k' : κ} : May s k s' k' → Sound s → Holds s k → Holds s j → Apart j k →
    Others j s s' ∧ Apart j k'

/-- What a party that holds `k` can find where it left `s`. -/
structure Sharing.Finds (S : Sharing σ κ) (k : κ) (s u : σ) : Prop where
  others : S.Others k s u
  sound : S.Sound u
  holds : S.Holds u k

/-- Parties that keep books may do anything else, and rely on nothing. -/
def Bookkeeping.sharing (B : Bookkeeping σ κ) : Sharing σ κ where
  Sound := B.Always
  Holds _ _ := True
  May := B.Moves
  Others _ _ _ := True
  Apart _ _ := True
  stay := B.refl
  sound hm hs _ := B.always hm hs
  holds _ _ _ := trivial
  refl _ _ := trivial
  trans _ _ := trivial
  kept _ _ := trivial
  symm _ := trivial
  others _ _ _ _ _ := ⟨trivial, trivial⟩

namespace Activity

variable {σ κ α β γ : Type} {S : Sharing σ κ}

/-- From `s` on, by a party that holds `k`, each step is allowed, and in the end `Q` is true of the
answer, the state and what the party holds. -/
def Abides (S : Sharing σ κ) : {α : Type} → Activity σ α → σ → κ → (α → σ → κ → Prop) → Prop
  | _, done a, s, k, Q => Q a s k
  | _, step ready act next, s, k, Q =>
    ∀ u, S.Finds k s u → ready u = true →
      ∃ k', S.May u k (act u).2 k' ∧ (next (act u).1).Abides S (act u).2 k' Q
  | _, loop body start next, s, k, Q =>
    ∃ inv : _ → σ → κ → Prop, inv start s k ∧
      (∀ b s s' k, inv b s k → S.Others k s s' → inv b s' k) ∧
        ∀ b s k, inv b s k → (body b).Abides S s k fun
          | .inl b', s', k' => inv b' s' k'
          | .inr c, s', k' => (next c).Abides S s' k' Q

namespace Abides

variable {k : κ} {s : σ} {Q Q' : α → σ → κ → Prop}

theorem pure' {a : α} (h : Q a s k) : (pure a : Activity σ α).Abides S s k Q := h

theorem mono {x : Activity σ α} (h : x.Abides S s k Q) (hq : ∀ a s k, Q a s k → Q' a s k) :
    x.Abides S s k Q' := by
  induction x generalizing s k with
  | done a => exact hq a s k h
  | step ready act next ih =>
    intro u hu hr
    obtain ⟨k', hk, h⟩ := h u hu hr
    exact ⟨k', hk, ih _ h hq⟩
  | loop body start next ihb ihn =>
    obtain ⟨inv, hi, hs, hb⟩ := h
    refine ⟨inv, hi, hs, fun b s k hbk => ihb b (hb b s k hbk) ?_⟩
    rintro (b' | c) s' k' h
    · exact h
    · exact ihn c h hq

theorem bind {x : Activity σ α} {f : α → Activity σ β} {P : α → σ → κ → Prop}
    {Q : β → σ → κ → Prop} (h : x.Abides S s k P)
    (hf : ∀ a s' k', P a s' k' → (f a).Abides S s' k' Q) : (x >>= f).Abides S s k Q := by
  show (x.bind f).Abides S s k Q
  induction x generalizing s k with
  | done a => exact hf a s k h
  | step ready act next ih =>
    intro u hu hr
    obtain ⟨k', hk, h⟩ := h u hu hr
    exact ⟨k', hk, ih _ h hf⟩
  | loop body start next _ ih =>
    obtain ⟨inv, hi, hs, hb⟩ := h
    refine ⟨inv, hi, hs, fun b s k hbk => (hb b s k hbk).mono ?_⟩
    rintro (b' | c) s' k' h
    · exact h
    · exact ih c h hf

theorem whenever {ready : σ → Bool} {act : σ → α × σ}
    (h : ∀ u, S.Finds k s u → ready u = true →
      ∃ k', S.May u k (act u).2 k' ∧ Q (act u).1 (act u).2 k') :
    (whenever ready act).Abides S s k Q := h

theorem atomically {act : σ → α × σ}
    (h : ∀ u, S.Finds k s u → ∃ k', S.May u k (act u).2 k' ∧ Q (act u).1 (act u).2 k') :
    (atomically act).Abides S s k Q := fun u hu _ => h u hu

theorem observe {f : σ → α} (h : ∀ u, S.Finds k s u → Q (f u) u k) :
    (observe f).Abides S s k Q :=
  atomically fun u hu => ⟨k, S.stay u k, h u hu⟩

/-- What holds with the elements still to come is carried on from each to the next. -/
theorem foldlM {f : β → α → Activity σ β} (inv : List α → β → σ → κ → Prop) {xs : List α} {b : β}
    (hs : inv xs b s k)
    (hf : ∀ x xs b s k, inv (x :: xs) b s k → (f b x).Abides S s k (inv xs)) :
    (xs.foldlM f b).Abides S s k (inv []) := by
  induction xs generalizing b s k with
  | nil => exact pure' hs
  | cons x xs ih =>
    rw [List.foldlM_cons]
    exact bind (hf x xs b s k hs) fun b' s' k' h => ih h

/-- It does not matter what the others have done before. -/
theorem others {x : Activity σ α} (h : x.Abides S s k Q) (ho : S.Others k s s')
    (hq : ∀ a s s' k, Q a s k → S.Others k s s' → Q a s' k) : x.Abides S s' k Q := by
  cases x with
  | done a => exact hq a s s' k h ho
  | step ready act next => exact fun u hu => h u ⟨S.trans ho hu.others, hu.sound, hu.holds⟩
  | loop body start next =>
    obtain ⟨inv, hi, hs, hb⟩ := h
    exact ⟨inv, hs _ _ _ _ hi ho, hs, hb⟩

theorem done {x : Activity σ α} (h : x.Abides S s k Q) {a : α} (ha : x.answer? = some a) :
    Q a s k := by
  cases x with
  | done b =>
    cases ha
    exact h
  | step => cases ha
  | loop => cases ha

/-- What all steps, one's own and those of the others, lead to is true from the first step to the
last. -/
theorem and_leads {R : σ → σ → Prop} {x : Activity σ α} {s₀ : σ} (h : x.Abides S s k Q)
    (hr : R s₀ s) (hown : ∀ {s k s' k'}, S.Sound s → S.Holds s k → S.May s k s' k' → R s₀ s →
      R s₀ s') (hothers : ∀ {s k s'}, S.Others k s s' → R s₀ s → R s₀ s') :
    x.Abides S s k fun a s' k' => R s₀ s' ∧ Q a s' k' := by
  induction x generalizing s k with
  | done a => exact ⟨hr, h⟩
  | step ready act next ih =>
    intro u hu hready
    obtain ⟨k', hk, h⟩ := h u hu hready
    exact ⟨k', hk, ih _ h (hown hu.sound hu.holds hk (hothers hu.others hr))⟩
  | loop body start next ihb ihn =>
    obtain ⟨inv, hi, hst, hb⟩ := h
    refine ⟨fun b s k => R s₀ s ∧ inv b s k, ⟨hr, hi⟩, fun b s s' k hbk ho =>
      ⟨hothers ho hbk.1, hst b s s' k hbk.2 ho⟩, ?_⟩
    rintro b s k ⟨hrs, hbk⟩
    refine (ihb b (hb b s k hbk) hrs).mono ?_
    rintro (b' | c) s' k' ⟨hr', h⟩
    · exact ⟨hr', h⟩
    · exact ihn c h hr'

theorem and_keeps {ι : Type} {B : Bookkeeping σ ι} {x : Activity σ α} {i : ι}
    {R : α → ι → Prop} (h : x.Abides S s k Q) (hb : x.Keeps B i R)
    (ha : ∀ s, S.Sound s → B.Always s) :
    x.Abides S s k fun r s' k' => Q r s' k' ∧ ∃ i', R r i' := by
  induction x generalizing s k i with
  | done a =>
    obtain ⟨i', -, hr⟩ := hb
    exact ⟨h, i', hr⟩
  | step ready act next ih =>
    intro u hu hr
    obtain ⟨k', hk, h⟩ := h u hu hr
    obtain ⟨i', -, hb⟩ := hb u (ha u hu.sound) hr
    exact ⟨k', hk, ih _ h hb⟩
  | loop body start next ihb ihn =>
    obtain ⟨inv, hi, hst, h⟩ := h
    obtain ⟨inv', i₀, -, hi', hb⟩ := hb
    refine ⟨fun b s k => inv b s k ∧ ∃ i, inv' b i, ⟨hi, i₀, hi'⟩, fun b s s' k hbk ho =>
      ⟨hst b s s' k hbk.1 ho, hbk.2⟩, ?_⟩
    rintro b s k ⟨hbk, i, hbi⟩
    refine (ihb b (h b s k hbk) (hb b i hbi)).mono ?_
    rintro (b' | c) s' k' ⟨h, i', hi'⟩
    · exact ⟨h, i', hi'⟩
    · exact ihn c h hi'

theorem of_keeps {B : Bookkeeping σ κ} {x : Activity σ α} {R : α → κ → Prop} (h : x.Keeps B k R) :
    x.Abides B.sharing s k fun r _ k' => ∃ k'', (∀ s, B.Moves s k' s k'') ∧ R r k'' := by
  induction x generalizing s k with
  | done a => exact h
  | step ready act next ih =>
    intro u hu hr
    obtain ⟨k', hk, h⟩ := h u hu.sound hr
    exact ⟨k', hk, ih _ h⟩
  | loop body start next ihb ihn =>
    obtain ⟨inv, k₀, hk, hi, hb⟩ := h
    refine ⟨fun b _ k => ∃ k', (∀ s, B.Moves s k s k') ∧ inv b k', ⟨k₀, hk, hi⟩,
      fun _ _ _ _ h _ => h, ?_⟩
    rintro b s k ⟨k₁, hk, hbk⟩
    refine (ihb b ((hb b k₁ hbk).settled hk)).mono ?_
    rintro (b' | c) s' k' ⟨k'', hk, h⟩
    · exact ⟨k'', hk, h⟩
    · exact ihn c (h.settled hk)

theorem goRound {body : β → Activity σ (β ⊕ γ)} {start : β} {Q : γ → κ → Prop}
    (inv : β → κ → Prop) (hs : inv start k)
    (hb : ∀ b s k, inv b k → (body b).Abides S s k fun
      | .inl b', _, k' => inv b' k'
      | .inr c, _, k' => Q c k') : (goRound body start).Abides S s k fun c _ => Q c := by
  refine ⟨fun b _ => inv b, hs, fun _ _ _ _ h _ => h, fun b s k hbk => (hb b s k hbk).mono ?_⟩
  rintro (b' | c) s' k' h <;> exact h

/-- What abides by the rules for a part of what a party holds abides by those for the whole. -/
theorem within {κ' : Type} {T : Sharing σ κ'} {g : κ → κ'} {x : Activity σ α}
    (h : x.Abides S s k Q) (ho : ∀ {k s s'}, T.Others (g k) s s' → S.Others k s s')
    (hs : ∀ {s}, T.Sound s → S.Sound s) (hk : ∀ {s k}, T.Holds s (g k) → S.Holds s k)
    (hm : ∀ {s k s' k'}, S.May s k s' k' → T.May s (g k) s' (g k')) :
    x.Abides T s (g k) fun a s' j => ∃ k', j = g k' ∧ Q a s' k' := by
  induction x generalizing s k with
  | done a => exact ⟨k, rfl, h⟩
  | step ready act next ih =>
    intro u hu hr
    obtain ⟨k', hk', h⟩ := h u ⟨ho hu.others, hs hu.sound, hk hu.holds⟩ hr
    exact ⟨g k', hm hk', ih _ h⟩
  | loop body start next ihb ihn =>
    obtain ⟨inv, hi, hst, hb⟩ := h
    refine ⟨fun b s j => ∃ k, j = g k ∧ inv b s k, ⟨k, rfl, hi⟩, ?_, ?_⟩
    · rintro b s s' _ ⟨k, rfl, hbk⟩ h
      exact ⟨k, rfl, hst b s s' k hbk (ho h)⟩
    · rintro b s _ ⟨k, rfl, hbk⟩
      refine (ihb b (hb b s k hbk)).mono ?_
      rintro (b' | c) s' _ ⟨k', rfl, h⟩
      · exact ⟨k', rfl, h⟩
      · exact ihn c h

theorem step? {x y : Activity σ α} (h : x.Abides S s k Q) (hs : S.Sound s) (hk : S.Holds s k)
    (hx : x.step? s = some (y, s')) : ∃ k', S.May s k s' k' ∧ y.Abides S s' k' Q := by
  cases x with
  | done a => cases hx
  | step ready act next =>
    simp only [Activity.step?] at hx
    split at hx
    · next hr =>
      cases hx
      exact h s ⟨S.refl k s, hs, hk⟩ hr
    · cases hx
  | loop body start next =>
    cases hx
    obtain ⟨inv, hi, hst, hb⟩ := h
    refine ⟨k, S.stay s k, bind (hb start s k hi) ?_⟩
    rintro (b' | c) s' k' h
    · exact ⟨inv, h, hst, hb⟩
    · exact h

end Abides

end Activity

-- ---- operations ----------------------------------------------------------

namespace Operation

variable {κ α β : Type} {S : Sharing Engine κ}

/-- Each step of the operation is allowed. If it succeeds `Q` is true in the end, and `E` if it
fails. -/
def Abides (S : Sharing Engine κ) (op : Operation α) (e : Engine) (k : κ)
    (Q : α → Engine → κ → Prop) (E : EngineError → Engine → κ → Prop) : Prop :=
  Activity.Abides S op.run e k fun
    | .ok a => Q a
    | .error p => E p

namespace Abides

variable {e : Engine} {k : κ} {op : Operation α} {Q Q' : α → Engine → κ → Prop}
  {E E' : EngineError → Engine → κ → Prop}

theorem pure' {a : α} (h : Q a e k) : (pure a : Operation α).Abides S e k Q E := h

theorem throw' {p : EngineError} (h : E p e k) : (throw p : Operation α).Abides S e k Q E := h

theorem result {r : Except EngineError α} (h : ∀ a, r = .ok a → Q a e k)
    (he : ∀ p, r = .error p → E p e k) : (liftM r : Operation α).Abides S e k Q E := by
  cases r with
  | ok a => exact h a rfl
  | error p => exact he p rfl

theorem mono (h : op.Abides S e k Q E) (hq : ∀ a e k, Q a e k → Q' a e k)
    (he : ∀ p e k, E p e k → E' p e k) : op.Abides S e k Q' E' := by
  refine Activity.Abides.mono h ?_
  rintro (p | a)
  · exact he p
  · exact hq a

theorem bind {f : α → Operation β} {P : α → Engine → κ → Prop} {Q : β → Engine → κ → Prop}
    (h : op.Abides S e k P E) (hf : ∀ a e' k', P a e' k' → (f a).Abides S e' k' Q E) :
    (op >>= f).Abides S e k Q E := by
  refine Activity.Abides.bind h ?_
  rintro (p | a) e' k' h
  · exact h
  · exact hf a e' k' h

theorem lift {x : Activity Engine α} (h : x.Abides S e k Q) :
    (liftM x : Operation α).Abides S e k Q E :=
  Activity.Abides.bind h fun _ _ _ h => h

theorem settle {f : Except EngineError α → Operation β} {P : α → Engine → κ → Prop}
    {F : EngineError → Engine → κ → Prop} {Q : β → Engine → κ → Prop} (h : op.Abides S e k P F)
    (hok : ∀ a e' k', P a e' k' → (f (.ok a)).Abides S e' k' Q E)
    (herr : ∀ p e' k', F p e' k' → (f (.error p)).Abides S e' k' Q E) :
    (outcome op >>= f).Abides S e k Q E := by
  refine bind (P := fun
    | .ok a => P a
    | .error p => F p) (lift (x := op.run) ?_) ?_
  · exact Activity.Abides.mono h fun r _ _ hr => by cases r <;> exact hr
  rintro (p | a) e' k' h
  · exact herr p e' k' h
  · exact hok a e' k' h

/-- An operation between two activities, of which the second comes whether it fails or not. -/
theorem between {before after : Activity Engine Unit}
    (h : before.Abides S e k fun _ e₁ k₁ => op.Abides S e₁ k₁
      (fun a e₂ k₂ => after.Abides S e₂ k₂ fun _ => Q a)
      (fun p e₂ k₂ => after.Abides S e₂ k₂ fun _ => E p)) : Operation.Abides S (ExceptT.mk do
    before
    let r ← op.run
    after
    return r) e k Q E := by
  refine Activity.Abides.bind h fun _ _ _ h => Activity.Abides.bind h ?_
  rintro (p | a) e₂ k₂ h
  · exact Activity.Abides.bind h fun _ _ _ h => h
  · exact Activity.Abides.bind h fun _ _ _ h => h

theorem attempt {act : Engine → Except EngineError α × Engine}
    (h : ∀ u, S.Finds k e u → ∃ k', S.May u k (act u).2 k' ∧ match (act u).1 with
      | .ok a => Q a (act u).2 k'
      | .error p => E p (act u).2 k') : (attempt act).Abides S e k Q E := by
  refine Activity.Abides.atomically fun u hu => ?_
  obtain ⟨k', hk, h⟩ := h u hu
  refine ⟨k', hk, ?_⟩
  split at h <;> simp_all

end Abides

end Operation

-- ---- several parties -----------------------------------------------------

theorem exists_of_forall₂ {R : α → β → Prop} {before after : List α} {x : α} {ys : List β}
    (h : List.Forall₂ R (before ++ x :: after) ys) :
    ∃ before' y after', ys = before' ++ y :: after' ∧ List.Forall₂ R before before' ∧ R x y ∧
      List.Forall₂ R after after' := by
  induction before generalizing ys with
  | nil =>
    obtain ⟨y, after', hy, ha, rfl⟩ := List.forall₂_cons_left_iff.mp h
    exact ⟨[], y, after', rfl, .nil, hy, ha⟩
  | cons z before ih =>
    obtain ⟨z', ys, hz, hys, rfl⟩ := List.forall₂_cons_left_iff.mp h
    obtain ⟨before', y, after', rfl, hb, hy, ha⟩ := ih hys
    exact ⟨z' :: before', y, after', rfl, .cons hz hb, hy, ha⟩

theorem exists_mem_of_forall₂ {R : α → β → Prop} {xs : List α} {ys : List β} {y : β}
    (h : List.Forall₂ R xs ys) (hy : y ∈ ys) : ∃ x ∈ xs, R x y := by
  induction h with
  | nil => cases hy
  | cons hxy _ ih =>
    rcases List.mem_cons.mp hy with rfl | hy
    · exact ⟨_, List.mem_cons_self, hxy⟩
    · obtain ⟨x, hx, hr⟩ := ih hy
      exact ⟨x, List.mem_cons_of_mem _ hx, hr⟩

theorem forall₂_append_cons_iff {R : α → β → Prop} {before after : List α} {x : α}
    {before' after' : List β} {y : β} (h : before'.length = before.length) :
    List.Forall₂ R (before ++ x :: after) (before' ++ y :: after') ↔
      List.Forall₂ R before before' ∧ R x y ∧ List.Forall₂ R after after' := by
  induction before generalizing before' with
  | nil =>
    obtain rfl := List.length_eq_zero_iff.mp h
    simp
  | cons z before ih =>
    obtain ⟨z', before', rfl⟩ := List.exists_cons_of_length_eq_add_one h
    simp [ih (Nat.succ.inj h), and_assoc]

theorem getElem?_replaced (before after : List α) (x y : α) (j : Nat) :
    (before ++ y :: after)[j]? =
      if j = before.length then some y else (before ++ x :: after)[j]? := by
  split
  · next h => simp [h]
  · next h =>
    have hset := List.getElem?_set_ne (Ne.symm h) (l := before ++ x :: after) (a := y)
    simpa using hset

/-- A call with what it has still to do. -/
structure Task (σ : Type) {C : Type} (Answer : C → Type) where
  call : C
  rest : Activity σ (Answer call)

/-- The task holds `k`, goes on by the rules and comes to `Q`. -/
def Task.Abides {σ κ C : Type} {Answer : C → Type} (S : Sharing σ κ)
    (Q : (c : C) → Answer c → κ → Prop) (s : σ) (t : Task σ Answer) (k : κ) : Prop :=
  S.Holds s k ∧ t.rest.Abides S s k fun a _ => Q t.call a

/-- A state and the calls so far of those who share it. -/
structure Scene (σ : Type) {C : Type} (Answer : C → Type) where
  state : σ
  tasks : List (Task σ Answer)

namespace Scene

variable {σ κ C : Type} {Answer : C → Type} {activity : (c : C) → Activity σ (Answer c)}
  {allowed : C → Prop} {around : σ → σ → Prop}

/-- Another call is made that is allowed, one of the calls takes a step, or the surroundings
interfere. -/
inductive Step (activity : (c : C) → Activity σ (Answer c)) (allowed : C → Prop)
    (around : σ → σ → Prop) : Scene σ Answer → Scene σ Answer → Prop
  | call {s : σ} {ts : List (Task σ Answer)} {c : C} (h : allowed c) :
    Step activity allowed around ⟨s, ts⟩ ⟨s, ts ++ [⟨c, activity c⟩]⟩
  | task {s s' : σ} {before after : List (Task σ Answer)} {c : C} {x y : Activity σ (Answer c)}
    (h : x.step? s = some (y, s')) :
    Step activity allowed around ⟨s, before ++ ⟨c, x⟩ :: after⟩ ⟨s', before ++ ⟨c, y⟩ :: after⟩
  | around {s s' : σ} {ts : List (Task σ Answer)} (h : around s s') :
    Step activity allowed around ⟨s, ts⟩ ⟨s', ts⟩

/-- What comes of a scene. -/
abbrev Run (activity : (c : C) → Activity σ (Answer c)) (allowed : C → Prop)
    (around : σ → σ → Prop) : Scene σ Answer → Scene σ Answer → Prop :=
  Relation.ReflTransGen (Step activity allowed around)

def isQuiet (s : Scene σ Answer) : Bool := s.tasks.all (·.rest.answer?.isSome)

/-- The tasks abide by the rules, and no two of them are in each other's way. -/
structure Abides (S : Sharing σ κ) (Q : (c : C) → Answer c → κ → Prop) (s : Scene σ Answer)
    (ks : List κ) : Prop where
  sound : S.Sound s.state
  tasks : List.Forall₂ (Task.Abides S Q s.state) s.tasks ks
  apart : ks.Pairwise S.Apart

/-- Calls that abide by the rules when they begin, holding `first`, in surroundings that respect
what is held. -/
structure Orderly (S : Sharing σ κ) (activity : (c : C) → Activity σ (Answer c))
    (allowed : C → Prop) (around : σ → σ → Prop) (first : κ) (Q : (c : C) → Answer c → κ → Prop) :
    Prop where
  call {c s} : allowed c → (activity c).Abides S s first fun a _ => Q c a
  holds {s} : S.Holds s first
  apart {k} : S.Apart k first
  sound {s s'} : around s s' → S.Sound s → S.Sound s'
  others {s s' k} : around s s' → S.Others k s s'

/-- What beginning calls, their steps and the surroundings keep true of the state and of what the
calls hold. -/
structure Preserves (S : Sharing σ κ) (around : σ → σ → Prop) (first : κ)
    (I : σ → List κ → Prop) : Prop where
  call {s ks} : I s ks → I s (ks ++ [first])
  task {s k s' k' before after} : S.Sound s → S.Holds s k → S.May s k s' k' →
    I s (before ++ k :: after) → I s' (before ++ k' :: after)
  around {s s' ks} : around s s' → I s ks → I s' ks

/-- Calls that abide by the rules when they begin, holding what they begin with, in surroundings
that respect what is held. What a call holds goes with it, as `T` says, as long as it goes on. -/
structure Matched (S : Sharing σ κ) (activity : (c : C) → Activity σ (Answer c))
    (allowed : C → Prop) (around : σ → σ → Prop) (begun : C → κ) (T : C → κ → Prop)
    (Q : (c : C) → Answer c → κ → Prop) : Prop where
  call {c s} : allowed c → (activity c).Abides S s (begun c) fun a _ => Q c a
  holds {c s} : S.Holds s (begun c)
  apart {c k} : S.Apart k (begun c)
  begins {c} : T c (begun c)
  remains {c s k s' k'} : S.May s k s' k' → T c k → T c k'
  sound {s s'} : around s s' → S.Sound s → S.Sound s'
  others {s s' k} : around s s' → S.Others k s s'

/-- What beginning calls, their steps and the surroundings keep true of the state and of what the
calls hold. -/
structure Upholds (S : Sharing σ κ) (allowed : C → Prop) (around : σ → σ → Prop) (begun : C → κ)
    (I : σ → List κ → Prop) : Prop where
  call {c s ks} : allowed c → I s ks → I s (ks ++ [begun c])
  task {s k s' k' before after} : S.Sound s → S.Holds s k → S.May s k s' k' →
    I s (before ++ k :: after) → I s' (before ++ k' :: after)
  around {s s' ks} : around s s' → I s ks → I s' ks

variable {S : Sharing σ κ} {Q : (c : C) → Answer c → κ → Prop} {first : κ} {begun : C → κ}
  {T : C → κ → Prop} {I : σ → List κ → Prop} {s s' : Scene σ Answer} {ks : List κ}

theorem Orderly.matched (h : Orderly S activity allowed around first Q) :
    Matched S activity allowed around (fun _ => first) (fun _ _ => True) Q :=
  ⟨h.call, h.holds, h.apart, trivial, fun _ _ => trivial, h.sound, h.others⟩

theorem Preserves.upholds (h : Preserves S around first I) :
    Upholds S allowed around (fun _ => first) I :=
  ⟨fun _ => h.call, h.task, h.around⟩

theorem Upholds.and {J : σ → List κ → Prop} (h : Upholds S allowed around begun I)
    (h' : Upholds S allowed around begun J) :
    Upholds S allowed around begun fun s ks => I s ks ∧ J s ks where
  call hc hi := ⟨h.call hc hi.1, h'.call hc hi.2⟩
  task hs hk hm hi := ⟨h.task hs hk hm hi.1, h'.task hs hk hm hi.2⟩
  around hs hi := ⟨h.around hs hi.1, h'.around hs hi.2⟩

/-- What one party does leaves those alone from which it is apart. -/
theorem undisturbed {s s' : σ} {k k' : κ} {ts : List (Task σ Answer)} (hm : S.May s k s' k')
    (hs : S.Sound s) (hk : S.Holds s k) (h : List.Forall₂ (Task.Abides S Q s) ts js)
    (ha : ∀ j ∈ js, S.Apart j k) :
    List.Forall₂ (Task.Abides S Q s') ts js ∧ ∀ j ∈ js, S.Apart j k' := by
  induction h with
  | nil => exact ⟨.nil, nofun⟩
  | @cons t j ts js hj _ ih =>
    obtain ⟨hts, hjs⟩ := ih fun i hi => ha i (List.mem_cons_of_mem _ hi)
    obtain ⟨ho, hjk⟩ := S.others hm hs hk hj.1 (ha j List.mem_cons_self)
    exact ⟨.cons ⟨S.kept ho hj.1, hj.2.others ho fun _ _ _ _ h _ => h⟩ hts,
      List.forall_mem_cons.mpr ⟨hjk, hjs⟩⟩

theorem Abides.holds {k : κ} (h : s.Abides S Q ks) (hk : k ∈ ks) : S.Holds s.state k :=
  have ⟨_, _, ht⟩ := exists_mem_of_forall₂ h.tasks hk
  ht.1

/-- When all are done, each has come to what it was to come to. -/
theorem Abides.settled (h : s.Abides S Q ks) (hq : s.isQuiet = true) :
    s.tasks.Forall₂ (fun t k => ∃ a, t.rest.answer? = some a ∧ Q t.call a k) ks := by
  obtain ⟨state, ts⟩ := s
  replace hq : ∀ t ∈ ts, t.rest.answer?.isSome = true := List.all_eq_true.mp hq
  have htasks : ts.Forall₂ (Task.Abides S Q state) ks := h.tasks
  clear h
  induction htasks with
  | nil => exact .nil
  | @cons t k ts ks hk _ ih =>
    obtain ⟨a, ha⟩ := Option.isSome_iff_exists.mp (hq t List.mem_cons_self)
    exact .cons ⟨a, ha, hk.2.done ha⟩ (ih fun t ht => hq t (List.mem_cons_of_mem _ ht))

theorem Abides.answered {s : σ} {before after : List (Task σ Answer)} {t : Task σ Answer}
    {before' after' : List κ} {k : κ} {a : Answer t.call}
    (h : Abides S Q ⟨s, before ++ t :: after⟩ (before' ++ k :: after'))
    (hl : before'.length = before.length) (ht : t.rest.answer? = some a) : Q t.call a k :=
  ((forall₂_append_cons_iff hl).mp h.tasks).2.1.2.done ht

theorem Abides.begins {s : σ} {ts : List (Task σ Answer)} {c : C} {k : κ}
    (h : Abides S Q ⟨s, ts⟩ ks) (hk : S.Holds s k) (ha : ∀ j ∈ ks, S.Apart j k)
    (hc : (activity c).Abides S s k fun a _ => Q c a) :
    Abides S Q ⟨s, ts ++ [⟨c, activity c⟩]⟩ (ks ++ [k]) := by
  refine ⟨h.sound, List.rel_append h.tasks (.cons ⟨hk, hc⟩ .nil), ?_⟩
  refine List.pairwise_append.mpr ⟨h.apart, List.pairwise_singleton .., fun j hj i hi => ?_⟩
  rw [List.mem_singleton.mp hi]
  exact ha j hj

/-- One of the calls takes a step, which is allowed. -/
theorem Abides.goes {s s' : σ} {before after : List (Task σ Answer)} {c : C}
    {x y : Activity σ (Answer c)} (h : Abides S Q ⟨s, before ++ ⟨c, x⟩ :: after⟩ ks)
    (hx : x.step? s = some (y, s')) : ∃ before' k after' k', ks = before' ++ k :: after' ∧
      before'.length = before.length ∧ S.Holds s k ∧ S.May s k s' k' ∧
      Abides S Q ⟨s', before ++ ⟨c, y⟩ :: after⟩ (before' ++ k' :: after') := by
  obtain ⟨hsound, htasks, hapart⟩ := h
  obtain ⟨before', k, after', rfl, hb, ⟨hk, hxk⟩, ha⟩ := exists_of_forall₂ htasks
  obtain ⟨k', hm, hy⟩ := hxk.step? hsound hk hx
  obtain ⟨hpb, hpa, hpba⟩ := List.pairwise_append.mp hapart
  obtain ⟨hpk, hpa⟩ := List.pairwise_cons.mp hpa
  have hl := hb.length_eq.symm
  obtain ⟨hb, hbk⟩ := undisturbed hm hsound hk hb fun j hj => hpba j hj k List.mem_cons_self
  obtain ⟨ha, hak⟩ := undisturbed hm hsound hk ha fun j hj => S.symm (hpk j hj)
  refine ⟨before', k, after', k', rfl, hl, hk, hm, S.sound hm hsound hk,
    List.rel_append hb (.cons ⟨S.holds hm hsound hk, hy⟩ ha), ?_⟩
  refine List.pairwise_append.mpr ⟨hpb, List.pairwise_cons.mpr ⟨fun j hj => S.symm (hak j hj),
    hpa⟩, fun i hi j hj => ?_⟩
  rcases List.mem_cons.mp hj with rfl | hj
  · exact hbk i hi
  · exact hpba i hi j (List.mem_cons_of_mem _ hj)

theorem Abides.shaken {s s' : σ} {ts : List (Task σ Answer)} (h : Abides S Q ⟨s, ts⟩ ks)
    (hs : S.Sound s') (ho : ∀ k, S.Others k s s') : Abides S Q ⟨s', ts⟩ ks := by
  refine ⟨hs, h.tasks.imp ?_, h.apart⟩
  rintro t k ⟨hk, ht⟩
  exact ⟨S.kept (ho k) hk, ht.others (ho k) fun _ _ _ _ h _ => h⟩

/-- A call that is done can hold something else. -/
theorem Abides.lets {s : σ} {before after : List (Task σ Answer)} {t : Task σ Answer}
    {before' after' : List κ} {k k' : κ} {a : Answer t.call}
    (h : Abides S Q ⟨s, before ++ t :: after⟩ (before' ++ k :: after'))
    (hl : before'.length = before.length) (ht : t.rest.answer? = some a) (hk : S.Holds s k')
    (ha : ∀ j, S.Apart j k') (hq : Q t.call a k → Q t.call a k') :
    Abides S Q ⟨s, before ++ t :: after⟩ (before' ++ k' :: after') := by
  obtain ⟨hsound, htasks, hapart⟩ := h
  obtain ⟨hb, ⟨-, htk⟩, hrest⟩ := (forall₂_append_cons_iff hl).mp htasks
  obtain ⟨hpb, hpa, hpba⟩ := List.pairwise_append.mp hapart
  refine ⟨hsound, (forall₂_append_cons_iff hl).mpr ⟨hb, ⟨hk, ?_⟩, hrest⟩, ?_⟩
  · cases hr : t.rest with
    | done b =>
      rw [hr] at ht htk
      cases ht
      exact hq htk
    | _ =>
      rw [hr] at ht
      cases ht
  · refine List.pairwise_append.mpr ⟨hpb, List.pairwise_cons.mpr ⟨fun j _ => S.symm (ha j),
      (List.pairwise_cons.mp hpa).2⟩, fun i hi j hj => ?_⟩
    rcases List.mem_cons.mp hj with rfl | hj
    · exact ha i
    · exact hpba i hi j (List.mem_cons_of_mem _ hj)

theorem Abides.step (ho : Matched S activity allowed around begun T Q)
    (hI : Upholds S allowed around begun I) (hs : s.Step activity allowed around s')
    (h : s.Abides S Q ks) (ht : s.tasks.Forall₂ (fun t => T t.call) ks) (hi : I s.state ks) :
    ∃ ks', s'.Abides S Q ks' ∧ s'.tasks.Forall₂ (fun t => T t.call) ks' ∧ I s'.state ks' := by
  cases hs with
  | call hc =>
    exact ⟨_, h.begins ho.holds (fun _ _ => ho.apart) (ho.call hc),
      List.rel_append ht (.cons ho.begins .nil), hI.call hc hi⟩
  | task hx =>
    have hsound := h.sound
    obtain ⟨before', k, after', k', rfl, hl, hk, hm, h⟩ := h.goes hx
    obtain ⟨hb, htk, ha⟩ := (forall₂_append_cons_iff hl).mp ht
    exact ⟨_, h, (forall₂_append_cons_iff hl).mpr ⟨hb, ho.remains hm htk, ha⟩,
      hI.task hsound hk hm hi⟩
  | around hs =>
    exact ⟨ks, h.shaken (ho.sound hs h.sound) fun _ => ho.others hs, ht, hI.around hs hi⟩

/-- Calls that abide by the rules are not disturbed in a run, however their steps alternate, and
what their steps preserve is true at its end. -/
theorem exists_matched_of_run (ho : Matched S activity allowed around begun T Q)
    (hI : Upholds S allowed around begun I) (hr : Run activity allowed around s s')
    (h : s.Abides S Q ks) (ht : s.tasks.Forall₂ (fun t => T t.call) ks) (hi : I s.state ks) :
    ∃ ks', s'.Abides S Q ks' ∧ s'.tasks.Forall₂ (fun t => T t.call) ks' ∧ I s'.state ks' := by
  induction hr with
  | refl => exact ⟨ks, h, ht, hi⟩
  | tail _ hs ih =>
    obtain ⟨ks', h', ht', hi'⟩ := ih
    exact h'.step ho hI hs ht' hi'

theorem exists_abides_of_run (ho : Orderly S activity allowed around first Q)
    (hI : Preserves S around first I) (hr : Run activity allowed around s s')
    (h : s.Abides S Q ks) (hi : I s.state ks) : ∃ ks', s'.Abides S Q ks' ∧ I s'.state ks' := by
  have ht : s.tasks.Forall₂ (fun _ _ => True) ks := h.tasks.imp fun _ _ _ => trivial
  obtain ⟨ks', h', -, hi'⟩ := exists_matched_of_run (T := fun _ _ => True) ho.matched hI.upholds
    hr h ht hi
  exact ⟨ks', h', hi'⟩

/-- So each call that is done has come to what it was to come to. -/
theorem settled_of_run {t : Task σ Answer} {a : Answer t.call}
    (ho : Orderly S activity allowed around first Q) {s₀ : σ} (hs : S.Sound s₀)
    (hr : Run activity allowed around ⟨s₀, []⟩ s) (ht : t ∈ s.tasks)
    (ha : t.rest.answer? = some a) : ∃ k, Q t.call a k := by
  obtain ⟨ks, ⟨-, htasks, -⟩, -⟩ := exists_abides_of_run ho (I := fun _ _ => True)
    ⟨fun _ => trivial, fun _ _ _ _ => trivial, fun _ _ => trivial⟩ hr ⟨hs, .nil, .nil⟩ trivial
  obtain ⟨before, after, hts⟩ := List.append_of_mem ht
  rw [hts] at htasks
  obtain ⟨-, k, -, -, -, hk, -⟩ := exists_of_forall₂ htasks
  exact ⟨k, hk.2.done ha⟩

/-- Calls stay in the list, so what is true of all in the end was true of each that was made. -/
theorem Run.restrict {P : C → Prop} {s₀ : Scene σ Answer} (hr : Run activity allowed around s₀ s)
    (h : ∀ t ∈ s.tasks, P t.call) : Run activity P around s₀ s := by
  induction hr with
  | refl => exact .refl
  | tail _ hs ih =>
    cases hs with
    | @call s ts c hc =>
      have hP := h ⟨c, activity c⟩ (List.mem_append_right _ List.mem_cons_self)
      exact (ih fun t ht => h t (List.mem_append_left _ ht)).tail (.call hP)
    | @task s s' before after c x y hx =>
      refine (ih fun t ht => ?_).tail (.task hx)
      rcases List.mem_append.mp ht with ht | ht
      · exact h t (List.mem_append_left _ ht)
      rcases List.mem_cons.mp ht with rfl | ht
      · exact h ⟨c, y⟩ (by simp)
      · exact h t (List.mem_append_right _ (List.mem_cons_of_mem _ ht))
    | around ha => exact (ih h).tail (.around ha)

/-- What is true of each call when it begins, and stays true as it goes on, is true of all. -/
theorem Run.tasks {P : Task σ Answer → Prop} (hr : Run activity allowed around s s')
    (h : ∀ t ∈ s.tasks, P t) (hcall : ∀ c, allowed c → P ⟨c, activity c⟩)
    (hstep : ∀ {c : C} {x y : Activity σ (Answer c)} {u u' : σ}, P ⟨c, x⟩ →
      x.step? u = some (y, u') → P ⟨c, y⟩) : ∀ t ∈ s'.tasks, P t := by
  induction hr with
  | refl => exact h
  | tail _ hs ih =>
    cases hs with
    | @call s ts c hc =>
      intro t ht
      rcases List.mem_append.mp ht with ht | ht
      · exact ih t ht
      · exact List.mem_singleton.mp ht ▸ hcall c hc
    | @task s s' before after c x y hx =>
      obtain ⟨hb, hx', ha⟩ := List.forall_mem_append.mp ih |>.imp_right List.forall_mem_cons.mp
      exact List.forall_mem_append.mpr ⟨hb, List.forall_mem_cons.mpr ⟨hstep hx' hx, ha⟩⟩
    | around ha => exact ih

theorem mem_of_done {u u' : σ} {before after : List (Task σ Answer)} {c : C}
    {x y : Activity σ (Answer c)} {t : Task σ Answer} (hx : x.step? u = some (y, u'))
    (ht : t ∈ before ++ ⟨c, x⟩ :: after) (hd : t.rest.answer?.isSome = true) :
    t ∈ before ++ ⟨c, y⟩ :: after := by
  have hne : t ≠ ⟨c, x⟩ := by
    rintro rfl
    cases x with
    | done a => cases hx
    | step => cases hd
    | loop => cases hd
  rcases List.mem_append.mp ht with ht | ht
  · exact List.mem_append_left _ ht
  · exact List.mem_append_right _ (List.mem_cons_of_mem _ ((List.mem_cons.mp ht).resolve_left hne))

-- ---- one run -------------------------------------------------------------

/-- The task in the given place takes a step, if it can. -/
def turn (s : Scene σ Answer) (place : Nat) : Scene σ Answer :=
  match s.tasks[place]? with
  | none => s
  | some t =>
    match t.rest.step? s.state with
    | none => s
    | some (x, state) => ⟨state, s.tasks.set place ⟨t.call, x⟩⟩

theorem calls_turn (s : Scene σ Answer) (place : Nat) :
    (s.turn place).tasks.map Task.call = s.tasks.map Task.call := by
  unfold turn
  split
  · rfl
  · next t ht =>
    split
    · rfl
    · obtain ⟨hp, rfl⟩ := List.getElem?_eq_some_iff.mp ht
      rw [List.map_set, ← List.getElem_map Task.call (h := by simpa using hp)]
      exact List.set_getElem_self _

theorem run_turn (s : Scene σ Answer) (place : Nat) :
    Run activity allowed around s (s.turn place) := by
  obtain ⟨state, ts⟩ := s
  unfold turn
  split
  · exact .refl
  · next t ht =>
    split
    · exact .refl
    · next x state' hx =>
      obtain ⟨hp, rfl⟩ := List.getElem?_eq_some_iff.mp ht
      have hts : ts = ts.take place ++ ts[place] :: ts.drop (place + 1) := by simp
      have hset : ts.set place ⟨ts[place].call, x⟩ =
          ts.take place ++ ⟨ts[place].call, x⟩ :: ts.drop (place + 1) :=
        List.set_eq_take_append_cons_drop.trans (if_pos hp)
      rw [hset]
      conv => arg 4; rw [hts]
      exact .single (.task hx)

theorem run_places (s : Scene σ Answer) (places : List Nat) :
    Run activity allowed around s (places.foldl turn s) := by
  induction places generalizing s with
  | nil => exact .refl
  | cons place places ih => exact (run_turn s place).trans (ih _)

/-- Calls take turns: each place is that of the next call to take a step. -/
def turns (activity : (c : C) → Activity σ (Answer c)) (s₀ : σ) (calls : List C)
    (places : List Nat) : Scene σ Answer :=
  places.foldl turn ⟨s₀, calls.map fun c => ⟨c, activity c⟩⟩

theorem run_turns {s₀ : σ} {calls : List C} (h : ∀ c ∈ calls, allowed c) (places : List Nat) :
    Run activity allowed around ⟨s₀, []⟩ (turns activity s₀ calls places) := by
  have hcalls (ts : List (Task σ Answer)) : Run activity allowed around ⟨s₀, ts⟩
      ⟨s₀, ts ++ calls.map fun c => ⟨c, activity c⟩⟩ := by
    induction calls generalizing ts with
    | nil => simpa using .refl
    | cons c calls ih =>
      obtain ⟨hc, hcs⟩ := List.forall_mem_cons.mp h
      have := ih hcs (ts ++ [⟨c, activity c⟩])
      rw [List.append_assoc] at this
      exact .head (.call hc) this
  exact (hcalls []).trans (run_places _ places)

theorem call_turns {P : C → Prop} {s₀ : σ} {calls : List C} (h : ∀ c ∈ calls, P c)
    (places : List Nat) : ∀ t ∈ (turns activity s₀ calls places).tasks, P t.call := by
  have hplaces (s : Scene σ Answer) :
      (places.foldl turn s).tasks.map Task.call = s.tasks.map Task.call := by
    induction places generalizing s with
    | nil => rfl
    | cons place places ih => exact (ih _).trans (calls_turn s place)
  have hcalls : (turns activity s₀ calls places).tasks.map Task.call = calls :=
    (hplaces _).trans (by simp [Function.comp_def])
  exact fun t ht => h t.call (hcalls ▸ List.mem_map_of_mem ht)

end Scene

end EventStore
