import EventStore.Proofs.Engine.Outcomes

/-!
# Activities that keep books

A party that shares a state may keep an account of its own dealings with it. `Bookkeeping` says what
a step may do to the state and to the account of the party that takes it; an activity keeps the
books (`Activity.Keeps`) if each of its steps does only that, in whatever state it is taken and
whatever the others have done before. So the steps of several parties add up (`Keeps.step?`), and
whatever the books preserve is preserved by the whole activity (`Keeps.ends`).
-/

namespace EventStore

/-- What a step may do to the state and to the account of the party that takes it, and what is true
of the state at any time. -/
structure Bookkeeping (σ κ : Type) where
  Always : σ → Prop
  Moves : σ → κ → σ → κ → Prop
  always {s s' : σ} {k k' : κ} : Moves s k s' k' → Always s → Always s'
  refl (s : σ) (k : κ) : Moves s k s k
  trans {s s' s'' : σ} {k k' k'' : κ} : Moves s k s' k' → Moves s' k' s'' k'' → Moves s k s'' k''

namespace Activity

variable {σ κ α β γ : Type} {B : Bookkeeping σ κ}

/-- Starting with the account `k`, each step is as the books allow, and in the end `Q` holds of the
answer and the account. -/
def Keeps (B : Bookkeeping σ κ) : {α : Type} → Activity σ α → κ → (α → κ → Prop) → Prop
  | _, done a, k, Q => ∃ k', (∀ s, B.Moves s k s k') ∧ Q a k'
  | _, step ready act next, k, Q =>
    ∀ s, B.Always s → ready s = true →
      ∃ k', B.Moves s k (act s).2 k' ∧ (next (act s).1).Keeps B k' Q
  | _, loop body start next, k, Q =>
    ∃ (inv : _ → κ → Prop) (k₀ : κ), (∀ s, B.Moves s k s k₀) ∧ inv start k₀ ∧
      ∀ b k, inv b k → (body b).Keeps B k fun
        | .inl b', k' => inv b' k'
        | .inr c, k' => (next c).Keeps B k' Q

namespace Keeps

variable {k : κ} {Q Q' : α → κ → Prop}

theorem pure' (h : Q a k) : (pure a : Activity σ α).Keeps B k Q := ⟨k, fun s => B.refl s k, h⟩

theorem settled {x : Activity σ α} (hk : ∀ s, B.Moves s k s k') (h : x.Keeps B k' Q) :
    x.Keeps B k Q := by
  cases x with
  | done a =>
    obtain ⟨k'', hk', hq⟩ := h
    exact ⟨k'', fun s => B.trans (hk s) (hk' s), hq⟩
  | step ready act next =>
    intro s ha hs
    obtain ⟨k'', hk', hn⟩ := h s ha hs
    exact ⟨k'', B.trans (hk s) hk', hn⟩
  | loop body start next =>
    obtain ⟨inv, k₀, hk', hi, hb⟩ := h
    exact ⟨inv, k₀, fun s => B.trans (hk s) (hk' s), hi, hb⟩

theorem mono {x : Activity σ α} (h : x.Keeps B k Q) (hq : ∀ a k', Q a k' → Q' a k') :
    x.Keeps B k Q' := by
  induction x generalizing k with
  | done a =>
    obtain ⟨k', hk, h⟩ := h
    exact ⟨k', hk, hq a k' h⟩
  | step ready act next ih =>
    intro s ha hs
    obtain ⟨k', hk, h⟩ := h s ha hs
    exact ⟨k', hk, ih _ h hq⟩
  | loop body start next ihb ihn =>
    obtain ⟨inv, k₀, hk, hi, hb⟩ := h
    refine ⟨inv, k₀, hk, hi, fun b k hbk => ihb b (hb b k hbk) ?_⟩
    rintro (b' | c) k' h
    · exact h
    · exact ihn c h hq

theorem bind {x : Activity σ α} {f : α → Activity σ β} {P : α → κ → Prop} {Q : β → κ → Prop}
    (h : x.Keeps B k P) (hf : ∀ a k', P a k' → (f a).Keeps B k' Q) : (x >>= f).Keeps B k Q := by
  show (x.bind f).Keeps B k Q
  induction x generalizing k with
  | done a =>
    obtain ⟨k', hk, h⟩ := h
    exact (hf a k' h).settled hk
  | step ready act next ih =>
    intro s ha hs
    obtain ⟨k', hk, h⟩ := h s ha hs
    exact ⟨k', hk, ih _ h hf⟩
  | loop body start next _ ih =>
    obtain ⟨inv, k₀, hk, hi, hb⟩ := h
    refine ⟨inv, k₀, hk, hi, fun b k hbk => (hb b k hbk).mono ?_⟩
    rintro (b' | c) k' h
    · exact h
    · exact ih c h hf

theorem atomically {act : σ → α × σ}
    (h : ∀ s, B.Always s → ∃ k', B.Moves s k (act s).2 k' ∧ Q (act s).1 k') :
    (atomically act).Keeps B k Q :=
  fun s ha _ =>
    have ⟨k', hk, hq⟩ := h s ha
    ⟨k', hk, pure' hq⟩

theorem whenever {ready : σ → Bool} {act : σ → α × σ}
    (h : ∀ s, B.Always s → ready s = true → ∃ k', B.Moves s k (act s).2 k' ∧ Q (act s).1 k') :
    (whenever ready act).Keeps B k Q :=
  fun s ha hs =>
    have ⟨k', hk, hq⟩ := h s ha hs
    ⟨k', hk, pure' hq⟩

theorem observe {f : σ → α} (h : ∀ s, B.Always s → Q (f s) k) : (observe f).Keeps B k Q :=
  atomically fun s ha => ⟨k, B.refl s k, h s ha⟩

theorem change {f : σ → σ} {Q : Unit → κ → Prop}
    (h : ∀ s, B.Always s → ∃ k', B.Moves s k (f s) k' ∧ Q () k') : (change f).Keeps B k Q :=
  atomically h

theorem finish {x : Activity σ α} (h : x.Keeps B k Q)
    (hq : ∀ a k', Q a k' → ∃ k'', (∀ s, B.Moves s k' s k'') ∧ Q' a k'') : x.Keeps B k Q' := by
  rw [← bind_pure x]
  exact bind h hq

theorem goRound {body : β → Activity σ (β ⊕ γ)} {start : β} {Q : γ → κ → Prop}
    (inv : β → κ → Prop) (hs : inv start k)
    (hb : ∀ b k, inv b k → (body b).Keeps B k fun
      | .inl b', k' => inv b' k'
      | .inr c, k' => Q c k') : (goRound body start).Keeps B k Q := by
  refine ⟨inv, k, fun s => B.refl s k, hs, fun b k hbk => (hb b k hbk).mono ?_⟩
  rintro (b' | c) k' h
  · exact h
  · exact pure' h

theorem foldlM {f : β → α → Activity σ β} (inv : List α → β → κ → Prop) {xs : List α} {b : β}
    (hs : inv xs b k)
    (hf : ∀ x xs b k, inv (x :: xs) b k → (f b x).Keeps B k fun b' k' => inv xs b' k') :
    (xs.foldlM f b).Keeps B k fun b' k' => inv [] b' k' := by
  induction xs generalizing b k with
  | nil => exact pure' hs
  | cons x xs ih =>
    rw [List.foldlM_cons]
    exact bind (hf x xs b k hs) fun b' k' h => ih h

/-- Whoever may do what others do without an account can do it with any. -/
theorem transfer {κ' : Type} {B' : Bookkeeping σ κ'} {x : Activity σ α} (h : x.Keeps B k Q) (a : κ')
    (hA : ∀ s, B'.Always s → B.Always s)
    (hM : ∀ {s k s' k'}, B.Moves s k s' k' → B'.Moves s a s' a) :
    x.Keeps B' a fun r a' => a' = a ∧ ∃ k', Q r k' := by
  induction x generalizing k with
  | done r =>
    obtain ⟨k', -, hq⟩ := h
    exact ⟨a, fun s => B'.refl s a, rfl, k', hq⟩
  | step ready act next ih =>
    intro s hs hr
    obtain ⟨k', hk, h⟩ := h s (hA s hs) hr
    exact ⟨a, hM hk, ih _ h⟩
  | loop body start next ihb ihn =>
    obtain ⟨inv, k₀, -, hi, hb⟩ := h
    refine ⟨fun b a' => a' = a ∧ ∃ k, inv b k, a, fun s => B'.refl s a, ⟨rfl, k₀, hi⟩, ?_⟩
    rintro b _ ⟨rfl, k, hbk⟩
    refine (ihb b (hb b k hbk)).mono ?_
    rintro (b' | c) a' ⟨rfl, k', h⟩
    · exact ⟨rfl, k', h⟩
    · exact ihn c h

theorem settle {x : Activity σ α} (h : x.Keeps B k Q) :
    ∃ k', (∀ s, B.Moves s k s k') ∧ x.Keeps B k' Q ∧ ∀ a, x.answer? = some a → Q a k' := by
  cases x with
  | done a =>
    obtain ⟨k', hk, hq⟩ := h
    refine ⟨k', hk, pure' hq, fun b hb => ?_⟩
    cases hb
    exact hq
  | step ready act next => exact ⟨k, fun s => B.refl s k, h, nofun⟩
  | loop body start next => exact ⟨k, fun s => B.refl s k, h, nofun⟩

-- ---- what follows --------------------------------------------------------

/-- After one step the books are kept by what is left. -/
theorem step? {x y : Activity σ α} (h : x.Keeps B k Q) {s s' : σ} (ha : B.Always s)
    (hs : x.step? s = some (y, s')) : ∃ k', B.Moves s k s' k' ∧ y.Keeps B k' Q := by
  cases x with
  | done a => cases hs
  | step ready act next =>
    simp only [Activity.step?] at hs
    split at hs
    · next hr =>
      cases hs
      exact h s ha hr
    · cases hs
  | loop body start next =>
    cases hs
    obtain ⟨inv, k₀, hk, hi, hb⟩ := h
    refine ⟨k₀, hk s, bind (hb start k₀ hi) ?_⟩
    rintro (b' | c) k' h
    · exact ⟨inv, k', fun s => B.refl s k', h, hb⟩
    · exact h

/-- What the books and the surroundings preserve, an activity preserves. -/
theorem ends {around : σ → σ → Prop} {P : σ → κ → Prop} (hA : ∀ {s k}, P s k → B.Always s)
    (hP : ∀ {s k s' k'}, B.Moves s k s' k' → P s k → P s' k')
    (ha : ∀ {s s' k}, around s s' → P s k → P s' k) {x : Activity σ α} (h : x.Keeps B k Q)
    {s t : σ} {a : α} (hx : x.Ends around s a t) (hp : P s k) : ∃ k', P t k' ∧ Q a k' := by
  induction x generalizing k s t with
  | done b =>
    obtain ⟨rfl, rfl⟩ := hx
    obtain ⟨k', hk, hq⟩ := h
    exact ⟨k', hP (hk s) hp, hq⟩
  | step ready act next ih =>
    obtain ⟨u, hu, hr, hx⟩ := hx
    obtain ⟨k', hk, h⟩ := h u (hA (ha hu hp)) hr
    exact ih _ h hx (hP hk (ha hu hp))
  | loop body start next ihb ihn =>
    obtain ⟨c, u, hg, hx⟩ := hx
    obtain ⟨inv, k₀, hk, hi, hb⟩ := h
    replace hp := hP (hk s) hp
    suffices hend : ∃ k', P u k' ∧ (next c).Keeps B k' Q by
      obtain ⟨k', hp', hn⟩ := hend
      exact ihn c hn hx hp'
    clear hk hx
    induction hg generalizing k₀ with
    | last hround => exact ihb _ (hb _ _ hi) hround hp
    | again hround _ ih =>
      obtain ⟨k', hp', hi'⟩ := ihb _ (hb _ _ hi) hround hp
      exact ih k' hi' hp'

end Keeps

end Activity

end EventStore
