import EventStore.Proofs.Engine.Outcomes

/-!
# Activities that nothing holds up

An activity proceeds (`Activity.Proceeds`) where none of its steps has to wait and none leads to
where one had to, and it goes round no loop. Left to itself it comes to an answer from wherever it
has got to (`Proceeds.exists_run`).
-/

namespace EventStore

namespace Activity

variable {σ α β : Type} {I : σ → Prop} {s s' : σ}

/-- Where `I` is true each step can be taken, and leaves it true. -/
def Proceeds (I : σ → Prop) : {α : Type} → Activity σ α → Prop
  | _, done _ => True
  | _, step ready act next =>
    (∀ s, I s → ready s = true ∧ I (act s).2) ∧ ∀ b, (next b).Proceeds I
  | _, loop .. => False

namespace Proceeds

theorem pure' (a : α) : (pure a : Activity σ α).Proceeds I := trivial

theorem bind {x : Activity σ α} {f : α → Activity σ β} (h : x.Proceeds I)
    (hf : ∀ a, (f a).Proceeds I) : (x >>= f).Proceeds I := by
  show (x.bind f).Proceeds I
  induction x with
  | done a => exact hf a
  | step ready act next ih => exact ⟨h.1, fun b => ih b (h.2 b) hf⟩
  | loop => exact h.elim

theorem whenever {ready : σ → Bool} {act : σ → α × σ}
    (h : ∀ s, I s → ready s = true ∧ I (act s).2) : (whenever ready act).Proceeds I :=
  ⟨h, fun _ => trivial⟩

theorem atomically {act : σ → α × σ} (h : ∀ s, I s → I (act s).2) :
    (atomically act).Proceeds I := whenever fun s hs => ⟨rfl, h s hs⟩

theorem observe (f : σ → α) : (observe f).Proceeds I := atomically fun _ hs => hs

theorem step? {x y : Activity σ α} (h : x.Proceeds I) (hx : x.step? s = some (y, s')) :
    y.Proceeds I := by
  cases x with
  | done => cases hx
  | step ready act next =>
    simp only [Activity.step?] at hx
    split at hx
    · cases hx
      exact h.2 _
    · cases hx
  | loop => exact h.elim

theorem exists_run {x : Activity σ α} (h : x.Proceeds I) (hs : I s) (most : Nat) :
    ∃ a s', x.run most s = some (a, s') := by
  induction x generalizing s with
  | done a => exact ⟨a, s, rfl⟩
  | step ready act next ih =>
    obtain ⟨hready, hact⟩ := h.1 s hs
    rw [run, if_pos hready]
    exact ih _ (h.2 _) hact
  | loop => exact h.elim

end Proceeds

end Activity

-- ---- operations ----------------------------------------------------------

namespace Operation

variable {α β : Type} {I : Engine → Prop} {op : Operation α}

def Proceeds (I : Engine → Prop) (op : Operation α) : Prop := Activity.Proceeds I op.run

namespace Proceeds

theorem pure' (a : α) : (pure a : Operation α).Proceeds I := trivial

theorem throw' (p : EngineError) : (throw p : Operation α).Proceeds I := trivial

theorem result (r : Except EngineError α) : (liftM r : Operation α).Proceeds I := by
  cases r <;> trivial

theorem bind {f : α → Operation β} (h : op.Proceeds I) (hf : ∀ a, (f a).Proceeds I) :
    (op >>= f).Proceeds I := by
  refine Activity.Proceeds.bind h ?_
  rintro (p | a)
  · exact trivial
  · exact hf a

theorem lift {x : Activity Engine α} (h : x.Proceeds I) : (liftM x : Operation α).Proceeds I :=
  Activity.Proceeds.bind h fun _ => trivial

theorem attempt {act : Engine → Except EngineError α × Engine} (h : ∀ e, I e → I (act e).2) :
    (Operation.attempt act).Proceeds I := Activity.Proceeds.atomically h

theorem call {r : Request α} (h : ∀ e store, I e → I { e with store := store }) :
    (Operation.call r).Proceeds I := attempt fun e he => h e _ he

end Proceeds

end Operation

end EventStore
