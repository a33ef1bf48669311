/-!
# Activities

What one of several parties does to a state that they share, cut into steps. Within a step nothing else
happens; between two steps of one party any steps of the others may. A step can wait until the state
allows it, which is all that a lock is.
-/

namespace EventStore

inductive Activity (σ : Type) : Type → Type 1
  | done {α : Type} (a : α) : Activity σ α
  | step {α β : Type} (ready : σ → Bool) (act : σ → β × σ) (next : β → Activity σ α) : Activity σ α
  /-- Goes round for as long as `body` answers on the left. -/
  | loop {α β γ : Type} (body : β → Activity σ (β ⊕ γ)) (start : β) (next : γ → Activity σ α) :
      Activity σ α

namespace Activity

variable {σ α β γ : Type}

def bind : Activity σ α → (α → Activity σ β) → Activity σ β
  | done a, k => k a
  | step ready act next, k => step ready act fun b => (next b).bind k
  | loop body start next, k => loop body start fun c => (next c).bind k

instance : Monad (Activity σ) where
  pure := done
  bind := bind

theorem bind_done (x : Activity σ α) : x.bind done = x := by
  induction x with
  | done => rfl
  | step ready act next ih => simp [bind, ih]
  | loop body start next _ ih => simp [bind, ih]

theorem bind_bind (x : Activity σ α) (f : α → Activity σ β) (g : β → Activity σ γ) :
    (x.bind f).bind g = x.bind fun a => (f a).bind g := by
  induction x with
  | done => rfl
  | step ready act next ih => simp [bind, ih]
  | loop body start next _ ih => simp [bind, ih]

instance : LawfulMonad (Activity σ) := LawfulMonad.mk' _ bind_done (fun _ _ => rfl) bind_bind

-- ---- single steps --------------------------------------------------------

/-- A step that never waits. -/
def atomically (act : σ → α × σ) : Activity σ α := step (fun _ => true) act done

/-- A step that waits. -/
def whenever (ready : σ → Bool) (act : σ → α × σ) : Activity σ α := step ready act done

def observe (f : σ → α) : Activity σ α := atomically fun s => (f s, s)

def change (f : σ → σ) : Activity σ Unit := atomically fun s => ((), f s)

def goRound (body : β → Activity σ (β ⊕ γ)) (start : β) : Activity σ γ := loop body start done

-- ---- one party alone -----------------------------------------------------

/-- Goes round at most `most` times. -/
def rounds (body : β → σ → Option ((β ⊕ γ) × σ)) : (most : Nat) → β → σ → Option (γ × σ)
  | 0, _, _ => none
  | most + 1, b, s =>
    match body b s with
    | some (.inl b, s) => rounds body most b s
    | some (.inr c, s) => some (c, s)
    | none => none

/-- What comes of an activity that nobody disturbs. There is no answer if it waits in vain, or if a loop
takes more than `most` rounds. -/
def run (most : Nat) {α : Type} : Activity σ α → σ → Option (α × σ)
  | done a, s => some (a, s)
  | step ready act next, s => if ready s then (next (act s).1).run most (act s).2 else none
  | loop body start next, s =>
    match rounds (fun b s => (body b).run most s) most start s with
    | some (c, s) => (next c).run most s
    | none => none

theorem run_done (most : Nat) (a : α) (s : σ) : (done a).run most s = some (a, s) := rfl

theorem run_bind (most : Nat) (x : Activity σ α) (k : α → Activity σ β) (s : σ) :
    (x.bind k).run most s = (x.run most s).bind fun (a, s) => (k a).run most s := by
  induction x generalizing s with
  | done => rfl
  | step ready act next ih =>
    simp only [bind, run]
    split
    · exact ih ..
    · rfl
  | loop body start next _ ih =>
    simp only [bind, run]
    split
    · exact ih ..
    · rfl

-- ---- several parties -----------------------------------------------------

/-- One step of an activity that is neither done nor waiting. -/
def step? : Activity σ α → σ → Option (Activity σ α × σ)
  | done _, _ => none
  | step ready act next, s => if ready s then some (next (act s).1, (act s).2) else none
  | loop body start next, s =>
    some ((body start).bind fun
      | .inl b => loop body b next
      | .inr c => next c, s)

def answer? : Activity σ α → Option α
  | done a => some a
  | _ => none

/-- Each party in turn takes a step, if it can. The last answer is whether any could. -/
def turn : List (Activity σ α) → σ → List (Activity σ α) × σ × Bool
  | [], s => ([], s, false)
  | x :: rest, s =>
    match x.step? s with
    | some (y, s) =>
      let (rest, s, _) := turn rest s
      (y :: rest, s, true)
    | none =>
      let (rest, s, moved) := turn rest s
      (x :: rest, s, moved)

/-- Turn after turn, `most` at most, until nobody can go on. -/
def runTogether : (most : Nat) → List (Activity σ α) → σ → List (Activity σ α) × σ
  | 0, xs, s => (xs, s)
  | most + 1, xs, s =>
    match turn xs s with
    | (xs, s, true) => runTogether most xs s
    | (xs, s, false) => (xs, s)

/-- The answers of those that are done then. -/
def answersTogether (most : Nat) (xs : List (Activity σ α)) (s : σ) : List α × σ :=
  let (xs, s) := runTogether most xs s
  (xs.filterMap answer?, s)

end Activity

end EventStore
