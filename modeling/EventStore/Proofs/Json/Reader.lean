import EventStore.Json.Reader

/-!
# What readers take off a text

A rule for each way of putting readers together. What every part of a record keeps is true of the
record that is read (`Yields.record`).
-/

namespace EventStore.Json

variable {α β ρ : Type} {p : α → Prop} {q : β → Prop} {x : Reader α} {f : α → Reader β}

/-- What the reader takes off a text is as `p` says. -/
def Yields (x : Reader α) (p : α → Prop) : Prop := ∀ ⦃s a r⦄, x s = .ok (a, r) → p a

namespace Yields

theorem bind (hx : Yields x p) (hf : ∀ a, p a → Yields (f a) q) : Yields (x >>= f) q := by
  intro s b r h
  change (x s).bind (fun y => f y.1 y.2) = .ok (b, r) at h
  cases hread : x s with
  | error k =>
    rw [hread] at h
    cases h
  | ok y =>
    rw [hread] at h
    exact hf y.1 (hx hread) h

theorem after (hf : ∀ a, Yields (f a) q) : Yields (x >>= f) q :=
  bind (p := fun _ => True) (fun _ _ _ _ => trivial) fun a _ => hf a

theorem pure {a : α} (h : p a) : Yields (pure a) p := by
  rintro s _ _ ⟨⟩
  exact h

theorem malformed : Yields malformed p := nofun

theorem unsuitable : Yields unsuitable p := nofun

theorem refuse : Yields refuse p := by
  refine after fun c => ?_
  split
  · exact after fun _ => unsuitable
  · exact after fun _ => unsuitable
  · exact after fun _ => unsuitable
  · exact after fun _ => after fun _ => unsuitable
  · exact unsuitable
  · exact unsuitable
  · split
    · exact after fun _ => unsuitable
    · exact malformed
  · exact malformed

theorem optional (hx : Yields x p) : Yields (optional x) fun o => ∀ a ∈ o, p a := by
  refine after fun c => ?_
  split
  · exact after fun _ => pure nofun
  · exact hx.bind fun a ha => pure (by simpa)

-- ---- records -------------------------------------------------------------

variable {parts : List (Member ρ)} {p : ρ → Prop} {r : ρ}

theorem partsByName (hparts : ∀ part ∈ parts, ∀ r, p r → Yields (part.read r) p) :
    ∀ steps first seen r, p r → Yields (partsByName parts steps first seen r) p := by
  intro steps
  induction steps with
  | zero => exact fun _ _ _ _ => malformed
  | succ steps ih =>
    intro first seen r hr
    refine after fun more => ?_
    split
    · refine after fun name => ?_
      split
      · exact after fun _ => after fun _ => ih false seen r hr
      · next part hpart =>
        split
        · exact unsuitable
        · refine after fun _ => (hparts part (List.mem_of_find?_eq_some hpart) r hr).bind ?_
          exact fun r' hr' => ih false _ r' hr'
    · split
      · exact after fun _ => pure hr
      · exact unsuitable

theorem partsInOrder (hparts : ∀ part ∈ parts, ∀ r, p r → Yields (part.read r) p) :
    ∀ first r, p r → Yields (partsInOrder parts first r) p := by
  induction parts with
  | nil => exact fun _ _ hr => after fun _ => pure hr
  | cons part rest ih =>
    obtain ⟨hpart, hrest⟩ := List.forall_mem_cons.mp hparts
    intro first r hr
    refine after fun more => ?_
    split
    · exact (hpart r hr).bind fun r' hr' => ih hrest false r' hr'
    · split
      · exact unsuitable
      · exact after fun _ => pure hr

/-- What is true of the blank record and is kept by every part is true of the record. -/
theorem record (hr : p r) (hparts : ∀ part ∈ parts, ∀ r, p r → Yields (part.read r) p) :
    Yields (record parts r) p := by
  refine after fun c => ?_
  split
  · exact after fun _ => after fun _ => partsByName hparts _ _ _ r hr
  · exact after fun _ => partsInOrder hparts _ r hr
  · exact refuse

theorem readFront {s : String} {a : α} {p : α → Prop} (hx : Yields x p)
    (h : readFront x s = .ok a) : p a := by
  unfold Json.readFront at h
  cases hread : x.run s.toList with
  | error k =>
    rw [hread] at h
    cases h
  | ok y =>
    rw [hread] at h
    cases h
    exact hx hread

end Yields

end EventStore.Json
