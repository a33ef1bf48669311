import EventStore.Proofs.Bucket.Representation

/-!
# What a dropped bucket can still do

A bucket that has been dropped may still be at hand while another is opened for its hour. Calls on
the first leave the store alone and the bucket dropped (`inert_of_aftermath`), but for two: to read
it again and to empty it make it ready, and then both buckets write under the same names
(`lost_of_revived`).
-/

namespace EventStore

open Query Operation

/-- A bucket's data after it has been dropped. -/
def BucketData.gone : BucketData := ⟨.empty, 0, .dropped, false⟩

namespace Bucket

variable {a b : Bucket} {e e' : Engine}

-- ---- calls ---------------------------------------------------------------

/-- What changes a bucket. -/
inductive Action
  | add (x : Event)
  | addAll (events : List Event)
  | lock
  | unlock
  | rebuild
  | discard (goOn : Bool)

def Action.revives : Action → Bool
  | .rebuild | .discard true => true
  | _ => false

/-- The call on the bucket can lead from `e` to `e'`. -/
def Action.Leads (b : Bucket) (e e' : Engine) : Action → Prop
  | .add x => ∃ r, (b.add x).Ends e r e'
  | .addAll events => ∃ r, (b.addAll events).Ends e r e'
  | .lock => ∃ r, b.lock.Ends e r e'
  | .unlock => ∃ r, b.unlock.Ends e r e'
  | .rebuild => ∃ r, b.rebuild.Ends e r e'
  | .discard goOn => ∃ r, (b.discard goOn).Ends e r e'

theorem Does.ends {op : Operation α} {Q : α → Cell → Prop} {E : EngineError → Cell → Prop}
    {P : Cell → Prop} (hd : b.Does op (e.cell b) Q E) (hn : b.number < e.opened.size)
    (he : op.Ends e r e') (hq : ∀ a c, Q a c → P c) (hf : ∀ p c, E p c → P c) :
    b.Spares e e' ∧ P (e'.cell b) := by
  have := hd e hn rfl r e' he
  cases r with
  | ok a => exact ⟨this.1, hq _ _ this.2⟩
  | error p => exact ⟨this.1, hf _ _ this.2⟩

theorem Action.Leads.spares {c : Action} (h : c.Leads b e e') (hn : b.number < e.opened.size) :
    b.Spares e e' := by
  have hspares {α : Type} {op : Operation α} {r : Except EngineError α} {Q : α → Cell → Prop}
      {E : EngineError → Cell → Prop} (hd : b.Does op (e.cell b) Q E) (he : op.Ends e r e') :
      b.Spares e e' := (hd.ends (P := fun _ => True) hn he (by simp) (by simp)).1
  cases c with
  | add x => exact h.elim fun _ he => hspares (add_does _ _ _) he
  | addAll events => exact h.elim fun _ he => hspares (addAll_does _ _ _) he
  | lock => exact h.elim fun _ he => hspares (setLock_does _ _ _) he
  | unlock => exact h.elim fun _ he => hspares (setLock_does _ _ _) he
  | rebuild => exact h.elim fun _ he => hspares (rebuild_does _ _) he
  | discard goOn => exact h.elim fun _ he => hspares (discard_does _ _ _) he

/-- A bucket that is dropped takes no events and no mark, and cannot be dropped further. -/
theorem Action.Leads.inert {c : Action} (h : c.Leads a e e') (hn : a.number < e.opened.size)
    (hg : e.data a = .gone) (hc : c.revives = false) : e'.cell a = e.cell a := by
  have hstate : (e.cell a).data.state = .dropped := congrArg BucketData.state hg
  have hw : ¬(e.cell a).data.state.isWritable = true := by
    rw [hstate]
    decide
  cases c with
  | add x =>
    obtain ⟨r, he⟩ := h
    exact ((add_does a x _).ends (P := (· = e.cell a)) hn he
      (fun _ _ hq => absurd hq.2.2.writable hw) fun _ _ hf => hf).2
  | addAll events =>
    obtain ⟨r, he⟩ := h
    refine ((addAll_does a events _).ends (P := (· = e.cell a)) hn he ?_ fun _ _ hf => hf).2
    rintro _ _ ⟨-, rfl, ha⟩
    by_cases hnil : events = []
    · rw [hnil, added_nil]
    · exact absurd (ha hnil).writable hw
  | lock =>
    obtain ⟨r, he⟩ := h
    exact ((setLock_does a true _).ends (P := (· = e.cell a)) hn he
      (fun _ _ hq => absurd hq.2.1 hw) fun _ _ hf => hf).2
  | unlock =>
    obtain ⟨r, he⟩ := h
    exact ((setLock_does a false _).ends (P := (· = e.cell a)) hn he
      (fun _ _ hq => absurd hq.2.1 hw) fun _ _ hf => hf).2
  | rebuild => cases hc
  | discard goOn =>
    cases goOn with
    | true => cases hc
    | false =>
      obtain ⟨r, he⟩ := h
      refine ((discard_does a false _).ends (P := (· = e.cell a)) hn he ?_ ?_).2
      · rintro _ _ ⟨-, ⟨-, -, hq⟩ | ⟨-, -, rfl⟩⟩
        · exact hq
        · simp only [emptied, hstate, if_true, Bool.false_eq_true, if_false]
          exact congrArg (Cell.mk · _) hg.symm
      · rintro _ _ ⟨-, hu⟩
        cases hu.left with
        | untouched => rfl
        | stripped hd => exact absurd hstate hd
        | restarting hg => cases hg

theorem Action.Leads.prepared {c : Action} (h : c.Leads a e e') (hn : a.number < e.opened.size)
    (hg : e.data a = .gone) (hc : c.revives = true) :
    a.Prepared e.store.entries? e'.store.entries? := by
  have hstate : (e.cell a).data.state = .dropped := congrArg BucketData.state hg
  cases c with
  | rebuild =>
    obtain ⟨r, he⟩ := h
    refine ((rebuild_does a _).ends (P := fun c => a.Prepared e.store.entries? c.view) hn he
      ?_ ?_).2
    · rintro _ _ ⟨-, index, last, -, rfl⟩
      exact a.prepared_withMaps _
    · rintro _ _ ⟨-, v, hv, rfl⟩
      exact hv
  | discard goOn =>
    cases goOn with
    | false => cases hc
    | true =>
      obtain ⟨r, he⟩ := h
      refine ((discard_does a true _).ends (P := fun c => a.Prepared e.store.entries? c.view) hn he
        ?_ ?_).2
      · rintro _ _ ⟨-, ⟨-, hl, -⟩ | ⟨-, -, rfl⟩⟩
        · cases hstate.symm.trans hl
        · simp only [emptied, hstate, if_true]
          exact a.prepared_withMaps _
      · rintro _ _ ⟨-, hu⟩
        cases hu.left with
        | untouched => exact .inl rfl
        | stripped hd => exact absurd hstate hd
        | restarting _ hv =>
          rw [if_pos hstate] at hv
          exact hv
  | _ => cases hc

-- ---- after a bucket has been dropped -------------------------------------

/-- After the bucket has been dropped there are calls on others, of its hour as well, and calls on
itself that do not make it ready. Others are opened. Calls to the store may fail. -/
inductive Aftermath (a : Bucket) : Engine → Prop
  | dropped {e e' : Engine} (hn : a.number < e.opened.size)
    (he : (a.discard false).Ends e (.ok true) e') : Aftermath a e'
  | called {e e' : Engine} {c : Action} (h : Aftermath a e) (he : c.Leads a e e')
    (hc : c.revives = false) : Aftermath a e'
  | elsewhere {e e' : Engine} {b : Bucket} {c : Action} (h : Aftermath a e)
    (hn : b.number < e.opened.size) (hne : b.number ≠ a.number) (he : c.Leads b e e') :
    Aftermath a e'
  | opened {e e' : Engine} {hour : Hour} {r} (h : Aftermath a e) (he : (openAt hour).Ends e r e') :
    Aftermath a e'
  | shaken {e e' : Engine} (h : Aftermath a e) (he : e.Shaken e') : Aftermath a e'

theorem Aftermath.gone (h : Aftermath a e) : a.number < e.opened.size ∧ e.data a = .gone := by
  induction h with
  | dropped hn he =>
    obtain ⟨hs, -, ⟨hd, -⟩ | ⟨-, -, hc⟩⟩ := discard_does a false _ _ hn rfl _ _ he
    · cases hd
    · exact ⟨hs.size ▸ hn, congrArg Cell.data hc⟩
  | called _ he hc ih =>
    obtain ⟨hn, hg⟩ := ih
    exact ⟨(he.spares hn).size ▸ hn, (congrArg Cell.data (he.inert hn hg hc)).trans hg⟩
  | elsewhere _ hb hne he ih =>
    have hs := he.spares hb
    exact ⟨hs.size ▸ ih.1, (hs.others a (Ne.symm hne)).trans ih.2⟩
  | @opened e e' hour r _ he ih =>
    obtain ⟨hn, hg⟩ := ih
    -- Whoever is opened gets a number of its own, also if nothing comes of it.
    have hgrown {b : Bucket} (hb : b.number = e.opened.size) (hs : b.Spares (grown e) e') :
        a.number < e'.opened.size ∧ e'.data a = .gone :=
      ⟨size_of_grown hs ▸ Nat.lt_succ_of_lt hn, (data_of_grown hs hb hn).trans hg⟩
    have ho := openAt_triple hour e r e' he
    cases r with
    | ok b => exact hgrown ho.2.1 ho.2.2.1
    | error p =>
      obtain ⟨-, -, rfl⟩ | ⟨b, -, hb, hs, -⟩ := ho
      · exact ⟨hn, hg⟩
      · exact hgrown hb hs
  | shaken _ he ih =>
    obtain ⟨faults, clock, -, rfl⟩ := he
    exact ih

/-- Whatever has happened to other buckets meanwhile, the bucket is still dropped. A call on it
leaves it and the store alone, unless it makes the bucket ready, and even then takes no map away. -/
theorem inert_of_aftermath (h : Aftermath a e) {c : Action} (he : c.Leads a e e') :
    (e.data a).state = .dropped ∧ (c.revives = false → e'.cell a = e.cell a) ∧
      (c.revives = true → a.Prepared e.store.entries? e'.store.entries?) := by
  obtain ⟨hn, hg⟩ := h.gone
  exact ⟨congrArg BucketData.state hg, he.inert hn hg, he.prepared hn hg⟩

-- ---- two handles ---------------------------------------------------------

def storedAs (b : Bucket) (id : UInt32) : Activity Engine (Option Bytes) :=
  Activity.observe fun e => (e.content b)[idKey id]?

/-- A bucket is dropped, another is opened for its hour and takes an event, and then there are calls
on the first. What is stored under the first id is told before and after these. -/
def afterDrop (calls : Bucket → Operation Unit) :
    Operation (Bucket × Bucket × Bool × Option Bytes × Option Bytes) := do
  let a ← openAt ⟨474902⟩
  let done ← a.discard false
  let b ← openAt ⟨474902⟩
  let _ ← b.addAll [firstEvent]
  let before ← b.storedAs 1
  calls a
  let after ← b.storedAs 1
  return (a, b, done, before, after)

theorem exists_afterDrop (calls : Bucket → Operation Unit) (P : Option Bytes → Option Bytes → Bool)
    (h : ((afterDrop calls).result 0 (.fresh .inMemory .standard .standard)).any (fun (r, _) =>
      r.toOption.any fun (_, _, done, before, after) => done && P before after) = true) :
    ∃ (a b : Bucket) (e e' : Engine), Aftermath a e ∧ b.number ≠ a.number ∧ b.hour = a.hour ∧
      (calls a).Ends e (.ok ()) e' ∧
      P (e.content b)[idKey 1]? (e'.content b)[idKey 1]? = true := by
  obtain ⟨⟨r, e'⟩, h, hp⟩ := (Option.any_eq_true _ _).mp h
  cases r with
  | error p => cases hp
  | ok r =>
    obtain ⟨a, b, done, before, after⟩ := r
    obtain ⟨rfl, hp⟩ := Bool.and_eq_true_iff.mp hp
    obtain ⟨_, e₁, hoa, h⟩ := result_bind_ok h
    obtain ⟨_, e₂, hd, h⟩ := result_bind_ok h
    obtain ⟨_, e₃, hob, h⟩ := result_bind_ok h
    obtain ⟨_, e₄, hadd, h⟩ := result_bind_ok h
    obtain ⟨_, e₅, hbefore, h⟩ := result_bind_ok h
    obtain ⟨_, e₆, hcalls, h⟩ := result_bind_ok h
    obtain ⟨_, e₇, hafter, h⟩ := result_bind_ok h
    cases h
    cases hbefore
    cases hafter
    replace hoa := ends_of_result hoa
    replace hd := ends_of_result hd
    replace hob := ends_of_result hob
    replace hadd := ends_of_result hadd
    obtain ⟨hha, hna, hsa, -⟩ := openAt_triple _ _ _ _ hoa
    obtain ⟨hhb, hnb, hsb, -⟩ := openAt_triple _ _ _ _ hob
    have ha : a.number < e₁.opened.size := by
      rw [size_of_grown hsa, hna]
      exact Nat.lt_succ_self _
    have hdropped : Aftermath a e₂ := .dropped ha hd
    have hne : b.number ≠ a.number := hnb ▸ Nat.ne_of_gt hdropped.gone.1
    have hb : b.number < e₃.opened.size := by
      rw [size_of_grown hsb, hnb]
      exact Nat.lt_succ_self _
    have hadded : Aftermath a e₄ :=
      .elsewhere (c := .addAll [firstEvent]) (hdropped.opened hob) hb hne ⟨_, hadd⟩
    exact ⟨a, b, _, _, hadded,
      hne, hhb.trans hha.symm, ends_of_result hcalls, hp⟩

/-- An event that comes too late for the dropped bucket is refused. -/
theorem inert_of_aftermath_of_late : ∃ (a : Bucket) (e e' : Engine), Aftermath a e ∧
    (Action.add firstEvent).Leads a e e' ∧ (e.data a).state = .dropped ∧ e'.cell a = e.cell a := by
  obtain ⟨a, b, e, e', h, -, -, he, -⟩ :=
    exists_afterDrop (fun a => do let _ ← outcome (a.add firstEvent)) (fun _ _ => true)
      (by decide +kernel)
  obtain ⟨r, e₁, hr, -, rfl⟩ := ends_bind_ok he
  have hl : (Action.add firstEvent).Leads a e e₁ := ⟨r, ends_outcome hr⟩
  obtain ⟨hd, hsame, -⟩ := inert_of_aftermath h hl
  exact ⟨a, e, e₁, h, hl, hd, hsame rfl⟩

def startAgain (a : Bucket) : Operation Unit := do
  let _ ← a.discard true
  let _ ← a.addAll [Event.new 1709647200001]

def dropAgain (a : Bucket) : Operation Unit := do
  a.rebuild
  let _ ← a.discard false

/-- A dropped bucket that has been made ready overwrites an event of the other, or takes it away. -/
theorem lost_of_revived :
    (∃ (a b : Bucket) (e e' : Engine), Aftermath a e ∧ b.number ≠ a.number ∧ b.hour = a.hour ∧
      a.startAgain.Ends e (.ok ()) e' ∧ (e.content b)[idKey 1]?.isSome ∧
      (e'.content b)[idKey 1]?.isSome ∧ (e'.content b)[idKey 1]? ≠ (e.content b)[idKey 1]?) ∧
    ∃ (a b : Bucket) (e e' : Engine), Aftermath a e ∧ b.number ≠ a.number ∧ b.hour = a.hour ∧
      a.dropAgain.Ends e (.ok ()) e' ∧ (e.content b)[idKey 1]?.isSome ∧
      (e'.content b)[idKey 1]? = none := by
  constructor
  · obtain ⟨a, b, e, e', h, hne, hh, he, hp⟩ := exists_afterDrop startAgain
      (fun before after => before.isSome && after.isSome && after != before) (by decide +kernel)
    simp only [Bool.and_eq_true, bne_iff_ne] at hp
    exact ⟨a, b, e, e', h, hne, hh, he, hp.1.1, hp.1.2, hp.2⟩
  · obtain ⟨a, b, e, e', h, hne, hh, he, hp⟩ := exists_afterDrop dropAgain
      (fun before after => before.isSome && after.isNone) (by decide +kernel)
    simp only [Bool.and_eq_true, Option.isNone_iff_eq_none] at hp
    exact ⟨a, b, e, e', h, hne, hh, he, hp⟩

end Bucket

end EventStore
