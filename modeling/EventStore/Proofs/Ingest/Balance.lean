import EventStore.Proofs.Engine.Sharing
import EventStore.Proofs.Ingest.Accounts
import Mathlib.Algebra.BigOperators.Group.List.Basic
import Mathlib.Algebra.GroupWithZero.Nat

/-!
# The queue is in balance

Any number of calls add events to the queue of one engine and drain it, step by step in any order,
while calls to the store fail and others use the engine. At every moment the accepted events are
those that wait, those that drains hold, those reported as committed and those dropped
(`balanced_of_run`).
-/

namespace EventStore

namespace Ingest

inductive Call
  | add (x : Event)
  | addAll (events : List Event)
  | drainOnce
  | drainPending
  | shutdown

namespace Call

def given : Call → List Event
  | add x => [x]
  | addAll events => events
  | drainOnce | drainPending | shutdown => []

def drains : Call → Bool
  | add _ | addAll _ => false
  | drainOnce | drainPending | shutdown => true

abbrev Answer : Call → Type
  | add _ => Bool
  | _ => Nat

def activity : (c : Call) → Activity Engine c.Answer
  | add x => Ingest.add x
  | addAll events => Ingest.addAll events
  | drainOnce => Ingest.drainOnce
  | drainPending => Ingest.drainPending
  | shutdown => Ingest.shutdown

/-- What has been accepted and committed in the end is what the call answers. -/
def Settled (settings : Config.EngineSection) : (c : Call) → c.Answer → Account → Prop
  | add x, taken, a =>
    a.accepted = bare ([x].filter (accepts settings)) ∧ taken = accepts settings x ∧ a.undecided = 0
  | addAll events, n, a =>
    a.accepted = bare (events.filter (accepts settings)) ∧ n = a.accepted.card ∧ a.undecided = 0
  | drainOnce, n, a | drainPending, n, a | shutdown, n, a =>
    a.held = 0 ∧ a.uncounted = 0 ∧ n = a.committed.card

def books (settings : Config.EngineSection) (c : Call) : Bookkeeping Engine Account :=
  if c.drains then draining settings else adding settings

end Call

/-- A call with what it has still to do. -/
structure Task where
  call : Call
  rest : Activity Engine call.Answer

def Task.isDone (t : Task) : Bool := t.rest.answer?.isSome

/-- An engine and the calls to its queue so far. -/
structure Scene where
  engine : Engine
  tasks : List Task

/-- Another call is made, one of the calls takes a step, or something happens to the engine that
leaves the queue alone. -/
inductive Scene.Step : Scene → Scene → Prop
  | call {e : Engine} (ts : List Task) (c : Call) : Step ⟨e, ts⟩ ⟨e, ts ++ [⟨c, c.activity⟩]⟩
  | task {e e' : Engine} {before after : List Task} {c : Call} {x y : Activity Engine c.Answer}
    (h : x.step? e = some (y, e')) :
    Step ⟨e, before ++ ⟨c, x⟩ :: after⟩ ⟨e', before ++ ⟨c, y⟩ :: after⟩
  | around {e e' : Engine} {ts : List Task} (h : e'.intake = e.intake) : Step ⟨e, ts⟩ ⟨e', ts⟩

-- ---- one call ------------------------------------------------------------

/-- Calls that add take nothing, drains accept nothing, and what is done is settled. -/
structure Task.Tallies (settings : Config.EngineSection) (t : Task) (a : Account) : Prop where
  adds : t.call.drains = false → a.held = 0 ∧ a.committed = 0 ∧ a.dropped = 0 ∧ a.uncounted = 0
  drains : t.call.drains = true → a.accepted = 0 ∧ a.undecided = 0
  done : ∀ r, t.rest.answer? = some r → t.call.Settled settings r a

/-- The account tallies, and will do so whatever the call does next. -/
structure Task.Keeps (settings : Config.EngineSection) (t : Task) (a : Account) : Prop extends
    t.Tallies settings a where
  keeps : t.rest.Keeps (t.call.books settings) a (t.call.Settled settings)

variable {S : Config.EngineSection} {e e' : Engine} {a a' : Account}

theorem Call.moves {c : Call} (h : (c.books S).Moves e a e' a') : Account.Moves e a e' a' := by
  unfold books at h
  split at h <;> exact h.1

theorem Call.activity_keeps (S : Config.EngineSection) (c : Call) :
    c.activity.Keeps (c.books S) (.opened c.given.length) (c.Settled S) := by
  have hidle : Idle 0 (.opened 0) := ⟨(add_zero _).symm, rfl, rfl⟩
  have hdrain {x : Activity Engine Nat}
      (h : x.Keeps (draining S) (.opened 0) fun n a => Idle (0 + n) a) :
      x.Keeps (draining S) (.opened 0) fun n a =>
        a.held = 0 ∧ a.uncounted = 0 ∧ n = a.committed.card := by
    refine h.mono fun n a h => ⟨h.held, h.uncounted, ?_⟩
    rw [h.committed]
    simp
  cases c with
  | add x => exact add_keeps S x
  | addAll events => exact addAll_keeps S events
  | drainOnce => exact hdrain (drainOnce_keeps hidle)
  | drainPending => exact hdrain (drainPending_keeps hidle)
  | shutdown => exact hdrain (shutdown_keeps hidle)

theorem Task.keeps_call (S : Config.EngineSection) (c : Call) :
    Task.Keeps S ⟨c, c.activity⟩ (.opened c.given.length) := by
  refine ⟨⟨fun _ => ⟨rfl, rfl, rfl, rfl⟩, fun hd => ⟨rfl, ?_⟩, fun r hr => ?_⟩,
    Call.activity_keeps S c⟩
  · cases c <;> first | rfl | cases hd
  · cases c <;> cases hr

theorem Task.Keeps.step {c : Call} {x y : Activity Engine c.Answer} (h : Task.Keeps S ⟨c, x⟩ a)
    (he : e.settings = S) (hs : x.step? e = some (y, e')) :
    ∃ a', Account.Moves e a e' a' ∧ Task.Keeps S ⟨c, y⟩ a' := by
  have he : (c.books S).Always e := by
    unfold Call.books
    split <;> exact he
  obtain ⟨a₁, hm₁, h₁⟩ := h.keeps.step? he hs
  obtain ⟨a', hm', h', hdone⟩ := h₁.settle
  have hm := (c.books S).trans hm₁ (hm' e')
  refine ⟨a', Call.moves hm, ⟨fun hd => ?_, fun hd => ?_, hdone⟩, h'⟩
  · rw [Call.books, if_neg (by simp [show c.drains = false from hd])] at hm
    obtain ⟨-, hh, hc, hp, hu⟩ := hm
    rw [hh, hc, hp, hu]
    exact h.adds hd
  · rw [Call.books, if_pos (show c.drains = true from hd)] at hm
    obtain ⟨-, ha, hu⟩ := hm
    rw [ha, hu]
    exact h.drains hd

-- ---- all calls -----------------------------------------------------------

def total (as : List Account) : Account where
  accepted := (as.map Account.accepted).sum
  held := (as.map Account.held).sum
  committed := (as.map Account.committed).sum
  dropped := (as.map Account.dropped).sum
  uncounted := (as.map Account.uncounted).sum
  undecided := (as.map Account.undecided).sum

theorem total_append (as bs : List Account) : total (as ++ bs) =
    ⟨(total as).accepted + (total bs).accepted, (total as).held + (total bs).held,
      (total as).committed + (total bs).committed, (total as).dropped + (total bs).dropped,
      (total as).uncounted + (total bs).uncounted,
      (total as).undecided + (total bs).undecided⟩ := by
  simp [total]

theorem total_singleton (a : Account) : total [a] = a := by simp [total]

theorem moves_total (before after : List Account) (h : Account.Moves e a e' a') :
    Account.Moves e (total (before ++ a :: after)) e' (total (before ++ a' :: after)) := by
  obtain ⟨x, hx, hw, hf⟩ := h.accepted
  obtain ⟨c, hc, hi⟩ := h.committed
  obtain ⟨d, hd, hn⟩ := h.dropped
  rw [List.append_cons before a, List.append_cons before a']
  simp only [total_append, total_singleton]
  generalize total before = b₁, total after = b₂
  simp only [Account.taken] at hw
  refine ⟨h.settings, ⟨x, ?_, ?_, ?_⟩, ⟨c, ?_, ?_⟩, d, ?_, hn⟩
  · simp only [hx]
    ac_rfl
  · simp only [Account.taken]
    calc _ = waiting e' + (a'.held + a'.committed + a'.dropped) +
          (b₁.held + b₁.committed + b₁.dropped + (b₂.held + b₂.committed + b₂.dropped)) := by ac_rfl
      _ = _ := by
        rw [hw]
        ac_rfl
  · simp only
    omega
  · simp only [hc]
    ac_rfl
  · simp only
    omega
  · simp only [hd]
    ac_rfl

/-- Every accepted event waits, is held, or has been committed or dropped, and the figures of the
engine count them. -/
structure Balances (e : Engine) (given : Nat) (a : Account) : Prop where
  events : a.accepted = waiting e + a.held + a.committed + a.dropped
  ingested : e.ingested + a.uncounted = a.committed.card
  dropped : e.dropped = a.dropped.card
  filtered : given = a.accepted.card + e.filtered + a.undecided

theorem Balances.moves {given : Nat} (h : Balances e given a) (hm : Account.Moves e a e' a') :
    Balances e' given a' := by
  obtain ⟨x, hx, hw, hf⟩ := hm.accepted
  obtain ⟨c, hc, hi⟩ := hm.committed
  obtain ⟨d, hd, hn⟩ := hm.dropped
  refine ⟨?_, ?_, ?_, ?_⟩
  · calc a'.accepted = waiting e + a.taken + x := by
          rw [hx, h.events, Account.taken]
          ac_rfl
      _ = waiting e' + a'.taken := hw.symm
      _ = waiting e' + a'.held + a'.committed + a'.dropped := by
        rw [Account.taken]
        ac_rfl
  · rw [hi, hc, Multiset.card_add, h.ingested]
  · rw [hn, hd, Multiset.card_add, h.dropped]
  · rw [hx, Multiset.card_add, h.filtered]
    omega

/-- The accounts of the calls tally, and together they are in balance. -/
structure Scene.Balanced (settings : Config.EngineSection) (s : Scene) (as : List Account) :
    Prop where
  tasks : List.Forall₂ (Task.Tallies settings) s.tasks as
  balances : Balances s.engine (s.tasks.map (·.call.given.length)).sum (total as)

/-- From one moment to the next every account is left alone, or moves with the engine. -/
def Follows (s : Scene) (as : List Account) (s' : Scene) (as' : List Account) : Prop :=
  ∀ (i : Nat) (a : Account), as[i]? = some a →
    ∃ a', as'[i]? = some a' ∧ (a' = a ∨ Account.Moves s.engine a s'.engine a')

theorem follows_append (s s' : Scene) (as more : List Account) : Follows s as s' (as ++ more) := by
  intro i a ha
  refine ⟨a, ?_, .inl rfl⟩
  rwa [List.getElem?_append_left (List.getElem?_eq_some_iff.mp ha).1]

theorem follows_set {s s' : Scene} (before after : List Account)
    (h : Account.Moves s.engine a s'.engine a') :
    Follows s (before ++ a :: after) s' (before ++ a' :: after) := by
  intro i b hb
  rcases Nat.lt_trichotomy i before.length with hi | rfl | hi
  · rw [List.getElem?_append_left hi] at hb ⊢
    exact ⟨b, hb, .inl rfl⟩
  · rw [List.getElem?_append_right (Nat.le_refl _), Nat.sub_self] at hb ⊢
    cases hb
    exact ⟨a', rfl, .inr h⟩
  · rw [List.getElem?_append_right (Nat.le_of_lt hi)] at hb ⊢
    obtain ⟨j, hj⟩ : ∃ j, i - before.length = j + 1 := ⟨i - before.length - 1, by omega⟩
    rw [hj] at hb ⊢
    exact ⟨b, hb, .inl rfl⟩

/-- Each account tallies and will go on to, and together they are in balance. -/
structure Scene.Keeps (settings : Config.EngineSection) (s : Scene) (as : List Account) :
    Prop where
  same : s.engine.settings = settings
  tasks : List.Forall₂ (Task.Keeps settings) s.tasks as
  balances : Balances s.engine (s.tasks.map (·.call.given.length)).sum (total as)

namespace Scene

variable {s s' : Scene} {as : List Account}

theorem Keeps.balanced (h : s.Keeps S as) : s.Balanced S as :=
  ⟨h.tasks.imp fun _ _ ht => ht.toTallies, h.balances⟩

/-- Whatever happens next, the accounts can be carried on. -/
theorem Keeps.step (h : s.Keeps S as) (hs : s.Step s') :
    ∃ as', s'.Keeps S as' ∧ Follows s as s' as' := by
  cases hs with
  | @call e ts c =>
    refine ⟨as ++ [.opened c.given.length], ⟨h.same, ?_, ?_⟩, follows_append _ _ as _⟩
    · exact List.rel_append h.tasks (.cons (Task.keeps_call S c) .nil)
    · obtain ⟨hev, hin, hdr, hfi⟩ := h.balances
      rw [total_append, total_singleton]
      refine ⟨?_, ?_, ?_, ?_⟩
      · simpa [Account.opened] using hev
      · simpa [Account.opened] using hin
      · simpa [Account.opened] using hdr
      · simp only [Account.opened, List.map_append, List.sum_append, List.map_cons, List.map_nil,
          List.sum_cons, List.sum_nil, add_zero] at hfi ⊢
        omega
  | @task e e' before after c x y hx =>
    -- Only the account of the call that takes the step moves, and the total moves with it.
    obtain ⟨as₁, a, as₂, rfl, h₁, ha, h₂⟩ := exists_of_forall₂ h.tasks
    obtain ⟨a', hm, ha'⟩ := ha.step h.same hx
    refine ⟨as₁ ++ a' :: as₂, ⟨hm.settings.trans h.same, ?_, ?_⟩, follows_set _ _ hm⟩
    · exact List.rel_append h₁ (.cons ha' h₂)
    · have := h.balances.moves (moves_total as₁ as₂ hm)
      simp only [List.map_append, List.map_cons] at this ⊢
      exact this
  | @around e e' ts hi =>
    have hm (a : Account) : Account.Moves e a e' a := Account.moves_of_intake hi a
    exact ⟨as, ⟨(hm (total as)).settings.trans h.same, h.tasks, h.balances.moves (hm _)⟩,
      fun _ a ha => ⟨a, ha, .inl rfl⟩⟩

end Scene

-- ---- a whole run ---------------------------------------------------------

namespace Scene.Balanced

variable {s : Scene} {as : List Account}

theorem tallies (h : s.Balanced S as) (ha : a ∈ as) : ∃ t ∈ s.tasks, t.Tallies S a := by
  have htasks := h.tasks
  clear h
  generalize s.tasks = ts at htasks ⊢
  induction htasks with
  | nil => cases ha
  | @cons t a' ts as ht _ ih =>
    rcases List.mem_cons.mp ha with rfl | ha
    · exact ⟨t, List.mem_cons_self, ht⟩
    · obtain ⟨t', ht', h'⟩ := ih ha
      exact ⟨t', List.mem_cons_of_mem _ ht', h'⟩

/-- When no drain is under way, nothing is held. -/
theorem drained (h : s.Balanced S as)
    (hd : ∀ t ∈ s.tasks, t.call.drains = true → t.isDone = true) :
    (total as).accepted.card = s.engine.queueDepth + s.engine.ingested + s.engine.dropped := by
  have hnone (a : Account) (ha : a ∈ as) : a.held = 0 ∧ a.uncounted = 0 := by
    obtain ⟨⟨c, rest⟩, ht, htally⟩ := h.tallies ha
    cases hc : c.drains with
    | false => exact ⟨(htally.adds hc).1, (htally.adds hc).2.2.2⟩
    | true =>
      obtain ⟨r, hr⟩ := Option.isSome_iff_exists.mp (hd _ ht hc)
      have hsettled := htally.done r hr
      cases c with
      | add _ | addAll _ => cases hc
      | drainOnce | drainPending | shutdown => exact ⟨hsettled.1, hsettled.2.1⟩
  have hheld : (total as).held = 0 := List.sum_eq_zero fun x hx => by
    obtain ⟨a, ha, rfl⟩ := List.mem_map.mp hx
    exact (hnone a ha).1
  have huncounted : (total as).uncounted = 0 := List.sum_eq_zero fun x hx => by
    obtain ⟨a, ha, rfl⟩ := List.mem_map.mp hx
    exact (hnone a ha).2
  obtain ⟨hev, hin, hdr, -⟩ := h.balances
  rw [huncounted, add_zero] at hin
  rw [hev, hheld, add_zero, Multiset.card_add, Multiset.card_add, ← hin, ← hdr, waiting, card_bare,
    List.length_map, Engine.queueDepth]

/-- When no events are being added, all that were given are accepted or filtered. -/
theorem added (h : s.Balanced S as)
    (hd : ∀ t ∈ s.tasks, t.call.drains = false → t.isDone = true) :
    (s.tasks.map (·.call.given.length)).sum = (total as).accepted.card + s.engine.filtered := by
  have hundecided : (total as).undecided = 0 := List.sum_eq_zero fun x hx => by
    obtain ⟨a, ha, rfl⟩ := List.mem_map.mp hx
    obtain ⟨⟨c, rest⟩, ht, htally⟩ := h.tallies ha
    cases hc : c.drains with
    | true => exact (htally.drains hc).2
    | false =>
      obtain ⟨r, hr⟩ := Option.isSome_iff_exists.mp (hd _ ht hc)
      have hsettled := htally.done r hr
      cases c with
      | add _ | addAll _ => exact hsettled.2.2
      | drainOnce | drainPending | shutdown => cases hc
  rw [h.balances.filtered, hundecided, add_zero]

end Scene.Balanced

theorem Scene.Keeps.start {s : Scene} (ht : s.tasks = [])
    (hi : s.engine.intake = ⟨S, [], 0, 0, 0⟩) : s.Keeps S [] := by
  simp only [Engine.intake, Intake.mk.injEq] at hi
  obtain ⟨hs, hq, hn, hf, hd⟩ := hi
  refine ⟨hs, ht ▸ .nil, ?_⟩
  rw [ht]
  exact ⟨by simp [total, waiting, hq], by simp [total, hn], by simp [total, hd],
    by simp [total, hf]⟩

def Scene.advance : List Task → Engine → Option (List Task × Engine)
  | [], _ => none
  | t :: rest, e =>
    match t.rest.step? e with
    | some (x, e) => some (⟨t.call, x⟩ :: rest, e)
    | none => (advance rest e).map fun (rest, e) => (t :: rest, e)

def Scene.next (s : Scene) : Scene :=
  match advance s.tasks s.engine with
  | some (tasks, e) => ⟨e, tasks⟩
  | none => s

theorem Scene.exists_of_advance {ts ts' : List Task} (h : advance ts e = some (ts', e')) :
    ∃ (before after : List Task) (c : Call) (x y : Activity Engine c.Answer),
      ts = before ++ ⟨c, x⟩ :: after ∧ ts' = before ++ ⟨c, y⟩ :: after ∧
        x.step? e = some (y, e') := by
  induction ts generalizing ts' with
  | nil => cases h
  | cons t rest ih =>
    unfold advance at h
    split at h
    · next y e₁ hy =>
      cases h
      exact ⟨[], rest, t.call, t.rest, y, rfl, rfl, hy⟩
    · obtain ⟨⟨rest', e₁⟩, hr, he⟩ := Option.map_eq_some_iff.mp h
      cases he
      obtain ⟨before, after, c, x, y, rfl, rfl, hx⟩ := ih hr
      exact ⟨t :: before, after, c, x, y, rfl, rfl, hx⟩

theorem Scene.step_next (s : Scene) : s.Step s.next := by
  obtain ⟨e, ts⟩ := s
  unfold next
  split
  · next ts' e' h =>
    obtain ⟨before, after, c, x, y, rfl, rfl, hx⟩ := exists_of_advance h
    exact .task hx
  · exact .around rfl

/-- Two events are added, and drained one after the other, the second of which no bucket takes. -/
def shortRun : Nat → Scene
  | 0 => ⟨.fresh .inMemory .standard .standard, []⟩
  | 1 => ⟨.fresh .inMemory .standard .standard,
    [⟨.addAll [Event.new 1709647200000, Event.new (-1)], Call.activity _⟩]⟩
  | 2 => ⟨.fresh .inMemory .standard .standard,
    [⟨.addAll [Event.new 1709647200000, Event.new (-1)], Call.activity _⟩,
      ⟨.drainPending, Call.activity _⟩]⟩
  | n + 3 => (shortRun (n + 2)).next

end Ingest

end EventStore
