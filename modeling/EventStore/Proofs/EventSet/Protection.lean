import EventStore.Proofs.EventSet.Convergence
import EventStore.Proofs.EventSet.Guarding
import Mathlib.Data.List.Pairwise

/-!
# A locked set keeps its events

Once a set has been locked no bucket is evicted until it is unlocked, not even by a call that was
under way before (`protected_of_run`). While some lock buckets and others unlock them nothing is
certain, nor after the store has refused to lock a bucket; but otherwise, whenever nobody is at it,
a set that says it is locked is locked (`kept_of_course`).
-/

namespace EventStore

namespace EventSet

open Query Operation

-- ---- the calls -----------------------------------------------------------

namespace Call

/-- Whether the call is to lock or to unlock the set, if either. -/
def turn : Call → Option Bool
  | lock => some true
  | unlock => some false
  | _ => none

/-- What the call has in hand when it begins. -/
def hand (c : Call) : Guard.Hand := { Guard.Hand.empty with turn := c.turn }

/-- The call asks for no events. -/
def Tends : Call → Prop
  | query .. => False
  | _ => True

/-- The call asks for no events and unlocks no buckets. -/
def Spares : Call → Prop
  | query .. | unlock => False
  | _ => True

instance : (c : Call) → Decidable c.Spares
  | add _ | addAll _ | getOrCreate _ | purge | dropData _ | lock => .isTrue trivial
  | query .. | unlock => .isFalse id

def Evicts : Call → Prop
  | purge | dropData _ => True
  | _ => False

theorem Spares.tends {c : Call} (h : c.Spares) : c.Tends := by
  cases c <;> trivial

theorem Spares.turn_ne {c : Call} (h : c.Spares) : c.turn ≠ some false := by
  cases c <;> first | exact h.elim | nofun

/-- Who has locked the set has found every bucket shut, as long as that is remembered. -/
def Sealed : (c : Call) → c.Answer → Guard.Hand → Prop
  | lock, .ok _, k => k.turn = none ∨ k.seals = some []
  | _, _, _ => True

end Call

namespace Guard

variable {e e' e₀ : Engine} {k k' : Hand} {ks before' after' : List Hand} {b : Bucket} {c : Call}
  {s s' : Scene}

theorem activity_abides (h : c.Tends) :
    c.activity.Abides sharing e c.hand fun a _ => c.Sealed a := by
  have hfree : Hand.IsFree c.hand := ⟨rfl, rfl, rfl⟩
  cases c with
  | add x => exact Activity.Abides.mono (add_abides hfree x) fun _ _ _ _ => trivial
  | addAll events => exact (addAll_abides hfree events).mono fun _ _ _ _ => trivial
  | getOrCreate hour =>
    exact Activity.Abides.mono (getOrCreate_abides hfree hour) fun _ _ _ _ => trivial
  | query => exact h.elim
  | purge => exact Activity.Abides.mono (purge_abides hfree) fun _ _ _ _ => trivial
  | dropData now => exact Activity.Abides.mono (dropData_abides hfree now) fun _ _ _ _ => trivial
  | lock =>
    refine Activity.Abides.mono (setLockAll_abides rfl hfree) ?_
    rintro (p | a) e' k' h
    · trivial
    · exact .inr h
  | unlock =>
    exact Activity.Abides.mono (setLockAll_abides rfl hfree)
      fun _ _ _ _ => trivial

-- ---- one step ------------------------------------------------------------

theorem held_hand (e : Engine) (c : Call) : Held e c.hand :=
  ⟨nofun, nofun, nofun, nofun, nofun, nofun, nofun, nofun, nofun⟩

theorem held_empty (e : Engine) : Held e .empty :=
  ⟨nofun, nofun, nofun, nofun, nofun, nofun, nofun, nofun, nofun⟩

theorem sealed_empty (c : Call) (a : c.Answer) : c.Sealed a .empty := by
  cases c with
  | lock => cases a <;> first | trivial | exact .inl rfl
  | _ => trivial

theorem apart_hand {c : Call} (h : ∀ locked locked', k.turn = some locked →
    c.turn = some locked' → locked = locked') : k.Apart c.hand where
  makes _ _ _ h := nomatch h
  writes _ _ _ h := nomatch h
  registers h := nomatch h.2
  seals h := nomatch h.2
  lax h := nomatch h.2
  turn := h

theorem apart_empty (k : Hand) : k.Apart .empty where
  makes _ _ _ h := nomatch h
  writes _ _ _ h := nomatch h
  registers h := nomatch h.2
  seals h := nomatch h.2
  lax h := nomatch h.2
  turn _ _ _ h := nomatch h

theorem Acts.locked (h : Acts e k e' k') :
    e'.locked = e.locked ∨ k.turn = some e'.locked ∧ k'.turned = some e'.locked := by
  cases h with
  | turns h => exact .inr ⟨h, rfl⟩
  | _ => exact .inl rfl

theorem Acts.turned {locked : Bool} (h : Acts e k e' k') (hk : Held e k)
    (ht : k.turned = some locked) : k'.turned = some locked := by
  cases h with
  | turns h => exact h.symm.trans (hk.turned ht).1
  | _ => exact ht

def Turning (t : Task) (k : Hand) : Prop :=
  k.turn = if t.rest.answer?.isSome then none else t.call.turn

/-- The calls go by the rules. -/
structure Watched (s : Scene) (ks : List Hand) : Prop where
  abides : s.Abides sharing Call.Sealed ks
  turning : List.Forall₂ Turning s.tasks ks

theorem answer?_activity (h : c.turn.isSome = true) : c.activity.answer? = none := by
  cases c <;> first | rfl | cases h

theorem Watched.begins {ts : List Task} (h : Watched ⟨e, ts⟩ ks) (hc : c.Tends)
    (ht : ∀ k ∈ ks, ∀ locked locked', k.turn = some locked → c.turn = some locked' →
      locked = locked') : Watched ⟨e, ts ++ [⟨c, c.activity⟩]⟩ (ks ++ [c.hand]) := by
  refine ⟨h.abides.begins (held_hand e c) (fun k hk => apart_hand (ht k hk)) (activity_abides hc),
    List.rel_append h.turning (.cons ?_ .nil)⟩
  show c.turn = if c.activity.answer?.isSome then none else c.turn
  cases hturn : c.turn with
  | none => exact (ite_self _).symm
  | some locked => rw [answer?_activity (hturn ▸ rfl)]; rfl

theorem Watched.goes {before after : List Task} {x y : Activity Engine c.Answer}
    (h : Watched ⟨e, before ++ ⟨c, x⟩ :: after⟩ ks) (hx : x.step? e = some (y, e')) :
    ∃ before' k after' k', ks = before' ++ k :: after' ∧ before'.length = before.length ∧
      Held e k ∧ Acts e k e' k' ∧ k.turn = c.turn ∧
      Scene.Abides sharing Call.Sealed ⟨e', before ++ ⟨c, y⟩ :: after⟩ (before' ++ k' :: after') ∧
      Watched ⟨e', before ++ ⟨c, y⟩ :: after⟩
        (before' ++ (if y.answer?.isSome then .empty else k') :: after') := by
  obtain ⟨before', k, after', k', rfl, hl, hk, ha, hab⟩ := h.abides.goes hx
  obtain ⟨htb, ht, hta⟩ := (forall₂_append_cons_iff hl).mp h.turning
  have hxn : x.answer? = none := by
    cases x with
    | done a => cases hx
    | _ => rfl
  have ht : k.turn = c.turn := by
    rw [show k.turn = if x.answer?.isSome then none else c.turn from ht, hxn]
    rfl
  refine ⟨before', k, after', k', rfl, hl, hk, ha, ht, hab, ?_⟩
  cases hy : y.answer? with
  | none =>
    refine ⟨hab, (forall₂_append_cons_iff hl).mpr ⟨htb, ?_, hta⟩⟩
    show k'.turn = if y.answer?.isSome then none else c.turn
    rw [hy]
    exact (Acts.turn ha).trans ht
  | some a =>
    refine ⟨hab.lets hl hy (held_empty e') apart_empty fun _ => sealed_empty c a,
      (forall₂_append_cons_iff hl).mpr ⟨htb, ?_, hta⟩⟩
    show none = if y.answer?.isSome then none else c.turn
    rw [hy]
    rfl

theorem Watched.shaken {ts : List Task} (h : Watched ⟨e, ts⟩ ks) (hs : e.Shaken e') :
    Watched ⟨e', ts⟩ ks :=
  ⟨h.abides.shaken (h.abides.sound.shaken hs) fun k => .of_shaken hs k, h.turning⟩

-- ---- a set that is locked ------------------------------------------------

/-- New buckets are locked, those that are registered are shut, and nobody is about to register one
that is not. -/
structure Closed (e : Engine) (ks : List Hand) : Prop where
  locked : e.locked = true
  shut : ∀ b, Registered b e → Shut b e
  lax : ∀ k ∈ ks, k.lax = false

theorem Acts.registered (h : Acts e k e' k') (hb : Registered b e') :
    Registered b e ∨ k.lax = true ∨ Shut b e' := by
  cases h with
  | registers _ _ _ _ hl =>
    rcases registered_insert hb with rfl | hb
    · exact .inr (hl.imp_right .inl)
    · exact .inl hb
  | forgets => exact .inl (registered_erase hb)
  | _ => exact .inl hb

theorem Closed.acts (h : Closed e (before' ++ k :: after')) (hs : Sound e) (hk : Held e k)
    (ha : Acts e k e' k') (hl : e'.locked = true) : Closed e' (before' ++ k' :: after') := by
  obtain ⟨hlb, hlk, hla⟩ := List.forall_mem_append.mp h.lax |>.imp_right List.forall_mem_cons.mp
  have hturned : k.turned ≠ some false := fun ht => by cases h.locked.symm.trans (hk.turned ht).2
  refine ⟨hl, fun b hb => ?_, List.forall_mem_append.mpr ⟨hlb, List.forall_mem_cons.mpr ⟨?_, hla⟩⟩⟩
  · rcases ha.registered hb with hb | hlax | hshut
    · exact ha.shut hs hk hturned (.inl hb) (h.shut b hb)
    · cases hlk.symm.trans hlax
    · exact hshut
  · cases ha with
    | looks _ hf => cases h.locked.symm.trans hf
    | leaves => rfl
    | _ => exact hlk

theorem Closed.lets (h : Closed e (before' ++ k :: after')) (hk : k'.lax = true → k.lax = true) :
    Closed e (before' ++ k' :: after') := by
  obtain ⟨hlb, hlk, hla⟩ := List.forall_mem_append.mp h.lax |>.imp_right List.forall_mem_cons.mp
  refine ⟨h.locked, h.shut, List.forall_mem_append.mpr ⟨hlb, List.forall_mem_cons.mpr ⟨?_, hla⟩⟩⟩
  exact eq_false_of_ne_true fun hl => nomatch hlk.symm.trans (hk hl)

/-- A call that has sealed every bucket has closed the set. -/
theorem closed_of_seals {ts : List Task} (h : Scene.Abides sharing Call.Sealed ⟨e, ts⟩ ks)
    (hk : k ∈ ks) (hs : k.seals = some []) : Closed e ks := by
  have hheld := h.holds hk
  have hseals := hheld.seals hs
  refine ⟨(hheld.turned hseals.turned).2, fun b hb => ?_, fun j hj => ?_⟩
  · exact (hseals.shut b hb).resolve_right (List.not_mem_nil)
  · refine eq_false_of_ne_true fun hl => ?_
    by_cases hjk : j = k
    · subst hjk
      cases hseals.registers.symm.trans (hheld.lax hl)
    · have : Std.Symm sharing.Apart := ⟨fun _ _ h => sharing.symm h⟩
      have hapart : j.Apart k := h.apart.forall hj hk hjk
      exact hapart.lax ⟨hl, hs ▸ rfl⟩

def lockDone : Task := ⟨.lock, .done (.ok ())⟩

/-- Nobody unlocks buckets. -/
structure Locking (s : Scene) (ks : List Hand) : Prop extends Watched s ks where
  locks : ∀ k ∈ ks, k.turn ≠ some false

theorem Locking.step (h : Locking s ks) (hs : s.Step Call.activity Call.Spares Engine.Shaken s') :
    ∃ ks', Locking s' ks' ∧ (Closed s.state ks → Closed s'.state ks') ∧
      (lockDone ∈ s'.tasks → lockDone ∈ s.tasks ∨ Closed s'.state ks') := by
  cases hs with
  | @call e ts c hc =>
    refine ⟨_, ⟨h.begins hc.tends fun k hk l l' hl hl' => ?_, ?_⟩, fun hcl => ?_, fun ht => ?_⟩
    · cases l with
      | false => exact absurd hl (h.locks k hk)
      | true =>
        cases l' with
        | false => exact absurd hl' hc.turn_ne
        | true => rfl
    · exact List.forall_mem_append.mpr ⟨h.locks, List.forall_mem_singleton.mpr hc.turn_ne⟩
    · exact ⟨hcl.locked, hcl.shut, List.forall_mem_append.mpr
        ⟨hcl.lax, List.forall_mem_singleton.mpr rfl⟩⟩
    · refine (List.mem_append.mp ht).imp_right fun ht => ?_
      have := List.mem_singleton.mp ht
      cases c <;> cases this
  | @task e e' before after c x y hx =>
    obtain ⟨before', k, after', k', rfl, hl, hk, ha, hturn, hab, hw⟩ := h.toWatched.goes hx
    obtain ⟨hlb, hlk, hla⟩ :=
      List.forall_mem_append.mp h.locks |>.imp_right List.forall_mem_cons.mp
    have hlets (hcl : Closed e' (before' ++ k' :: after')) :
        Closed e' (before' ++ (if y.answer?.isSome then .empty else k') :: after') :=
      hcl.lets (by split <;> first | exact id | nofun)
    refine ⟨_, ⟨hw, List.forall_mem_append.mpr ⟨hlb, List.forall_mem_cons.mpr ⟨?_, hla⟩⟩⟩,
      fun hcl => ?_, fun ht => ?_⟩
    · split
      · nofun
      · exact ha.turn ▸ hlk
    · refine hlets (hcl.acts h.abides.sound hk ha ?_)
      rcases ha.locked with hl | ⟨hl, -⟩
      · exact hl.trans hcl.locked
      · cases he : e'.locked with
        | true => rfl
        | false => exact absurd (he ▸ hl) hlk
    · rcases List.mem_append.mp ht with ht | ht
      · exact .inl (List.mem_append_left _ ht)
      rcases List.mem_cons.mp ht with ht | ht
      · -- The call has just been answered.
        cases ht
        have hs := hab.answered hl rfl
        refine .inr (hlets (closed_of_seals hab (k := k') (by simp) (hs.resolve_left ?_)))
        rw [ha.turn, hturn]
        nofun
      · exact .inl (List.mem_append_right _ (List.mem_cons_of_mem _ ht))
  | around hs =>
    refine ⟨ks, ⟨h.shaken hs, h.locks⟩, fun hcl => ?_, .inl⟩
    obtain ⟨faults, clock, -, rfl⟩ := hs
    exact ⟨hcl.locked, hcl.shut, hcl.lax⟩

theorem Locking.run (h : Locking s ks)
    (hr : Scene.Run Call.activity Call.Spares Engine.Shaken s s') :
    ∃ ks', Locking s' ks' ∧ (Closed s.state ks → Closed s'.state ks') ∧
      (lockDone ∈ s'.tasks → lockDone ∈ s.tasks ∨ Closed s'.state ks') := by
  induction hr with
  | refl => exact ⟨ks, h, id, .inl⟩
  | tail _ hs ih =>
    obtain ⟨ks₁, h₁, hc₁, ht₁⟩ := ih
    obtain ⟨ks₂, h₂, hc₂, ht₂⟩ := h₁.step hs
    exact ⟨ks₂, h₂, fun hc => hc₂ (hc₁ hc), fun ht =>
      (ht₂ ht).elim (fun ht => (ht₁ ht).imp_right hc₂) .inr⟩

-- ---- what eviction does to the store ---------------------------------------

/-- Maps of the store stay as they are, or go. -/
def thinning : Bookkeeping Engine Unit where
  Always _ := True
  Moves e _ e' _ := ∀ m, e'.store.entries? m = e.store.entries? m ∨ e'.store.entries? m = none
  always _ _ := trivial
  refl _ _ _ := .inl rfl
  trans h h' m := by
    rcases h' m with h' | h'
    · exact (h m).imp h'.trans h'.trans
    · exact .inr h'

/-- No step of the activity does more to the store than remove maps. -/
def Thin {α : Type} (x : Activity Engine α) : Prop := x.Keeps thinning () fun _ _ => True

abbrev Thins {α : Type} (op : Operation α) : Prop := Thin op.run

namespace Thins

variable {α β : Type}

theorem pure' (a : α) : Thins (pure a) := Activity.Keeps.pure' trivial

theorem throw' (p : EngineError) : Thins (throw p : Operation α) := Activity.Keeps.pure' trivial

theorem bind {op : Operation α} {f : α → Operation β} (h : Thins op) (hf : ∀ a, Thins (f a)) :
    Thins (op >>= f) := by
  refine Activity.Keeps.bind h ?_
  rintro (p | a) ⟨⟩ -
  · exact Activity.Keeps.pure' trivial
  · exact hf a

theorem lift {x : Activity Engine α} (h : Thin x) : Thins (liftM x) :=
  Activity.Keeps.bind h fun _ _ _ => Activity.Keeps.pure' trivial

theorem observe (f : Engine → α) : Thins (liftM (Activity.observe f)) :=
  lift (Activity.Keeps.observe fun _ _ => trivial)

theorem whenever {ready : Engine → Bool} {act : Engine → α × Engine}
    (h : ∀ e, (act e).2.store = e.store) : Thin (Activity.whenever ready act) :=
  Activity.Keeps.whenever fun e _ _ => ⟨(), fun _ => .inl (by rw [h]), trivial⟩

theorem change {f : Engine → Engine} (h : ∀ e, (f e).store = e.store) :
    Thin (Activity.change f) :=
  Activity.Keeps.change fun e _ => ⟨(), fun _ => .inl (by rw [h]), trivial⟩

theorem removeMap (m : String) : Thins (call (.removeMap m)) := by
  refine Activity.Keeps.atomically fun e _ => ⟨(), fun m' => ?_, trivial⟩
  have heffect : (Request.removeMap m).effect e.store.entries? m' = e.store.entries? m' ∨
      (Request.removeMap m).effect e.store.entries? m' = none := by
    by_cases hm : m' = m
    · exact .inr (if_pos hm)
    · exact .inl (if_neg hm)
  cases ha : e.store.answer (.removeMap m) with
  | mk a s =>
    show s.entries? m' = e.store.entries? m' ∨ s.entries? m' = none
    cases a with
    | ok a =>
      rw [(Store.replies_of_ok ha).2]
      exact heffect
    | error p =>
      rcases Store.entries?_of_removeMap_error ha with hs | hs
      · exact .inl (congrFun hs m')
      · rw [hs]
        exact heffect

theorem alone {b : Bucket} {op : Operation α} (h : Thins op) : Thins (b.alone op) :=
  Activity.Keeps.bind (whenever fun _ => rfl) fun _ _ _ => Activity.Keeps.bind h fun _ _ _ =>
    Activity.Keeps.bind (change fun _ => rfl) fun _ _ _ => Activity.Keeps.pure' trivial

theorem discard (b : Bucket) : Thins (b.discard false) := by
  refine alone (bind (observe _) fun s => ?_)
  split
  · exact pure' false
  have hclear : Thins (do
      b.setIndex .empty 0
      b.setState .dropped
      return true) :=
    bind (lift (change fun _ => rfl)) fun _ => bind (lift (change fun _ => rfl)) fun _ => pure' true
  dsimp only
  split
  · exact bind (removeMap _) fun _ => bind (removeMap _) fun _ => hclear
  · exact hclear

theorem registry : Thin EventSet.registry := whenever fun _ => rfl

theorem evict (hours : List Hour) (n : Nat) : Thins (EventSet.evict hours n) := by
  induction hours generalizing n with
  | nil => exact pure' n
  | cons hour rest ih =>
    refine bind (lift (Activity.Keeps.bind registry fun _ _ _ => Activity.Keeps.pure' trivial))
      fun r => ?_
    cases r with
    | none => exact ih n
    | some b =>
      refine bind (discard b) fun done => ?_
      cases done with
      | false => exact ih n
      | true =>
        refine bind (lift (whenever fun e => ?_)) fun _ => ih (n + 1)
        dsimp only
        split <;> rfl

theorem purge : Thins EventSet.purge := bind (lift registry) fun _ => evict _ 0

theorem dropData (now : Instant) : Thins (EventSet.dropData now) := by
  refine bind (observe _) fun retention => ?_
  split
  · exact bind (lift registry) fun _ => evict _ 0
  · exact throw' _

end Thins

/-- The task is to evict buckets and has not done anything else. -/
def Thinning (t : Task) : Prop :=
  t.call.Evicts → Thin t.rest

theorem thinning_activity (c : Call) : Thinning ⟨c, c.activity⟩ := by
  intro hc
  cases c with
  | purge => exact Thins.purge
  | dropData now => exact Thins.dropData now
  | _ => exact hc.elim

theorem thinning_of_run {P : Call → Prop}
    (hr : Scene.Run Call.activity P Engine.Shaken s s') (h : ∀ t ∈ s.tasks, Thinning t) :
    ∀ t ∈ s'.tasks, Thinning t :=
  hr.tasks h (fun c _ => thinning_activity c) fun hx hs hc => by
    obtain ⟨_, -, hy⟩ := (hx hc).step? trivial hs
    exact hy

/-- While a set is closed eviction leaves the store as it is. -/
theorem Closed.entries? {x y : Activity Engine c.Answer} (hc : Closed s.state ks)
    (h : s.Abides sharing Call.Sealed ks) (ht : Thinning ⟨c, x⟩) (he : c.Evicts)
    (hm : ⟨c, x⟩ ∈ s.tasks) (hx : x.step? s.state = some (y, e')) :
    e'.store.entries? = s.state.store.entries? := by
  obtain ⟨state, tasks⟩ := s
  obtain ⟨before, after, rfl⟩ := List.append_of_mem hm
  obtain ⟨before', k, after', k', rfl, -, hk, ha, -⟩ := h.goes hx
  obtain ⟨_, hthin, -⟩ := (ht he).step? trivial hx
  have ha : Acts state k e' k' := ha
  cases ha with
  | asks store cache hmaps =>
    refine funext fun m => (hthin m).elim id fun hn => ?_
    cases hv : state.store.entries? m with
    | none => exact hn.trans rfl
    | some es =>
      have hn : store.entries? m = none := hn
      have := hmaps m (hv ▸ rfl)
      rw [hn] at this
      cases this
  | removes hb hs =>
    exact absurd ((hk.known hb).elim (hc.shut _) .inr) hs
  | _ => rfl

/-- From the moment that a call has locked the set every registered bucket is locked unless it has
been dropped before, and no step of a call that evicts changes what the store holds. -/
theorem protected_of_run (h₀ : Sound e₀)
    (hr : Scene.Run Call.activity Call.Spares Engine.Shaken ⟨e₀, []⟩ s) (hl : lockDone ∈ s.tasks)
    (hr' : Scene.Run Call.activity Call.Spares Engine.Shaken s s') :
    (∀ b, Registered b s'.state →
      (s'.state.data b).state = .locked ∨ (s'.state.data b).state = .dropped) ∧
    ∀ (c : Call) (x y : Activity Engine c.Answer) (e : Engine), c.Evicts → ⟨c, x⟩ ∈ s'.tasks →
      x.step? s'.state = some (y, e) → e.store.entries? = s'.state.store.entries? := by
  have hstart : Locking ⟨e₀, []⟩ [] := ⟨⟨⟨h₀, .nil, .nil⟩, .nil⟩, List.forall_mem_nil _⟩
  obtain ⟨ks, h, -, hc⟩ := hstart.run hr
  obtain ⟨ks', h', hc', -⟩ := h.run hr'
  have hc := hc' ((hc hl).resolve_left List.not_mem_nil)
  have ht := thinning_of_run hr' (thinning_of_run hr (List.forall_mem_nil _))
  exact ⟨hc.shut, fun c x y e he hm hx => hc.entries? h'.abides (ht _ hm) he hm hx⟩

theorem sound_of_quiet (h : Quiet e) : Sound e :=
  ⟨h.hour, h.here, fun hb => .inl (h.usable hb).writable⟩

def isLockDone : Task → Bool
  | ⟨.lock, .done (.ok ())⟩ => true
  | _ => false

def isLockFailed : Task → Bool
  | ⟨.lock, .done (.error _)⟩ => true
  | _ => false

theorem mem_of_isLockDone {ts : List Task} (h : ts.any isLockDone = true) : lockDone ∈ ts := by
  obtain ⟨t, ht, hd⟩ := List.any_eq_true.mp h
  unfold isLockDone at hd
  split at hd
  · exact ht
  · cases hd

/-- Two hours have an event each. One of them is being evicted when the set is locked. -/
def lockedMeanwhile : Scene :=
  .turns Call.activity (.fresh .inMemory .standard .standard)
    [.add (Event.new 1709647200000), .add (Event.new 1709650800000), .purge, .lock,
      .getOrCreate ⟨474904⟩]
    (.replicate 24 0 ++ .replicate 24 1 ++ .replicate 4 2 ++ .replicate 3 3 ++ .replicate 5 2 ++
      .replicate 20 3)

def lockedLater : Scene :=
  (.replicate 30 2 ++ .replicate 30 4 : List Nat).foldl .turn lockedMeanwhile

/-- The other hour is kept, and the new bucket is locked. -/
theorem protected_of_run_of_locked : ∃ e₀ s s', Sound e₀ ∧
    Scene.Run Call.activity Call.Spares Engine.Shaken ⟨e₀, []⟩ s ∧ lockDone ∈ s.tasks ∧
    Scene.Run Call.activity Call.Spares Engine.Shaken s s' ∧ s'.isQuiet = true ∧
    (s.state.registry.values.map fun b => (s.state.data b).state) = [.dropped, .locked] ∧
    (s'.state.registry.values.map fun b => (s'.state.data b).state) = [.locked, .locked] ∧
    ∀ b, Registered b s'.state →
      (s'.state.data b).state = .locked ∨ (s'.state.data b).state = .dropped := by
  have h₀ : Sound (.fresh .inMemory .standard .standard) :=
    sound_of_quiet (quiet_fresh _ (Cache.sound_new _ _) _)
  have hr : Scene.Run Call.activity Call.Spares Engine.Shaken
      ⟨.fresh .inMemory .standard .standard, []⟩ lockedMeanwhile :=
    Scene.run_turns (by decide +kernel) _
  have hl : lockDone ∈ lockedMeanwhile.tasks := mem_of_isLockDone (by decide +kernel)
  have hr' : Scene.Run Call.activity Call.Spares Engine.Shaken lockedMeanwhile lockedLater :=
    Scene.run_places _ _
  exact ⟨_, _, _, h₀, hr, hl, hr', by decide +kernel, by decide +kernel, by decide +kernel,
    (protected_of_run h₀ hr hl hr').1⟩

-- ---- locking and unlocking -----------------------------------------------

/-- Nobody locks buckets while another unlocks them. -/
def OneWay (s : Scene) : Prop :=
  ∀ t ∈ s.tasks, ∀ t' ∈ s.tasks, t.rest.answer? = none → t'.rest.answer? = none →
    ∀ locked locked', t.call.turn = some locked → t'.call.turn = some locked' → locked = locked'

/-- What comes of `e₀` when buckets are never locked and unlocked at a time. -/
inductive Course (e₀ : Engine) : Scene → Prop
  | start : Course e₀ ⟨e₀, []⟩
  | step {s s' : Scene} (h : Course e₀ s)
    (hs : s.Step Call.activity Call.Tends Engine.Shaken s') (hw : OneWay s') : Course e₀ s'

/-- Where the set says that it is locked it is, or some call is about to lock it or has failed. -/
def Firm (s : Scene) (ks : List Hand) : Prop :=
  s.state.locked = true → Closed s.state ks ∨ (∃ k ∈ ks, k.turned = some true) ∨
    ∃ p, ⟨.lock, .done (.error p)⟩ ∈ s.tasks

theorem Turning.working {t : Task} {locked : Bool} (h : Turning t k)
    (hk : k.turn = some locked) : t.rest.answer? = none ∧ t.call.turn = some locked := by
  rw [Turning, hk] at h
  cases ht : t.rest.answer? with
  | none =>
    rw [ht] at h
    exact ⟨rfl, h.symm⟩
  | some a =>
    rw [ht] at h
    cases h

theorem Watched.oneWay {ts : List Task} (h : Watched ⟨e, ts⟩ ks)
    (hw : OneWay ⟨e, ts ++ [⟨c, c.activity⟩]⟩) : ∀ k ∈ ks, ∀ locked locked',
      k.turn = some locked → c.turn = some locked' → locked = locked' := by
  intro k hk l l' hl hl'
  obtain ⟨t, ht, hturn⟩ := exists_mem_of_forall₂ h.turning hk
  obtain ⟨hwork, hturn⟩ := hturn.working hl
  exact hw t (List.mem_append_left _ ht) ⟨c, c.activity⟩ (by simp) hwork
    (answer?_activity (hl' ▸ rfl)) l l' hturn hl'

theorem Firm.begins {ts : List Task} (h : Firm ⟨e, ts⟩ ks) (c : Call) :
    Firm ⟨e, ts ++ [⟨c, c.activity⟩]⟩ (ks ++ [c.hand]) := by
  intro hl
  rcases h hl with hc | ⟨k, hk, ht⟩ | ⟨p, hp⟩
  · exact .inl ⟨hc.locked, hc.shut, List.forall_mem_append.mpr
      ⟨hc.lax, List.forall_mem_singleton.mpr rfl⟩⟩
  · exact .inr (.inl ⟨k, List.mem_append_left _ hk, ht⟩)
  · exact .inr (.inr ⟨p, List.mem_append_left _ hp⟩)

theorem firm_of_turned {before after : List Task} {y : Activity Engine c.Answer}
    (h : Scene.Abides sharing Call.Sealed ⟨e, before ++ ⟨c, y⟩ :: after⟩ (before' ++ k :: after'))
    (hl : before'.length = before.length) (hc : k.turn = c.turn) (ht : k.turned = some true) :
    Firm ⟨e, before ++ ⟨c, y⟩ :: after⟩
      (before' ++ (if y.answer?.isSome then .empty else k) :: after') := by
  intro _
  have hturn : c.turn = some true := hc.symm.trans ((h.holds (by simp)).turned ht).1
  cases hy : y.answer? with
  | none => exact .inr (.inl ⟨k, by simp, ht⟩)
  | some a =>
    cases c <;> cases hturn
    cases y with
    | done r =>
      cases r with
      | ok _ =>
        have hs := (h.answered hl rfl).resolve_left (hc ▸ nofun)
        exact .inl ((closed_of_seals h (by simp) hs).lets nofun)
      | error p => exact .inr (.inr ⟨p, by simp⟩)
    | _ => cases hy

theorem Course.firm (h₀ : Sound e₀) (hk : Closed e₀ [] ∨ e₀.locked = false) (h : Course e₀ s) :
    ∃ ks, Watched s ks ∧ Firm s ks := by
  induction h with
  | start =>
    refine ⟨[], ⟨⟨h₀, .nil, .nil⟩, .nil⟩, fun hl => .inl (hk.resolve_right ?_)⟩
    exact Bool.not_eq_false _ ▸ hl
  | step _ hs hw ih =>
    obtain ⟨ks, h, hf⟩ := ih
    cases hs with
    | call hc => exact ⟨_, h.begins hc (h.oneWay hw), hf.begins _⟩
    | @task e e' before after c x y hx =>
      obtain ⟨before', k, after', k', rfl, hl, hk, ha, hturn, hab, hw'⟩ := h.goes hx
      refine ⟨_, hw', ?_⟩
      have hturned (ht : k'.turned = some true) := firm_of_turned hab hl (ha.turn.trans hturn) ht
      intro hlocked
      rcases ha.locked with hl' | ⟨-, ht⟩
      · have hlocked' : e.locked = true := hl'.symm.trans hlocked
        rcases hf hlocked' with hc | ⟨j, hj, ht⟩ | ⟨p, hp⟩
        · refine .inl ((hc.acts h.abides.sound hk ha hlocked).lets ?_)
          split
          · nofun
          · exact id
        · rcases List.mem_append.mp hj with hj | hj
          · exact .inr (.inl ⟨j, List.mem_append_left _ hj, ht⟩)
          rcases List.mem_cons.mp hj with rfl | hj
          · exact hturned (ha.turned hk ht) hlocked
          · exact .inr (.inl ⟨j, List.mem_append_right _ (List.mem_cons_of_mem _ hj), ht⟩)
        · exact .inr (.inr ⟨p, Scene.mem_of_done hx hp rfl⟩)
      · exact hturned (ht.trans (congrArg some hlocked)) hlocked
    | around hs =>
      refine ⟨ks, h.shaken hs, fun hl => ?_⟩
      obtain ⟨faults, clock, -, rfl⟩ := hs
      exact (hf hl).imp_left fun hc => ⟨hc.locked, hc.shut, hc.lax⟩

theorem Course.run (h : Course e₀ s) :
    Scene.Run Call.activity Call.Tends Engine.Shaken ⟨e₀, []⟩ s := by
  induction h with
  | start => exact .refl
  | step _ hs _ ih => exact ih.tail hs

/-- The set does not say that it is locked while it is not. -/
def Kept (e : Engine) : Prop := e.locked = true → ∀ b, Registered b e → Shut b e

/-- If buckets are never locked and unlocked at a time and the store has refused to lock none, then,
whenever no call is at either, a set that says it is locked is locked: as long as it is not unlocked
no step of a call that evicts changes what the store holds. -/
theorem kept_of_course (h₀ : Sound e₀) (hk : Kept e₀) (h : Course e₀ s)
    (hidle : ∀ t ∈ s.tasks, t.call.turn.isSome = true → t.rest.answer?.isSome = true)
    (hok : ∀ p, ⟨.lock, .done (.error p)⟩ ∉ s.tasks) (hl : s.state.locked = true) :
    (∀ b, Registered b s.state →
      (s.state.data b).state = .locked ∨ (s.state.data b).state = .dropped) ∧
    ∀ s', Scene.Run Call.activity Call.Spares Engine.Shaken s s' →
      ∀ (c : Call) (x y : Activity Engine c.Answer) (e : Engine), c.Evicts → ⟨c, x⟩ ∈ s'.tasks →
        x.step? s'.state = some (y, e) → e.store.entries? = s'.state.store.entries? := by
  have hstart : Closed e₀ [] ∨ e₀.locked = false := by
    cases hl₀ : e₀.locked with
    | false => exact .inr rfl
    | true => exact .inl ⟨hl₀, hk hl₀, List.forall_mem_nil _⟩
  obtain ⟨ks, hw, hf⟩ := h.firm h₀ hstart
  -- Nobody is about to lock or unlock anything.
  have hturn : ∀ k ∈ ks, k.turn = none := by
    intro k hk
    obtain ⟨t, ht, hturn⟩ := exists_mem_of_forall₂ hw.turning hk
    cases hkt : k.turn with
    | none => rfl
    | some locked =>
      obtain ⟨hwork, hcall⟩ := Turning.working hturn hkt
      have := hidle t ht (hcall ▸ rfl)
      rw [hwork] at this
      cases this
  have hc : Closed s.state ks := by
    rcases hf hl with hc | ⟨k, hk, ht⟩ | ⟨p, hp⟩
    · exact hc
    · cases (hturn k hk).symm.trans ((hw.abides.holds hk).turned ht).1
    · exact absurd hp (hok p)
  refine ⟨hc.shut, fun s' hr' c x y e he hm hx => ?_⟩
  have hlocking : Locking s ks := ⟨hw, fun k hk => by rw [hturn k hk]; nofun⟩
  obtain ⟨ks', h', hc', -⟩ := hlocking.run hr'
  have ht := thinning_of_run hr' (thinning_of_run h.run (List.forall_mem_nil _))
  exact (hc' hc).entries? h'.abides (ht _ hm) he hm hx

/-- So it is as long as nothing is unlocked. -/
theorem course_of_run (hr : Scene.Run Call.activity Call.Spares Engine.Shaken ⟨e₀, []⟩ s) :
    Course e₀ s := by
  induction hr with
  | refl => exact .start
  | @tail u s' hr hs ih =>
    have hspares := Scene.Run.tasks (P := fun t => t.call.Spares) (hr.tail hs)
      nofun (fun _ hc => hc) fun hc _ => hc
    have hs : u.Step Call.activity Call.Tends Engine.Shaken s' := by
      cases hs with
      | call hc => exact .call hc.tends
      | task hx => exact .task hx
      | around ha => exact .around ha
    refine ih.step hs fun t ht t' ht' _ _ l l' hl hl' => ?_
    cases l with
    | false => exact absurd hl (hspares t ht).turn_ne
    | true =>
      cases l' with
      | false => exact absurd hl' (hspares t' ht').turn_ne
      | true => rfl

theorem kept_of_course_of_locked : ∃ e₀ s, Sound e₀ ∧ Kept e₀ ∧ Course e₀ s ∧
    (∀ t ∈ s.tasks, t.call.turn.isSome = true → t.rest.answer?.isSome = true) ∧
    (∀ p, ⟨.lock, .done (.error p)⟩ ∉ s.tasks) ∧ s.state.locked = true ∧
    (s.state.registry.values.map fun b => (s.state.data b).state) = [.dropped, .locked] ∧
    ∀ b, Registered b s.state →
      (s.state.data b).state = .locked ∨ (s.state.data b).state = .dropped := by
  have h₀ : Sound (.fresh .inMemory .standard .standard) :=
    sound_of_quiet (quiet_fresh _ (Cache.sound_new _ _) _)
  have hk : Kept (.fresh .inMemory .standard .standard) := nofun
  have h : Course (.fresh .inMemory .standard .standard) lockedMeanwhile :=
    course_of_run (Scene.run_turns (by decide +kernel) _)
  have hidle : ∀ t ∈ lockedMeanwhile.tasks, t.call.turn.isSome = true →
      t.rest.answer?.isSome = true := by
    intro t ht hturn
    have : lockedMeanwhile.tasks.all
        (fun t => !t.call.turn.isSome || t.rest.answer?.isSome) = true := by decide +kernel
    simpa [hturn] using List.all_eq_true.mp this t ht
  have hok : ∀ p, ⟨.lock, .done (.error p)⟩ ∉ lockedMeanwhile.tasks := by
    intro p hp
    have : lockedMeanwhile.tasks.any isLockFailed = false := by decide +kernel
    have := List.any_eq_false.mp this _ hp
    exact this rfl
  have hl : lockedMeanwhile.state.locked = true := by decide +kernel
  exact ⟨_, _, h₀, hk, h, hidle, hok, hl, by decide +kernel,
    (kept_of_course h₀ hk h hidle hok hl).1⟩

-- ---- two runs ------------------------------------------------------------

def refusedLock : Scene :=
  .turns Call.activity (.fresh { Store.inMemory with faults :=
      [⟨.commit, some (Hour.optionsMap ⟨474902⟩)⟩] } .standard .standard)
    [.getOrCreate ⟨474902⟩, .lock] (.replicate 30 0 ++ .replicate 20 1)

/-- The set says that it is locked all the same. -/
theorem not_kept_of_refused : Scene.Run Call.activity Call.Tends Engine.Shaken
      ⟨.fresh { Store.inMemory with faults := [⟨.commit, some (Hour.optionsMap ⟨474902⟩)⟩] }
        .standard .standard, []⟩ refusedLock ∧
    refusedLock.isQuiet = true ∧ refusedLock.state.locked = true ∧
      (refusedLock.state.registry.values.map fun b => (refusedLock.state.data b).state) =
        [.ready] :=
  ⟨Scene.run_turns (by simp [Call.Tends]) _, by decide +kernel, by decide +kernel,
    by decide +kernel⟩

/-- A bucket is locked by one call and unlocked by another that began before. -/
def crossed : Scene :=
  .turns Call.activity (.fresh .inMemory .standard .standard)
    [.getOrCreate ⟨474902⟩, .unlock, .lock]
    (.replicate 30 0 ++ .replicate 1 1 ++ .replicate 20 2 ++ .replicate 20 1)

theorem not_kept_of_crossed : Scene.Run Call.activity Call.Tends Engine.Shaken
      ⟨.fresh .inMemory .standard .standard, []⟩ crossed ∧
    crossed.isQuiet = true ∧ crossed.tasks.any isLockDone = true ∧ crossed.state.locked = true ∧
      (crossed.state.registry.values.map fun b => (crossed.state.data b).state) = [.ready] :=
  ⟨Scene.run_turns (by simp [Call.Tends]) _, by decide +kernel, by decide +kernel,
    by decide +kernel, by decide +kernel⟩

end Guard

end EventSet

end EventStore
