import EventStore.Proofs.Bucket.Representation

/-!
# The mark of a locked bucket

A mark in the store tells whether a bucket is locked, and whoever drops the bucket looks at its
state in memory. The two agree (`Guarded`) unless the store could not be read when the bucket was to
be rebuilt: until it has been read again the mark protects nothing (`discard_of_course`).
-/

namespace EventStore

open Query Operation

namespace Bucket

/-- Calls on the bucket of an hour, of which any may fail. `open?` is the bucket that was opened
last, and `unread` tells whether the last attempt to read it again has failed. -/
inductive Course (hour : Hour) : Engine → (open? : Option Bucket) → (unread : Bool) → Prop
  | start {e} : Course hour e none false
  | opened {e open? unread b e'} (h : Course hour e open? unread)
    (he : (openAt hour).Ends e (.ok b) e') : Course hour e' (some b) false
  | notOpened {e open? unread p e'} (h : Course hour e open? unread)
    (he : (openAt hour).Ends e (.error p) e') : Course hour e' open? unread
  | addAll {e b unread events r e'} (h : Course hour e (some b) unread)
    (he : (b.addAll events).Ends e r e') : Course hour e' (some b) unread
  | lock {e b unread r e'} (h : Course hour e (some b) unread) (he : b.lock.Ends e r e') :
    Course hour e' (some b) unread
  | unlock {e b unread r e'} (h : Course hour e (some b) unread) (he : b.unlock.Ends e r e') :
    Course hour e' (some b) unread
  | rebuilt {e b unread e'} (h : Course hour e (some b) unread)
    (he : b.rebuild.Ends e (.ok ()) e') : Course hour e' (some b) false
  | notRebuilt {e b unread p e'} (h : Course hour e (some b) unread)
    (he : b.rebuild.Ends e (.error p) e') : Course hour e' (some b) true
  | discarded {e b unread goOn done e'} (h : Course hour e (some b) unread)
    (he : (b.discard goOn).Ends e (.ok done) e') : Course hour e' (some b) false
  | notDiscarded {e b unread goOn p e'} (h : Course hour e (some b) unread)
    (he : (b.discard goOn).Ends e (.error p) e') : Course hour e' (some b) unread
  | shaken {e open? unread e'} (h : Course hour e open? unread) (he : e.Shaken e') :
    Course hour e' open? unread

/-- As long as the bucket could be read it is locked where it is marked. -/
structure Guarded (b : Bucket) (unread : Bool) (c : Cell) : Prop where
  state : c.data.state = .uninitialized ↔ unread = true
  marked : unread = false → (c.data.state = .locked ↔ b.isMarked c.view = true)

variable {b : Bucket} {hour : Hour} {c : Cell} {v : View} {unread : Bool}

-- ---- what each operation preserves ---------------------------------------

theorem Guarded.rebuilt (h : b.Rebuilt v c) : b.Guarded false c := by
  obtain ⟨index, last, -, rfl⟩ := h
  have hm : b.isMarked (b.withMaps v) = b.isMarked v := isMarked_prepared (b.prepared_withMaps v)
  unfold markedState
  cases hv : b.isMarked v with
  | true => exact ⟨⟨nofun, nofun⟩, fun _ => ⟨fun _ => hm.trans hv, fun _ => rfl⟩⟩
  | false =>
    refine ⟨⟨nofun, nofun⟩, fun _ => ⟨nofun, fun h => ?_⟩⟩
    rw [hm, hv] at h
    cases h

theorem Guarded.added (h : b.Guarded unread c) (events : List Event) :
    b.Guarded unread (b.added events c) := by
  have hm : b.isMarked (b.added events c).view = b.isMarked c.view := by
    simp only [isMarked, Bucket.added, if_neg b.eventsMap_ne_optionsMap.symm]
  exact ⟨h.state, fun hu => hm ▸ h.marked hu⟩

theorem Guarded.marking (h : b.Guarded unread c) (hw : c.data.state.isWritable = true)
    (ho : (c.view b.optionsMap).isSome) (locked : Bool) :
    b.Guarded unread (b.marked locked c) := by
  have hu : unread = false := by
    cases unread with
    | false => rfl
    | true =>
      rw [h.state.mpr rfl] at hw
      cases hw
  obtain ⟨es, hes⟩ := Option.isSome_iff_exists.mp ho
  have hm : b.isMarked (b.marked locked c).view = locked := by
    simp only [isMarked, Bucket.marked, if_pos, hes, Option.map_some, Option.getD_some,
      Std.ExtTreeMap.getElem?_insert_self]
    cases locked <;> rfl
  subst hu
  refine ⟨?_, fun _ => ?_⟩
  · cases locked <;> constructor <;> rintro ⟨⟩
  · rw [hm]
    cases locked <;> simp [Bucket.marked]

theorem Guarded.emptied (h : b.Guarded unread c) (goOn : Bool) :
    b.Guarded false (b.emptied goOn c) := by
  have hcleared : b.isMarked (if c.data.state = .dropped then c.view else b.withoutMaps c.view) =
      false := by
    split
    · next hd =>
      have hu : unread = false := by
        cases unread with
        | false => rfl
        | true => cases hd.symm.trans (h.state.mpr rfl)
      refine eq_false_of_ne_true fun hm => ?_
      cases hd.symm.trans ((h.marked hu).mpr hm)
    · simp [isMarked, withoutMaps_apply, isLockMark]
  have hm : b.isMarked (b.emptied goOn c).view = false := by
    rw [show (b.emptied goOn c).view = if goOn then b.withMaps _ else _ from rfl]
    split
    · exact (isMarked_prepared (b.prepared_withMaps _)).trans hcleared
    · exact hcleared
  refine ⟨?_, fun _ => ?_⟩
  · cases goOn <;> constructor <;> rintro ⟨⟩
  · rw [hm]
    cases goOn <;> constructor <;> rintro ⟨⟩

theorem Guarded.undropped {c' : Cell} (h : b.Guarded unread c) (hc : b.Undropped goOn c c') :
    b.Guarded unread c' := by
  refine ⟨hc.state ▸ h.state, fun hu => ?_⟩
  have hm : ¬b.isMarked c.view = true := fun hm => hc.unlocked ((h.marked hu).mpr hm)
  rw [hc.state]
  exact ⟨fun hl => absurd hl hc.unlocked, fun h => absurd (hc.marked h) hm⟩

-- ---- whole runs ----------------------------------------------------------

/-- The bucket that was opened last is guarded. -/
structure Watched (hour : Hour) (e : Engine) (open? : Option Bucket) (unread : Bool) : Prop where
  here : ∀ b, open? = some b → b.number < e.opened.size
  guarded : ∀ b, open? = some b → b.Guarded unread (e.cell b)

theorem Watched.done {op : Operation α} {Q : α → Cell → Prop} {E : EngineError → Cell → Prop}
    {unread' : Bool} (h : Watched hour e (some b) unread) (hd : b.Does op (e.cell b) Q E)
    (he : op.Ends e r e') (hr : match r with
      | .ok a => ∀ c, Q a c → b.Guarded unread' c
      | .error p => ∀ c, E p c → b.Guarded unread' c) : Watched hour e' (some b) unread' := by
  have := hd e (h.here b rfl) rfl r e' he
  obtain ⟨hs, hg⟩ : b.Spares e e' ∧ b.Guarded unread' (e'.cell b) := by
    cases r with
    | ok a => exact ⟨this.1, hr _ this.2⟩
    | error p => exact ⟨this.1, hr _ this.2⟩
  constructor
  · rintro _ ⟨⟩
    exact hs.size ▸ h.here b rfl
  · rintro _ ⟨⟩
    exact hg

theorem Watched.marking (h : Watched hour e (some b) unread) (he : (b.setLock locked).Ends e r e') :
    Watched hour e' (some b) unread := by
  refine h.done (setLock_does _ _ _) he ?_
  cases r with
  | ok _ =>
    rintro c ⟨-, hw, ho, rfl⟩
    exact (h.guarded b rfl).marking hw ho locked
  | error p =>
    rintro c rfl
    exact h.guarded b rfl

theorem Watched.notOpened {open? : Option Bucket} (h : Watched hour e open? unread)
    (he : (openAt hour).Ends e (.error p) e') : Watched hour e' open? unread := by
  obtain ⟨-, -, rfl⟩ | ⟨b', -, hn, hs, v, hp, hc⟩ := openAt_triple _ _ _ _ he
  · exact h
  have hv : e'.store.entries? = v := congrArg Cell.view hc
  refine ⟨fun b hb => size_of_grown hs ▸ Nat.lt_succ_of_lt (h.here b hb), fun b hb => ?_⟩
  have hg := h.guarded b hb
  have hm : b.isMarked v = b.isMarked e.store.entries? := isMarked_prepared hp
  rw [Engine.cell, data_of_grown hs hn (h.here b hb), hv]
  exact ⟨hg.state, fun hu => hm ▸ hg.marked hu⟩

theorem Course.watched {open? : Option Bucket} (h : Course hour e open? unread) :
    Watched hour e open? unread := by
  induction h with
  | start => exact ⟨fun _ hb => (nomatch hb), fun _ hb => (nomatch hb)⟩
  | opened _ he ih =>
    obtain ⟨-, hn, hs, hr⟩ := openAt_triple _ _ _ _ he
    constructor
    · rintro _ ⟨⟩
      rw [size_of_grown hs, hn]
      exact Nat.lt_succ_self _
    · rintro _ ⟨⟩
      exact .rebuilt hr
  | notOpened _ he ih => exact ih.notOpened he
  | @addAll e b unread events r e' _ he ih =>
    refine ih.done (addAll_does _ _ _) he ?_
    cases r with
    | ok _ =>
      rintro c ⟨-, rfl, -⟩
      exact (ih.guarded b rfl).added events
    | error p =>
      rintro c rfl
      exact ih.guarded b rfl
  | lock _ he ih => exact ih.marking he
  | unlock _ he ih => exact ih.marking he
  | rebuilt _ he ih => exact ih.done (rebuild_does _ _) he fun c ⟨_, hr⟩ => .rebuilt hr
  | notRebuilt _ he ih =>
    refine ih.done (rebuild_does _ _) he ?_
    rintro c ⟨-, v, -, rfl⟩
    exact ⟨⟨fun _ => rfl, fun _ => rfl⟩, nofun⟩
  | @discarded e b unread goOn done e' _ he ih =>
    have hg := ih.guarded b rfl
    refine ih.done (discard_does _ _ _) he ?_
    rintro c ⟨-, ⟨-, hl, rfl⟩ | ⟨-, -, rfl⟩⟩
    · cases unread with
      | false => exact hg
      | true => exact absurd (hl.symm.trans (hg.state.mpr rfl)) nofun
    · exact hg.emptied goOn
  | @notDiscarded e b unread goOn p e' _ he ih =>
    exact ih.done (discard_does _ _ _) he fun c ⟨_, hc⟩ => (ih.guarded b rfl).undropped hc
  | shaken _ hs ih =>
    obtain ⟨faults, clock, -, rfl⟩ := hs
    exact ⟨ih.here, ih.guarded⟩

/-- Who would drop a marked bucket changes nothing, except after the store could not be read: then
the mark goes with the events. -/
theorem discard_of_course (h : Course hour e (some b) unread) (goOn : Bool)
    (hm : b.isMarked e.store.entries? = true) :
    (unread = false → ∀ r e', (b.discard goOn).Ends e r e' → r = .ok false ∧ e'.cell b = e.cell b) ∧
      (unread = true → ∀ done e', (b.discard goOn).Ends e (.ok done) e' → done = true ∧
        e'.store.entries? b.eventsMap = if goOn then some ∅ else none) := by
  have hw := h.watched
  have hg := hw.guarded b rfl
  have hd := discard_does b goOn (e.cell b) e (hw.here b rfl) rfl
  constructor
  · intro hu r e' he
    have hl : (e.cell b).data.state = .locked := (hg.marked hu).mpr hm
    have := hd r e' he
    cases r with
    | error p => exact absurd hl this.2.2.unlocked
    | ok done =>
      obtain ⟨-, -, ⟨rfl, -, hc⟩ | ⟨-, hn, -⟩⟩ := this
      · exact ⟨rfl, hc⟩
      · exact absurd hl hn
  · intro hu done e' he
    have hs : (e.cell b).data.state = .uninitialized := hg.state.mpr hu
    obtain ⟨-, -, ⟨-, hl, -⟩ | ⟨rfl, -, hc⟩⟩ := hd _ e' he
    · exact absurd (hs.symm.trans hl) nofun
    · refine ⟨rfl, ?_⟩
      rw [show e'.store.entries? = _ from congrArg Cell.view hc]
      simp only [emptied, hs, reduceCtorEq, if_false]
      cases goOn <;> simp [withMaps_apply, withoutMaps_apply]

-- ---- two runs ------------------------------------------------------------

/-- A bucket with an event that has been locked. -/
def openLocked (hour : Hour) : Operation Bucket := do
  let b ← openAt hour
  let _ ← b.addAll [firstEvent]
  b.lock
  return b

theorem course_of_openLocked (h : (openLocked hour).Ends e (.ok b) e') :
    Course hour e' (some b) false := by
  obtain ⟨b', e₁, ho, h⟩ := ends_bind_ok h
  obtain ⟨_, e₂, ha, h⟩ := ends_bind_ok h
  obtain ⟨_, e₃, hl, hb, rfl⟩ := ends_bind_ok h
  cases hb
  exact .lock (.addAll (.opened .start ho) ha) hl

/-- While it can be read it is not dropped. -/
theorem discard_of_course_of_locked : ∃ b e, Course ⟨474902⟩ e (some b) false ∧
    b.isMarked e.store.entries? = true ∧
      ∀ goOn r e', (b.discard goOn).Ends e r e' → r = .ok false ∧ e'.cell b = e.cell b := by
  obtain ⟨b, e, h, hm⟩ := exists_ends_of_any 0 (openLocked ⟨474902⟩)
    (.fresh .inMemory .standard .standard) (fun b e => b.isMarked e.store.entries?)
    (by decide +kernel)
  have hc := course_of_openLocked h
  exact ⟨b, e, hc, hm, fun goOn => (discard_of_course hc goOn hm).1 rfl⟩

/-- From now on the store refuses the calls. -/
def refuse (faults : List Fault) : Activity Engine Unit :=
  Activity.change fun e => { e with store := { e.store with faults := faults } }

theorem shaken_of_refuse {faults : List Fault} (h : Ends (liftM (refuse faults)) e (.ok a) e') :
    ∃ u, e.Shaken u ∧ u.Shaken e' := by
  obtain ⟨u, hu, h⟩ := ends_lift_ok h
  cases h
  exact ⟨u, hu, faults, u.clock, Nat.le_refl _, rfl⟩

def isMarkedThere (b : Bucket) : Activity Engine Bool :=
  Activity.observe fun e => b.isMarked e.store.entries? && (e.store.entries? b.eventsMap).isSome

/-- A locked bucket cannot be read and is dropped then. -/
def dropUnread (hour : Hour) : Operation (Bucket × Except EngineError Unit × Bool × Bool) := do
  let b ← openLocked hour
  refuse [⟨.scan, none⟩]
  let r ← outcome b.rebuild
  refuse []
  let marked ← b.isMarkedThere
  let done ← b.discard false
  return (b, r, marked, done)

theorem discarded_of_unread : ∃ b e e', Course ⟨474902⟩ e (some b) true ∧
    b.isMarked e.store.entries? = true ∧ (e.store.entries? b.eventsMap).isSome ∧
      (b.discard false).Ends e (.ok true) e' ∧ e'.store.entries? b.eventsMap = none := by
  obtain ⟨a, e', h, hp⟩ := exists_ends_of_any 0 (dropUnread ⟨474902⟩)
    (.fresh .inMemory .standard .standard)
    (fun (b, r, marked, done) e =>
      !r.toBool && marked && done && (e.store.entries? b.eventsMap).isNone)
    (by decide +kernel)
  obtain ⟨b, e₁, hl, h⟩ := ends_bind_ok h
  obtain ⟨_, e₂, hf, h⟩ := ends_bind_ok h
  obtain ⟨r, e₃, hr, h⟩ := ends_bind_ok h
  obtain ⟨_, e₄, hn, h⟩ := ends_bind_ok h
  obtain ⟨marked, e₅, hm, h⟩ := ends_bind_ok h
  obtain ⟨done, e₆, hd, ha, rfl⟩ := ends_bind_ok h
  cases ha
  simp only [Bool.and_eq_true] at hp
  obtain ⟨⟨⟨hr', hm'⟩, rfl⟩, hg⟩ := hp
  obtain ⟨u, hu, hu'⟩ := shaken_of_refuse hf
  obtain ⟨v, hv, hv'⟩ := shaken_of_refuse hn
  obtain ⟨w, hw, hm⟩ := ends_lift_ok hm
  cases hm
  have hc := ((course_of_openLocked hl).shaken hu).shaken hu'
  obtain ⟨hm, he⟩ := Bool.and_eq_true_iff.mp hm'
  cases r with
  | ok _ => cases hr'
  | error p =>
    exact ⟨b, e₅, e₆, (((hc.notRebuilt (ends_outcome hr)).shaken hv).shaken hv').shaken hw, hm, he,
      hd, by simpa using hg⟩

end Bucket

end EventStore
