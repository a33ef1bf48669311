import EventStore.Engine.Ingest
import EventStore.Proofs.Engine.Sharing
import EventStore.Proofs.EventSet.Heedless

/-!
# Events in line

A drain takes events from the front of the queue and stores them hour by hour; those that a refused
commit turns away go back to the front. While it is at work more events are queued, and more
commits are refused, but none that was refused goes through (`Meanwhile`). So the events of an hour
stay in line: first those stored, then those on their way back, those still to be tried and those
in the queue (`line`). No step of a drain on one bucket changes that order (`addTo_abides`).
-/

namespace EventStore

namespace Ingest

open Std Operation EventSet

def ofHour (hour : Hour) (events : List Event) : List Event :=
  events.filter (·.hour? == some hour)

theorem ofHour_append (hour : Hour) (xs ys : List Event) :
    ofHour hour (xs ++ ys) = ofHour hour xs ++ ofHour hour ys := List.filter_append ..

/-- Events that have been tried more often stand before the others. -/
abbrev ByAttempts (queue : List Queued) : Prop :=
  queue.Pairwise fun p q => q.attempts ≤ p.attempts

-- ---- what a drain has in hand --------------------------------------------

/-- For each hour the events that have been stored, those that go back to the queue, and those that
are still to be tried; the events of the queue have been tried at most so often. -/
structure Hand where
  stored : HourLogs
  back : HourLogs
  todo : HourLogs
  tried : Option Nat

namespace Hand

/-- Events of the hour are stored. -/
def stores (k : Hand) (hour : Hour) (events : List Event) : Hand :=
  { k with
    stored := k.stored.put hour (k.stored hour ++ events)
    todo := k.todo.put hour ((k.todo hour).drop events.length) }

/-- Events of the hour are to be tried again. -/
def returns (k : Hand) (hour : Hour) (events : List Event) : Hand :=
  { k with
    back := k.back.put hour (k.back hour ++ events)
    todo := k.todo.put hour ((k.todo hour).drop events.length) }

/-- Events of the hour are given up. -/
def loses (k : Hand) (hour : Hour) (events : List Event) : Hand :=
  { k with todo := k.todo.put hour ((k.todo hour).drop events.length) }

/-- No drain is at work. -/
structure IsEmpty (k : Hand) : Prop where
  back : ∀ hour, k.back hour = []
  todo : ∀ hour, k.todo hour = []

end Hand

/-- The events of an hour, the first that arrived first. -/
def line (e : Engine) (k : Hand) (hour : Hour) : List Event :=
  k.stored hour ++ k.back hour ++ k.todo hour ++ ofHour hour (e.queue.map Queued.event)

structure Holds (before : HourLogs) (e : Engine) (k : Hand) : Prop where
  kept : ∀ hour, Bucket.Kept hour (before hour ++ k.stored hour) e.store.entries?
  refused : ∀ hour : Hour, k.back hour ≠ [] → e.store.refusesCommit hour.eventsMap = true
  sorted : ByAttempts e.queue
  tried : ∀ n ∈ k.tried, ∀ q ∈ e.queue, q.attempts ≤ n
  fits : ∀ q ∈ e.queue, q.event.Fits

/-- What a step of the drain does. -/
structure Moves (before : HourLogs) (e : Engine) (k : Hand) (e' : Engine) (k' : Hand) : Prop where
  keeps : e.Calm → Holds before e k → e'.Calm ∧ Holds before e' k'
  line : ∀ hour, (line e' k' hour).Sublist (line e k hour)

/-- What happens while a drain is under way: events are queued, and more commits are refused. -/
structure Meanwhile (more : List Event) (e e' : Engine) : Prop where
  core : e'.core = e.core
  refused : ∀ m, e.store.refusesCommit m = true → e'.store.refusesCommit m = true
  queue : e'.queue = e.queue ++ more.map (⟨·, 0⟩)
  fits : ∀ x ∈ more, x.Fits

variable {before : HourLogs} {e e' e'' : Engine} {k k' k'' : Hand} {more more' : List Event}
  {α β : Type} {least : Nat}

theorem entries?_of_core (h : e'.core = e.core) : e'.store.entries? = e.store.entries? :=
  congrArg (·.store.entries?) h

theorem Meanwhile.refl (e : Engine) : Meanwhile [] e e := ⟨rfl, fun _ h => h, by simp, nofun⟩

theorem Meanwhile.trans (h : Meanwhile more e e') (h' : Meanwhile more' e' e'') :
    Meanwhile (more ++ more') e e'' where
  core := h'.core.trans h.core
  refused m hm := h'.refused m (h.refused m hm)
  queue := by rw [h'.queue, h.queue, List.map_append, List.append_assoc]
  fits := List.forall_mem_append.mpr ⟨h.fits, h'.fits⟩

theorem Meanwhile.keeps (h : Meanwhile more e e') (hk : Holds before e k) : Holds before e' k where
  kept hour := entries?_of_core h.core ▸ hk.kept hour
  refused hour hb := h.refused _ (hk.refused hour hb)
  sorted := by
    rw [h.queue, ByAttempts, List.pairwise_append]
    refine ⟨hk.sorted, List.pairwise_map.mpr (List.pairwise_of_forall fun _ _ => Nat.le_refl 0), ?_⟩
    rintro p - q hq
    obtain ⟨x, -, rfl⟩ := List.mem_map.mp hq
    exact Nat.zero_le _
  tried n hn := by
    rw [h.queue]
    refine List.forall_mem_append.mpr ⟨hk.tried n hn, ?_⟩
    exact List.forall_mem_map.mpr fun _ _ => Nat.zero_le _
  fits := by
    rw [h.queue]
    exact List.forall_mem_append.mpr ⟨hk.fits, List.forall_mem_map.mpr h.fits⟩

/-- What is queued comes to the end of the line. -/
theorem Meanwhile.line_eq (h : Meanwhile more e e') (k : Hand) (hour : Hour) :
    line e' k hour = line e k hour ++ ofHour hour more := by
  have hmap : (more.map (⟨·, 0⟩ : Event → Queued)).map Queued.event = more := by
    simp [Function.comp_def]
  rw [line, h.queue, List.map_append, hmap, ofHour_append, ← List.append_assoc]
  rfl

theorem Moves.refl (before : HourLogs) (e : Engine) (k : Hand) : Moves before e k e k :=
  ⟨fun hc hk => ⟨hc, hk⟩, fun _ => .refl _⟩

theorem Moves.trans (h : Moves before e k e' k') (h' : Moves before e' k' e'' k'') :
    Moves before e k e'' k'' := by
  refine ⟨fun hc hk => ?_, fun hour => (h'.line hour).trans (h.line hour)⟩
  obtain ⟨hc, hk⟩ := h.keeps hc hk
  exact h'.keeps hc hk

/-- There is one drain at a time, and whatever else happens is done by others. -/
def solo (before : HourLogs) : Sharing Engine Hand where
  Sound := Engine.Calm
  Holds := Holds before
  May := Moves before
  Others _ e e' := ∃ more, Meanwhile more e e'
  Apart _ _ := False
  stay := Moves.refl before
  sound hm hs hk := (hm.keeps hs hk).1
  holds hm hs hk := (hm.keeps hs hk).2
  refl _ e := ⟨[], .refl e⟩
  trans := fun ⟨_, h⟩ ⟨_, h'⟩ => ⟨_, h.trans h'⟩
  kept := fun ⟨_, h⟩ hk => h.keeps hk
  symm := id
  others _ _ _ _ := False.elim

theorem core_found {u : Engine} (hu : (solo before).Finds k e u) : u.core = e.core :=
  have ⟨_, h⟩ := hu.others
  h.core

-- ---- steps ---------------------------------------------------------------

theorem moves_of_same (hf : e'.store.faults = e.store.faults) (hl : e'.locked = e.locked)
    (hq : e'.queue = e.queue)
    (hv : ∀ m, (e'.store.entries? m).getD ∅ = (e.store.entries? m).getD ∅) :
    Moves before e k e' k := by
  refine ⟨fun hc hk => ⟨⟨hf ▸ hc.faults, hl.trans hc.unlocked⟩, {
    kept := fun hour => ?_
    refused := fun hour hb => ?_
    sorted := hq ▸ hk.sorted
    tried := hq ▸ hk.tried
    fits := hq ▸ hk.fits }⟩, fun hour => ?_⟩
  · obtain ⟨hf, hw, hr, he⟩ := hk.kept hour
    exact ⟨hf, hw, hr, fun b hb => by rw [hv]; exact he b hb⟩
  · rw [Store.refusesCommit, hf]
    exact hk.refused hour hb
  · rw [line, line, hq]

/-- What heeds nothing but the core comes to what it comes to undisturbed. -/
theorem abides_of_heedless {x : Activity Engine α} {R : α → Prop} {Q : α → Engine → Hand → Prop}
    {a : α} {c : Engine} (h : x.Heedless R) (hx : x.run 0 e.core = some (a, c))
    (hq : ∀ e', e'.core = c → Q a e' k) : x.Abides (solo before) e k Q := by
  induction x generalizing e with
  | done b =>
    cases hx
    exact hq e rfl
  | step ready act next ih =>
    intro u hu _
    obtain ⟨-, ha, hn⟩ := h u hu.sound
    rw [← core_found hu] at hx
    simp only [Activity.run] at hx
    split at hx
    · refine ⟨k, moves_of_same ha.faults ha.locked ha.queue ha.entries, ih _ hn ?_ hq⟩
      rw [ha.answer, ha.core]
      exact hx
    · cases hx
  | loop => exact h.elim

/-- No bucket is being worked on, and the set stands for what is stored. -/
structure Rests (before : HourLogs) (e : Engine) (k : Hand) : Prop where
  holds : EventSet.Holds e.core fun hour => before hour ++ k.stored hour
  able : e.core.store.Able

theorem Rests.of_core (h : Rests before e k) (hc : e'.core = e.core) : Rests before e' k :=
  ⟨hc ▸ h.holds, hc ▸ h.able⟩

theorem getOrCreate_abides (h : Rests before e k) {hour : Hour} {id : UInt32}
    (hid : hour.tokenSeconds? = some id) : (getOrCreate hour).Abides (solo before) e k
      (fun b e' k' => k' = k ∧ Rests before e' k ∧ b.hour = hour ∧ e'.registry[hour]? = some b)
      (fun _ _ _ => False) := by
  obtain ⟨b, c, hr, ha, hh, hb⟩ := getOrCreate_result h.holds h.able hid 0
  refine abides_of_heedless (heedless_getOrCreate hour) hr fun e' hc => ?_
  subst hc
  exact ⟨rfl, ⟨hh, ha⟩, hh.hour hb, hb⟩

-- ---- events of one hour --------------------------------------------------

section

variable {hour : Hour} {events : List Event}

theorem put_apply (logs : HourLogs) (hour h : Hour) (log : List Event) :
    logs.put hour log h = if h = hour then log else logs h := rfl

theorem line_stores (hb : k.back hour = []) (ht : events <+: k.todo hour) (h : Hour) :
    line e (k.stores hour events) h = line e k h := by
  obtain ⟨rest, hr⟩ := ht
  by_cases hh : h = hour
  · subst hh
    simp [line, Hand.stores, put_apply, hb, ← hr]
  · simp [line, Hand.stores, put_apply, hh]

theorem line_returns (ht : events <+: k.todo hour) (h : Hour) :
    line e (k.returns hour events) h = line e k h := by
  obtain ⟨rest, hr⟩ := ht
  by_cases hh : h = hour
  · subst hh
    simp [line, Hand.returns, put_apply, ← hr]
  · simp [line, Hand.returns, put_apply, hh]

theorem line_loses (k : Hand) (hour : Hour) (events : List Event) (h : Hour) :
    (line e (k.loses hour events) h).Sublist (line e k h) := by
  refine (List.Sublist.append_left ?_ _).append_right _
  simp only [Hand.loses, put_apply]
  split
  · next hh => exact hh ▸ List.drop_sublist ..
  · exact .refl _

theorem moves_loses (before : HourLogs) (e : Engine) (k : Hand) (hour : Hour)
    (events : List Event) : Moves before e k e (k.loses hour events) :=
  ⟨fun hc hk => ⟨hc, { hk with }⟩, line_loses k hour events⟩

theorem moves_returns (before : HourLogs) (hr : e.store.refusesCommit hour.eventsMap = true)
    (ht : events <+: k.todo hour) : Moves before e k e (k.returns hour events) := by
  refine ⟨fun hc hk => ⟨hc, { hk with refused := fun h hb => ?_ }⟩,
    fun h => line_returns ht h ▸ .refl _⟩
  by_cases hh : h = hour
  · exact hh ▸ hr
  · refine hk.refused h ?_
    simpa [Hand.returns, put_apply, hh] using hb

theorem Holds.back_eq_nil (h : Holds before e k)
    (hr : e.store.refusesCommit hour.eventsMap = false) : k.back hour = [] := by
  by_contra hb
  rw [h.refused hour hb] at hr
  cases hr

/-- Events are stored behind those that are there, while none of their hour go back. -/
theorem moves_stores {b : Bucket} {s : Store} (hs : s.faults = e.store.faults)
    (hb : k.back b.hour = []) (hc : b.Confined e.store.entries? s.entries?)
    (hn : Bucket.Kept b.hour (before b.hour ++ k.stored b.hour ++ events) s.entries?)
    (ht : events <+: k.todo b.hour) :
    Moves before e k { e with store := s } (k.stores b.hour events) := by
  refine ⟨fun hc' hk => ⟨⟨hs ▸ hc'.faults, hc'.unlocked⟩,
    { hk with kept := fun h => ?_, refused := fun h hb' => ?_ }⟩,
    fun h => line_stores hb ht h ▸ .refl _⟩
  · simp only [Hand.stores, put_apply]
    split
    · next hh => rw [hh, ← List.append_assoc]; exact hn
    · next hh => exact (hk.kept h).confined hc hh
  · rw [Store.refusesCommit, hs]
    exact hk.refused h hb'

end

-- ---- one bucket ----------------------------------------------------------

/-- Since `c₀` nothing but the bucket has changed in the core of the engine, and its cell is `c`
now. -/
structure At (b : Bucket) (c₀ : Engine) (c : Cell) (e : Engine) : Prop where
  here : b.number < e.opened.size
  spares : b.Spares c₀ e.core
  cell : e.cell b = c
  able : e.core.store.Able

variable {b : Bucket} {c₀ : Engine} {c : Cell} {op : Operation α}

theorem At.found {u : Engine} (h : At b c₀ c e) (hu : (solo before).Finds k e u) :
    At b c₀ c u := by
  have hc := core_found hu
  have ho : u.core.opened = e.core.opened := congrArg Engine.opened hc
  exact ⟨ho ▸ h.here, hc ▸ h.spares, (congrArg (Engine.cell · b) hc).trans h.cell, hc ▸ h.able⟩

theorem At.setData (h : At b c₀ c e) (d : BucketData) : At b c₀ ⟨d, c.view⟩ (e.setData b d) where
  here := (Bucket.Spares.setData b e d).size.symm ▸ h.here
  spares := h.spares.trans (.setData b e.core d)
  cell := by rw [Bucket.cell_setData h.here, ← h.cell, Engine.cell]
  able := h.able

theorem change_abides (h : At b c₀ c e) (f : BucketData → BucketData) :
    (b.change f).Abides (solo before) e k
      fun _ e' k' => k' = k ∧ At b c₀ { c with data := f c.data } e' := by
  refine .atomically fun u hu => ⟨k, moves_of_same rfl rfl rfl fun _ => rfl, rfl, ?_⟩
  have hu := h.found hu
  have hd : u.data b = c.data := congrArg Cell.data hu.cell
  exact hd ▸ hu.setData (f (u.data b))

theorem alone_abides {P : α → Cell → Hand → Prop} {F : EngineError → Cell → Hand → Prop}
    (h : At b c₀ c e) (hop : ∀ e₁, c.data.writing = false → At b c₀ c.busy e₁ →
      op.Abides (solo before) e₁ k (fun a e' k' => ∃ c', At b c₀ c' e' ∧ P a c'.idle k')
        (fun p e' k' => ∃ c', At b c₀ c' e' ∧ F p c'.idle k')) :
    (b.alone op).Abides (solo before) e k (fun a e' k' => ∃ c', At b c₀ c' e' ∧ P a c' k')
      (fun p e' k' => ∃ c', At b c₀ c' e' ∧ F p c' k') := by
  refine .between (.whenever fun u hu hw => ?_)
  have hu := h.found hu
  have hd : u.data b = c.data := congrArg Cell.data hu.cell
  refine ⟨k, moves_of_same rfl rfl rfl fun _ => rfl,
    (hop _ ?_ (hd ▸ hu.setData _)).mono ?_ ?_⟩
  · rw [← hd]
    exact (Bool.not_eq_true' _).mp hw
  · rintro a e' k' ⟨c', hat, hp⟩
    exact (change_abides hat _).mono fun _ _ _ ⟨hk, hat⟩ => ⟨c'.idle, hat, hk ▸ hp⟩
  · rintro p e' k' ⟨c', hat, hp⟩
    exact (change_abides hat _).mono fun _ _ _ ⟨hk, hat⟩ => ⟨c'.idle, hat, hk ▸ hp⟩

theorem reserve_abides {log events : List Event} (h : At b c₀ c.busy e)
    (hr : b.Represents log c) (hs : c.data.state.isWritable = true)
    (hin : ∀ x ∈ events, b.hour.contains x.millis = true) :
    (attempt fun e => match b.reserve events (e.data b) with
      | .ok (last, d) => (.ok last, e.setData b d)
      | .error p => (.error p, e)).Abides (solo before) e k
      (fun last e' k' => k' = k ∧ last = c.data.lastId ∧ b.Admits events c ∧
        At b c₀ ⟨{ c.busy.data with lastId := c.data.lastId + events.length.toUInt32 }, c.view⟩ e')
      (fun p e' k' => ∃ c', At b c₀ c' e' ∧ c'.idle = c ∧ p.isRetryable = false ∧
        k' = k.loses b.hour events) := by
  refine .attempt fun u hu => ?_
  have hu := h.found hu
  have hd : u.data b = c.busy.data := congrArg Cell.data hu.cell
  rw [hd, Bucket.reserve_eq (d := c.busy.data) hs hin]
  split
  · next heq =>
    split at heq
    · next hroom =>
      cases heq
      exact ⟨k, moves_of_same rfl rfl rfl fun _ => rfl, rfl, rfl,
        ⟨hr.idle, hs, hin, hroom, (hr.there hs).1⟩, hu.setData _⟩
    · cases heq
  · next heq =>
    split at heq
    · cases heq
    · cases heq
      exact ⟨_, moves_loses .., _, hu, Cell.idle_eq hr.idle, rfl, rfl⟩

/-- The commit is refused, and the events go back, or it stores them. -/
theorem commit_abides {d : BucketData} {events : List Event} (h : At b c₀ ⟨d, c.view⟩ e)
    (hn : events ≠ []) (ht : events <+: k.todo b.hour) (hm : (c.view b.eventsMap).isSome)
    (hk : Bucket.Kept b.hour (before b.hour ++ k.stored b.hour ++ events) (b.added events c).view) :
    (call (.commit (b.writing (b.numbered c.data.lastId events)))).Abides (solo before) e k
      (fun _ e' k' => At b c₀ ⟨d, (b.added events c).view⟩ e' ∧ k' = k.stores b.hour events)
      (fun p e' k' => At b c₀ ⟨d, c.view⟩ e' ∧ p.isRetryable = true ∧
        k' = k.returns b.hour events) := by
  refine .attempt fun u hu => ?_
  have hat := h.found hu
  have hv : u.store.entries? = c.view := congrArg Cell.view hat.cell
  have hrefuses := Store.refuses_writing u.store b c.data.lastId hn
  generalize hreq : Request.commit (b.writing (b.numbered c.data.lastId events)) = r at hrefuses ⊢
  cases hr : u.store.refusesCommit b.eventsMap with
  | true =>
    rw [Store.answer_of_refuses (hrefuses.trans hr)]
    exact ⟨_, moves_returns before hr ht, hat, rfl, rfl⟩
  | false =>
    have hposs : r.Possible u.core.store.entries? := by
      subst hreq
      intro w hw
      rw [Bucket.writes_writing] at hw
      obtain ⟨x, -, rfl⟩ := List.mem_map.mp hw
      show (u.store.entries? b.eventsMap).isSome
      rw [hv]
      exact hm
    obtain ⟨a, s, hans, hable⟩ := hat.able.exists_answer hposs
    have hcore : u.core.store.answer r = ((Store.Backing.answer r u.store.backing).1,
        ⟨(Store.Backing.answer r u.store.backing).2, []⟩) := Store.answer_of_serves rfl
    obtain ⟨ha, rfl⟩ := Prod.mk.inj (hcore.symm.trans hans)
    have hans' := Store.answer_of_serves (hrefuses.trans hr)
    rw [ha] at hans'
    have heffect := (Store.replies_of_ok hans').2
    have hadded : r.effect c.view = (b.added events c).view := hreq ▸ b.effect_writing ..
    rw [hv, hadded] at heffect
    rw [hans']
    have hconf : b.Confined u.store.entries? (b.added events c).view :=
      hv ▸ b.confined_added events c
    refine ⟨_, moves_stores rfl (hu.holds.back_eq_nil hr) (heffect ▸ hconf) (heffect ▸ hk) ht,
      ⟨hat.here, hat.spares.trans ⟨rfl, fun _ _ => rfl, Nat.le_refl _, rfl⟩, ?_, hable⟩, rfl⟩
    have hdata : u.data b = d := congrArg Cell.data hat.cell
    exact congrArg₂ Cell.mk hdata heffect

/-- A registered bucket takes events of its hour, or they go back, or they are given up. -/
theorem addTo_abides {events : List Event} (h : Rests before e k)
    (hb : e.registry[b.hour]? = some b) (hn : events ≠ [])
    (hin : ∀ x ∈ events, x.hour? = some b.hour ∧ x.Fits) (ht : events <+: k.todo b.hour) :
    (b.addAll events).Abides (solo before) e k
      (fun _ e' k' => Rests before e' k' ∧ k' = k.stores b.hour events)
      (fun p e' k' => Rests before e' k' ∧
        k' = if p.isRetryable then k.returns b.hour events else k.loses b.hour events) := by
  have hu := h.holds.inUse hb
  have hrep : b.Represents (before b.hour ++ k.stored b.hour) (e.cell b) := hu.represents
  have hfits : ∀ x ∈ events, x.Fits := fun x hx => (hin x hx).2
  have hat : At b e.core (e.cell b) e := ⟨hu.here, .refl .., rfl, h.able⟩
  have hemp : events.isEmpty = false := by simpa using hn
  rw [Bucket.addAll, hemp, if_neg Bool.false_ne_true]
  refine (alone_abides
    (P := fun _ c' k' => c' = b.added events (e.cell b) ∧ b.Admits events (e.cell b) ∧
      k' = k.stores b.hour events)
    (F := fun p c' k' => c' = e.cell b ∧
      k' = if p.isRetryable then k.returns b.hour events else k.loses b.hour events)
    hat fun e₁ hw hat => ?_).mono ?_ ?_
  · refine .bind ((reserve_abides hat hrep hu.writable fun x hx => ?_).mono
      (fun _ _ _ h => h) ?_) ?_
    · exact Event.contains_of_hour? (hin x hx).1
    · rintro p e' k' ⟨c', hat, hc, hp, rfl⟩
      exact ⟨c', hat, hc, by rw [hp]; rfl⟩
    rintro _ e₂ k ⟨rfl, rfl, hadmits, hat⟩
    refine .settle (commit_abides hat hn ht hadmits.there (hrep.added hadmits hfits).kept) ?_ ?_
    · rintro - e₃ k ⟨hat, rfl⟩
      refine .bind (.lift (change_abides hat _)) ?_
      rintro - e₄ k ⟨rfl, hat⟩
      exact .pure' ⟨_, hat, Cell.idle_eq (c := b.added events (e.cell b)) hw, hadmits, rfl⟩
    · rintro p e₃ k ⟨hat, hp, rfl⟩
      refine .bind (.lift (change_abides hat _)) ?_
      rintro - e₄ k ⟨rfl, hat⟩
      exact .throw' ⟨_, hat, Cell.idle_eq hw, by rw [hp]; rfl⟩
  · rintro - e' k' ⟨c', hat, rfl, hadmits, rfl⟩
    refine ⟨⟨?_, hat.able⟩, rfl⟩
    have hholds := h.holds.changed hb (hu.added hat.spares hat.cell (fun _ => hadmits) hfits)
    refine cast (congrArg (EventSet.Holds e'.core) (funext fun hour => ?_)) hholds
    simp only [Hand.stores, put_apply]
    split
    · next hh => rw [hh, List.append_assoc]
    · rfl
  · rintro p e' k' ⟨c', hat, rfl, hk⟩
    have hholds := h.holds.unchanged hb (hu.unchanged hat.spares hat.cell)
    refine ⟨⟨?_, hat.able⟩, hk⟩
    rw [hk]
    split <;> exact hholds

end Ingest

end EventStore
