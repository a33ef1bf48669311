import EventStore.Proofs.Bucket.Reading
import EventStore.Proofs.Bucket.Operations
import EventStore.Proofs.Engine.Sharing
import EventStore.Proofs.Store.Sound

/-!
# Batches and searches at one time

Calls add events to one bucket and search it, step by step in any order, while the store refuses
commits now and then. What a call has in hand says how far it has come with its batch (`Stage`), and
`Acts` lists the steps that it may take. A call that is at work has the bucket to itself, so nobody
changes the counter or the index on it (`sharing`), and in the end its batch is stored and known to
the index, or nothing of it is (`Call.activity_abides`).
-/

namespace EventStore

open Query Operation

-- ---- surroundings --------------------------------------------------------

/-- The store refuses no calls but commits. -/
structure Store.Reads (s : Store) : Prop where
  online : s.isOnline = true
  faults : ∀ f ∈ s.faults, f.kind = .commit

theorem Store.Reads.serves {α : Type} {s : Store} (h : s.Reads) {r : Request α}
    (hr : r.kind ≠ .commit) : s.Serves r :=
  ⟨refuses_of_faults h.faults hr, h.online⟩

theorem Store.Reads.answer {α : Type} {s : Store} (h : s.Reads) (r : Request α) :
    (s.answer r).2.Reads :=
  ⟨(s.isOnline_answer r).trans h.online, s.faults_answer r ▸ h.faults⟩

namespace Bucket

-- ---- calls ---------------------------------------------------------------

inductive Call
  | add (x : Event)
  | addAll (events : List Event)
  | search (query : String) (most : Nat) (after : UInt32) (range : TimeRange)

namespace Call

abbrev Answer : Call → Type
  | add _ => Except EngineError Event
  | addAll _ | search .. => Except EngineError (List Event)

def activity (b : Bucket) : (c : Call) → Activity Engine c.Answer
  | add x => (b.add x).run
  | addAll events => (b.addAll events).run
  | search query most after range => (b.search query most after range).run

/-- The batch of the call. -/
def given : Call → List Event
  | add x => [x]
  | addAll events => events
  | search .. => []

def Succeeds : (c : Call) → c.Answer → Prop
  | add _, .ok _ | addAll _, .ok _ => True
  | _, _ => False

def Fails : (c : Call) → c.Answer → Prop
  | add _, .error _ | addAll _, .error _ => True
  | _, _ => False

end Call

-- ---- what a call has in hand ---------------------------------------------

/-- How far a call has come with its batch. -/
inductive Stage
  /-- Nothing is stored, and the call is not at work. -/
  | idle
  /-- The bucket is the call's own. -/
  | works
  /-- The batch has been committed. -/
  | stored
  /-- The index knows of it. -/
  | told
  /-- The bucket is for others again. -/
  | done
  deriving DecidableEq

namespace Stage

/-- Whether the call is at work on the bucket. -/
def holds : Stage → Bool
  | works | stored | told => true
  | idle | done => false

def isTold : Stage → Bool
  | told | done => true
  | idle | works | stored => false

end Stage

structure Hand where
  given : List Event
  /-- The counter when the call came to work. -/
  last : UInt32
  stage : Stage

/-- The steps of a call. -/
inductive Acts (b : Bucket) : Engine → Hand → Engine → Hand → Prop
  /-- A query is compiled, or the store is asked without success or effect. -/
  | looks {e k} (store : Store) (cache : Cache) (hv : store.entries? = e.store.entries?)
    (hr : e.store.Reads → store.Reads) (hc : e.cache.Sound → cache.Sound) :
    Acts b e k { e with store := store, cache := cache } k
  | takes {e k} (hk : k.stage = .idle) (hw : (e.data b).writing = false) :
    Acts b e k (e.setData b { e.data b with writing := true })
      { k with last := (e.data b).lastId, stage := .works }
  | counts {e k} (hk : k.stage = .works) (last : UInt32) :
    Acts b e k (e.setData b { e.data b with lastId := last }) k
  | stores {e k} (hk : k.stage = .works) (hr : k.last.toNat + k.given.length < 4294967296)
    (ht : (e.store.entries? b.eventsMap).isSome) (store : Store)
    (hv : store.entries? =
      (Request.commit (b.writing (b.numbered k.last k.given))).effect e.store.entries?)
    (hs : e.store.Reads → store.Reads) :
    Acts b e k { e with store := store } { k with stage := .stored }
  | tells {e k} (hk : k.stage = .stored) :
    Acts b e k (e.setData b
      { e.data b with index := indexAll (b.numbered k.last k.given) (e.data b).index })
      { k with stage := .told }
  | releases {e k} (stage : Stage) (h : k.stage = .works ∧ stage = .idle ∧
      (e.data b).lastId = k.last ∨ k.stage = .told ∧ stage = .done ∧
        (e.data b).lastId = k.last + k.given.length.toUInt32) :
    Acts b e k (e.setData b { e.data b with writing := false }) { k with stage := stage }

/-- What is true of an engine while batches are added. -/
structure Shared (b : Bucket) (e : Engine) : Prop where
  here : b.number < e.opened.size
  cache : e.cache.Sound
  reads : e.store.Reads

variable {b : Bucket} {e e' : Engine} {k k' j : Hand} {α : Type}

theorem Acts.given (h : Acts b e k e' k') : k'.given = k.given := by
  cases h <;> rfl

/-- While a call is at work no other takes a step that changes the bucket. -/
theorem Acts.data_eq (h : Acts b e k e' k') (hj : j.stage.holds = true)
    (hw : j.stage.holds = true → (e.data b).writing = true)
    (ha : ¬(j.stage.holds = true ∧ k.stage.holds = true)) :
    e'.data b = e.data b ∧ k'.stage = k.stage := by
  have hk : k.stage.holds = false := by simpa [hj] using ha
  cases h with
  | looks => exact ⟨rfl, rfl⟩
  | takes _ hw' =>
    rw [hw hj] at hw'
    cases hw'
  | counts hs | stores hs | tells hs =>
    rw [hs] at hk
    cases hk
  | releases stage h =>
    rcases h with ⟨hs, -⟩ | ⟨hs, -⟩
    all_goals
      rw [hs] at hk
      cases hk

theorem Acts.shared (h : Acts b e k e' k') (hs : Shared b e) : Shared b e' := by
  have hset (d : BucketData) : Shared b (e.setData b d) :=
    ⟨(Spares.setData b e d).size.symm ▸ hs.here, hs.cache, hs.reads⟩
  cases h with
  | looks store cache hv hr hc => exact ⟨hs.here, hc hs.cache, hr hs.reads⟩
  | stores _ _ _ store _ hr => exact ⟨hs.here, hs.cache, hr hs.reads⟩
  | takes | counts | tells | releases => exact hset _

theorem Acts.writing (h : Acts b e k e' k') (hs : Shared b e)
    (hk : k.stage.holds = true → (e.data b).writing = true) (hk' : k'.stage.holds = true) :
    (e'.data b).writing = true := by
  cases h with
  | looks => exact hk hk'
  | stores hw => exact hk (by rw [hw]; rfl)
  | takes => rw [Engine.data_setData hs.here, if_pos rfl]
  | counts =>
    rw [Engine.data_setData hs.here, if_pos rfl]
    exact hk hk'
  | tells hw =>
    rw [Engine.data_setData hs.here, if_pos rfl]
    exact hk (by rw [hw]; rfl)
  | releases stage h =>
    rcases h with ⟨-, rfl, -⟩ | ⟨-, rfl, -⟩
    all_goals cases hk'

/-- How calls that add to one bucket, and search it, share the engine. -/
def sharing (b : Bucket) : Sharing Engine Hand where
  Sound := Shared b
  Holds e k := k.stage.holds = true → (e.data b).writing = true
  May := Acts b
  Others k e e' := k.stage.holds = true → e'.data b = e.data b
  Apart j k := ¬(j.stage.holds = true ∧ k.stage.holds = true)
  stay e _ := .looks e.store e.cache rfl (fun h => h) fun h => h
  sound h hs _ := h.shared hs
  holds h hs hk := h.writing hs hk
  refl _ _ _ := rfl
  trans h h' hk := (h' hk).trans (h hk)
  kept h hk hh := h hh ▸ hk hh
  symm h hs := h hs.symm
  others h _ _ hj ha := by
    refine ⟨fun hh => (h.data_eq hh hj ha).1, fun ⟨hh, hk'⟩ => ha ⟨hh, ?_⟩⟩
    rwa [← (h.data_eq hh hj ha).2]

-- ---- searches ------------------------------------------------------------

/-- The operation leaves the call with what it has in hand. -/
abbrev Looks (b : Bucket) (k : Hand) (op : Operation α) : Prop :=
  ∀ e, op.Abides (sharing b) e k (fun _ _ k' => k' = k) fun _ _ k' => k' = k

theorem get_looks (b : Bucket) (k : Hand) (id : UInt32) :
    b.Looks k (call (.get b.eventsMap (idKey id))) := by
  intro e
  refine .attempt fun u _ => ⟨k, .looks _ _ ?_ (·.answer _) fun h => h, ?_⟩
  · cases ha : u.store.answer (.get b.eventsMap (idKey id)) with
    | mk a s =>
      cases a with
      | ok a => exact (Store.replies_of_ok ha).2
      | error p => exact Store.entries?_of_error (by rintro ⟨⟩) ha
  · dsimp only
    split <;> rfl

theorem load_looks (b : Bucket) (k : Hand) (id : UInt32) : b.Looks k (b.load id) := by
  intro e
  refine .bind (get_looks b k id e) ?_
  rintro (_ | value) e' k rfl
  · exact .pure' rfl
  · dsimp only
    split
    · exact .pure' rfl
    · exact .throw' rfl

theorem criteria_looks (b : Bucket) (k : Hand) (query : String) : b.Looks k (criteria query) := by
  intro e
  refine .attempt fun u _ => ⟨k, .looks _ _ rfl (fun h => h) fun hc =>
    (hc.getOrCompile _ query).2, ?_⟩
  split <;> rfl

theorem search_looks (b : Bucket) (k : Hand) (query : String) (most : Nat) (after : UInt32)
    (range : TimeRange) : b.Looks k (b.search query most after range) := by
  intro e
  rw [search_eq]
  refine .bind (criteria_looks b k query e) ?_
  rintro c e₁ k rfl
  refine .bind (P := fun _ _ k' => k' = k) (.lift (.observe fun _ _ => rfl)) ?_
  rintro positions e₂ k rfl
  refine among_induction (P := b.Looks k) (fun _ _ => .pure' rfl) (fun f hf e => ?_)
    (fun id _ f hf e => ?_) most after range e₂
  · refine .bind (P := fun _ _ k' => k' = k) (.lift (.observe fun _ _ => rfl)) ?_
    rintro state e' k rfl
    exact hf state e'
  · refine .bind (load_looks b k id e) ?_
    rintro x e' k rfl
    exact hf x e'

-- ---- additions -----------------------------------------------------------

theorem data_found {u : Engine} (hu : (sharing b).Finds k e u) (hk : k.stage.holds = true) :
    u.data b = e.data b := hu.others hk

theorem Shared.data_setData (h : Shared b e) (d : BucketData) : (e.setData b d).data b = d := by
  rw [Engine.data_setData h.here, if_pos rfl]

/-- In the end the call has told the index of its batch, or all is as before. -/
theorem alone_abides {op : Operation α} {R : α → Prop} (hk : k.stage = .idle)
    (h : ∀ e k₁, k₁.stage = .works → k₁.given = k.given → (e.data b).lastId = k₁.last →
      op.Abides (sharing b) e k₁ (fun a e' k' => R a ∧ k'.stage = .told ∧
        (e'.data b).lastId = k'.last + k'.given.length.toUInt32)
      (fun _ e' k' => k'.stage = .works ∧ (e'.data b).lastId = k'.last)) :
    (b.alone op).Abides (sharing b) e k (fun a _ k' => R a ∧ k'.stage = .done)
      (fun _ _ k' => k'.stage = .idle) := by
  refine .between (.whenever fun u hu hw => ?_)
  refine ⟨_, .takes hk ((Bool.not_eq_true' _).mp hw),
    (h _ ⟨k.given, (u.data b).lastId, .works⟩ rfl rfl ?_).mono ?_ ?_⟩
  · show ((u.setData b _).data b).lastId = _
    rw [hu.sound.data_setData]
  · rintro a e' k' ⟨hr, hs, hl⟩
    refine .atomically fun v hv => ⟨_, .releases .done (.inr ⟨hs, rfl, ?_⟩), hr, rfl⟩
    rw [data_found hv (by rw [hs]; rfl), hl]
  · rintro p e' k' ⟨hs, hl⟩
    refine .atomically fun v hv => ⟨_, .releases .idle (.inl ⟨hs, rfl, ?_⟩), rfl⟩
    rw [data_found hv (by rw [hs]; rfl), hl]

theorem reserve_abides (hk : k.stage = .works) (hl : (e.data b).lastId = k.last) :
    (attempt fun e => match b.reserve k.given (e.data b) with
      | .ok (last, d) => (.ok last, e.setData b d)
      | .error p => (.error p, e)).Abides (sharing b) e k
      (fun last e' k' => k' = k ∧ last = k.last ∧ k.last.toNat + k.given.length < 4294967296 ∧
        (e'.data b).lastId = k.last + k.given.length.toUInt32)
      (fun _ e' k' => k'.stage = .works ∧ (e'.data b).lastId = k'.last) := by
  refine .attempt fun u hu => ?_
  have hl : (u.data b).lastId = k.last := by rw [data_found hu (by rw [hk]; rfl), hl]
  cases hr : b.reserve k.given (u.data b) with
  | error p => exact ⟨k, (sharing b).stay u k, hk, hl⟩
  | ok r =>
    obtain ⟨last, d⟩ := r
    obtain ⟨-, -, hroom, rfl, rfl⟩ := reserve_ok hr
    refine ⟨k, .counts hk _, rfl, hl, hl ▸ hroom, ?_⟩
    dsimp only
    rw [hu.sound.data_setData, hl]

theorem commit_abides (hk : k.stage = .works) (hn : k.given ≠ [])
    (hroom : k.last.toNat + k.given.length < 4294967296)
    (hl : (e.data b).lastId = k.last + k.given.length.toUInt32) :
    (call (.commit (b.writing (b.numbered k.last k.given)))).Abides (sharing b) e k
      (fun _ e' k' => k' = { k with stage := .stored } ∧
        (e'.data b).lastId = k.last + k.given.length.toUInt32)
      (fun _ _ k' => k' = k) := by
  refine .attempt fun u hu => ?_
  have hl : (u.data b).lastId = k.last + k.given.length.toUInt32 := by
    rw [data_found hu (by rw [hk]; rfl), hl]
  cases ha : u.store.answer (.commit (b.writing (b.numbered k.last k.given))) with
  | mk a s =>
    have hs : u.store.Reads → s.Reads := fun h => by
      have := h.answer (.commit (b.writing (b.numbered k.last k.given)))
      rwa [ha] at this
    cases a with
    | ok a =>
      obtain ⟨hr, hv⟩ := Store.replies_of_ok ha
      have ht : (u.store.entries? b.eventsMap).isSome := by
        obtain ⟨x, rest, hx⟩ := List.exists_cons_of_ne_nil hn
        exact hr ⟨b.eventsMap, _⟩ (by rw [hx, writes_writing]; exact List.mem_cons_self)
      exact ⟨_, .stores hk hroom ht s hv hs, rfl, hl⟩
    | error p =>
      have hv := Store.entries?_of_error (by rintro ⟨⟩) ha
      exact ⟨k, .looks s _ hv hs fun h => h, rfl⟩

/-- All the batch is stored and known to the index, or nothing of it is. -/
theorem addAll_abides {events : List Event} (hk : k.stage = .idle) (hg : k.given = events) :
    (b.addAll events).Abides (sharing b) e k
      (fun stored _ k' => stored.length = events.length ∧ (events = [] ∨ k'.stage = .done))
      (fun _ _ k' => k'.stage = .idle) := by
  subst hg
  unfold addAll
  split
  · next hn =>
    have hn : k.given = [] := by simpa using hn
    exact .pure' ⟨by rw [hn], .inl hn⟩
  next hn =>
  have hn : k.given ≠ [] := by simpa using hn
  refine (alone_abides (R := fun stored => stored.length = k.given.length) hk
    fun e k₁ hs hg hl => ?_).mono (fun _ _ _ h => ⟨h.1, .inr h.2⟩) fun _ _ _ h => h
  rw [← hg] at hn ⊢
  refine .bind (reserve_abides hs hl) ?_
  rintro last e₁ k₁ ⟨rfl, rfl, hroom, hl⟩
  refine .settle (commit_abides hs hn hroom hl) ?_ ?_
  · rintro - e₂ _ ⟨rfl, hl⟩
    refine .bind (P := fun _ e' k' => k' = { k₁ with stage := .told } ∧
      (e'.data b).lastId = k₁.last + k₁.given.length.toUInt32) (.lift (.atomically fun u hu =>
        ⟨_, .tells rfl, rfl, ?_⟩)) ?_
    · show ((u.setData b _).data b).lastId = _
      rw [hu.sound.data_setData]
      exact (congrArg BucketData.lastId (data_found hu rfl)).trans hl
    · rintro - e₃ _ ⟨rfl, hl⟩
      exact .pure' ⟨(Bucket.length_numbered ..), rfl, hl⟩
  · rintro p e₂ k₁ rfl
    refine .bind (P := fun _ e' k' => k' = k₁ ∧ (e'.data b).lastId = k₁.last)
      (.lift (.atomically fun u hu => ⟨k₁, .counts hs _, rfl, ?_⟩)) ?_
    · show ((u.setData b _).data b).lastId = _
      rw [hu.sound.data_setData]
    · rintro - e₃ k₁ ⟨rfl, hl⟩
      exact .throw' ⟨hs, hl⟩

theorem add_abides {x : Event} (hk : k.stage = .idle) (hg : k.given = [x]) :
    (b.add x).Abides (sharing b) e k (fun _ _ k' => k'.stage = .done)
      (fun _ _ k' => k'.stage = .idle) := by
  refine .bind (addAll_abides hk hg) ?_
  rintro stored e' k' ⟨hl, hd⟩
  obtain ⟨y, rfl⟩ := List.length_eq_one_iff.mp hl
  exact .pure' (hd.resolve_left (List.cons_ne_nil x []))

-- ---- whole calls ---------------------------------------------------------

namespace Call

/-- What a call says in the end is what it has done. -/
structure Settled (c : Call) (a : c.Answer) (k : Hand) : Prop where
  succeeds : c.Succeeds a → c.given = [] ∨ k.stage = .done
  fails : c.Fails a → k.stage = .idle

theorem activity_abides (c : Call) (hk : k.stage = .idle) (hg : k.given = c.given) :
    (c.activity b).Abides (sharing b) e k fun a _ => c.Settled a := by
  cases c with
  | add x =>
    refine Activity.Abides.mono (add_abides hk hg) ?_
    rintro (p | y) e' k' h
    · exact ⟨False.elim, fun _ => h⟩
    · exact ⟨fun _ => .inr h, False.elim⟩
  | addAll events =>
    refine Activity.Abides.mono (addAll_abides hk hg) ?_
    rintro (p | stored) e' k' h
    · exact ⟨False.elim, fun _ => h⟩
    · exact ⟨fun _ => h.2, False.elim⟩
  | search query most after range =>
    refine Activity.Abides.mono (search_looks b k query most after range e) ?_
    rintro r e' k' -
    cases r <;> exact ⟨False.elim, False.elim⟩

end Call

end Bucket

end EventStore
