import EventStore.Proofs.Bucket.Ledger
import EventStore.Proofs.Engine.Mirroring

/-!
# Searches see whole batches

A search that goes on while others add to its bucket answers what it would answer alone in the state
in which it took its positions from the index. The events among which it looks are those of whole
batches: of all whose calls had returned before it began, and of none whose commit failed
(`search_alone_of_run`).
-/

namespace EventStore

open Std Query Operation

namespace Bucket

variable {b : Bucket} {e e₀ e₁ : Engine} {α β : Type} {query : String} {most : Nat}
  {after : UInt32} {range : TimeRange} {c : Criteria}

-- ---- what stays readable -------------------------------------------------

/-- Whatever was stored for the bucket in `e₁` can be read. -/
structure Later (b : Bucket) (e₁ e : Engine) : Prop where
  grown : b.Extends e₁ e
  reads : e.store.Reads

theorem Later.answer_get (h : b.Later e₁ e) {key value : Bytes}
    (hv : (e₁.content b)[key]? = some value) :
    e.store.answer (.get b.eventsMap key) = (.ok (some value), e.store) := by
  have hmem := h.grown.content.subset (ExtTreeMap.mem_toList_iff_getElem?_eq_some.mpr hv)
  have hv := ExtTreeMap.mem_toList_iff_getElem?_eq_some.mp hmem
  rw [Engine.content] at hv
  cases hes : e.store.entries? b.eventsMap with
  | none => simp [hes] at hv
  | some es =>
    rw [hes, Option.getD_some] at hv
    rw [Store.answer_get (h.reads.serves (by rintro ⟨⟩)) hes, hv]

theorem load_mirrors (h₁ : b.Later e₁ e₁) {id : UInt32} (hid : idKey id ∈ e₁.content b)
    {f : Option Event → Operation β} (hf : ∀ x, Activity.Mirrors (b.Later e₁) e₁ (f x).run) :
    Activity.Mirrors (b.Later e₁) e₁ (b.load id >>= f).run := by
  obtain ⟨value, hv⟩ := Option.isSome_iff_exists.mp (ExtTreeMap.mem_iff_isSome_getElem?.mp hid)
  rw [load, bind_assoc]
  refine call_mirrors h₁ (fun u hu => hu.answer_get hv) ?_
  dsimp only
  split
  · rw [pure_bind]
    exact hf _
  · trivial

theorem among_mirrors (h₁ : b.Later e₁ e₁) {positions : Positions}
    (hp : ∀ id ∈ positions, idKey id ∈ e₁.content b) (most : Nat) (after : UInt32)
    (range : TimeRange) :
    Activity.Mirrors (b.Later e₁) e₁ (b.among most after range positions).run := by
  refine among_induction (P := fun op => Activity.Mirrors (b.Later e₁) e₁ op.run)
    (fun _ => trivial) (fun f hf => ?_) (fun id hid f hf => load_mirrors h₁ (hp id hid) hf) most
    after range
  exact ⟨fun u hu => ⟨rfl, congrArg (·, u) hu.grown.state⟩, hf _⟩

-- ---- the turns of a search -----------------------------------------------

/-- What is left of a search that is about to take its positions from the index. -/
def reading (b : Bucket) (most : Nat) (after : UInt32) (range : TimeRange) (c : Criteria) :
    Activity Engine (Except EngineError (List Event)) :=
  ExceptT.run (liftM (b.evaluate c) >>= b.among most after range)

theorem search_step? (b : Bucket) (hs : e.cache.Sound) (query : String) (most : Nat)
    (after : UInt32) (range : TimeRange) :
    (b.search query most after range).run.step? e = some (match compile query with
      | .ok c => b.reading most after range c
      | .error p => .done (.error (.query p)), e.asked query) := by
  rw [search_eq]
  show some (Activity.bind (.done ((e.cache.getOrCompile e.clock query).1.mapError _)) _,
    e.asked query) = _
  rw [(hs.getOrCompile e.clock query).1]
  cases compile query <;> rfl

theorem reading_step? (b : Bucket) (e : Engine) (most : Nat) (after : UInt32) (range : TimeRange)
    (c : Criteria) : (b.reading most after range c).step? e =
      some ((b.among most after range ((e.data b).index.evaluate c)).run, e) := rfl

-- ---- the snapshot --------------------------------------------------------

def calling (b : Bucket) (s : Scene Engine Call.Answer) (c : Call) : Scene Engine Call.Answer :=
  ⟨s.state, s.tasks ++ [⟨c, c.activity b⟩]⟩

theorem getElem?_calling (b : Bucket) (s : Scene Engine Call.Answer) (c : Call) :
    (b.calling s c).tasks[s.tasks.length]? = some ⟨c, c.activity b⟩ := by
  simp [calling]

/-- The call in the place is done, with an answer of which `P` is true. -/
def Says (s : Scene Engine Call.Answer) (place : Nat) (P : (c : Call) → c.Answer → Prop) : Prop :=
  ∃ (c : Call) (a : c.Answer), s.tasks[place]? = some ⟨c, .done a⟩ ∧ P c a

/-- In `s` the search in the place is about to take its positions from the index. Alone in this
state it answers `r`. -/
structure Snapshot (b : Bucket) (query : String) (most : Nat) (after : UInt32) (range : TimeRange)
    (place : Nat) (s : Scene Engine Call.Answer) (r : Except EngineError (List Event)) : Prop where
  next : ∃ c, compile query = .ok c ∧
    s.tasks[place]? = some ⟨.search query most after range, b.reading most after range c⟩
  alone : ∀ rounds, (b.search query most after range).result rounds s.state =
    some (r, s.state.asked query)

/-- Since `e₀` the events of the batches in the places `seen` have come to the index. All of these
have been committed by calls that never fail, and among them are those whose calls had returned
in `s₀`. -/
structure Whole (b : Bucket) (e₀ : Engine) (s₀ s : Scene Engine Call.Answer) (seen : List Nat) :
    Prop where
  distinct : seen.Nodup
  visible : (s.state.data b).index = indexAll (b.numbered (e₀.data b).lastId
    (batches (s.tasks.map (·.call.given)) seen)) (e₀.data b).index
  committed : ∃ more, (s.state.content b).toList = (e₀.content b).toList ++
    (b.numbered (e₀.data b).lastId (batches (s.tasks.map (·.call.given)) (seen ++ more))).map
      Event.entry
  returned : ∀ place, Says s₀ place (fun c a => c.given ≠ [] ∧ c.Succeeds a) → place ∈ seen
  lasting : ∀ place ∈ seen, ∀ s', b.Interleaves s s' → ¬Says s' place Call.Fails

variable {s s₀ s₁ s' : Scene Engine Call.Answer} {ks : List Hand} {seen more : List Nat}
  {place : Nat}

theorem Batched.settled (h : Batched b e₀ s ks seen more) {c : Call} {a : c.Answer}
    (ht : s.tasks[place]? = some ⟨c, .done a⟩) :
    ∃ k, c.Settled a k ∧ (place ∈ seen ↔ k.stage.isTold = true) := by
  obtain ⟨hlt, ht⟩ := List.getElem?_eq_some_iff.mp ht
  have hlt' : place < ks.length := h.abides.tasks.length_eq ▸ hlt
  have := h.abides.tasks.get hlt hlt'
  rw [List.get_eq_getElem, ht] at this
  refine ⟨ks[place], this.2.done rfl, ?_⟩
  rw [h.ledger.mem_seen, stageAt_of_getElem? (List.getElem?_eq_getElem hlt')]

theorem Batched.whole (h : Batched b e₀ s₁ ks seen more) (h₀ : b.Resting e₀) {ks₀ : List Hand}
    {seen₀ more₀ : List Nat} (hs₀ : Batched b e₀ s₀ ks₀ seen₀ more₀) (hseen : seen₀ <+: seen) :
    Whole b e₀ s₀ s₁ seen where
  distinct := (List.nodup_append.mp h.ledger.nodup).1
  visible := h.given ▸ h.ledger.index
  committed := ⟨more, h.given ▸ h.ledger.content⟩
  returned := by
    rintro place ⟨c, a, ht, hn, ha⟩
    obtain ⟨k, hk, hmem⟩ := hs₀.settled ht
    refine hseen.subset (hmem.mpr ?_)
    rw [(hk.succeeds ha).resolve_left hn]
    rfl
  lasting := by
    rintro place hp s' hr ⟨c, a, ht, ha⟩
    obtain ⟨ks', seen', more', h', hseen', -⟩ := h.run h₀ hr
    obtain ⟨k, hk, hmem⟩ := h'.settled ht
    have hs := hmem.mp (hseen'.subset hp)
    rw [hk.fails ha] at hs
    cases hs

theorem Batched.later (h : Batched b e₀ s₁ ks seen more) (h₀ : b.Resting e₀)
    (hr : b.Interleaves s₁ s) : b.Later s₁.state s.state := by
  obtain ⟨ks', seen', more', h', -, hext⟩ := h.run h₀ hr
  exact ⟨hext, h'.abides.sound.reads⟩

theorem Batched.among_mirrors (h : Batched b e₀ s₁ ks seen more) (h₀ : b.Resting e₀)
    (c : Criteria) (most : Nat) (after : UInt32) (range : TimeRange) :
    Activity.Mirrors (b.Later s₁.state) s₁.state
      (b.among most after range ((s₁.state.data b).index.evaluate c)).run :=
  Bucket.among_mirrors (h.later h₀ .refl)
    (fun _ hid => h.ledger.mem_of_tells h₀ (Index.tells_of_mem_evaluate hid)) most after range

-- ---- how far a search has come -------------------------------------------

/-- What has come of a search in the place since `s₀`. -/
inductive Searched (b : Bucket) (query : String) (most : Nat) (after : UInt32) (range : TimeRange)
    (place : Nat) (s₀ s : Scene Engine Call.Answer) : Prop
  | begun (h : s.tasks[place]? =
      some ⟨.search query most after range, (b.search query most after range).run⟩)
  | refused {p : QueryError} (hc : compile query = .error p) (h : s.tasks[place]? =
      some ⟨.search query most after range, .done (.error (.query p))⟩)
  | reads {q : Criteria} (hc : compile query = .ok q) (h : s.tasks[place]? =
      some ⟨.search query most after range, b.reading most after range q⟩)
  | looks {q : Criteria} {s₁ : Scene Engine Call.Answer} (hc : compile query = .ok q)
    (h₁ : b.Interleaves s₀ s₁) (hs₁ : s₁.tasks[place]? =
      some ⟨.search query most after range, b.reading most after range q⟩)
    (h : b.Interleaves (s₁.turn place) s)

theorem rest_eq {c : Call} {x y : Activity Engine c.Answer} (h : s.tasks[place]? = some ⟨c, x⟩)
    (h' : s.tasks[place]? = some ⟨c, y⟩) : x = y :=
  eq_of_heq (Task.mk.inj (Option.some.inj (h.symm.trans h'))).2

theorem cache_of_run (h₀ : b.Resting e₀) (hr : b.Interleaves ⟨e₀, []⟩ s) : s.state.cache.Sound :=
  have ⟨_, _, _, h, _⟩ := h₀.batched.run h₀ hr
  h.abides.sound.cache

theorem searched_of_run (h₀ : b.Resting e₀) (hs₀ : b.Interleaves ⟨e₀, []⟩ s₀)
    (ht : s₀.tasks[place]? =
      some ⟨.search query most after range, (b.search query most after range).run⟩)
    (hr : b.Interleaves s₀ s) : b.Searched query most after range place s₀ s := by
  rcases hr.passes ht with h | ⟨s₁, y, h₁, -, hy, hturn, h⟩
  · exact .begun h
  rw [b.search_step? (cache_of_run h₀ (hs₀.trans h₁))] at hy
  cases hc : compile query with
  | error p =>
    rw [hc] at hy
    obtain ⟨rfl, -⟩ := Prod.mk.inj (Option.some.inj hy)
    obtain ⟨y, hs, hy⟩ := h.at_place hturn
    obtain rfl := hy rfl
    exact .refused hc hs
  | ok c =>
    rw [hc] at hy
    obtain ⟨rfl, -⟩ := Prod.mk.inj (Option.some.inj hy)
    rcases h.passes hturn with h | ⟨s₂, y, h₂, ht₂, -, -, h⟩
    · exact .reads hc h
    · exact .looks hc ((h₁.trans (Scene.run_turn s₁ place)).trans h₂) ht₂ h

/-- By its own turns the search comes to its end. -/
def CanEnd (s : Scene Engine Call.Answer) (place : Nat) (c : Call) : Prop :=
  ∃ n a, ((List.replicate n place).foldl Scene.turn s).tasks[place]? = some ⟨c, .done a⟩

theorem canEnd_of_turn {c : Call} (h : CanEnd (s.turn place) place c) : CanEnd s place c := by
  obtain ⟨n, a, h⟩ := h
  exact ⟨n + 1, a, h⟩

theorem Batched.canEnd_of_reading (h : Batched b e₀ s ks seen more) (h₀ : b.Resting e₀)
    (ht : s.tasks[place]? =
      some ⟨.search query most after range, b.reading most after range c⟩) :
    CanEnd s place (.search query most after range) := by
  have hstep := b.reading_step? s.state most after range c
  have hturn := Scene.getElem?_tasks_turn ht hstep
  refine canEnd_of_turn ?_
  refine Scene.exists_done_of_mirrors hturn (h.among_mirrors h₀ c most after range) ?_
  exact h.later h₀ (Scene.run_turn s place)

/-- Nothing holds a search up. -/
theorem Searched.canEnd (h : b.Searched query most after range place s₀ s) (h₀ : b.Resting e₀)
    (hs₀ : b.Interleaves ⟨e₀, []⟩ s₀) (hr : b.Interleaves s₀ s) :
    CanEnd s place (.search query most after range) := by
  have hs := hs₀.trans hr
  cases h with
  | begun h =>
    have hturn := Scene.getElem?_tasks_turn h (b.search_step? (cache_of_run h₀ hs) ..)
    refine canEnd_of_turn ?_
    cases hc : compile query with
    | error p =>
      rw [hc] at hturn
      exact ⟨0, _, hturn⟩
    | ok c =>
      rw [hc] at hturn
      obtain ⟨_, _, _, hb, -⟩ := h₀.batched.run h₀ (hs.trans (Scene.run_turn s place))
      exact hb.canEnd_of_reading h₀ hturn
  | refused _ h => exact ⟨0, _, h⟩
  | reads _ h =>
    obtain ⟨_, _, _, hb, -⟩ := h₀.batched.run h₀ hs
    exact hb.canEnd_of_reading h₀ h
  | @looks c s₁ _ h₁ hs₁ h =>
    obtain ⟨_, _, _, hb, -⟩ := h₀.batched.run h₀ (hs₀.trans h₁)
    have hturn := Scene.getElem?_tasks_turn hs₁ (b.reading_step? s₁.state most after range c)
    have hlater {u : Scene Engine Call.Answer} (hu : b.Interleaves (s₁.turn place) u) :=
      hb.later h₀ ((Scene.run_turn s₁ place).trans hu)
    obtain ⟨y, hy, hm, -⟩ := h.mirrors hturn (hb.among_mirrors h₀ c most after range)
      (hb.later h₀ .refl) fun u hu => hlater hu
    exact Scene.exists_done_of_mirrors hy hm (hlater h)

/-- However the steps of calls alternate that add to one bucket and search it, while now and then a
commit is refused, a search is held up by nothing. If its query compiles it answers what it would
answer alone in the state in which it takes its positions from the index, and the events that this
index knows of are those of whole batches. -/
theorem search_alone_of_run (h₀ : b.Resting e₀) (hs₀ : b.Interleaves ⟨e₀, []⟩ s₀)
    (hr : b.Interleaves (b.calling s₀ (.search query most after range)) s) :
    CanEnd s s₀.tasks.length (.search query most after range) ∧
    ∀ r, s.tasks[s₀.tasks.length]? = some ⟨.search query most after range, .done r⟩ →
      (∃ p, compile query = .error p ∧ r = .error (.query p)) ∨
      ∃ s₁ seen, b.Interleaves (b.calling s₀ (.search query most after range)) s₁ ∧
        b.Interleaves (s₁.turn s₀.tasks.length) s ∧
        b.Snapshot query most after range s₀.tasks.length s₁ r ∧ b.Whole e₀ s₀ s₁ seen := by
  have hcall : b.Interleaves s₀ (b.calling s₀ (.search query most after range)) :=
    .single (.call trivial)
  have h := searched_of_run h₀ (hs₀.trans hcall) (getElem?_calling ..) hr
  refine ⟨h.canEnd h₀ (hs₀.trans hcall) hr, fun r hdone => ?_⟩
  obtain ⟨_, _, _, hb₀, -⟩ := h₀.batched.run h₀ hs₀
  cases h with
  | begun h =>
    have hx := b.search_step? (cache_of_run h₀ ((hs₀.trans hcall).trans hr)) query most after range
    rw [rest_eq h hdone] at hx
    cases hx
  | refused hc h =>
    cases rest_eq h hdone
    exact .inl ⟨_, hc, rfl⟩
  | @reads c hc h =>
    have hx := b.reading_step? s.state most after range c
    rw [rest_eq h hdone] at hx
    cases hx
  | @looks c s₁ hc h₁ hs₁ h =>
    obtain ⟨_, seen, _, hb₁, hseen, -⟩ := hb₀.run h₀ (hcall.trans h₁)
    have hmirrors := hb₁.among_mirrors h₀ c most after range
    have hlater := hb₁.later h₀ .refl
    refine .inr ⟨s₁, seen, h₁, h, ⟨⟨c, hc, hs₁⟩, fun rounds => ?_⟩, hb₁.whole h₀ hb₀ hseen⟩
    -- Alone as well as here the search comes to the end of what it had still to do.
    obtain ⟨y, hy, -, hrun⟩ := h.mirrors (Scene.getElem?_tasks_turn hs₁ (b.reading_step? ..))
      hmirrors hlater fun u hu => hb₁.later h₀ ((Scene.run_turn s₁ _).trans hu)
    obtain rfl := rest_eq hy hdone
    obtain ⟨a, ha⟩ := hmirrors.exists_run
    have hra : some (r, s₁.state) = some (a, s₁.state) := (hrun rounds).trans (ha _ hlater rounds)
    cases hra
    rw [search_result_eq b hb₁.abides.sound.cache hc]
    exact ha (s₁.state.asked query) ⟨⟨rfl, List.prefix_rfl⟩, hlater.reads⟩ rounds

-- ---- one run -------------------------------------------------------------

def oneOpened : Engine :=
  { Engine.fresh { Store.inMemory with
      backing := .memory { Memory.empty with maps := (∅ : Maps).insert firstHour.eventsMap ∅ } }
      .standard .standard with
    opened := #[⟨.empty, 0, .ready, false⟩] }

theorem resting_oneOpened : firstHour.Resting oneOpened where
  here := by decide
  cache := Cache.sound_new _ _
  reads := ⟨rfl, nofun⟩
  idle := rfl
  counted := by
    have : (oneOpened.content firstHour).toList = [] := by decide +kernel
    simp [this]
  known := by
    rintro id (h | ⟨key, h⟩)
    · simp [oneOpened, Engine.data, firstHour, Index.empty] at h
    · simp [oneOpened, Engine.data, firstHour, Index.carrying_empty] at h

/-- Of two batches the first has been added, and the second is stored but not in the index. -/
def halfAdded : Scene Engine Call.Answer :=
  .turns (Call.activity firstHour) oneOpened
    [.addAll [Event.new 1709647200000, Event.new 1709647200001],
      .addAll [Event.new 1709647200002, Event.new 1709647200003]]
    [0, 0, 0, 0, 0, 1, 1, 1]

/-- A search takes its positions before the second batch comes to the index, and loads events after
that. -/
def searchedMeanwhile : Scene Engine Call.Answer :=
  [2, 2, 1, 1, 2, 2, 2].foldl Scene.turn
    (firstHour.calling halfAdded (.search "" 0 0 ⟨⟨1709647200, 0⟩, ⟨1709650799, 0⟩⟩))

def answerAt (s : Scene Engine Call.Answer) (place : Nat) : Option (List Event) :=
  match s.tasks[place]? with
  | some ⟨.search .., .done (.ok found)⟩ => some found
  | _ => none

theorem done_of_answerAt {found : List Event} (h : answerAt s place = some found) :
    ∃ query most after range,
      s.tasks[place]? = some ⟨.search query most after range, .done (.ok found)⟩ := by
  unfold answerAt at h
  split at h
  · next ht =>
    cases h
    exact ⟨_, _, _, _, ht⟩
  · cases h

/-- It finds the first batch, which was all that the index knew of. -/
theorem search_alone_of_run_of_halfAdded : ∃ b e₀ s₀ s range found s₁ seen, b.Resting e₀ ∧
    b.Interleaves ⟨e₀, []⟩ s₀ ∧ b.Interleaves (b.calling s₀ (.search "" 0 0 range)) s ∧
    s.tasks[s₀.tasks.length]? = some ⟨.search "" 0 0 range, .done (.ok found)⟩ ∧
    found.map Event.id = [1, 2] ∧ (s.state.data b).index.size = 4 ∧
    CanEnd s s₀.tasks.length (.search "" 0 0 range) ∧
    b.Interleaves (s₁.turn s₀.tasks.length) s ∧
    b.Snapshot "" 0 0 range s₀.tasks.length s₁ (.ok found) ∧ b.Whole e₀ s₀ s₁ seen := by
  have hs₀ : firstHour.Interleaves ⟨oneOpened, []⟩ halfAdded :=
    Scene.run_turns (fun _ _ => trivial) _
  have hr : firstHour.Interleaves
      (firstHour.calling halfAdded (.search "" 0 0 ⟨⟨1709647200, 0⟩, ⟨1709650799, 0⟩⟩))
      searchedMeanwhile := Scene.run_places _ _
  have hlen : halfAdded.tasks.length = 2 := by decide +kernel
  obtain ⟨found, ha, hids⟩ : ∃ found, answerAt searchedMeanwhile halfAdded.tasks.length =
      some found ∧ found.map Event.id = [1, 2] := by
    have : (answerAt searchedMeanwhile 2).map (·.map Event.id) = some [1, 2] := by decide +kernel
    obtain ⟨found, ha, hids⟩ := Option.map_eq_some_iff.mp this
    exact ⟨found, hlen ▸ ha, hids⟩
  obtain ⟨_, _, _, _, hdone⟩ := done_of_answerAt ha
  obtain ⟨y, hy, -⟩ := hr.at_place (getElem?_calling ..)
  cases Option.some.inj (hdone.symm.trans hy)
  obtain ⟨hend, hanswer⟩ := search_alone_of_run resting_oneOpened hs₀ hr
  obtain ⟨p, -, hp⟩ | ⟨s₁, seen, -, h, hsnap, hwhole⟩ := hanswer _ hdone
  · cases hp
  · exact ⟨_, _, _, _, _, found, s₁, seen, resting_oneOpened, hs₀, hr, hdone, hids,
      by decide +kernel, hend, h, hsnap, hwhole⟩

end Bucket

end EventStore
