import EventStore.Proofs.Bucket.Representation
import EventStore.Proofs.Engine.Work
import EventStore.Proofs.Store.Sound
import EventStore.Proofs.Time.Key

/-!
# What a bucket does undisturbed

Nobody else is at work, and the store refuses no calls: then a bucket's operations come to results,
and to which ones is settled by the bucket's cell (`Bucket.Runs`). A bucket that keeps a log can be
opened (`openAt_result`) and marked (`setLock_runs`), and takes the events for which it has room
(`addAll_runs`).
-/

namespace EventStore

open Query Operation

namespace Bucket

-- ---- names of maps -------------------------------------------------------

theorem utf8ByteSize_le (s : String) : s.utf8ByteSize ≤ 4 * s.toList.length := by
  have h (l : List Char) : (String.ofList l).utf8ByteSize ≤ 4 * l.length := by
    induction l with
    | nil => decide
    | cons c l ih =>
      have := c.utf8Size_le_four
      rw [String.ofList_cons, String.utf8ByteSize_append, String.utf8ByteSize_singleton,
        List.length_cons]
      omega
  have := h s.toList
  rwa [String.ofList_toList] at this

theorem Names.possible {m : String} (h : Names m) (v : View) : (Request.openMap m).Possible v := by
  obtain ⟨b, h⟩ := h
  obtain ⟨hk, hlen⟩ := Hour.ofKey?_key_of_token b.named
  have hd := (Hour.digits_of_ofKey? hk).2
  have hm : ∃ tail, m.toList = Hour.mapLead.toList ++ (b.hour.key.toList ++ tail) ∧
      (tail = [] ∨ tail = Hour.optionsTail.toList) := by
    rcases h with rfl | rfl
    · exact ⟨[], by simp [eventsMap, Hour.eventsMap, String.toList_append], .inl rfl⟩
    · exact ⟨_, by simp [optionsMap, Hour.optionsMap, String.toList_append], .inr rfl⟩
  obtain ⟨tail, hm, ht⟩ := hm
  have hlead : Hour.mapLead.toList = ['o', 'p', 't', 'i', 'c', 's', '_'] := by decide
  constructor
  · have hkey : b.hour.key.toList.all
        (fun c => c.isAlphanum || c == '_' || c == '-' || c == '.') = true := by
      refine List.all_eq_true.mpr fun c hc => ?_
      simp [Char.isAlphanum, hd c hc]
    have htail : tail.all (fun c => c.isAlphanum || c == '_' || c == '-' || c == '.') = true := by
      rcases ht with rfl | rfl <;> decide
    rw [← String.ofList_toList (s := m), hm, Directory.validName_ofList, List.all_append,
      List.all_append, hkey, htail, hlead]
    rfl
  · have hb := utf8ByteSize_le (m ++ Directory.extension)
    have htail : tail.length ≤ 8 := by
      rcases ht with rfl | rfl <;> decide
    have hext : Directory.extension.toList.length = 4 := by decide
    rw [String.toList_append, hm, hlead] at hb
    simp only [List.length_append, List.length_cons, List.length_nil, hlen, hext] at hb
    simp only [Path.isLong, decide_eq_false_iff_not]
    omega

-- ---- running -------------------------------------------------------------

/-- Undisturbed, and over a store that refuses no calls, the operation comes from the cell `c` to
the result `r` and the cell `c'`, and spares the rest of the engine. -/
def Runs (b : Bucket) (op : Operation α) (c : Cell) (r : Except EngineError α) (c' : Cell) : Prop :=
  ∀ e rounds, b.number < e.opened.size → e.cell b = c → e.store.Able →
    ∃ e', op.result rounds e = some (r, e') ∧ b.Spares e e' ∧ e'.store.Able ∧ e'.cell b = c'

namespace Runs

variable {b : Bucket} {c c₁ c' : Cell} {α β : Type} {op : Operation α} {k : α → Operation β}
  {r : Except EngineError β}

theorem result (x : Except EngineError α) : b.Runs (liftM x) c x c := by
  intro e rounds _ hc ha
  refine ⟨e, ?_, .refl b e, ha, hc⟩
  cases x <;> rfl

theorem pure' (a : α) : b.Runs (pure a) c (.ok a) c := result (.ok a)

theorem bind {a : α} (h : b.Runs op c (.ok a) c₁) (hk : b.Runs (k a) c₁ r c') :
    b.Runs (op >>= k) c r c' := by
  intro e rounds hn hc ha
  obtain ⟨e₁, hr, hs, ha₁, hc₁⟩ := h e rounds hn hc ha
  obtain ⟨e', hr', hs', ha', hc'⟩ := hk e₁ rounds (hs.size ▸ hn) hc₁ ha₁
  exact ⟨e', by rw [result_bind, hr]; exact hr', hs.trans hs', ha', hc'⟩

theorem bind_error {p : EngineError} (h : b.Runs op c (.error p) c') :
    b.Runs (op >>= k) c (.error p) c' := by
  intro e rounds hn hc ha
  obtain ⟨e', hr, h'⟩ := h e rounds hn hc ha
  exact ⟨e', by rw [result_bind, hr]; rfl, h'⟩

theorem step {act : Engine → Except EngineError α × Engine} {r : Except EngineError α}
    (h : ∀ e, b.number < e.opened.size → e.cell b = c →
      (act e).1 = r ∧ b.Spares e (act e).2 ∧ (act e).2.store = e.store ∧ (act e).2.cell b = c') :
    b.Runs (attempt act) c r c' := by
  intro e rounds hn hc ha
  obtain ⟨hr, hs, hst, hc'⟩ := h e hn hc
  exact ⟨(act e).2, congrArg some (Prod.ext hr rfl), hs, hst ▸ ha, hc'⟩

theorem change (f : BucketData → BucketData) :
    b.Runs (liftM (b.change f)) c (.ok ()) { c with data := f c.data } := by
  rintro e rounds hn rfl ha
  exact ⟨e.setData b (f (e.data b)), rfl, .setData .., ha, cell_setData hn _⟩

theorem observe (f : BucketData → α) : b.Runs (liftM (b.observe f)) c (.ok (f c.data)) c := by
  rintro e rounds - rfl ha
  exact ⟨e, rfl, .refl b e, ha, rfl⟩

theorem call {q : Request α} {a : α} (hp : q.Possible c.view)
    (hr : ∀ a', q.Replies c.view a' → a' = a) :
    b.Runs (call q) c (.ok a) { c with view := q.effect c.view } := by
  rintro e rounds hn rfl ha
  obtain ⟨a', s, hans, hable⟩ := ha.exists_answer hp
  obtain ⟨hrep, hv⟩ := Store.replies_of_ok hans
  obtain rfl := hr a' hrep
  have hact : ((e.store.answer q).1.mapError EngineError.store,
      { e with store := (e.store.answer q).2 }) = (.ok a', { e with store := s }) := by
    rw [hans]
    rfl
  refine ⟨{ e with store := s }, congrArg some hact, ?_, hable, ?_⟩
  · exact ⟨rfl, fun _ _ => rfl, Nat.le_refl _, rfl⟩
  · exact congrArg (Cell.mk _) hv

theorem settle {k : Except EngineError α → Operation β} {x : Except EngineError α}
    (h : b.Runs op c x c₁) (hk : b.Runs (k x) c₁ r c') : b.Runs (outcome op >>= k) c r c' := by
  intro e rounds hn hc ha
  obtain ⟨e₁, hr, hs, ha₁, hc₁⟩ := h e rounds hn hc ha
  obtain ⟨e', hr', hs', ha', hc'⟩ := hk e₁ rounds (hs.size ▸ hn) hc₁ ha₁
  have hout : (outcome op).result rounds e = some (.ok x, e₁) := result_lift_run hr
  exact ⟨e', by rw [result_bind, hout]; exact hr', hs.trans hs', ha', hc'⟩

theorem alone {x : Except EngineError α} (hw : c.data.writing = false)
    (h : b.Runs op c.busy x c₁) (hc : c₁.idle = c') : b.Runs (b.alone op) c x c' := by
  subst hc
  rintro e rounds hn rfl ha
  have hn' : b.number < (e.setData b { e.data b with writing := true }).opened.size :=
    (Spares.setData b e _).size ▸ hn
  have hbusy : (e.setData b { e.data b with writing := true }).cell b = (e.cell b).busy :=
    cell_setData hn _
  obtain ⟨e₁, hr, hs, ha₁, rfl⟩ := h _ rounds hn' hbusy ha
  refine ⟨e₁.setData b { e₁.data b with writing := false }, ?_, ?_, ha₁, ?_⟩
  · have hfree : (!(e.data b).writing) = true := (Bool.not_eq_true' _).mpr hw
    have hacquire : Activity.run rounds b.acquire e =
        some ((), e.setData b { e.data b with writing := true }) := if_pos hfree
    exact result_between hacquire hr rfl
  · exact (Spares.setData ..).trans (hs.trans (.setData ..))
  · exact cell_setData (hs.size ▸ hn') _

end Runs

variable {b : Bucket} {c : Cell} {index : Index} {last : UInt32}

-- ---- opening -------------------------------------------------------------

theorem replay_runs
    (hi : indexOf ((c.view b.eventsMap).getD ∅).toList = .ok (index, last)) :
    b.Runs b.replay c (.ok (b.isMarked c.view))
      ⟨{ c.data with index := index, lastId := last }, b.withMaps c.view⟩ := by
  have hevents : b.withMaps c.view b.eventsMap = some ((c.view b.eventsMap).getD ∅) := by
    rw [withMaps_apply, if_pos (.inl rfl)]
  have hoptions : b.withMaps c.view b.optionsMap = some ((c.view b.optionsMap).getD ∅) := by
    rw [withMaps_apply, if_pos (.inr rfl)]
  refine .bind (a := ()) (.call (Names.possible ⟨b, .inl rfl⟩ _) fun _ _ => rfl) ?_
  refine .bind (a := ()) (.call (Names.possible ⟨b, .inr rfl⟩ _) fun _ _ => rfl) ?_
  refine .bind (a := ((c.view b.eventsMap).getD ∅).toList)
    (.call (c := ⟨c.data, b.withMaps c.view⟩) (Option.isSome_iff_exists.mpr ⟨_, hevents⟩) ?_) ?_
  · rintro l ⟨es, hes, rfl⟩
    rw [Option.some.inj (hes.symm.trans hevents)]
  rw [hi]
  refine .bind (a := (index, last)) (.result _) ?_
  refine .bind (a := ((c.view b.optionsMap).getD ∅)[lockKey]?)
    (.call (c := ⟨c.data, b.withMaps c.view⟩) (Option.isSome_iff_exists.mpr ⟨_, hoptions⟩) ?_) ?_
  · rintro value ⟨es, hes, rfl⟩
    rw [Option.some.inj (hes.symm.trans hoptions)]
  exact .bind (.change _) (.pure' _)

theorem rebuild_runs (hw : c.data.writing = false)
    (hi : indexOf ((c.view b.eventsMap).getD ∅).toList = .ok (index, last)) :
    b.Runs b.rebuild c (.ok ())
      ⟨⟨index, last, b.markedState c.view, false⟩, b.withMaps c.view⟩ := by
  exact .alone hw (.bind (.change _) (.settle (replay_runs hi) (.change _))) rfl

theorem openAt_result {hour : Hour} {id : UInt32} (hid : hour.tokenSeconds? = some id) {e : Engine}
    (ha : e.store.Able) (hk : Kept hour log e.store.entries?) (rounds : Nat) :
    ∃ b e', (openAt hour).result rounds e = some (.ok b, e') ∧ e'.store.Able := by
  unfold openAt
  split
  · next hn =>
    rw [hn] at hid
    cases hid
  next id' hid' =>
  let b : Bucket := ⟨e.opened.size, hour, id', hid'⟩
  have hcell : (grown e).cell b = ⟨.fresh, e.store.entries?⟩ := by
    simp [b, Engine.cell, Engine.data, grown]
  obtain ⟨e', hr, -, ha', -⟩ := rebuild_runs (b := b) (c := ⟨.fresh, e.store.entries?⟩) rfl
    (Kept.indexOf_eq hk) (grown e) rounds (by simp [b, grown]) hcell ha
  refine ⟨b, e', ?_, ha'⟩
  rw [result_bind]
  show (b.rebuild >>= fun _ => pure b).result rounds (grown e) = _
  rw [result_bind, hr]
  rfl

-- ---- writing -------------------------------------------------------------

theorem setLock_runs (hw : c.data.writing = false) (hs : c.data.state.isWritable = true)
    (ho : (c.view b.optionsMap).isSome) (locked : Bool) :
    b.Runs (b.setLock locked) c (.ok ()) (b.marked locked c) := by
  have hcommit : (Request.commit (Transaction.empty.set b.optionsMap lockKey
      [if locked then 1 else 0])).Possible c.view := by
    intro w hw
    rw [List.mem_singleton.mp hw]
    exact ho
  have hcheck : b.Runs (attempt fun e => (b.checkWritable (e.data b), e)) c.busy (.ok ()) c.busy :=
    .step fun e _ hc => ⟨if_pos (by rwa [show e.data b = _ from congrArg Cell.data hc]),
      .refl b e, rfl, hc⟩
  have hcall := Runs.call (b := b) (c := c.busy) (a := ()) hcommit fun _ _ => rfl
  rw [effect_mark] at hcall
  refine .alone hw (.bind hcheck (.bind hcall (.change _))) ?_
  exact Cell.idle_eq (c := b.marked locked c) hw

theorem reserve_eq {events : List Event} {d : BucketData} (hs : d.state.isWritable = true)
    (hin : ∀ x ∈ events, b.hour.contains x.millis = true) : b.reserve events d =
      if d.lastId.toNat + events.length < 4294967296 then
        .ok (d.lastId, { d with lastId := d.lastId + events.length.toUInt32 })
      else .error (.bucketFull b.hour.key) := by
  have hfind : (events.find? fun x => !b.hour.contains x.millis) = none :=
    List.find?_eq_none.mpr fun x hx => by simp [hin x hx]
  have hcheck : b.checkWritable d = .ok () := if_pos hs
  have hlast : (d.lastId.toNat + events.length).toUInt32 =
      d.lastId + events.length.toUInt32 := by
    rw [Nat.toUInt32_eq, UInt32.ofNat_add, UInt32.ofNat_toNat]
  simp only [reserve, hcheck, hfind, hlast]
  rfl

/-- A bucket takes the events of its hour for which there is room. -/
theorem addAll_runs {events : List Event} (hn : events ≠ []) (hw : c.data.writing = false)
    (hs : c.data.state.isWritable = true) (he : (c.view b.eventsMap).isSome)
    (hin : ∀ x ∈ events, b.hour.contains x.millis = true) :
    ∃ c', b.Runs (b.addAll events) c
      (if c.data.lastId.toNat + events.length < 4294967296 then
        .ok (b.numbered c.data.lastId events)
      else .error (.bucketFull b.hour.key)) c' := by
  have hemp : events.isEmpty = false := by simpa using hn
  have hres := reserve_eq (b := b) (d := c.busy.data) hs hin
  rw [addAll, hemp, if_neg Bool.false_ne_true]
  split
  · next hroom =>
    rw [if_pos (show c.busy.data.lastId.toNat + events.length < 4294967296 from hroom)] at hres
    generalize ({ c.busy.data with
      lastId := c.busy.data.lastId + events.length.toUInt32 } : BucketData) = d at hres
    have hcommit : (Request.commit (b.writing (b.numbered c.data.lastId events))).Possible
        c.view := by
      intro w hw
      rw [writes_writing] at hw
      obtain ⟨x, -, rfl⟩ := List.mem_map.mp hw
      exact he
    refine ⟨_, .alone hw (.bind (?_ : b.Runs _ c.busy (.ok c.data.lastId) ⟨d, c.view⟩)
      (.settle (.call (c := ⟨d, c.view⟩) (a := ()) hcommit fun _ _ => rfl)
        (.bind (.change _) (.pure' _)))) rfl⟩
    refine .step fun e hn hc => ?_
    have hdata : e.data b = c.busy.data := congrArg Cell.data hc
    have hview : e.store.entries? = c.view := congrArg Cell.view hc
    rw [hdata, hres]
    exact ⟨rfl, .setData .., rfl, (cell_setData hn d).trans (by rw [hview])⟩
  · next hroom =>
    rw [if_neg (show ¬ c.busy.data.lastId.toNat + events.length < 4294967296 from hroom)] at hres
    refine ⟨c.busy.idle, .alone hw (.bind_error (?_ : b.Runs _ c.busy _ c.busy)) rfl⟩
    refine .step fun e _ hc => ?_
    have hd : e.data b = c.busy.data := congrArg Cell.data hc
    rw [hd, hres]
    exact ⟨rfl, .refl b e, rfl, hc⟩

-- ---- dropping ------------------------------------------------------------

theorem discard_runs (hw : c.data.writing = false) : b.Runs (b.discard false) c
    (.ok (c.data.state != .locked))
    (if c.data.state = .locked then c else b.emptied false c) := by
  have hremove (m : String) (v : View) : b.Runs (Operation.call (.removeMap m)) ⟨c.busy.data, v⟩
      (.ok (v m).isSome) ⟨c.busy.data, (Request.removeMap m).effect v⟩ :=
    .call (c := ⟨c.busy.data, v⟩) trivial fun _ ha => ha
  have hrestart (v : View) : b.Runs (do
      b.setIndex .empty 0
      b.setState .dropped
      return true) ⟨c.busy.data, v⟩ (.ok true) ⟨⟨.empty, 0, .dropped, true⟩, v⟩ :=
    .bind (.change _) (.bind (.change _) (.pure' true))
  by_cases hl : c.data.state = .locked
  · rw [if_pos hl, hl, bne_self_eq_false]
    refine .alone hw (?_ : b.Runs _ c.busy _ c.busy) (Cell.idle_eq hw)
    refine .bind (.observe _) ?_
    rw [if_pos (show c.busy.data.state = .locked from hl)]
    exact .pure' false
  rw [if_neg hl, bne_iff_ne.mpr hl]
  refine .alone hw (?_ : b.Runs _ c.busy _
    ⟨⟨.empty, 0, .dropped, true⟩, (b.emptied false c).view⟩) rfl
  refine .bind (.observe _) ?_
  rw [if_neg (show ¬ c.busy.data.state = .locked from hl)]
  dsimp only
  by_cases hd : c.data.state = .dropped
  · rw [if_neg (Decidable.not_not.mpr (show c.busy.data.state = .dropped from hd)),
      show (b.emptied false c).view = c.view from if_pos hd]
    exact hrestart c.view
  · rw [if_pos (show c.busy.data.state ≠ .dropped from hd),
      show (b.emptied false c).view = b.withoutMaps c.view from if_neg hd]
    exact .bind (hremove _ _) (.bind (hremove _ _) (hrestart _))

end Bucket

end EventStore
