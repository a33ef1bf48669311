import EventStore.Proofs.EventSet.Hands
import EventStore.Proofs.EventSet.Operations

/-!
# Adding events among others

The operations that add events abide by the rules of `sharing`, whatever other calls do between
their steps. A bucket that is registered has been read while its hour had none, or else another is
found in the registry (`Reads`); so its index is that of what is stored. In the end a call holds
nothing, and what it has stored is what it answers.
-/

namespace EventStore

namespace EventSet

open Query Operation

variable {α β : Type} {e e' : Engine} {k k' : Hand} {b : Bucket} {stored : List Event}

-- ---- calls to the store --------------------------------------------------

/-- The call does no more to maps of events than make them. -/
structure IsTame (r : Request α) : Prop where
  keeps : r.kind ≠ .removeMap
  effect : ∀ v, View.Tame v (r.effect v)

theorem kind_commit_ne (tx : Transaction) : (Request.commit tx).kind ≠ .removeMap := nofun

theorem isTame_openMap (m : String) : IsTame (.openMap m) := by
  refine ⟨nofun, fun v => ⟨fun b => ?_, fun hs => ?_⟩⟩
  · simp only [Request.effect]
    split
    · next hm =>
      subst hm
      cases hv : v b.eventsMap with
      | none => exact .inr ⟨rfl, rfl⟩
      | some es => exact .inl rfl
    · exact .inl rfl
  · simp only [Request.effect]
    split
    · rfl
    · exact hs

theorem isTame_scan (m : String) : IsTame (.scan m) := ⟨nofun, fun _ => .refl _⟩

theorem isTame_get (m : String) (key : Bytes) : IsTame (.get m key) :=
  ⟨nofun, fun _ => .refl _⟩

theorem isTame_mark (b : Bucket) (value : Bytes) :
    IsTame (.commit (Transaction.empty.set b.optionsMap Bucket.lockKey value)) := by
  refine ⟨kind_commit_ne _, fun v => ⟨fun c => ?_, fun hs => ?_⟩⟩
  · rw [Bucket.effect_mark]
    exact .inl (if_neg (Hour.eventsMap_ne_optionsMap c.named b.named))
  · simpa only [Request.effect, Option.isSome_map] using hs

theorem IsTame.answer {r : Request α} (h : IsTame r) (s : Store) :
    View.Tame s.entries? (s.answer r).2.entries? := by
  cases ha : s.answer r with
  | mk a s' =>
    cases a with
    | ok a => exact (Store.replies_of_ok ha).2 ▸ h.effect _
    | error p => exact Store.entries?_of_error h.keeps ha ▸ .refl _

theorem IsTame.call_abides {r : Request α} {Q : α → Engine → Hand → Prop}
    {E : EngineError → Engine → Hand → Prop} (ht : IsTame r)
    (h : ∀ u a s, sharing.Finds k e u → r.Replies u.store.entries? a →
      s.entries? = r.effect u.store.entries? → Q a { u with store := s } k)
    (he : ∀ u p s, sharing.Finds k e u → s.entries? = u.store.entries? →
      E (.store p) { u with store := s } k) : (call r).Abides sharing e k Q E := by
  refine .attempt fun u hu => ⟨k, .asks _ _ (ht.answer _) id, ?_⟩
  cases ha : u.store.answer r with
  | mk a s =>
    cases a with
    | ok a =>
      obtain ⟨hrep, hs⟩ := Store.replies_of_ok ha
      exact h u a s hu hrep hs
    | error p => exact he u p s hu (Store.entries?_of_error ht.keeps ha)

theorem IsTame.call_keeps {r : Request α} {P : Engine → Prop} (ht : IsTame r)
    (hp : ∀ {e e'}, Grows e e' → P e → P e') (h : P e) :
    (call r).Abides sharing e k (fun _ e' k' => k' = k ∧ P e') (fun _ _ k' => k' = k) := by
  have hgrows {u : Engine} {s : Store} (hu : sharing.Finds k e u)
      (hs : View.Tame u.store.entries? s.entries?) : P { u with store := s } :=
    hp ((Acts.asks (k := k) s u.cache hs id).grows hu.holds) (hp hu.others.toGrows h)
  refine ht.call_abides (fun u a s hu _ hs => ⟨rfl, hgrows hu ?_⟩) fun _ _ _ _ _ => rfl
  rw [hs]
  exact ht.effect _

-- ---- a bucket that is being made ------------------------------------------

/-- What has been read of the store is what it holds for the bucket, unless another bucket of the
hour is registered by now. -/
structure Reads (b : Bucket) (i : Index) (last : UInt32) (e : Engine) : Prop where
  events : (e.store.entries? b.eventsMap).isSome
  options : (e.store.entries? b.optionsMap).isSome
  indexed : e.registry[b.hour]? = none → Bucket.indexOf (e.content b).toList = .ok (i, last)

theorem Reads.grows (h : Reads b i last e) (hg : Grows e e') : Reads b i last e' where
  events := hg.maps h.events
  options := hg.maps h.options
  indexed hn := by
    rw [hg.content hn]
    refine h.indexed ?_
    cases hb : e.registry[b.hour]? with
    | none => rfl
    | some c => simp [hg.registered hb] at hn

/-- The bucket has been read, and is at rest. -/
structure Made (b : Bucket) (e : Engine) : Prop where
  idle : (e.data b).writing = false
  writable : (e.data b).state.isWritable = true
  reads : Reads b (e.data b).index (e.data b).lastId e

theorem Made.others (h : Made b e) (hk : k.makes = some b) (ho : Others k e e') : Made b e' := by
  have hd := ho.made hk
  exact ⟨hd ▸ h.idle, hd ▸ h.writable, hd ▸ h.reads.grows ho.toGrows⟩

theorem Made.indexed (h : Made b e) (hn : e.registry[b.hour]? = none) : b.Indexed (e.cell b) := by
  obtain ⟨es, hes⟩ := Option.isSome_iff_exists.mp h.reads.events
  exact ⟨es, hes, content_eq hes ▸ h.reads.indexed hn⟩

theorem Made.usable (h : Made b e) (hn : e.registry[b.hour]? = none) : Usable b e :=
  ⟨h.reads.events, h.reads.options, ⟨e.content b, _, h.reads.indexed hn, fun _ _ => id⟩, h.writable⟩

theorem change_making {f : BucketData → BucketData} {Q : Unit → Engine → Hand → Prop}
    (hk : k.makes = some b)
    (h : ∀ u, sharing.Finds k e u → Q () (u.setData b (f (u.data b))) k) :
    (b.change f).Abides sharing e k Q :=
  .atomically fun u hu => ⟨k, .prepares hk _, h u hu⟩

theorem alone_making {op : Operation α} {Q : α → Engine → Hand → Prop}
    {E : EngineError → Engine → Hand → Prop} (hk : k.makes = some b)
    (h : ∀ u, sharing.Finds k e u → op.Abides sharing
      (u.setData b { u.data b with writing := true }) k
      (fun a e' k' => k' = k ∧ ∀ u, sharing.Finds k e' u →
        Q a (u.setData b { u.data b with writing := false }) k)
      (fun p e' k' => k' = k ∧ ∀ u, sharing.Finds k e' u →
        E p (u.setData b { u.data b with writing := false }) k)) :
    (b.alone op).Abides sharing e k Q E :=
  .between (.whenever fun u hu _ => ⟨k, .prepares hk _, (h u hu).mono
    (fun _ _ _ ⟨hk', hq⟩ => hk' ▸ change_making hk hq)
    (fun _ _ _ ⟨hk', hq⟩ => hk' ▸ change_making hk hq)⟩)

theorem replay_making (hk : k.makes = some b) : b.replay.Abides sharing e k
    (fun _ e' k' => k' = k ∧ Reads b (e'.data b).index (e'.data b).lastId e')
    (fun _ _ k' => k' = k) := by
  refine .bind (P := fun _ e' k' => k' = k ∧ (e'.store.entries? b.eventsMap).isSome)
    ((isTame_openMap b.eventsMap).call_abides ?_ fun _ _ _ _ _ => rfl) ?_
  · intro u _ s _ _ hs
    exact ⟨rfl, by rw [hs, Request.effect, if_pos rfl]; rfl⟩
  rintro - e₁ k ⟨rfl, ht⟩
  refine .bind (P := fun _ e' k' => k' = k ∧ (e'.store.entries? b.eventsMap).isSome ∧
    (e'.store.entries? b.optionsMap).isSome)
    ((isTame_openMap b.optionsMap).call_abides ?_ fun _ _ _ _ _ => rfl) ?_
  · intro u _ s hu _ hs
    have ht := (isTame_openMap b.optionsMap).effect u.store.entries?
    rw [← hs] at ht
    exact ⟨rfl, ht.there (hu.others.maps ‹_›), by rw [hs, Request.effect, if_pos rfl]; rfl⟩
  rintro - e₂ k ⟨rfl, ht⟩
  refine .bind (P := fun l e' k' => k' = k ∧
    ∀ i last, Bucket.indexOf l = .ok (i, last) → Reads b i last e')
    ((isTame_scan b.eventsMap).call_abides ?_ fun _ _ _ _ _ => rfl) ?_
  · rintro u _ s hu ⟨es, hes, rfl⟩ hs
    have hes' : s.entries? b.eventsMap = some es := hs ▸ hes
    refine ⟨rfl, fun i last hi => ⟨?_, ?_, fun _ => ?_⟩⟩
    · exact Option.isSome_iff_exists.mpr ⟨es, hes'⟩
    · show (s.entries? b.optionsMap).isSome
      rw [hs]
      exact hu.others.maps ht.2
    · simpa only [Engine.content, hes', Option.getD_some] using hi
  rintro l e₃ k ⟨rfl, hl⟩
  refine .bind (P := fun r e' k' => k' = k ∧ Reads b r.1 r.2 e')
    (.result (fun r hr => ⟨rfl, hl r.1 r.2 hr⟩) fun _ _ => rfl) ?_
  rintro ⟨i, last⟩ e₄ k ⟨rfl, hi⟩
  refine .bind ((isTame_get b.optionsMap Bucket.lockKey).call_keeps
    (fun hg hi => Reads.grows hi hg) hi) ?_
  rintro mark e₅ k ⟨rfl, hi⟩
  refine .bind (P := fun _ e' k' => k' = k ∧
    Reads b (e'.data b).index (e'.data b).lastId e') (.lift (change_making hk ?_)) ?_
  · intro u hu
    rw [Engine.data_setData (hu.holds.here hk), if_pos rfl]
    exact ⟨rfl, (hi.grows hu.others.toGrows).grows ((Acts.prepares hk _).grows hu.holds)⟩
  · rintro - e₆ k ⟨rfl, hi⟩
    exact .pure' ⟨rfl, hi⟩

theorem Reads.others (h : Reads b (e.data b).index (e.data b).lastId e) (hk : k.makes = some b)
    (ho : Others k e e') : Reads b (e'.data b).index (e'.data b).lastId e' := by
  rw [ho.made hk]
  exact h.grows ho.toGrows

theorem Reads.setData (h : Reads b (e.data b).index (e.data b).lastId e) (hk : k.makes = some b)
    (he : Held e k) {d : BucketData} (hi : d.index = (e.data b).index)
    (hl : d.lastId = (e.data b).lastId) :
    Reads b ((e.setData b d).data b).index ((e.setData b d).data b).lastId (e.setData b d) := by
  rw [Engine.data_setData (he.here hk), if_pos rfl, hi, hl]
  exact h.grows ((Acts.prepares hk d).grows he)

theorem Reads.released (h : Reads b (e.data b).index (e.data b).lastId e) (hk : k.makes = some b)
    (hw : (e.data b).state.isWritable = true) (he : Held e k) :
    Made b (e.setData b { e.data b with writing := false }) := by
  refine ⟨?_, ?_, h.setData hk he rfl rfl⟩
  · rw [Engine.data_setData (he.here hk), if_pos rfl]
  · rw [Engine.data_setData (he.here hk), if_pos rfl]
    exact hw

theorem rebuild_making (hk : k.makes = some b) : b.rebuild.Abides sharing e k
    (fun _ e' k' => k' = k ∧ Made b e') (fun _ _ k' => k' = k) := by
  refine alone_making hk fun u _ => .bind (P := fun _ _ k' => k' = k)
    (.lift (change_making hk fun _ _ => rfl)) ?_
  rintro - e₁ k rfl
  refine .settle (replay_making hk) ?_ ?_
  · rintro locked e₂ k ⟨rfl, hr⟩
    refine .lift (change_making hk fun u hu => ⟨rfl, fun v hv => ⟨rfl, ?_⟩⟩)
    have hr := (hr.others hk hu.others).setData hk hu.holds
      (d := { u.data b with state := if locked then .locked else .ready }) rfl rfl
    refine (hr.others hk hv.others).released hk ?_ hv.holds
    rw [hv.others.made hk, Engine.data_setData (hu.holds.here hk), if_pos rfl]
    cases locked <;> rfl
  · rintro p e₂ k rfl
    exact .bind (P := fun _ _ k' => k' = k) (.lift (change_making hk fun _ _ => rfl))
      fun _ _ _ hk' => .throw' ⟨hk', fun _ _ => rfl⟩

theorem openAt_abides (h : k.IsFree stored) (hour : Hour) : (Bucket.openAt hour).Abides sharing e k
    (fun b e' k' => b.hour = hour ∧ k'.makes = some b ∧ Made b e' ∧ k'.IsFree stored)
    (fun _ _ k' => k'.IsFree stored) := by
  unfold Bucket.openAt
  split
  · exact .throw' h
  next id hid =>
  refine .bind (P := fun b _ k' => b.hour = hour ∧ k'.makes = some b ∧ k'.IsFree stored)
    (.lift (.atomically fun u hu =>
      ⟨_, .opens _ rfl, rfl, rfl, h.writes, h.registers, h.stored⟩)) ?_
  rintro b e₁ k₁ ⟨hh, hk, hf⟩
  refine .bind ((rebuild_making hk).mono (fun _ _ _ h => h) ?_) ?_
  · rintro p e₂ _ rfl
    exact hf
  · rintro - e₂ k₂ ⟨rfl, hm⟩
    exact .pure' ⟨hh, hk, hm, hf⟩

/-- The bucket is the first of its hour to be registered. -/
structure First (b : Bucket) (e : Engine) : Prop where
  reads : Reads b (e.data b).index (e.data b).lastId e
  writable : (e.data b).state.isWritable = true
  absent : e.registry[b.hour]? = none

theorem First.others (h : First b e) (hk : k.makes = some b) (hr : k.registers = true)
    (ho : Others k e e') : First b e' :=
  ⟨h.reads.others hk ho, ho.made hk ▸ h.writable, ho.registry hr ▸ h.absent⟩

theorem First.setData (h : First b e) (hk : k.makes = some b) (he : Held e k) {d : BucketData}
    (hi : d.index = (e.data b).index) (hl : d.lastId = (e.data b).lastId)
    (hw : d.state.isWritable = true) : First b (e.setData b d) := by
  refine ⟨h.reads.setData hk he hi hl, ?_, h.absent⟩
  rw [Engine.data_setData (he.here hk), if_pos rfl]
  exact hw

theorem First.asked (h : First b e) (he : Held e k) {s : Store}
    (ht : View.Tame e.store.entries? s.entries?) : First b { e with store := s } :=
  ⟨h.reads.grows ((Acts.asks (k := k) s e.cache ht id).grows he), h.writable, h.absent⟩

theorem setLock_first (hk : k.makes = some b) (hr : k.registers = true) (locked : Bool)
    (h : First b e) : (b.setLock locked).Abides sharing e k
    (fun _ e' k' => k' = k ∧ First b e' ∧ (e'.data b).writing = false) (fun _ _ k' => k' = k) := by
  refine alone_making hk fun u hu => ?_
  have h := h.others hk hr hu.others
  have h := h.setData hk hu.holds (d := { u.data b with writing := true }) rfl rfl h.writable
  refine .bind (P := fun _ e' k' => k' = k ∧ First b e') (.attempt fun v hv => ?_) ?_
  · refine ⟨k, sharing.stay v k, ?_⟩
    dsimp only
    split
    · exact ⟨rfl, h.others hk hr hv.others⟩
    · exact ⟨rfl, fun _ _ => rfl⟩
  rintro - e₁ k ⟨rfl, h⟩
  refine .bind (P := fun _ e' k' => k' = k ∧ First b e')
    ((isTame_mark b _).call_abides (fun v _ s hv _ hs => ?_)
      fun _ _ _ _ _ => ⟨rfl, fun _ _ => rfl⟩) ?_
  · exact ⟨rfl, (h.others hk hr hv.others).asked hv.holds (hs ▸ (isTame_mark b _).effect _)⟩
  rintro - e₂ k ⟨rfl, h⟩
  refine .lift (change_making hk fun v hv => ⟨rfl, fun w hw => ⟨rfl, ?_⟩⟩)
  have h := ((h.others hk hr hv.others).setData hk hv.holds
    (d := { v.data b with state := if locked then .locked else .ready }) rfl rfl
      (by cases locked <;> rfl)).others hk hr hw.others
  exact ⟨h.setData hk hw.holds rfl rfl h.writable, (h.reads.released hk h.writable hw.holds).idle⟩

-- ---- the registry --------------------------------------------------------

theorem alone_abides {op : Operation α} {Q : α → Engine → Hand → Prop}
    {E : EngineError → Engine → Hand → Prop}
    (h : ∀ u, sharing.Finds k e u → op.Abides sharing { u with registering := true }
      { k with registers := true }
      (fun a e' k' => k'.registers = true ∧ ∀ u, sharing.Finds k' e' u →
        Q a { u with registering := false } { k' with registers := false })
      (fun p e' k' => k'.registers = true ∧ ∀ u, sharing.Finds k' e' u →
        E p { u with registering := false } { k' with registers := false })) :
    (alone op).Abides sharing e k Q E :=
  .between (.whenever fun u hu hr => ⟨_, .enters ((Bool.not_eq_true' _).mp hr), (h u hu).mono
    (fun _ _ _ ⟨hk, hq⟩ => .atomically fun u hu => ⟨_, .leaves hk, hq u hu⟩)
    (fun _ _ _ ⟨hk, hq⟩ => .atomically fun u hu => ⟨_, .leaves hk, hq u hu⟩)⟩)

/-- The bucket that is registered in the end is the call's own, or another that came before. -/
theorem register_abides (h : k.IsFree stored) (hk : k.makes = some b) (hm : Made b e) :
    (register b).Abides sharing e k
      (fun b' e' k' => b'.hour = b.hour ∧ Registered b' e' ∧ k'.IsFree stored)
      (fun _ _ k' => k'.IsFree stored) := by
  refine alone_abides fun u hu => ?_
  have hm := hm.others hk hu.others
  have hm : Made b { u with registering := true } :=
    ⟨hm.idle, hm.writable, hm.reads.events, hm.reads.options, hm.reads.indexed⟩
  have hk : ({ k with registers := true } : Hand).makes = some b := hk
  have hf : Hand.IsFree { { k with registers := true } with registers := false } stored :=
    ⟨h.writes, rfl, h.stored⟩
  have hr : ({ k with registers := true } : Hand).registers = true := rfl
  generalize ({ u with registering := true } : Engine) = e₁,
    ({ k with registers := true } : Hand) = k₁ at hm hk hf hr ⊢
  refine .bind (P := fun r e' k' => k' = k₁ ∧ Made b e' ∧ r = e'.registry[b.hour]? ∧
    ∀ c, r = some c → c.hour = b.hour) (.lift (.observe fun v hv =>
      ⟨rfl, hm.others hk hv.others, rfl, fun c hc => hv.sound.hour hc⟩)) ?_
  rintro (_ | c) e₂ k₁ ⟨rfl, hm, hc, hh⟩
  · have hinsert {e : Engine} (h : First b e) (hi : (e.data b).writing = false) :
        Operation.Abides sharing (do
          insert b
          return b) e k₁ (fun b' e' k' => k'.registers = true ∧ ∀ u, sharing.Finds k' e' u →
            b'.hour = b.hour ∧ Registered b' u ∧ Hand.IsFree { k' with registers := false } stored)
          (fun _ e' k' => k'.registers = true ∧ ∀ u, sharing.Finds k' e' u →
            Hand.IsFree { k' with registers := false } stored) := by
      refine .bind (P := fun _ e' k' => k' = { k₁ with makes := none } ∧ Registered b e')
        (.lift (.atomically fun v hv => ?_)) ?_
      · have h := h.others hk hr hv.others
        have hi : (v.data b).writing = false := hv.others.made hk ▸ hi
        have hm : Made b v := ⟨hi, h.writable, h.reads⟩
        refine ⟨_, .registers hr hk h.absent hi (hm.indexed h.absent) (hm.usable h.absent), rfl, ?_⟩
        simp [Registered]
      · rintro - e₃ _ ⟨rfl, hb⟩
        exact .pure' ⟨hr, fun v hv => ⟨rfl, hv.others.registered hb, hf.writes, rfl, hf.stored⟩⟩
    refine .bind (P := fun _ e' k' => k' = k₁ ∧ First b e' ∧ (e'.data b).writing = false)
      (.lift (.observe fun v hv => ?_)) ?_
    · exact ⟨rfl, First.others ⟨hm.reads, hm.writable, hc.symm⟩ hk hr hv.others,
        (hm.others hk hv.others).idle⟩
    rintro (_ | _) e₃ k₁ ⟨rfl, h, hi⟩
    · exact hinsert h hi
    refine .bind (P := fun _ e' k' => k' = k₁ ∧ First b e' ∧ (e'.data b).writing = false)
      (.lift (.observe fun v hv => ?_)) ?_
    · exact ⟨rfl, h.others hk hr hv.others, hv.others.made hk ▸ hi⟩
    rintro state e₄ k₁ ⟨rfl, h, hi⟩
    split
    · refine .bind ((setLock_first hk hr true h).mono (fun _ _ _ h => h) ?_) ?_
      · rintro p e₅ _ rfl
        exact ⟨hr, fun _ _ => hf⟩
      · rintro - e₅ k₁ ⟨rfl, h, hi⟩
        exact hinsert h hi
    · exact hinsert h hi
  · exact .pure' ⟨hr, fun v hv => ⟨hh c rfl, hv.others.registered (hh c rfl ▸ hc.symm), hf⟩⟩

theorem getOrCreate_abides (h : k.IsFree stored) (hour : Hour) :
    (getOrCreate hour).Abides sharing e k
      (fun b e' k' => b.hour = hour ∧ Registered b e' ∧ k'.IsFree stored)
      (fun _ _ k' => k'.IsFree stored) := by
  refine .bind (P := fun r e' k' => k'.IsFree stored ∧
    ∀ b, r = some b → b.hour = hour ∧ Registered b e') (.lift (.bind (P := fun r e' k' =>
      k'.IsFree stored ∧ ∀ b, r[hour]? = some b → b.hour = hour ∧ Registered b e')
      (.whenever fun u hu _ => ⟨k, sharing.stay u k, h, fun b hb => ?_⟩)
        fun _ _ _ h => .pure' h)) ?_
  · have hh := hu.sound.hour hb
    exact ⟨hh, by rw [Registered, hh]; exact hb⟩
  rintro (_ | b) e₁ k₁ ⟨h, hb⟩
  · refine .bind (openAt_abides h hour) ?_
    rintro b e₂ k₂ ⟨rfl, hk, hm, h⟩
    exact register_abides h hk hm
  · obtain ⟨hh, hr⟩ := hb b rfl
    exact .pure' ⟨hh, hr, h⟩

-- ---- a bucket that is written to -----------------------------------------

/-- The bucket's index with the changes `f`, for which it is ready, is that of what is stored. -/
def Writes (b : Bucket) (f : BucketData → BucketData) (e : Engine) : Prop :=
  b.Indexed ⟨f (e.data b), e.store.entries?⟩

theorem Writes.others {f : BucketData → BucketData} (h : Writes b f e) (hk : k.writes = some b)
    (ho : Others k e e') : Writes b f e' := by
  obtain ⟨es, hes, hi⟩ := h
  exact ⟨es, (ho.entries hk).trans hes, by rw [ho.written hk]; exact hi⟩

theorem Writes.change_abides {f : BucketData → BucketData} (h : Writes b f e)
    (hk : k.writes = some b) (hf : ∀ d, (f d).writing = d.writing ∧ (f d).state = d.state) :
    (b.change f).Abides sharing e k fun _ e' k' => k' = k ∧ b.Indexed (e'.cell b) := by
  refine .atomically fun u hu => ?_
  have hr := hu.holds.registered hk
  have hw := h.others hk hu.others
  obtain ⟨es, hes⟩ := Option.isSome_iff_exists.mp (hu.sound.usable hr).events
  refine ⟨k, .alters hk _ ?_ (content_eq hes ▸ backed_of_indexed hw hes) ?_, rfl, ?_⟩
  · rw [(hf _).1]
    exact hu.holds.writing hk
  · rw [(hf _).2]
    exact (hu.sound.usable hr).writable
  · rw [Engine.cell, Engine.data_setData (hu.sound.here hr), if_pos rfl]
    exact hw

theorem alone_writing {op : Operation α} {Q : α → Hand → Prop} {E : EngineError → Hand → Prop}
    (hk : k.writes = none) (hb : Registered b e)
    (h : ∀ u, Writes b id u → op.Abides sharing u { k with writes := some b }
      (fun a e' k' => k'.writes = some b ∧ Writes b id e' ∧ Q a { k' with writes := none })
      (fun p e' k' => k'.writes = some b ∧ Writes b id e' ∧ E p { k' with writes := none })) :
    (b.alone op).Abides sharing e k (fun a _ => Q a) (fun p _ => E p) := by
  refine .between (.whenever fun u hu hw => ?_)
  have hw : (u.data b).writing = false := (Bool.not_eq_true' _).mp hw
  have hb := hu.others.registered hb
  refine ⟨_, .takes hk hb hw, (h _ ?_).mono ?_ ?_⟩
  · obtain ⟨es, hes, hi⟩ := hu.sound.indexed hb hw
    refine ⟨es, hes, ?_⟩
    rw [Engine.data_setData (hu.sound.here hb), if_pos rfl]
    exact hi
  · rintro a e' k' ⟨hk', hi, hq⟩
    exact .atomically fun u hu => ⟨_, .releases hk' (hi.others hk' hu.others), hq⟩
  · rintro p e' k' ⟨hk', hi, hq⟩
    exact .atomically fun u hu => ⟨_, .releases hk' (hi.others hk' hu.others), hq⟩

/-- The events are stored behind those that are there, or nothing is. -/
theorem commit_abides {events : List Event} {last : UInt32} (hk : k.writes = some b)
    (hf : ∀ x ∈ events, x.Fits) (hr : last.toNat + events.length < 4294967296)
    (hl : (e.data b).lastId = last + events.length.toUInt32)
    (h : Writes b ({ · with lastId := last }) e) :
    (call (.commit (b.writing (b.numbered last events)))).Abides sharing e k
      (fun _ e' k' => k' = { k with stored := k.stored ++ b.numbered last events } ∧
        Writes b (fun d => { d with index := Bucket.indexAll (b.numbered last events) d.index }) e')
      (fun _ e' k' => k' = k ∧ Writes b ({ · with lastId := last }) e') := by
  refine .attempt fun u hu => ?_
  have hl : (u.data b).lastId = last + events.length.toUInt32 := hu.others.written hk ▸ hl
  obtain ⟨es, hes, hi⟩ := h.others hk hu.others
  have hes : u.store.entries? b.eventsMap = some es := hes
  have hi : Bucket.indexOf es.toList = .ok ((u.data b).index, last) := hi
  cases ha : u.store.answer (.commit (b.writing (b.numbered last events))) with
  | mk a s =>
    cases a with
    | ok a =>
      obtain ⟨-, hs⟩ := Store.replies_of_ok ha
      refine ⟨_, .stores hk hes hi events hf hr s hs, rfl,
        Record.applyAll es ((b.numbered last events).map Event.record), ?_, ?_⟩
      · show s.entries? b.eventsMap = _
        rw [hs, Bucket.effect_writing]
        simp [hes]
      · rw [Bucket.indexOf_applyAll hi hr hf]
        exact congrArg (fun id => Except.ok (_, id)) hl.symm
    | error p =>
      have hs : s.entries? = u.store.entries? := Store.entries?_of_error (kind_commit_ne _) ha
      refine ⟨k, .asks s _ (hs ▸ .refl _) id, rfl, es, ?_, hi⟩
      show s.entries? b.eventsMap = _
      rw [hs, hes]

/-- All the events are stored with the next ids, or none is. -/
theorem addTo_abides (h : k.IsFree stored) (hb : Registered b e) {events : List Event}
    (hf : ∀ x ∈ events, x.Fits) : (b.addAll events).Abides sharing e k
      (fun added _ k' => (∃ last, added = b.numbered last events) ∧ k'.IsFree (stored ++ added))
      (fun _ _ k' => k'.IsFree stored) := by
  unfold Bucket.addAll
  split
  · next he =>
    obtain rfl : events = [] := by simpa using he
    exact .pure' ⟨⟨0, rfl⟩, by rw [List.append_nil]; exact h⟩
  refine alone_writing h.writes hb fun u hi => ?_
  have hk : ({ k with writes := some b } : Hand).writes = some b := rfl
  have hfree : Hand.IsFree { { k with writes := some b } with writes := none } stored :=
    ⟨rfl, h.registers, h.stored⟩
  generalize ({ k with writes := some b } : Hand) = k₁ at hk hfree ⊢
  -- The counter is ahead of the store until the commit.
  refine .bind (P := fun last e' k' => k' = k₁ ∧ last.toNat + events.length < 4294967296 ∧
    (e'.data b).lastId = last + events.length.toUInt32 ∧ Writes b ({ · with lastId := last }) e')
    (.attempt fun v hv => ?_) ?_
  · have hi := hi.others hk hv.others
    cases hr : b.reserve events (v.data b) with
    | error p => exact ⟨k₁, sharing.stay v k₁, hk, hi, hfree⟩
    | ok r =>
      obtain ⟨last, d⟩ := r
      obtain ⟨-, -, hroom, rfl, rfl⟩ := Bucket.reserve_ok hr
      have hr := hv.holds.registered hk
      have hu := hv.sound.usable hr
      have hn := hv.sound.here hr
      refine ⟨k₁, .alters hk _ (hv.holds.writing hk) hu.backed hu.writable, rfl, hroom, ?_, ?_⟩
      · rw [Engine.data_setData hn, if_pos rfl]
      · obtain ⟨es, hes, hi⟩ := hi
        refine ⟨es, hes, ?_⟩
        rw [Engine.data_setData hn, if_pos rfl]
        exact hi
  rintro last e₁ k₁ ⟨rfl, hroom, hl, hw⟩
  refine .settle (commit_abides hk hf hroom hl hw) ?_ ?_
  · rintro - e₂ k₂ ⟨rfl, hw⟩
    refine .bind (.lift (hw.change_abides hk fun _ => ⟨rfl, rfl⟩)) ?_
    rintro - e₃ k₃ ⟨rfl, hi⟩
    exact .pure' ⟨hk, hi, ⟨last, rfl⟩, hfree.writes, hfree.registers,
      congrArg (· ++ _) hfree.stored⟩
  · rintro p e₂ k₂ ⟨rfl, hw⟩
    refine .bind (.lift (hw.change_abides hk fun _ => ⟨rfl, rfl⟩)) ?_
    rintro - e₃ k₃ ⟨rfl, hi⟩
    exact .throw' ⟨hk, hi, hfree⟩

-- ---- whole calls ---------------------------------------------------------

theorem add_abides (h : k.IsFree stored) {x : Event} (hf : x.Fits) :
    (add x).Abides sharing e k (fun added _ k' => k'.IsFree (stored ++ [added]) ∧
        ∃ (b : Bucket) (last : UInt32), [added] = b.numbered last [x])
      (fun _ _ k' => k'.IsFree stored) := by
  refine .bind (P := fun _ _ k' => k'.IsFree stored) (.result (fun _ _ => h) fun _ _ => h) ?_
  rintro hour e₁ k₁ h
  refine .bind (getOrCreate_abides h hour) ?_
  rintro b e₂ k₂ ⟨-, hb, h⟩
  refine .bind (addTo_abides h hb (List.forall_mem_singleton.mpr hf)) ?_
  rintro _ e₃ k₃ ⟨⟨last, rfl⟩, h⟩
  exact .pure' ⟨h, b, last, rfl⟩

theorem addGroup_abides {r : Report} (h : k.IsFree (stored ++ r.committed)) (hour : Hour)
    {events : List Event} (hf : ∀ x ∈ events, x.Fits) :
    (addGroup r hour events).Abides sharing e k
      fun r' _ k' => k'.IsFree (stored ++ r'.committed) := by
  have hop : Operation.Abides sharing (do (← getOrCreate hour).addAll events) e k
      (fun added _ k' => k'.IsFree (stored ++ (r.committed ++ added)))
      (fun _ _ k' => k'.IsFree (stored ++ r.committed)) := by
    refine .bind (getOrCreate_abides h hour) ?_
    rintro b e₁ k₁ ⟨-, hb, h⟩
    refine (addTo_abides h hb hf).mono (fun added _ _ h => ?_) fun _ _ _ h => h
    rw [← List.append_assoc]
    exact h.2
  refine Activity.Abides.bind hop ?_
  rintro (p | added) e₁ k₁ h
  · dsimp only
    split <;> exact .pure' h
  · exact .pure' h

/-- What a call has stored in the end is, behind what it had stored before, what it reports as
committed. -/
theorem addAll_abides (h : k.IsFree stored) {events : List Event} (hf : ∀ x ∈ events, x.Fits) :
    (addAll events).Abides sharing e k fun r _ k' => k'.IsFree (stored ++ r.committed) := by
  refine (Activity.Abides.foldlM (fun gs (r : Report) _ (k : Hand) =>
    k.IsFree (stored ++ r.committed) ∧ ∀ g ∈ gs, ∀ x ∈ g.2, x.Fits)
    ⟨?_, fun _ hg => fits_of_mem_groups hf hg⟩ ?_).mono fun _ _ _ h => h.1
  · rw [unrouted, List.append_nil]
    exact h
  rintro ⟨hour, group⟩ gs r e₁ k₁ ⟨h, hgs⟩
  obtain ⟨hg, hgs⟩ := List.forall_mem_cons.mp hgs
  exact (addGroup_abides h hour hg).mono fun _ _ _ h => ⟨h, hgs⟩

end EventSet

end EventStore
