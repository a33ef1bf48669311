import EventStore.Proofs.EventSet.Guard

/-!
# Locking among others

The operations of a set abide by the rules that guard buckets from eviction, whatever other calls
do between their steps. Who registers a bucket has locked it, or has seen that it need not be. Who
locks the set has in the end found every registered bucket shut, unless an error comes in between.
-/

namespace EventStore

namespace EventSet

namespace Guard

open Query Operation

variable {α β : Type} {e e' : Engine} {k k' : Hand} {b : Bucket}

-- ---- calls to the store --------------------------------------------------

theorem isSome_answer {r : Request α} (hr : r.kind ≠ .removeMap) (s : Store) {m : String}
    (h : (s.entries? m).isSome) : ((s.answer r).2.entries? m).isSome := by
  cases ha : s.answer r with
  | mk a s' =>
    cases a with
    | error p => exact Store.entries?_of_error hr ha ▸ h
    | ok a =>
      show (s'.entries? m).isSome
      rw [(Store.replies_of_ok ha).2]
      cases r with
      | removeMap name => exact absurd rfl hr
      | openMap name =>
        simp only [Request.effect]
        split
        · rfl
        · exact h
      | commit tx => simpa only [Request.effect, Option.isSome_map] using h
      | _ => exact h

theorem call_abides {r : Request α} {Q : α → Engine → Hand → Prop}
    {E : EngineError → Engine → Hand → Prop} (hr : r.kind ≠ .removeMap)
    (h : ∀ a u s, sharing.Finds k e u → Q a { u with store := s } k)
    (he : ∀ p u s, sharing.Finds k e u → E (.store p) { u with store := s } k) :
    (call r).Abides sharing e k Q E := by
  refine .attempt fun u hu => ⟨k, .asks _ _ fun _ => isSome_answer hr _, ?_⟩
  cases ha : u.store.answer r with
  | mk a s =>
    cases a with
    | ok a => exact h a u s hu
    | error p => exact he p u s hu

theorem call_stays {r : Request α} (hr : r.kind ≠ .removeMap) :
    (call r).Abides sharing e k (fun _ _ k' => k' = k) (fun _ _ k' => k' = k) :=
  call_abides hr (fun _ _ _ _ => rfl) fun _ _ _ _ => rfl

-- ---- a bucket that is being made ------------------------------------------

theorem change_making {f : BucketData → BucketData} {Q : Unit → Engine → Hand → Prop}
    (hk : k.makes = some b)
    (hf : ∀ u, sharing.Finds k e u → (f (u.data b)).state ≠ .dropped)
    (h : ∀ u, sharing.Finds k e u → Q () (u.setData b (f (u.data b))) k) :
    (b.change f).Abides sharing e k Q :=
  .atomically fun u hu => ⟨k, .prepares hk _ (hf u hu), h u hu⟩

theorem data_made {u : Engine} (hk : k.makes = some b) (hu : sharing.Finds k e u)
    (d : BucketData) : (u.setData b d).data b = d := by
  rw [Engine.data_setData (hu.holds.here hk), if_pos rfl]

/-- What is done alone with a bucket in the making leaves it in some state. -/
theorem alone_making {op : Operation α} {Q : α → BucketState → Prop} (hk : k.makes = some b)
    (h : ∀ u, op.Abides sharing u k
      (fun a e' k' => k' = k ∧ Q a (e'.data b).state) (fun _ _ k' => k' = k)) :
    (b.alone op).Abides sharing e k
      (fun a e' k' => k' = k ∧ Q a (e'.data b).state) (fun _ _ k' => k' = k) := by
  refine .between (.whenever fun u hu _ =>
    ⟨k, .prepares hk _ (hu.holds.undropped hk), (h _).mono ?_ ?_⟩)
  · rintro a e' k ⟨rfl, hq⟩
    refine change_making hk (fun u hu => hu.holds.undropped hk) fun u hu => ⟨rfl, ?_⟩
    rw [data_made hk hu, hu.others.made hk]
    exact hq
  · rintro p e' k rfl
    exact change_making hk (fun u hu => hu.holds.undropped hk) fun u hu => rfl

theorem replay_making (hk : k.makes = some b) : b.replay.Abides sharing e k
    (fun _ _ k' => k' = k) (fun _ _ k' => k' = k) := by
  refine .bind (call_stays nofun) ?_
  rintro - e₁ k rfl
  refine .bind (call_stays nofun) ?_
  rintro - e₂ k rfl
  refine .bind (call_stays nofun) ?_
  rintro entries e₃ k rfl
  refine .bind (P := fun _ _ k' => k' = k) (.result (fun _ _ => rfl) fun _ _ => rfl) ?_
  rintro ⟨index, last⟩ e₄ k rfl
  refine .bind (call_stays nofun) ?_
  rintro mark e₅ k rfl
  refine .bind (P := fun _ _ k' => k' = k)
    (.lift (change_making hk (fun u hu => hu.holds.undropped hk) fun _ _ => rfl)) ?_
  rintro - e₆ k rfl
  exact .pure' rfl

theorem setState_making {s : BucketState} (hk : k.makes = some b) (hs : s ≠ .dropped) :
    Operation.Abides sharing (b.setState s) e k
      (fun _ e' k' => k' = k ∧ (e'.data b).state = s) (fun _ _ k' => k' = k) := by
  refine .lift (change_making hk (fun _ _ => hs) fun u hu => ⟨rfl, ?_⟩)
  rw [data_made hk hu]

theorem rebuild_making (hk : k.makes = some b) : b.rebuild.Abides sharing e k
    (fun _ e' k' => k' = k ∧ (e'.data b).state.isWritable = true) (fun _ _ k' => k' = k) := by
  refine alone_making (Q := fun _ s => s.isWritable = true) hk fun u => ?_
  refine .bind (setState_making hk nofun) ?_
  rintro - e₁ k ⟨rfl, -⟩
  refine .settle (replay_making hk) ?_ ?_
  · rintro locked e₂ k rfl
    have hs : (if locked then BucketState.locked else .ready) ≠ .dropped := by
      cases locked <;> nofun
    refine (setState_making hk hs).mono ?_ fun _ _ _ h => h
    rintro - e₃ k ⟨rfl, hs⟩
    refine ⟨rfl, hs ▸ ?_⟩
    cases locked <;> rfl
  · rintro p e₂ k rfl
    refine .bind (setState_making hk nofun) ?_
    rintro - e₃ k ⟨rfl, -⟩
    exact .throw' rfl

theorem openAt_abides (h : k.IsFree) (hour : Hour) :
    (Bucket.openAt hour).Abides sharing e k
      (fun b e' k' => k'.makes = some b ∧ k'.IsFree ∧ (e'.data b).state.isWritable = true)
      (fun _ _ k' => k'.IsFree) := by
  unfold Bucket.openAt
  split
  · exact .throw' h
  next id hid =>
  refine .bind (P := fun b _ k' => k'.makes = some b ∧ k'.IsFree) (.lift (.atomically fun u hu =>
    ⟨_, .opens _ rfl, rfl, h.writes, h.registers, h.seals⟩)) ?_
  rintro b e₁ k₁ ⟨hk, hf⟩
  refine .bind ((rebuild_making hk).mono (fun _ _ _ h => h) ?_) ?_
  · rintro p e₂ k rfl
    exact hf
  · rintro - e₂ k ⟨rfl, hw⟩
    exact .pure' ⟨hk, hf, hw⟩

-- ---- the registry --------------------------------------------------------

theorem alone_abides {op : Operation α} {Q : α → Engine → Hand → Prop}
    {E : EngineError → Engine → Hand → Prop} (hk : k.seals = none)
    (h : ∀ u, sharing.Finds k e u → op.Abides sharing { u with registering := true }
      { k with registers := true }
      (fun a e' k' => k'.registers = true ∧ ∀ u, sharing.Finds k' e' u →
        Q a { u with registering := false } { k' with registers := false, lax := false })
      (fun p e' k' => k'.registers = true ∧ ∀ u, sharing.Finds k' e' u →
        E p { u with registering := false } { k' with registers := false, lax := false })) :
    (alone op).Abides sharing e k Q E :=
  .between (.whenever fun u hu hr => ⟨_, .enters hk ((Bool.not_eq_true' _).mp hr), (h u hu).mono
    (fun _ _ _ ⟨hk, hq⟩ => .atomically fun u hu => ⟨_, .leaves hk, hq u hu⟩)
    (fun _ _ _ ⟨hk, hq⟩ => .atomically fun u hu => ⟨_, .leaves hk, hq u hu⟩)⟩)

/-- The call is about to register a bucket that it has made. -/
structure Registrar (b : Bucket) (k : Hand) (e : Engine) : Prop where
  makes : k.makes = some b
  registers : k.registers = true
  writes : k.writes = none
  seals : k.seals = none
  writable : (e.data b).state.isWritable = true
  absent : e.registry[b.hour]? = none

theorem Registrar.others (h : Registrar b k e) (ho : Others k e e') : Registrar b k e' :=
  { h with
    writable := ho.made h.makes ▸ h.writable
    absent := ho.registry h.registers ▸ h.absent }

theorem Registrar.asked (h : Registrar b k e) (s : Store) : Registrar b k { e with store := s } :=
  { h with }

theorem Registrar.setData (h : Registrar b k e) (he : Held e k) {d : BucketData}
    (hd : d.state.isWritable = true) : Registrar b k (e.setData b d) := by
  refine { h with writable := ?_ }
  rw [Engine.data_setData (he.here h.makes), if_pos rfl]
  exact hd

theorem Registrar.change_abides (h : Registrar b k e) {f : BucketData → BucketData}
    (hf : ∀ d, d.state.isWritable = true → (f d).state.isWritable = true) :
    (b.change f).Abides sharing e k fun _ e' k' => Registrar b k' e' ∧
      (e'.data b).state = (f (e.data b)).state := by
  refine change_making h.makes (fun u hu hd => ?_) fun u hu => ⟨?_, ?_⟩
  · have hw := hf _ (h.others hu.others).writable
    rw [hd] at hw
    cases hw
  · exact (h.others hu.others).setData hu.holds (hf _ (h.others hu.others).writable)
  · rw [data_made h.makes hu, hu.others.made h.makes]

theorem Registrar.release_abides (h : Registrar b k e) : b.release.Abides sharing e k
    fun _ e' k' => Registrar b k' e' ∧ (e'.data b).state = (e.data b).state :=
  h.change_abides (f := ({ · with writing := false })) fun _ hw => hw

theorem lock_abides (h : Registrar b k e) : b.lock.Abides sharing e k
    (fun _ e' k' => Registrar b k' e' ∧ (e'.data b).state = .locked)
    (fun _ _ k' => k'.registers = true ∧ k'.writes = none ∧ k'.seals = none) := by
  have hfail {e : Engine} {k : Hand} (h : Registrar b k e) : b.release.Abides sharing e k
      fun _ _ k' => k'.registers = true ∧ k'.writes = none ∧ k'.seals = none :=
    h.release_abides.mono fun _ _ _ h =>
      ⟨h.1.registers, h.1.writes, h.1.seals⟩
  refine .between (.whenever fun u hu _ =>
    ⟨k, .prepares h.makes _ (hu.holds.undropped h.makes), ?_⟩)
  have h := h.others hu.others
  have h := h.setData hu.holds (d := { u.data b with writing := true }) h.writable
  refine .bind (P := fun _ e' k' => Registrar b k' e') (.attempt fun v hv => ?_) ?_
  · refine ⟨k, sharing.stay v k, ?_⟩
    have h := h.others hv.others
    dsimp only
    split
    · exact h
    · exact hfail h
  rintro - e₁ k₁ h
  refine .bind (P := fun _ e' k' => Registrar b k' e') (call_abides nofun ?_ ?_) ?_
  · exact fun _ _ s hu => (h.others hu.others).asked s
  · exact fun _ _ s hu => hfail ((h.others hu.others).asked s)
  rintro - e₂ k₂ h
  refine .lift ((h.change_abides fun _ _ => rfl).mono ?_)
  rintro - e₃ k₃ ⟨h, hs⟩
  exact h.release_abides.mono fun _ _ _ h => ⟨h.1, h.2.trans hs⟩

def Leaving (b : Bucket) (e : Engine) (k : Hand) : Prop :=
  k.registers = true ∧ ∀ u, sharing.Finds k e u → Known b { u with registering := false } ∧
    Hand.IsFree { k with registers := false, lax := false }

theorem Known.leaving (h : Known b e) (hr : k.registers = true) (hw : k.writes = none)
    (hs : k.seals = none) : Leaving b e k :=
  ⟨hr, fun _ hu => ⟨hu.others.known h, hw, rfl, hs⟩⟩

theorem insert_abides {E : EngineError → Engine → Hand → Prop} (h : Registrar b k e)
    (hl : k.lax = true ∨ (e.data b).state = .locked) : Operation.Abides sharing (do
      insert b
      return b) e k Leaving E := by
  refine .bind (P := fun _ e' k' => k' = { k with makes := none } ∧ Registered b e')
    (.lift (.atomically fun u hu => ?_)) ?_
  · have h := h.others hu.others
    have hl := hl.imp_right fun hs => hu.others.made h.makes ▸ hs
    refine ⟨_, .registers h.registers h.makes h.absent h.writable hl, rfl, ?_⟩
    simp [Registered]
  · rintro - e₁ k ⟨rfl, hb⟩
    exact .pure' (Known.leaving (.inl hb) h.registers h.writes h.seals)

theorem register_abides (h : k.IsFree) (hk : k.makes = some b)
    (hw : (e.data b).state.isWritable = true) : (register b).Abides sharing e k
      (fun b' e' k' => Known b' e' ∧ k'.IsFree) (fun _ _ k' => k'.IsFree) := by
  refine alone_abides h.seals fun u hu => ?_
  have hw : (({ u with registering := true } : Engine).data b).state.isWritable = true :=
    (congrArg (·.state.isWritable) (hu.others.made hk)).trans hw
  refine .mono (Q := Leaving) (E := fun _ _ k' => k'.registers = true ∧
    k'.writes = none ∧ k'.seals = none) ?_ (fun _ _ _ h => h)
    fun _ _ _ h => ⟨h.1, fun _ _ => ⟨h.2.1, rfl, h.2.2⟩⟩
  have hk : ({ k with registers := true } : Hand).makes = some b := hk
  have hr : ({ k with registers := true } : Hand).registers = true := rfl
  have hkw : ({ k with registers := true } : Hand).writes = none := h.writes
  have hks : ({ k with registers := true } : Hand).seals = none := h.seals
  generalize ({ u with registering := true } : Engine) = e₁,
    ({ k with registers := true } : Hand) = k₁ at hw hk hr hkw hks ⊢
  refine .bind (P := fun r e' k' => k' = k₁ ∧ (e'.data b).state.isWritable = true ∧
    r = e'.registry[b.hour]? ∧ ∀ c, r = some c → Registered c e')
    (.lift (.observe fun v hv => ⟨rfl, hv.others.made hk ▸ hw, rfl, fun c hc => ?_⟩)) ?_
  · rw [Registered, hv.sound.hour hc]
    exact hc
  rintro (_ | c) e₂ k₁ ⟨rfl, hw, hc, hreg⟩
  · have h₂ : Registrar b k₁ e₂ := ⟨hk, hr, hkw, hks, hw, hc.symm⟩
    -- Who finds that new buckets need not be locked remembers it.
    refine .bind (P := fun locked e' k' => Registrar b k' e' ∧ (locked = false → k'.lax = true))
      (.lift (.atomically fun v hv => ?_)) ?_
    · have h₂ := h₂.others hv.others
      cases hl : v.locked with
      | true => exact ⟨k₁, sharing.stay v k₁, h₂, fun hf => by cases hl.symm.trans hf⟩
      | false =>
        exact ⟨_, .looks hr hl, { h₂ with }, fun _ => rfl⟩
    rintro (_ | _) e₃ k₃ ⟨h₃, hlax⟩
    · exact insert_abides h₃ (.inl (hlax rfl))
    refine .bind (P := fun s e' k' => Registrar b k' e' ∧ s = (e'.data b).state)
      (.lift (.observe fun v hv => ⟨h₃.others hv.others, rfl⟩)) ?_
    rintro s e₄ k₄ ⟨h₄, rfl⟩
    dsimp only
    split
    · refine .bind (lock_abides h₄) ?_
      rintro - e₅ k₅ ⟨h₅, hs⟩
      exact insert_abides h₅ (.inr hs)
    · next hs => exact insert_abides h₄ (.inr (Decidable.not_not.mp hs))
  · exact .pure' (Known.leaving (.inl (hreg c rfl)) hr hkw hks)

theorem bucket?_abides (h : k.IsFree) (hour : Hour) : (bucket? hour).Abides sharing e k
    fun r e' k' => k'.IsFree ∧ ∀ b, r = some b → Registered b e' :=
  .bind (P := fun r e' k' => k'.IsFree ∧ ∀ b, r[hour]? = some b → Registered b e')
    (.whenever fun u hu _ => ⟨k, sharing.stay u k, h, fun b hb => by
      rw [Registered, hu.sound.hour hb]
      exact hb⟩) fun _ _ _ h => .pure' h

theorem getOrCreate_abides (h : k.IsFree) (hour : Hour) :
    (getOrCreate hour).Abides sharing e k (fun b e' k' => Known b e' ∧ k'.IsFree)
      (fun _ _ k' => k'.IsFree) := by
  refine .bind (.lift (bucket?_abides h hour)) ?_
  rintro (_ | b) e₁ k₁ ⟨h, hb⟩
  · refine .bind (openAt_abides h hour) ?_
    rintro b e₂ k₂ ⟨hk, h, hw⟩
    exact register_abides h hk hw
  · exact .pure' ⟨.inl (hb b rfl), h⟩

-- ---- a bucket that is known ----------------------------------------------

/-- The list of buckets to be locked after the call is done with one. -/
def Strikes (b : Bucket) (e : Engine) (k : Hand) (seals : Option (List Bucket)) : Prop :=
  seals = k.seals ∨ Shut b e ∧ ∃ rest, k.seals = some (b :: rest) ∧ seals = some rest

theorem change_writing {f : BucketData → BucketData} {Q : Unit → Engine → Hand → Prop}
    (hk : k.writes = some b) (hw : ∀ d, (f d).writing = d.writing)
    (hs : ∀ u, sharing.Finds k e u → Turns k.turned (u.data b).state (f (u.data b)).state)
    (h : ∀ u, sharing.Finds k e u → Q () (u.setData b (f (u.data b))) k) :
    (b.change f).Abides sharing e k Q :=
  .atomically fun u hu =>
    ⟨k, .alters hk _ ((hw _).trans (hu.holds.writing hk)) (hs u hu), h u hu⟩

theorem data_written {u : Engine} (hk : k.writes = some b) (hu : sharing.Finds k e u)
    (d : BucketData) : (u.setData b d).data b = d := by
  rw [Engine.data_setData ((hu.holds.known hk).here hu.sound), if_pos rfl]

/-- What is done alone with a known bucket leaves it in some state, by which the call may strike it
off its list. -/
theorem alone_writing {op : Operation α} {Q : α → BucketState → Hand → Prop}
    {E : EngineError → BucketState → Hand → Prop} (hk : k.writes = none) (hb : Known b e)
    (h : ∀ u, op.Abides sharing u { k with writes := some b }
        (fun a e' k' => k'.writes = some b ∧ ∃ seals, Strikes b e' k' seals ∧
          Q a (e'.data b).state { k' with writes := none, seals := seals })
        (fun p e' k' => k'.writes = some b ∧ ∃ seals, Strikes b e' k' seals ∧
          E p (e'.data b).state { k' with writes := none, seals := seals })) :
    (b.alone op).Abides sharing e k (fun a e' => Q a (e'.data b).state)
      (fun p e' => E p (e'.data b).state) := by
  have hrelease {e : Engine} {k : Hand} {R : BucketState → Hand → Prop}
      (h : k.writes = some b ∧ ∃ seals, Strikes b e k seals ∧
        R (e.data b).state { k with writes := none, seals := seals }) :
      b.release.Abides sharing e k fun _ e' => R (e'.data b).state := by
    obtain ⟨hk, seals, hs, hr⟩ := h
    refine .atomically fun u hu => ⟨_, .releases hk seals (hs.imp_right fun hs => ?_), ?_⟩
    · exact ⟨(shut_congr (congrArg _ (hu.others.written hk))).mpr hs.1, hs.2⟩
    · rw [data_written hk hu, hu.others.written hk]
      exact hr
  refine .between (.whenever fun u hu hw => ⟨_, .takes hk (hu.others.known hb)
    ((Bool.not_eq_true' _).mp hw), (h _).mono ?_ ?_⟩)
  · exact fun a _ _ => hrelease (R := Q a)
  · exact fun p _ _ => hrelease (R := E p)

theorem keeping_writing {f : BucketData → BucketData} (hk : k.writes = some b)
    (hf : ∀ d, (f d).writing = d.writing ∧ (f d).state = d.state) :
    (b.change f).Abides sharing e k fun _ e' k' =>
      k' = k ∧ (e'.data b).state = (e.data b).state := by
  refine change_writing hk (fun d => (hf d).1) (fun u _ => .inl (hf _).2) fun u hu => ⟨rfl, ?_⟩
  rw [data_written hk hu, (hf _).2, hu.others.written hk]

theorem addTo_abides (h : k.IsFree) (hb : Known b e) (events : List Event) :
    (b.addAll events).Abides sharing e k (fun _ _ k' => k'.IsFree)
      (fun _ _ k' => k'.IsFree) := by
  unfold Bucket.addAll
  split
  · exact .pure' h
  refine alone_writing (Q := fun _ _ k' => k'.IsFree) (E := fun _ _ k' => k'.IsFree) h.writes hb
    fun u => ?_
  have hk : ({ k with writes := some b } : Hand).writes = some b := rfl
  have hfree : Hand.IsFree { ({ k with writes := some b } : Hand) with
      writes := none, seals := ({ k with writes := some b } : Hand).seals } :=
    ⟨rfl, h.registers, h.seals⟩
  generalize ({ k with writes := some b } : Hand) = k₁ at hk hfree ⊢
  refine .bind (P := fun _ _ k' => k' = k₁) (.attempt fun v hv => ?_) ?_
  · cases hr : b.reserve events (v.data b) with
    | error p => exact ⟨k₁, sharing.stay v k₁, hk, _, .inl rfl, hfree⟩
    | ok r =>
      obtain ⟨last, d⟩ := r
      obtain ⟨-, -, -, rfl, rfl⟩ := Bucket.reserve_ok hr
      exact ⟨k₁, .alters hk _ (hv.holds.writing hk) (.inl rfl), rfl⟩
  rintro last e₁ k₁ rfl
  refine .settle (call_stays nofun) ?_ ?_
  · rintro - e₂ k₁ rfl
    refine .bind (.lift (keeping_writing hk fun _ => ⟨rfl, rfl⟩)) ?_
    rintro - e₃ k₁ ⟨rfl, -⟩
    exact .pure' ⟨hk, _, .inl rfl, hfree⟩
  · rintro p e₂ k₁ rfl
    refine .bind (.lift (keeping_writing hk fun _ => ⟨rfl, rfl⟩)) ?_
    rintro - e₃ k₁ ⟨rfl, -⟩
    exact .throw' ⟨hk, _, .inl rfl, hfree⟩

theorem Known.shut_or (h : Known b e) (hs : Sound e) :
    (e.data b).state.isWritable = true ∨ Shut b e :=
  (h.elim hs.settled .inr).imp_right .inr

def ahead (locked : Bool) (bs : List Bucket) : Option (List Bucket) :=
  if locked then some bs else none

theorem strikes_ahead {locked : Bool} {rest : List Bucket} (hs : k.seals = ahead locked (b :: rest))
    (hb : locked = true → Shut b e) : Strikes b e k (ahead locked rest) := by
  cases locked with
  | false => exact .inl hs.symm
  | true => exact .inr ⟨hb rfl, rest, hs, rfl⟩

/-- Unless the store fails the bucket has been locked or unlocked in the end, or it is dropped. -/
theorem setLock_abides {locked : Bool} {rest : List Bucket} (ht : k.turned = some locked)
    (hk : k.writes = none) (hs : k.seals = ahead locked (b :: rest)) (hb : Known b e) :
    (b.setLock locked).Abides sharing e k
      (fun _ _ k' => k' = { k with seals := ahead locked rest })
      (fun p _ k' => (∃ q, p = .store q) ∧ k' = k ∨
        (∃ text, p = .bucketDropped text) ∧ k' = { k with seals := ahead locked rest }) := by
  refine alone_writing (Q := fun _ _ k' => k' = { k with seals := ahead locked rest })
    (E := fun p _ k' => (∃ q, p = .store q) ∧ k' = k ∨
      (∃ text, p = .bucketDropped text) ∧ k' = { k with seals := ahead locked rest }) hk hb
    fun u => ?_
  have hk' : ({ k with writes := some b } : Hand).writes = some b := rfl
  have hs' : ({ k with writes := some b } : Hand).seals = ahead locked (b :: rest) := hs
  have ht' : ({ k with writes := some b } : Hand).turned = some locked := ht
  have hstruck (seals : Option (List Bucket)) : ({ ({ k with writes := some b } : Hand) with
      writes := none, seals := seals } : Hand) = { k with seals := seals } := by rw [← hk]
  generalize ({ k with writes := some b } : Hand) = k₁ at hk' hs' ht' hstruck ⊢
  refine .bind (P := fun _ e' k' => k' = k₁ ∧ (e'.data b).state.isWritable = true)
    (.attempt fun v hv => ⟨k₁, sharing.stay v k₁, ?_⟩) ?_
  · dsimp only [Bucket.checkWritable]
    split
    · next hc =>
      split at hc
      · next hw => exact ⟨rfl, hw⟩
      · cases hc
    · next p hc =>
      split at hc
      · cases hc
      · next hw =>
        cases hc
        have hshut := (Known.shut_or (hv.holds.known hk') hv.sound).resolve_left hw
        exact ⟨hk', _, strikes_ahead hs' fun _ => hshut, .inr ⟨⟨_, rfl⟩, hstruck _⟩⟩
  rintro - e₁ k₁ ⟨rfl, hw⟩
  refine .bind (P := fun _ e' k' => k' = k₁ ∧ (e'.data b).state.isWritable = true)
    (call_abides nofun (fun _ v _ hv => ⟨rfl, ?_⟩) fun _ _ _ _ => ?_) ?_
  · exact (congrArg (·.state.isWritable) (hv.others.written hk')).trans hw
  · exact ⟨hk', _, .inl rfl, .inl ⟨⟨_, rfl⟩, (hstruck _).trans (by rw [hs', ← hs])⟩⟩
  rintro - e₂ k₁ ⟨rfl, hw⟩
  refine .lift (change_writing hk' (fun _ => rfl) (fun v hv => ?_) fun v hv => ?_)
  · exact .inr (.inr ⟨hv.others.written hk' ▸ hw, locked, ht', rfl⟩)
  · refine ⟨hk', _, strikes_ahead hs' fun hl => ?_, hstruck _⟩
    rw [Shut, data_written hk' hv, hl]
    exact .inl rfl

theorem unlessDropped_abides {locked : Bool} {rest : List Bucket} (ht : k.turned = some locked)
    (hk : k.writes = none) (hs : k.seals = ahead locked (b :: rest)) (hb : Known b e) :
    (unlessDropped (b.setLock locked)).Abides sharing e k
      (fun _ _ k' => k' = { k with seals := ahead locked rest }) (fun _ _ k' => k' = k) := by
  refine .settle (setLock_abides ht hk hs hb) ?_ ?_
  · rintro - e₁ k₁ rfl
    exact .pure' rfl
  · rintro p e₁ k₁ (⟨⟨q, rfl⟩, rfl⟩ | ⟨⟨text, rfl⟩, rfl⟩)
    · exact .throw' rfl
    · exact .pure' rfl

theorem lasts_of_abides {op : Operation α} {Q : α → Engine → Hand → Prop}
    {E : EngineError → Engine → Hand → Prop} (h : op.Abides sharing e k Q E) :
    op.Abides sharing e k (fun a e' k' => Lasts e e' ∧ Q a e' k') E := by
  refine Activity.Abides.mono (Activity.Abides.and_leads (R := Lasts) h (.refl e)
    (fun hs hk ha hl => hl.trans (Acts.lasts ha hs hk)) fun ho hl => hl.trans ho.toLasts) ?_
  rintro (p | a) e' k' ⟨hl, h⟩
  · exact h
  · exact ⟨hl, h⟩

theorem forM_abides {locked : Bool} (ht : k.turned = some locked) {bs : List Bucket}
    (hk : k.writes = none) (hs : k.seals = ahead locked bs) (hb : ∀ b ∈ bs, Known b e) :
    (bs.forM fun b => unlessDropped (b.setLock locked)).Abides sharing e k
      (fun _ _ k' => k'.seals = ahead locked []) (fun _ _ _ => True) := by
  induction bs generalizing e k with
  | nil => exact .pure' hs
  | cons b rest ih =>
    refine .bind ((lasts_of_abides (unlessDropped_abides ht hk hs (hb b List.mem_cons_self))).mono
      (fun _ _ _ h => h) fun _ _ _ _ => trivial) ?_
    rintro - e₁ k₁ ⟨hl, rfl⟩
    exact ih ht hk rfl fun c hc => hl.known (hb c (List.mem_cons_of_mem _ hc))

theorem registered_of_mem_values (hs : Sound e) (hb : b ∈ e.registry.values) : Registered b e := by
  obtain ⟨hour, hb⟩ := exists_of_mem_values hb
  rw [Registered, hs.hour hb]
  exact hb

/-- Who locks or unlocks a set has said so first, and has locked all buckets if it succeeds. -/
theorem setLockAll_abides {locked : Bool} (ht : k.turn = some locked) (hk : k.IsFree) :
    Operation.Abides sharing (do
      setLocked locked
      (← buckets).forM fun b => unlessDropped (b.setLock locked)) e k
      (fun _ _ k' => k'.seals = ahead locked []) (fun _ _ _ => True) := by
  refine .bind (P := fun _ _ k' => k' = { k with turned := some locked })
    (.lift (.atomically fun u hu => ⟨_, .turns ht, rfl⟩)) ?_
  rintro - e₁ k₁ rfl
  refine .bind (P := fun bs e' k' => k'.turned = some locked ∧ k'.writes = none ∧
    k'.seals = ahead locked bs ∧ ∀ b ∈ bs, Known b e') (.lift (.bind (P := fun r e' k' =>
      k'.turned = some locked ∧ k'.writes = none ∧ k'.seals = ahead locked r.values ∧
        ∀ b ∈ r.values, Known b e') (.whenever fun u hu hr => ?_) fun _ _ _ h => .pure' h)) ?_
  · have hknown (b : Bucket) (hb : b ∈ u.registry.values) : Known b u :=
      .inl (registered_of_mem_values hu.sound hb)
    cases locked with
    | false => exact ⟨_, sharing.stay u _, rfl, hk.writes, hk.seals, hknown⟩
    | true => exact ⟨_, .surveys rfl ((Bool.not_eq_true' _).mp hr), rfl, hk.writes, rfl, hknown⟩
  · rintro bs e₂ k₂ ⟨hturned, hw, hs, hb⟩
    exact forM_abides hturned hw hs hb

-- ---- eviction ------------------------------------------------------------

theorem remove_writing (hk : k.writes = some b) (hn : ¬Shut b e) (m : String) :
    (call (.removeMap m)).Abides sharing e k
      (fun _ e' k' => k' = k ∧ (e'.data b).state = (e.data b).state) (fun _ _ k' => k' = k) := by
  refine .attempt fun u hu => ?_
  have hs : (u.data b).state = (e.data b).state := congrArg _ (hu.others.written hk)
  refine ⟨k, .removes hk ((shut_congr hs).not.mpr hn) _, ?_⟩
  cases ha : u.store.answer (.removeMap m) with
  | mk a s =>
    cases a with
    | ok a => exact ⟨rfl, hs⟩
    | error p => rfl

/-- Nothing is removed of a bucket that is shut. -/
theorem discard_abides (h : k.IsFree) (hb : Known b e) :
    (b.discard false).Abides sharing e k
      (fun done e' k' => k'.IsFree ∧ (done = true → (e'.data b).state = .dropped))
      (fun _ _ k' => k'.IsFree) := by
  refine alone_writing (Q := fun done s k' => k'.IsFree ∧ (done = true → s = .dropped))
    (E := fun _ _ k' => k'.IsFree) h.writes hb fun u => ?_
  have hk : ({ k with writes := some b } : Hand).writes = some b := rfl
  have hfree : Hand.IsFree { ({ k with writes := some b } : Hand) with
      writes := none, seals := ({ k with writes := some b } : Hand).seals } :=
    ⟨rfl, h.registers, h.seals⟩
  generalize ({ k with writes := some b } : Hand) = k₁ at hk hfree ⊢
  refine .bind (P := fun s e' k' => k' = k₁ ∧ s = (e'.data b).state)
    (.lift (.observe fun v hv => ⟨rfl, rfl⟩)) ?_
  rintro s e₁ k₁ ⟨rfl, hs⟩
  dsimp only
  split
  · exact .pure' ⟨hk, _, .inl rfl, hfree, nofun⟩
  next hl =>
  have hclear {e : Engine} (hs : (e.data b).state ≠ .locked) : Operation.Abides sharing (do
      b.setIndex .empty 0
      b.setState .dropped
      return true) e k₁
      (fun done e' k' => k'.writes = some b ∧ ∃ seals, Strikes b e' k' seals ∧
        Hand.IsFree { k' with writes := none, seals := seals } ∧
          (done = true → (e'.data b).state = .dropped))
      (fun _ e' k' => k'.writes = some b ∧ ∃ seals, Strikes b e' k' seals ∧
        Hand.IsFree { k' with writes := none, seals := seals }) := by
    refine .bind (.lift (keeping_writing hk fun _ => ⟨rfl, rfl⟩)) ?_
    rintro - e₁ k₁ ⟨rfl, hs'⟩
    refine .bind (P := fun _ e' k' => k' = k₁ ∧ (e'.data b).state = .dropped)
      (.lift (change_writing hk (fun _ => rfl) (fun v hv => ?_) fun v hv => ⟨rfl, ?_⟩)) ?_
    · exact .inr (.inl ⟨hv.others.written hk ▸ hs' ▸ hs, rfl⟩)
    · rw [data_written hk hv]
    · rintro - e₂ k₂ ⟨rfl, hd⟩
      exact .pure' ⟨hk, _, .inl rfl, hfree, fun _ => hd⟩
  split
  · next hd =>
    have hn : ¬Shut b e₁ := fun h => h.elim (fun h => hl (hs.trans h)) fun h => hd (hs.trans h)
    refine .bind ((remove_writing hk hn b.eventsMap).mono (fun _ _ _ h => h) ?_) ?_
    · rintro p e₂ k₁ rfl
      exact ⟨hk, _, .inl rfl, hfree⟩
    rintro - e₂ k₁ ⟨rfl, hs₂⟩
    refine .bind ((remove_writing hk ((shut_congr hs₂).not.mpr hn) b.optionsMap).mono
      (fun _ _ _ h => h) ?_) ?_
    · rintro p e₃ k₁ rfl
      exact ⟨hk, _, .inl rfl, hfree⟩
    rintro - e₃ k₁ ⟨rfl, hs₃⟩
    exact hclear (hs₃ ▸ hs₂ ▸ hs ▸ hl)
  · exact hclear (hs ▸ hl)

theorem forget_abides (h : k.IsFree) (hd : (e.data b).state = .dropped) :
    (forget b).Abides sharing e k fun _ _ k' => k'.IsFree := by
  refine .whenever fun u hu hr => ⟨k, ?_, h⟩
  dsimp only
  split
  · next hb => exact .forgets ((Bool.not_eq_true' _).mp hr) hb (hu.others.dropped hd)
  · exact sharing.stay u k

theorem evict_abides (h : k.IsFree) (hours : List Hour) (n : Nat) :
    (evict hours n).Abides sharing e k (fun _ _ k' => k'.IsFree)
      (fun _ _ k' => k'.IsFree) := by
  induction hours generalizing e k n with
  | nil => exact .pure' h
  | cons hour rest ih =>
    refine .bind (.lift (bucket?_abides h hour)) ?_
    rintro (_ | b) e₁ k₁ ⟨h, hb⟩
    · exact ih h n
    refine .bind (discard_abides h (.inl (hb b rfl))) ?_
    rintro (_ | _) e₂ k₂ ⟨h, hd⟩
    · exact ih h n
    · exact .bind (.lift (forget_abides h (hd rfl))) fun _ _ _ h => ih h (n + 1)

theorem registry_abides (h : k.IsFree) : registry.Abides sharing e k
    fun _ _ k' => k'.IsFree :=
  .whenever fun u _ _ => ⟨k, sharing.stay u k, h⟩

theorem purge_abides (h : k.IsFree) : purge.Abides sharing e k (fun _ _ k' => k'.IsFree)
    (fun _ _ k' => k'.IsFree) :=
  .bind (.lift (registry_abides h)) fun _ _ _ h => evict_abides h _ 0

theorem dropData_abides (h : k.IsFree) (now : Instant) : (dropData now).Abides sharing e k
    (fun _ _ k' => k'.IsFree) (fun _ _ k' => k'.IsFree) := by
  refine .bind (P := fun _ _ k' => k'.IsFree) (.lift (.observe fun _ _ => h)) ?_
  rintro retention e₁ k₁ h
  split
  · exact .bind (.lift (registry_abides h)) fun _ _ _ h => evict_abides h _ 0
  · exact .throw' h

-- ---- additions -----------------------------------------------------------

theorem add_abides (h : k.IsFree) (x : Event) : (add x).Abides sharing e k
    (fun _ _ k' => k'.IsFree) (fun _ _ k' => k'.IsFree) := by
  refine .bind (P := fun _ _ k' => k'.IsFree) (.result (fun _ _ => h) fun _ _ => h) ?_
  rintro hour e₁ k₁ h
  refine .bind (getOrCreate_abides h hour) ?_
  rintro b e₂ k₂ ⟨hb, h⟩
  refine .bind (addTo_abides h hb [x]) ?_
  rintro added e₃ k₃ h
  split
  · exact .pure' h
  · exact .throw' h

theorem addGroup_abides {r : Report} (h : k.IsFree) (hour : Hour) (events : List Event) :
    (addGroup r hour events).Abides sharing e k fun _ _ k' => k'.IsFree := by
  have hop : Operation.Abides sharing (do (← getOrCreate hour).addAll events) e k
      (fun _ _ k' => k'.IsFree) (fun _ _ k' => k'.IsFree) := by
    refine .bind (getOrCreate_abides h hour) ?_
    rintro b e₁ k₁ ⟨hb, h⟩
    exact addTo_abides h hb events
  refine Activity.Abides.bind hop ?_
  rintro (p | added) e₁ k₁ h
  · dsimp only
    split <;> exact .pure' h
  · exact .pure' h

theorem addAll_abides (h : k.IsFree) (events : List Event) :
    (addAll events).Abides sharing e k fun _ _ k' => k'.IsFree :=
  .foldlM (fun _ _ _ (k : Hand) => k.IsFree) h fun _ _ _ _ _ h => addGroup_abides h _ _

end Guard

end EventSet

end EventStore
