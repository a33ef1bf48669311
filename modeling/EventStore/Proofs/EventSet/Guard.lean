import EventStore.Proofs.EventSet.Hands
import EventStore.Proofs.EventSet.Operations

/-!
# Who guards buckets from eviction

Locking a set takes many steps: new buckets are to be locked from the first on, and those that are
registered already follow one by one. Meanwhile others make buckets, write to them and evict them.
`Guard.Acts` lists their steps, and `Guard.Hand` what each of them relies on. A bucket that is
locked or dropped stays so as long as nothing is unlocked (`Shut`); who registers a bucket that is
not locked has seen that it need not be, while nobody else could use the registry (`Hand.lax`); and
who has looked at all buckets since is on the way to lock the rest (`Hand.seals`).
-/

namespace EventStore

open Std Query Operation

namespace EventSet

namespace Guard

/-- Eviction spares the bucket, or it has been evicted. -/
def Shut (b : Bucket) (e : Engine) : Prop :=
  (e.data b).state = .locked ∨ (e.data b).state = .dropped

/-- The bucket is registered, or was until it was dropped. -/
def Known (b : Bucket) (e : Engine) : Prop := Registered b e ∨ (e.data b).state = .dropped

/-- How a call may change the state of a known bucket. Only who has said whether new buckets are
locked, which is `turned`, can lock or unlock it. -/
def Turns (turned : Option Bool) (s s' : BucketState) : Prop :=
  s' = s ∨ s ≠ .locked ∧ s' = .dropped ∨
    s.isWritable = true ∧ ∃ locked, turned = some locked ∧ s' = if locked then .locked else .ready

/-- What a call has in hand. -/
structure Hand where
  /-- A bucket that the call has opened and that nobody else knows of. -/
  makes : Option Bucket
  /-- A bucket that nobody else changes meanwhile. -/
  writes : Option Bucket
  /-- Whether nobody else may use the registry. -/
  registers : Bool
  /-- Whether the call has found since then that new buckets need not be locked. -/
  lax : Bool
  /-- Whether the call is to lock or to unlock buckets, if either. -/
  turn : Option Bool
  /-- The same as soon as the call has said so of new buckets. -/
  turned : Option Bool
  /-- The registered buckets apart from these are shut. -/
  seals : Option (List Bucket)

namespace Hand

def empty : Hand := ⟨none, none, false, false, none, none, none⟩

/-- Nobody has to wait for the call, and it locks no others. -/
structure IsFree (k : Hand) : Prop where
  writes : k.writes = none
  registers : k.registers = false
  seals : k.seals = none

/-- The two calls hold different things. -/
structure Apart (j k : Hand) : Prop where
  makes : ∀ b c, j.makes = some b → k.makes = some c → b.number ≠ c.number
  writes : ∀ b c, j.writes = some b → k.writes = some c → b.number ≠ c.number
  registers : ¬(j.registers = true ∧ k.registers = true)
  seals : ¬(j.seals.isSome = true ∧ k.lax = true)
  lax : ¬(j.lax = true ∧ k.seals.isSome = true)
  turn : ∀ locked locked', j.turn = some locked → k.turn = some locked' → locked = locked'

theorem Apart.symm (h : Apart j k) : Apart k j where
  makes b c hb hc := (h.makes c b hc hb).symm
  writes b c hb hc := (h.writes c b hc hb).symm
  registers hr := h.registers hr.symm
  seals hs := h.lax hs.symm
  lax hl := h.seals hl.symm
  turn l l' hl hl' := (h.turn l' l hl' hl).symm

end Hand

/-- What is true of an engine at any time. -/
structure Sound (e : Engine) : Prop where
  hour : ∀ {h : Hour} {b : Bucket}, e.registry[h]? = some b → b.hour = h
  here : ∀ {b : Bucket}, Registered b e → b.number < e.opened.size
  settled : ∀ {b : Bucket}, Registered b e →
    (e.data b).state.isWritable = true ∨ (e.data b).state = .dropped

/-- New buckets are locked, and of those that are registered all but the rest are shut. -/
structure Seals (e : Engine) (k : Hand) (rest : List Bucket) : Prop where
  turned : k.turned = some true
  registers : k.registers = false
  shut : ∀ b, Registered b e → Shut b e ∨ b ∈ rest

/-- The hand's things are where they should be. -/
structure Held (e : Engine) (k : Hand) : Prop where
  here : ∀ {b : Bucket}, k.makes = some b → b.number < e.opened.size
  undropped : ∀ {b : Bucket}, k.makes = some b → (e.data b).state ≠ .dropped
  unknown : ∀ {b c : Bucket}, k.makes = some b → Registered c e → c.number ≠ b.number
  known : ∀ {b : Bucket}, k.writes = some b → Known b e
  writing : ∀ {b : Bucket}, k.writes = some b → (e.data b).writing = true
  registering : k.registers = true → e.registering = true
  lax : k.lax = true → k.registers = true
  turned : ∀ {locked : Bool}, k.turned = some locked → k.turn = some locked ∧ e.locked = locked
  seals : ∀ {rest : List Bucket}, k.seals = some rest → Seals e k rest

/-- The steps of a call. -/
inductive Acts : Engine → Hand → Engine → Hand → Prop
  /-- The store is asked, or a query is compiled. -/
  | asks {e k} (store : Store) (cache : Cache)
    (h : ∀ m, (e.store.entries? m).isSome → (store.entries? m).isSome) :
    Acts e k { e with store := store, cache := cache } k
  | opens {e k} (b : Bucket) (hb : b.number = e.opened.size) :
    Acts e k { e with opened := e.opened.push .fresh } { k with makes := some b }
  | prepares {e k} {b : Bucket} (hb : k.makes = some b) (d : BucketData) (hd : d.state ≠ .dropped) :
    Acts e k (e.setData b d) k
  | enters {e k} (hk : k.seals = none) (h : e.registering = false) :
    Acts e k { e with registering := true } { k with registers := true }
  | looks {e k} (hr : k.registers = true) (h : e.locked = false) :
    Acts e k e { k with lax := true }
  | registers {e k} {b : Bucket} (hr : k.registers = true) (hb : k.makes = some b)
    (hn : e.registry[b.hour]? = none) (hw : (e.data b).state.isWritable = true)
    (hl : k.lax = true ∨ (e.data b).state = .locked) :
    Acts e k { e with registry := e.registry.insert b.hour b } { k with makes := none }
  | leaves {e k} (h : k.registers = true) :
    Acts e k { e with registering := false } { k with registers := false, lax := false }
  | takes {e k} {b : Bucket} (hk : k.writes = none) (hb : Known b e)
    (hw : (e.data b).writing = false) :
    Acts e k (e.setData b { e.data b with writing := true }) { k with writes := some b }
  | alters {e k} {b : Bucket} (hb : k.writes = some b) (d : BucketData) (hd : d.writing = true)
    (hs : Turns k.turned (e.data b).state d.state) : Acts e k (e.setData b d) k
  | removes {e k} {b : Bucket} (hb : k.writes = some b) (hs : ¬Shut b e) (store : Store) :
    Acts e k { e with store := store } k
  /-- A bucket that is shut can be struck off. -/
  | releases {e k} {b : Bucket} (hb : k.writes = some b) (seals : Option (List Bucket))
    (hs : seals = k.seals ∨ Shut b e ∧ ∃ rest, k.seals = some (b :: rest) ∧ seals = some rest) :
    Acts e k (e.setData b { e.data b with writing := false })
      { k with writes := none, seals := seals }
  | forgets {e k} {b : Bucket} (h : e.registering = false) (hb : Registered b e)
    (hd : (e.data b).state = .dropped) :
    Acts e k { e with registry := e.registry.erase b.hour } k
  | turns {e k} {locked : Bool} (h : k.turn = some locked) :
    Acts e k { e with locked := locked } { k with turned := some locked }
  | surveys {e k} (ht : k.turned = some true) (h : e.registering = false) :
    Acts e k e { k with seals := some e.registry.values }

/-- What all calls together can do. -/
structure Lasts (e e' : Engine) : Prop where
  size : e.opened.size ≤ e'.opened.size
  dropped : ∀ {b : Bucket}, (e.data b).state = .dropped → (e'.data b).state = .dropped
  registered : ∀ {b : Bucket}, Registered b e → Known b e'

/-- What the others can do while a call has `k` in hand. -/
structure Others (k : Hand) (e e' : Engine) : Prop extends Lasts e e' where
  made : ∀ {b : Bucket}, k.makes = some b → e'.data b = e.data b
  unknown : ∀ {b c : Bucket}, k.makes = some b → c.number = b.number → Registered c e' →
    Registered c e
  written : ∀ {b : Bucket}, k.writes = some b → e'.data b = e.data b
  registry : k.registers = true → e'.registry = e.registry
  registering : k.registers = true → e'.registering = e.registering
  turned : k.turned.isSome = true → e'.locked = e.locked
  shut : k.seals.isSome = true → ∀ {b : Bucket}, Known b e → Shut b e → Shut b e'
  joined : k.seals.isSome = true → ∀ {b : Bucket}, Registered b e' → Registered b e ∨ Shut b e'

variable {turned : Option Bool} {e e' e'' : Engine} {j k k' : Hand} {b c : Bucket} {d : BucketData}

-- ---- states --------------------------------------------------------------

namespace Turns

variable {s s' : BucketState}

theorem dropped (h : Turns turned s s') (hs : s = .dropped) : s' = .dropped := by
  rcases h with rfl | ⟨-, rfl⟩ | ⟨hw, -⟩
  · exact hs
  · rfl
  · subst hs
    cases hw

theorem settled (h : Turns turned s s') (hs : s.isWritable = true ∨ s = .dropped) :
    s'.isWritable = true ∨ s' = .dropped := by
  rcases h with rfl | ⟨-, rfl⟩ | ⟨-, locked, -, rfl⟩
  · exact hs
  · exact .inr rfl
  · cases locked <;> exact .inl rfl

theorem shut (h : Turns turned s s') (ht : turned ≠ some false) (hs : s = .locked ∨ s = .dropped) :
    s' = .locked ∨ s' = .dropped := by
  rcases h with rfl | ⟨-, rfl⟩ | ⟨-, locked, rfl, rfl⟩
  · exact hs
  · exact .inr rfl
  · cases locked with
    | false => exact absurd rfl ht
    | true => exact .inl rfl

end Turns

theorem data_congr (h : c.number = b.number) (e : Engine) : e.data c = e.data b := by
  rw [Engine.data, h, Engine.data]

theorem lt_of_dropped (h : (e.data b).state = .dropped) : b.number < e.opened.size := by
  by_contra hn
  rw [Engine.data, Array.getD_eq_getD_getElem?, Array.getElem?_eq_none (Nat.le_of_not_lt hn)] at h
  cases h

theorem Known.here (h : Known b e) (hs : Sound e) : b.number < e.opened.size :=
  h.elim hs.here lt_of_dropped

theorem Held.makes_ne (hk : Held e k) (hc : k.makes = some c) (hb : Known b e) :
    c.number ≠ b.number := by
  intro hn
  rcases hb with hb | hb
  · exact hk.unknown hc hb hn.symm
  · exact hk.undropped hc (data_congr hn e ▸ hb)

theorem Held.writes_ne (hk : Held e k) (hc : k.writes = some c) (hb : (e.data b).writing = false) :
    c.number ≠ b.number := by
  intro hn
  have hw := hk.writing hc
  rw [data_congr hn, hb] at hw
  cases hw

theorem Held.not_registers (hk : Held e k) (h : e.registering = false) : ¬k.registers = true :=
  fun hr => nomatch h.symm.trans (hk.registering hr)

theorem Held.not_seals (hk : Held e k) (h : k.registers = true) {rest : List Bucket} :
    k.seals ≠ some rest :=
  fun hr => nomatch h.symm.trans (hk.seals hr).registers

/-- Who seals has seen to it that new buckets are locked. -/
theorem Held.locked_of_seals (hk : Held e k) (h : k.seals.isSome = true) : e.locked = true := by
  obtain ⟨rest, hr⟩ := Option.isSome_iff_exists.mp h
  exact (hk.turned (hk.seals hr).turned).2

theorem shut_congr (h : (e'.data b).state = (e.data b).state) : Shut b e' ↔ Shut b e := by
  rw [Shut, h, Shut]

-- ---- what there is to respect --------------------------------------------

theorem Lasts.known (h : Lasts e e') (hb : Known b e) : Known b e' :=
  hb.elim h.registered fun hd => .inr (h.dropped hd)

theorem Lasts.refl (e : Engine) : Lasts e e := ⟨Nat.le_refl _, id, .inl⟩

theorem Lasts.trans (h : Lasts e e') (h' : Lasts e' e'') : Lasts e e'' where
  size := Nat.le_trans h.size h'.size
  dropped hd := h'.dropped (h.dropped hd)
  registered hb := h'.known (h.registered hb)

theorem Others.refl (k : Hand) (e : Engine) : Others k e e where
  toLasts := .refl e
  made _ := rfl
  unknown _ _ := id
  written _ := rfl
  registry _ := rfl
  registering _ := rfl
  turned _ := rfl
  shut _ _ _ := id
  joined _ _ := .inl

theorem Others.trans (h : Others k e e') (h' : Others k e' e'') :
    Others k e e'' where
  toLasts := h.toLasts.trans h'.toLasts
  made hb := (h'.made hb).trans (h.made hb)
  unknown hb hc hr := h.unknown hb hc (h'.unknown hb hc hr)
  written hb := (h'.written hb).trans (h.written hb)
  registry hr := (h'.registry hr).trans (h.registry hr)
  registering hr := (h'.registering hr).trans (h.registering hr)
  turned ht := (h'.turned ht).trans (h.turned ht)
  shut hk _ hb hs := h'.shut hk (h.known hb) (h.shut hk hb hs)
  joined hk {b} hb := by
    rcases h'.joined hk hb with hb' | hs
    · exact (h.joined hk hb').imp_right (h'.shut hk (.inl hb'))
    · exact .inr hs

theorem Others.kept (h : Others k e e') (hk : Held e k) : Held e' k where
  here hb := Nat.lt_of_lt_of_le (hk.here hb) h.size
  undropped hb := h.made hb ▸ hk.undropped hb
  unknown hb hc hn := hk.unknown hb (h.unknown hb hn hc) hn
  known hb := h.known (hk.known hb)
  writing hb := h.written hb ▸ hk.writing hb
  registering hr := (h.registering hr).trans (hk.registering hr)
  lax := hk.lax
  turned ht := (hk.turned ht).imp_right (h.turned (ht ▸ rfl)).trans
  seals hr := by
    have hs := hk.seals hr
    refine { hs with shut := fun b hb => ?_ }
    rcases h.joined (hr ▸ rfl) hb with hb | hb
    · exact (hs.shut b hb).imp_left (h.shut (hr ▸ rfl) (.inl hb))
    · exact .inl hb

-- ---- what a step leaves --------------------------------------------------

/-- The step changes what is known of a bucket no more than it may. -/
def Leads (turned : Option Bool) (e : Engine) (b : Bucket) (d : BucketData) : Prop :=
  ∀ c, c.number = b.number → Known c e → Turns turned (e.data c).state d.state

theorem Sound.setData (hs : Sound e) (hn : b.number < e.opened.size) (hd : Leads turned e b d) :
    Sound (e.setData b d) where
  hour := hs.hour
  here hc := (size_setData e b d).symm ▸ hs.here hc
  settled {c} hc := by
    rw [Engine.data_setData hn]
    split
    · next hb => exact (hd c hb.symm (.inl hc)).settled (hs.settled hc)
    · exact hs.settled hc

theorem Lasts.setData (hn : b.number < e.opened.size) (hd : Leads turned e b d) :
    Lasts e (e.setData b d) where
  size := Nat.le_of_eq (size_setData e b d).symm
  dropped {c} hc := by
    rw [Engine.data_setData hn]
    split
    · next hb => exact (hd c hb.symm (.inr hc)).dropped hc
    · exact hc
  registered := .inl

theorem Shut.setData (hs : Shut c e) (hn : b.number < e.opened.size) (hd : Leads turned e b d)
    (ht : turned ≠ some false) (hc : Known c e) : Shut c (e.setData b d) := by
  rw [Shut, Engine.data_setData hn]
  split
  · next hb => exact (hd _ hb.symm hc).shut ht hs
  · exact hs

theorem registered_erase {hour : Hour}
    (h : Registered c { e with registry := e.registry.erase hour }) : Registered c e :=
  (getElem?_erase_eq_some.mp h).2

theorem Held.leads_made (hk : Held e k) (hb : k.makes = some b) (turned : Option Bool)
    (d : BucketData) :
    Leads turned e b d := fun _ hn hc => absurd hn.symm (hk.makes_ne hb hc)

theorem leads_same (turned : Option Bool) (hd : d.state = (e.data b).state) :
    Leads turned e b d := fun _ hn _ =>
  .inl (by rw [data_congr hn, hd])

theorem leads_of_turns (ht : Turns turned (e.data b).state d.state) : Leads turned e b d :=
  fun _ hn _ => data_congr hn e ▸ ht

theorem Acts.sound (h : Acts e k e' k') (hs : Sound e) (hk : Held e k) : Sound e' := by
  cases h with
  | asks | enters | looks | leaves | removes | turns | surveys => exact { hs with }
  | opens b hb =>
    refine { hs with
      here := fun hc => Nat.lt_of_lt_of_le (hs.here hc) (by simp)
      settled := fun hc => ?_ }
    rw [data_push (hs.here hc)]
    exact hs.settled hc
  | prepares hb d _ => exact hs.setData (hk.here hb) (hk.leads_made hb none d)
  | @registers b hr hb hn hw hl =>
    refine { hour := fun {hour c} hc => ?_, here := fun hc => ?_, settled := fun hc => ?_ }
    · rcases getElem?_insert_eq_some.mp hc with ⟨rfl, rfl⟩ | ⟨-, hc⟩
      · rfl
      · exact hs.hour hc
    · rcases registered_insert hc with rfl | hc
      · exact hk.here hb
      · exact hs.here hc
    · rcases registered_insert hc with rfl | hc
      · exact .inl hw
      · exact hs.settled hc
  | takes _ hb _ => exact hs.setData (hb.here hs) (leads_same none rfl)
  | alters hb d _ ht => exact hs.setData ((hk.known hb).here hs) (leads_of_turns ht)
  | releases hb => exact hs.setData ((hk.known hb).here hs) (leads_same none rfl)
  | forgets =>
    exact {
      hour := fun hc => hs.hour (getElem?_erase_eq_some.mp hc).2
      here := fun hc => hs.here (registered_erase hc)
      settled := fun hc => hs.settled (registered_erase hc) }

theorem Acts.lasts (h : Acts e k e' k') (hs : Sound e) (hk : Held e k) :
    Lasts e e' := by
  cases h with
  | asks | enters | looks | leaves | removes | turns | surveys => exact { Lasts.refl e with }
  | opens b hb =>
    refine { size := by simp, dropped := fun hc => ?_, registered := .inl }
    rwa [data_push (lt_of_dropped hc)]
  | prepares hb d _ => exact .setData (hk.here hb) (hk.leads_made hb none d)
  | @registers b hr hb hn hw hl =>
    refine { Lasts.refl e with registered := fun {c} hc => .inl ?_ }
    have hne : c.hour ≠ b.hour := by
      intro hh
      rw [Registered, hh, hn] at hc
      cases hc
    exact getElem?_insert_eq_some.mpr (.inr ⟨hne, hc⟩)
  | takes _ hb _ => exact .setData (hb.here hs) (leads_same none rfl)
  | alters hb d _ ht => exact .setData ((hk.known hb).here hs) (leads_of_turns ht)
  | releases hb => exact .setData ((hk.known hb).here hs) (leads_same none rfl)
  | @forgets b hr hb hd =>
    refine { Lasts.refl e with registered := fun {c} hc => ?_ }
    by_cases hcb : c = b
    · exact .inr (hcb ▸ hd)
    · exact .inl (getElem?_erase_eq_some.mpr ⟨hour_ne_of_registered hb hc hcb, hc⟩)

/-- Only who unlocks buckets opens what is shut. -/
theorem Acts.shut (h : Acts e k e' k') (hs : Sound e) (hk : Held e k) (ht : k.turned ≠ some false)
    (hc : Known c e) (hsh : Shut c e) : Shut c e' := by
  cases h with
  | opens b hb => rwa [Shut, data_push (hc.here hs)]
  | prepares hb d _ => exact hsh.setData (hk.here hb) (hk.leads_made hb k.turned d) ht hc
  | takes _ hb _ => exact hsh.setData (hb.here hs) (leads_same k.turned rfl) ht hc
  | alters hb d _ hd => exact hsh.setData ((hk.known hb).here hs) (leads_of_turns hd) ht hc
  | releases hb => exact hsh.setData ((hk.known hb).here hs) (leads_same k.turned rfl) ht hc
  | _ => exact hsh

theorem Seals.kept {rest : List Bucket} (h : Seals e k rest)
    (hs : ∀ {b : Bucket}, Known b e → Shut b e → Shut b e')
    (hr : ∀ {b : Bucket}, Registered b e' → Registered b e) : Seals e' k rest :=
  { h with shut := fun b hb => (h.shut b (hr hb)).imp_left (hs (.inl (hr hb))) }

theorem Held.setData (hk : Held e k) (hn : b.number < e.opened.size) (hd : Leads k.turned e b d)
    (hm : ∀ c, k.makes = some c → c.number = b.number → d.state ≠ .dropped)
    (hw : ∀ c, k.writes = some c → c.number = b.number → d.writing = true) :
    Held (e.setData b d) k where
  here hc := (size_setData e b d).symm ▸ hk.here hc
  undropped {c} hc := by
    rw [Engine.data_setData hn]
    split
    · next hb => exact hm c hc hb.symm
    · exact hk.undropped hc
  unknown := hk.unknown
  known hc := (Lasts.setData hn hd).known (hk.known hc)
  writing {c} hc := by
    rw [Engine.data_setData hn]
    split
    · next hb => exact hw c hc hb.symm
    · exact hk.writing hc
  registering := hk.registering
  lax := hk.lax
  turned := hk.turned
  seals hr := by
    have ht : k.turned ≠ some false := by
      rw [(hk.seals hr).turned]
      nofun
    exact (hk.seals hr).kept (fun hc hs => hs.setData hn hd ht hc) id

theorem Acts.kept (h : Acts e k e' k') (hs : Sound e) (hk : Held e k) {rest : List Bucket}
    (hr : k.seals = some rest) (hreg : ∀ {b : Bucket}, Registered b e' → Registered b e) :
    Seals e' k rest := by
  refine (hk.seals hr).kept (h.shut hs hk ?_) hreg
  rw [(hk.seals hr).turned]
  nofun

theorem Held.opens (hk : Held e k) (hs : Sound e) (hb : b.number = e.opened.size) :
    Held { e with opened := e.opened.push .fresh } { k with makes := some b } := by
  have h : Acts e k { e with opened := e.opened.push .fresh } { k with makes := some b } :=
    .opens b hb
  have hl := h.lasts hs hk
  refine { hk with
    here := fun hc => ?_
    undropped := fun hc => ?_
    unknown := fun hc hd => ?_
    known := fun hc => hl.known (hk.known hc)
    writing := fun hc => ?_
    seals := fun hr => { h.kept hs hk hr id with } }
  · cases hc
    simp [hb]
  · cases hc
    simp [Engine.data, hb, BucketData.fresh]
  · cases hc
    exact hb ▸ Nat.ne_of_lt (hs.here hd)
  · rw [data_push ((hk.known hc).here hs)]
    exact hk.writing hc

theorem Held.takes (hk : Held e k) (hs : Sound e) (hb : Known b e) :
    Held (e.setData b { e.data b with writing := true }) { k with writes := some b } := by
  have hl : Lasts e (e.setData b { e.data b with writing := true }) :=
    .setData (hb.here hs) (leads_same none rfl)
  have h := hk.setData (hb.here hs) (d := { e.data b with writing := true })
    (leads_same k.turned rfl) (fun c hc hn => absurd hn (hk.makes_ne hc hb)) fun _ _ _ => rfl
  refine { h with
    known := fun hc => ?_
    writing := fun hc => ?_
    seals := fun hr => { h.seals hr with } }
  · cases hc
    exact hl.known hb
  · cases hc
    rw [Engine.data_setData (hb.here hs), if_pos rfl]

/-- The bucket is struck off after it has been shut. -/
theorem Held.releases (hk : Held e k) (hs : Sound e) (hb : k.writes = some b)
    {seals : Option (List Bucket)} (hseals : seals = k.seals ∨
      Shut b e ∧ ∃ rest, k.seals = some (b :: rest) ∧ seals = some rest) :
    Held (e.setData b { e.data b with writing := false })
      { k with writes := none, seals := seals } := by
  have h := Acts.releases hb seals hseals
  refine { hk with
    here := fun hc => (size_setData ..).symm ▸ hk.here hc
    undropped := fun {c} hc => ?_
    known := nofun
    writing := nofun
    seals := fun {rest} hr => ?_ }
  · rw [data_setData_ne (hk.makes_ne hc (hk.known hb))]
    exact hk.undropped hc
  obtain rfl : seals = some rest := hr
  rcases hseals with hsame | ⟨hshut, _, hr, hrest⟩
  · exact { h.kept hs hk hsame.symm id with }
  cases hrest
  have hkept := h.kept hs hk hr id
  refine { hkept with shut := fun c hc => ?_ }
  rcases hkept.shut c hc with hc | hc
  · exact .inl hc
  rcases List.mem_cons.mp hc with rfl | hc
  · exact .inl (hshut.setData ((hk.known hb).here hs) (leads_same none rfl)
      (Option.some_ne_none _).symm (hk.known hb))
  · exact .inr hc

theorem Acts.held (h : Acts e k e' k') (hs : Sound e) (hk : Held e k) : Held e' k' := by
  have hl := h.lasts hs hk
  have hkept {rest : List Bucket} (hr : k.seals = some rest) := h.kept hs hk hr
  cases h with
  | asks | removes => exact { hk with seals := fun hr => hkept hr id }
  | opens b hb => exact hk.opens hs hb
  | prepares hb d hd =>
    exact hk.setData (hk.here hb) (hk.leads_made hb k.turned d) (fun _ _ _ => hd)
      fun c hc hn => absurd hn.symm (hk.makes_ne hb (hk.known hc))
  | enters hseals hr =>
    exact { hk with
      registering := fun _ => rfl
      lax := fun _ => rfl
      seals := fun hr => (nomatch hseals.symm.trans hr) }
  | looks hr hf =>
    exact { hk with lax := fun _ => hr, seals := fun hr' => absurd hr' (hk.not_seals hr) }
  | registers hr hb hn hw hlax =>
    exact { hk with
      here := nofun
      undropped := nofun
      unknown := nofun
      known := fun hc => hl.known (hk.known hc)
      seals := fun hr' => absurd hr' (hk.not_seals hr) }
  | leaves hr =>
    exact { hk with
      registering := nofun
      lax := nofun
      seals := fun hr' => absurd hr' (hk.not_seals hr) }
  | takes _ hb _ => exact hk.takes hs hb
  | alters hb d hd ht =>
    exact hk.setData ((hk.known hb).here hs) (leads_of_turns ht)
      (fun c hc hn => absurd hn (hk.makes_ne hc (hk.known hb))) fun _ _ _ => hd
  | releases hb _ hseals => exact hk.releases hs hb hseals
  | forgets _ _ _ =>
    exact { hk with
      unknown := fun hb hc => hk.unknown hb (registered_erase hc)
      known := fun hc => hl.known (hk.known hc)
      seals := fun hr => hkept hr registered_erase }
  | turns ht =>
    refine { hk with turned := fun ht' => ?_, seals := fun hr => ?_ }
    · cases ht'
      exact ⟨ht, rfl⟩
    · have hseals := hkept hr id
      exact { hseals with turned := ht.symm.trans (hk.turned hseals.turned).1 }
  | surveys ht hr =>
    refine { hk with seals := fun hrest => ?_ }
    cases hrest
    exact ⟨ht, eq_false_of_ne_true (hk.not_registers hr), fun b hb => .inr (mem_values hb)⟩

theorem Acts.turn (h : Acts e k e' k') : k'.turn = k.turn := by
  cases h <;> rfl

/-- No step takes what another call has in hand. -/
theorem Acts.apart (h : Acts e k e' k') (hj : Held e j) (ha : j.Apart k) : j.Apart k' := by
  cases h with
  | asks | prepares | alters | removes | forgets => exact ha
  | opens b hb =>
    refine { ha with makes := fun c d hc hd => ?_ }
    cases hd
    exact hb ▸ Nat.ne_of_lt (hj.here hc)
  | enters _ hr => exact { ha with registers := fun h => hj.not_registers hr h.1 }
  | looks _ hf =>
    exact { ha with seals := fun h => (nomatch hf.symm.trans (hj.locked_of_seals h.1)) }
  | registers => exact { ha with makes := fun _ _ _ hc => (nomatch hc) }
  | leaves => exact { ha with registers := fun h => (nomatch h.2), seals := fun h => (nomatch h.2) }
  | takes _ _ hw =>
    refine { ha with writes := fun c d hc hd => ?_ }
    cases hd
    exact hj.writes_ne hc hw
  | releases _ seals hseals =>
    refine { ha with
      writes := fun _ _ _ hc => (nomatch hc)
      lax := fun h => ha.lax ⟨h.1, ?_⟩ }
    rcases hseals with rfl | ⟨-, rest, hr, -⟩
    · exact h.2
    · rw [hr]
      rfl
  | turns => exact { ha with }
  | surveys _ hr => exact { ha with lax := fun h => hj.not_registers hr (hj.lax h.1) }

theorem Others.setData {d : BucketData} (hl : Lasts e (e.setData b d))
    (hm : ∀ c, j.makes = some c → c.number ≠ b.number)
    (hw : ∀ c, j.writes = some c → c.number ≠ b.number)
    (hs : j.seals.isSome = true → ∀ {c : Bucket}, Known c e → Shut c e →
      Shut c (e.setData b d)) : Others j e (e.setData b d) :=
  { Others.refl j e with
    toLasts := hl
    made := fun hc => data_setData_ne (hm _ hc)
    written := fun hc => data_setData_ne (hw _ hc)
    shut := hs
    joined := fun _ _ => .inl }

/-- What a call has in hand is not touched by the step of another. -/
theorem Acts.spares (h : Acts e k e' k') (hs : Sound e) (hk : Held e k) (hj : Held e j)
    (ha : j.Apart k) : Others j e e' := by
  have hl := h.lasts hs hk
  -- Those who register exclude each other, and nobody opens what another has found shut.
  have hfree (hr : k.registers = true) : ¬j.registers = true := fun h => ha.registers ⟨h, hr⟩
  have hshut (hseals : j.seals.isSome = true) {b : Bucket} :
      Known b e → Shut b e → Shut b e' := by
    refine h.shut hs hk fun ht => ?_
    cases (hj.locked_of_seals hseals).symm.trans (hk.turned ht).2
  cases h with
  | asks | removes => exact { Others.refl j e with }
  | looks | surveys => exact .refl j e
  | opens b hb =>
    exact { Others.refl j e with
      toLasts := hl
      made := fun hc => data_push (hj.here hc)
      written := fun hc => data_push ((hj.known hc).here hs)
      shut := hshut
      joined := fun _ _ => .inl }
  | prepares hb d _ =>
    exact .setData hl (fun c hc => ha.makes c _ hc hb)
      (fun c hc => (hk.makes_ne hb (hj.known hc)).symm) hshut
  | enters _ hr =>
    exact { Others.refl j e with registering := fun h => absurd h (hj.not_registers hr) }
  | @registers b hr hb hn hw hlax =>
    refine { Others.refl j e with
      toLasts := hl
      unknown := fun {c d} hc hd hdr => ?_
      registry := fun h => absurd h (hfree hr)
      joined := fun hseals c hc => ?_ }
    · refine (registered_insert hdr).resolve_left ?_
      rintro rfl
      exact ha.makes c d hc hb hd.symm
    · rcases registered_insert hc with rfl | hc
      · exact .inr (.inl (hlax.resolve_left fun h => ha.seals ⟨hseals, h⟩))
      · exact .inl hc
  | leaves hr => exact { Others.refl j e with registering := fun h => absurd h (hfree hr) }
  | takes _ hb hw =>
    exact .setData hl (fun c hc => hj.makes_ne hc hb) (fun c hc => hj.writes_ne hc hw) hshut
  | alters hb | releases hb =>
    exact .setData hl (fun c hc => hj.makes_ne hc (hk.known hb)) (fun c hc => ha.writes c _ hc hb)
      hshut
  | forgets hr _ _ =>
    exact { Others.refl j e with
      toLasts := hl
      unknown := fun _ _ => registered_erase
      registry := fun h => absurd h (hj.not_registers hr)
      joined := fun _ _ hc => .inl (registered_erase hc) }
  | turns ht =>
    refine { Others.refl j e with turned := fun ht' => ?_ }
    -- Nobody locks buckets while another unlocks them.
    obtain ⟨locked, hlocked⟩ := Option.isSome_iff_exists.mp ht'
    obtain ⟨hj', rfl⟩ := hj.turned hlocked
    exact (ha.turn _ _ hj' ht).symm

theorem Acts.others (h : Acts e k e' k') (hs : Sound e) (hk : Held e k) (hj : Held e j)
    (ha : j.Apart k) : Others j e e' ∧ j.Apart k' :=
  ⟨h.spares hs hk hj ha, h.apart hj ha⟩

-- ---- the rules -----------------------------------------------------------

/-- How calls share a set whose buckets are locked and unlocked, but not both at a time. -/
def sharing : Sharing Engine Hand where
  Sound := Sound
  Holds := Held
  May := Acts
  Others := Others
  Apart := Hand.Apart
  stay e _ := .asks e.store e.cache fun _ => id
  sound := Acts.sound
  holds := Acts.held
  refl := .refl
  trans := .trans
  kept h := h.kept
  symm := .symm
  others := Acts.others

/-- The surroundings leave alone what the calls share. -/
theorem Others.of_shaken (h : e.Shaken e') (k : Hand) : Others k e e' := by
  obtain ⟨faults, clock, -, rfl⟩ := h
  exact { Others.refl k e with }

theorem Sound.shaken (hs : Sound e) (h : e.Shaken e') : Sound e' := by
  obtain ⟨faults, clock, -, rfl⟩ := h
  exact { hs with }

end Guard

end EventSet

end EventStore
