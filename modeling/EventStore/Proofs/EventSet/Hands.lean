import EventStore.Engine.EventSet
import EventStore.Proofs.Bucket.Matching
import EventStore.Proofs.Engine.Sharing
import EventStore.Proofs.Time.Key

/-!
# What calls hold in their hands

Calls that add events share an engine by locks: of each bucket, and of the registry. What a call
holds is its `Hand`, and `Acts` lists the steps that it may take with it. A bucket that a call has
opened is its own until it registers it; a registered bucket is its own while it writes. So no step
of another call touches it (`Acts.others`), every registered bucket can be used, and one at rest has
the index of what is stored (`Sound`).
-/

namespace EventStore

open Std Query Operation

/-- Maps may have been made; what those of events hold is the same. -/
structure View.Tame (v v' : View) : Prop where
  events : ∀ b : Bucket, v' b.eventsMap = v b.eventsMap ∨
    v b.eventsMap = none ∧ v' b.eventsMap = some ∅
  there : ∀ {m}, (v m).isSome → (v' m).isSome

theorem View.Tame.refl (v : View) : v.Tame v := ⟨fun _ => .inl rfl, id⟩

/-- What the index knows of is among the entries. -/
def Index.Backed (i : Index) (es : Entries) : Prop :=
  ∃ (part : Entries) (last : UInt32), Bucket.indexOf part.toList = .ok (i, last) ∧
    ∀ id x, Bucket.eventAt? part id = some x → Bucket.eventAt? es id = some x

namespace EventSet

/-- What a call has in hand. -/
structure Hand where
  /-- A bucket that the call has opened and that nobody else knows of. -/
  makes : Option Bucket
  /-- A registered bucket that nobody else changes meanwhile. -/
  writes : Option Bucket
  /-- Whether nobody else may use the registry. -/
  registers : Bool
  /-- What the call has stored so far. -/
  stored : List Event

namespace Hand

def empty : Hand := ⟨none, none, false, []⟩

/-- The call has stored the events, and nobody has to wait for it. -/
structure IsFree (k : Hand) (stored : List Event) : Prop where
  writes : k.writes = none
  registers : k.registers = false
  stored : k.stored = stored

/-- The two calls hold different things. -/
structure Apart (j k : Hand) : Prop where
  makes : ∀ b c, j.makes = some b → k.makes = some c → b.number ≠ c.number
  writes : ∀ b c, j.writes = some b → k.writes = some c → b.number ≠ c.number
  registers : ¬(j.registers = true ∧ k.registers = true)

theorem Apart.symm (h : Apart j k) : Apart k j where
  makes b c hb hc := (h.makes c b hc hb).symm
  writes b c hb hc := (h.writes c b hc hb).symm
  registers hr := h.registers hr.symm

theorem apart_empty (k : Hand) : k.Apart .empty where
  makes _ _ _ h := nomatch h
  writes _ _ _ h := nomatch h
  registers h := nomatch h.2

end Hand

def Registered (b : Bucket) (e : Engine) : Prop := e.registry[b.hour]? = some b

/-- The bucket takes events and finds them. -/
structure Usable (b : Bucket) (e : Engine) : Prop where
  events : (e.store.entries? b.eventsMap).isSome
  options : (e.store.entries? b.optionsMap).isSome
  backed : (e.data b).index.Backed (e.content b)
  writable : (e.data b).state.isWritable = true

/-- What is true of an engine while events are added. -/
structure Sound (e : Engine) : Prop where
  cache : e.cache.Sound
  hour : ∀ {h : Hour} {b : Bucket}, e.registry[h]? = some b → b.hour = h
  here : ∀ {b : Bucket}, Registered b e → b.number < e.opened.size
  apart : ∀ {b c : Bucket}, Registered b e → Registered c e → b.number = c.number → b = c
  usable : ∀ {b : Bucket}, Registered b e → Usable b e
  indexed : ∀ {b : Bucket}, Registered b e → (e.data b).writing = false → b.Indexed (e.cell b)

/-- The hand's things are where they should be. -/
structure Held (e : Engine) (k : Hand) : Prop where
  here : ∀ {b : Bucket}, k.makes = some b → b.number < e.opened.size
  unknown : ∀ {b c : Bucket}, k.makes = some b → Registered c e → c.number ≠ b.number
  registered : ∀ {b : Bucket}, k.writes = some b → Registered b e
  writing : ∀ {b : Bucket}, k.writes = some b → (e.data b).writing = true
  registering : k.registers = true → e.registering = true

/-- The steps of a call that adds events. -/
inductive Acts : Engine → Hand → Engine → Hand → Prop
  /-- The store is asked, or makes a map, or a query is compiled. -/
  | asks {e k} (store : Store) (cache : Cache) (h : View.Tame e.store.entries? store.entries?)
    (hc : e.cache.Sound → cache.Sound) : Acts e k { e with store := store, cache := cache } k
  | opens {e k} (b : Bucket) (hb : b.number = e.opened.size) :
    Acts e k { e with opened := e.opened.push .fresh } { k with makes := some b }
  | prepares {e k} {b : Bucket} (hb : k.makes = some b) (d : BucketData) :
    Acts e k (e.setData b d) k
  | enters {e k} (h : e.registering = false) :
    Acts e k { e with registering := true } { k with registers := true }
  | registers {e k} {b : Bucket} (hr : k.registers = true) (hb : k.makes = some b)
    (hn : e.registry[b.hour]? = none) (hw : (e.data b).writing = false)
    (hi : b.Indexed (e.cell b)) (hu : Usable b e) :
    Acts e k { e with registry := e.registry.insert b.hour b } { k with makes := none }
  | leaves {e k} (h : k.registers = true) :
    Acts e k { e with registering := false } { k with registers := false }
  | takes {e k} {b : Bucket} (hk : k.writes = none) (hb : Registered b e)
    (hw : (e.data b).writing = false) :
    Acts e k (e.setData b { e.data b with writing := true }) { k with writes := some b }
  | alters {e k} {b : Bucket} (hb : k.writes = some b) (d : BucketData) (hd : d.writing = true)
    (hi : d.index.Backed (e.content b)) (hs : d.state.isWritable = true) :
    Acts e k (e.setData b d) k
  /-- Events are stored behind those that are there. -/
  | stores {e k} {b : Bucket} {es : Entries} {i : Index} {last : UInt32} (hb : k.writes = some b)
    (hes : e.store.entries? b.eventsMap = some es) (hi : Bucket.indexOf es.toList = .ok (i, last))
    (events : List Event) (hf : ∀ x ∈ events, x.Fits)
    (hr : last.toNat + events.length < 4294967296) (store : Store)
    (hv : store.entries? =
      (Request.commit (b.writing (b.numbered last events))).effect e.store.entries?) :
    Acts e k { e with store := store } { k with stored := k.stored ++ b.numbered last events }
  | releases {e k} {b : Bucket} (hb : k.writes = some b) (hi : b.Indexed (e.cell b)) :
    Acts e k (e.setData b { e.data b with writing := false }) { k with writes := none }

/-- What all calls together can do to an engine. -/
structure Grows (e e' : Engine) : Prop where
  size : e.opened.size ≤ e'.opened.size
  registered : ∀ {h : Hour} {b : Bucket}, e.registry[h]? = some b → e'.registry[h]? = some b
  maps : ∀ {m}, (e.store.entries? m).isSome → (e'.store.entries? m).isSome
  events : ∀ {b : Bucket} {id x}, Bucket.eventAt? (e.content b) id = some x →
    Bucket.eventAt? (e'.content b) id = some x
  content : ∀ {b : Bucket}, e'.registry[b.hour]? = none → e'.content b = e.content b

/-- What the others can do while a call has `k` in hand. -/
structure Others (k : Hand) (e e' : Engine) : Prop extends Grows e e' where
  made : ∀ {b : Bucket}, k.makes = some b → e'.data b = e.data b
  unknown : ∀ {b c : Bucket}, k.makes = some b → c.number = b.number → Registered c e' →
    Registered c e
  written : ∀ {b : Bucket}, k.writes = some b → e'.data b = e.data b
  entries : ∀ {b : Bucket}, k.writes = some b →
    e'.store.entries? b.eventsMap = e.store.entries? b.eventsMap
  registry : k.registers = true → e'.registry = e.registry
  registering : k.registers = true → e'.registering = e.registering

variable {e e' e'' : Engine} {j k k' : Hand} {b c : Bucket}

-- ---- what there is to respect --------------------------------------------

theorem Grows.refl (e : Engine) : Grows e e := ⟨Nat.le_refl _, id, id, id, fun _ => rfl⟩

theorem Grows.trans (h : Grows e e') (h' : Grows e' e'') : Grows e e'' where
  size := Nat.le_trans h.size h'.size
  registered hb := h'.registered (h.registered hb)
  maps hm := h'.maps (h.maps hm)
  events hx := h'.events (h.events hx)
  content {b} hn := by
    refine (h'.content hn).trans (h.content ?_)
    cases hb : e'.registry[b.hour]? with
    | none => rfl
    | some c => simp [h'.registered hb] at hn

theorem Others.refl (k : Hand) (e : Engine) : Others k e e where
  toGrows := .refl e
  made _ := rfl
  unknown _ _ := id
  written _ := rfl
  entries _ := rfl
  registry _ := rfl
  registering _ := rfl

theorem Others.trans (h : Others k e e') (h' : Others k e' e'') : Others k e e'' where
  toGrows := h.toGrows.trans h'.toGrows
  made hb := (h'.made hb).trans (h.made hb)
  unknown hb hc hr := h.unknown hb hc (h'.unknown hb hc hr)
  written hb := (h'.written hb).trans (h.written hb)
  entries hb := (h'.entries hb).trans (h.entries hb)
  registry hr := (h'.registry hr).trans (h.registry hr)
  registering hr := (h'.registering hr).trans (h.registering hr)

theorem Others.kept (h : Others k e e') (hk : Held e k) : Held e' k where
  here hb := Nat.lt_of_lt_of_le (hk.here hb) h.size
  unknown hb hc hn := hk.unknown hb (h.unknown hb hn hc) hn
  registered hb := h.registered (hk.registered hb)
  writing hb := h.written hb ▸ hk.writing hb
  registering hr := (h.registering hr).trans (hk.registering hr)

theorem held_empty (e : Engine) : Held e .empty := ⟨nofun, nofun, nofun, nofun, nofun⟩

-- ---- what the parts of an engine are after a step ------------------------

theorem entries?_of_tame {v v' : View} (h : View.Tame v v') (hs : (v b.eventsMap).isSome) :
    v' b.eventsMap = v b.eventsMap := by
  rcases h.events b with hb | ⟨hb, -⟩
  · exact hb
  · simp [hb] at hs

theorem content_of_tame {v v' : View} (h : View.Tame v v') (b : Bucket) :
    (v' b.eventsMap).getD ∅ = (v b.eventsMap).getD ∅ := by
  rcases h.events b with hb | ⟨hb, hb'⟩
  · rw [hb]
  · rw [hb, hb', Option.getD_some, Option.getD_none]

theorem backed_of_indexed {c : Cell} {es : Entries} (h : b.Indexed c)
    (he : c.view b.eventsMap = some es) : c.data.index.Backed es := by
  obtain ⟨es', hes, hi⟩ := h
  obtain rfl := Option.some.inj (hes.symm.trans he)
  exact ⟨es', _, hi, fun _ _ => id⟩

theorem content_eq {es : Entries} (h : e.store.entries? b.eventsMap = some es) :
    e.content b = es := by rw [Engine.content, h, Option.getD_some]

theorem eventAt?_stored {es : Entries} {i : Index} {last id : UInt32} {events : List Event}
    {x : Event} (hi : Bucket.indexOf es.toList = .ok (i, last))
    (hr : last.toNat + events.length < 4294967296) (h : Bucket.eventAt? es id = some x) :
    Bucket.eventAt? (Record.applyAll es ((b.numbered last events).map Event.record)) id =
      some x := by
  simp only [Bucket.eventAt?, Option.bind_eq_some_iff,
    ← ExtTreeMap.mem_toList_iff_getElem?_eq_some] at h ⊢
  obtain ⟨v, hv, hx⟩ := h
  refine ⟨v, ?_, hx⟩
  rw [Entries.toList_applyAll (Bucket.lt_of_indexOf hi hr) (Bucket.pairwise_numbered hr)]
  exact List.mem_append_left _ hv

theorem data_push (h : c.number < e.opened.size) :
    ({ e with opened := e.opened.push .fresh } : Engine).data c = e.data c := by
  simp only [Engine.data, Array.getD_eq_getD_getElem?, Array.getElem?_push,
    if_neg (Nat.ne_of_lt h)]

theorem data_setData_ne {d : BucketData} (h : c.number ≠ b.number) :
    (e.setData b d).data c = e.data c :=
  (Bucket.Spares.setData b e d).others c h

theorem size_setData (e : Engine) (b : Bucket) (d : BucketData) :
    (e.setData b d).opened.size = e.opened.size :=
  (Bucket.Spares.setData b e d).size

/-- Storing in one bucket leaves the events of other hours alone. -/
theorem entries?_stored {events : List Event} {v v' : View}
    (hv : v' = (Request.commit (b.writing events)).effect v) (h : c.hour ≠ b.hour) :
    v' c.eventsMap = v c.eventsMap := by
  rw [hv, Bucket.effect_writing]
  exact if_neg fun he => h (Hour.eventsMap_inj c.named b.named he)

theorem indexed_of_eq (h : b.Indexed (e.cell b)) (hd : e'.data b = e.data b)
    (hv : e'.store.entries? b.eventsMap = e.store.entries? b.eventsMap) :
    b.Indexed (e'.cell b) := by
  obtain ⟨es, hes, hi⟩ := h
  exact ⟨es, hv.trans hes, by rw [Engine.cell, hd]; exact hi⟩

theorem Sound.registered (hs : Sound e) {hour : Hour} (hb : e.registry[hour]? = some b) :
    Registered b e := by
  rwa [Registered, hs.hour hb]

theorem registered_insert (h : Registered c { e with registry := e.registry.insert b.hour b }) :
    c = b ∨ Registered c e :=
  (getElem?_insert_eq_some.mp h).imp And.right And.right

theorem hour_ne_of_registered (hb : Registered b e) (hc : Registered c e) (hne : c ≠ b) :
    c.hour ≠ b.hour := by
  intro hh
  rw [Registered, hh] at hc
  exact hne (Option.some.inj (hc.symm.trans hb))

-- ---- steps ---------------------------------------------------------------

theorem Held.writes_ne (hk : Held e k) (hs : Sound e) (hc : k.writes = some c)
    (hb : Registered b e) (hw : (e.data b).writing = false) : c.number ≠ b.number := by
  intro hn
  have hw' := hk.writing hc
  rw [hs.apart (hk.registered hc) hb hn, hw] at hw'
  cases hw'

theorem Held.not_registers (hk : Held e k) (h : e.registering = false) : ¬k.registers = true :=
  fun hr => nomatch h.symm.trans (hk.registering hr)

theorem Acts.grows (h : Acts e k e' k') (hk : Held e k) : Grows e e' := by
  have hset (b : Bucket) (d : BucketData) : Grows e (e.setData b d) :=
    { Grows.refl e with size := Nat.le_of_eq (size_setData e b d).symm }
  cases h with
  | asks store cache ht _ =>
    have hc (b : Bucket) : ({ e with store := store, cache := cache } : Engine).content b =
      e.content b := content_of_tame ht b
    exact { Grows.refl e with
      maps := ht.there
      events := fun {b} _ _ hx => hc b ▸ hx
      content := fun _ => hc _ }
  | opens b hb => exact { Grows.refl e with size := by simp }
  | prepares hb d | alters hb d | takes hb _ | releases hb _ => exact hset _ _
  | enters _ | leaves _ => exact { Grows.refl e with }
  | @registers b hr hb hn hw hi =>
    refine { Grows.refl e with registered := fun {hour c} hc => ?_, content := fun _ => rfl }
    have hne : hour ≠ b.hour := fun hh => by simp [hh, hn] at hc
    exact getElem?_insert_eq_some.mpr (.inr ⟨hne, hc⟩)
  | @stores b es i last hb hes hi events hf hr store hv =>
    have hother {c : Bucket} (hne : c.hour ≠ b.hour) :
        ({ e with store := store } : Engine).content c = e.content c := by
      simp only [Engine.content, entries?_stored hv hne]
    refine { Grows.refl e with
      maps := fun {m} hm => ?_
      events := fun {c id x} hx => ?_
      content := fun {c} hn => hother ?_ }
    · rw [hv, Bucket.effect_writing]
      dsimp only
      split <;> simpa using hm
    · by_cases hh : c.hour = b.hour
      · have hcb : c.eventsMap = b.eventsMap := congrArg Hour.eventsMap hh
        have hes' : store.entries? c.eventsMap =
            some (Record.applyAll es ((b.numbered last events).map Event.record)) := by
          rw [hv, Bucket.effect_writing, hcb]
          simp [hes]
        rw [content_eq (hcb ▸ hes)] at hx
        exact content_eq (e := { e with store := store }) hes' ▸ eventAt?_stored hi hr hx
      · rw [hother hh]
        exact hx
    · intro hh
      have := hk.registered hb
      rw [Registered, ← hh, hn] at this
      cases this

theorem Usable.grows (h : Usable b e) (hg : Grows e e')
    (hi : (e'.data b).index = (e.data b).index) (hs : (e'.data b).state = (e.data b).state) :
    Usable b e' := by
  obtain ⟨part, last, hpart, hx⟩ := h.backed
  exact ⟨hg.maps h.events, hg.maps h.options,
    ⟨part, last, hi ▸ hpart, fun id x hp => hg.events (hx id x hp)⟩, hs ▸ h.writable⟩

theorem Sound.setData (hs : Sound e) (hn : b.number < e.opened.size) {d : BucketData}
    (hu : ∀ c, Registered c e → c.number = b.number →
      d.index.Backed (e.content c) ∧ d.state.isWritable = true)
    (hd : ∀ c, Registered c e → c.number = b.number → d.writing = false →
      c.Indexed ⟨d, e.store.entries?⟩) : Sound (e.setData b d) where
  cache := hs.cache
  hour := hs.hour
  here hc := (size_setData e b d).symm ▸ hs.here hc
  apart := hs.apart
  usable {c} hc := by
    have huc := hs.usable hc
    suffices hd : ((e.setData b d).data c).index.Backed (e.content c) ∧
        ((e.setData b d).data c).state.isWritable = true from
      ⟨huc.events, huc.options, hd.1, hd.2⟩
    by_cases hb : c.number = b.number
    · rw [Engine.data_setData hn, if_pos hb.symm]
      exact hu c hc hb
    · rw [data_setData_ne hb]
      exact ⟨huc.backed, huc.writable⟩
  indexed {c} hc hw := by
    by_cases hb : c.number = b.number
    · have hcd : (e.setData b d).data c = d := by rw [Engine.data_setData hn, if_pos hb.symm]
      rw [hcd] at hw
      rw [Engine.cell, hcd]
      exact hd c hc hb hw
    · rw [data_setData_ne hb] at hw
      exact indexed_of_eq (hs.indexed hc hw) (data_setData_ne hb) rfl

theorem Sound.registers (hs : Sound e) (hn : b.number < e.opened.size)
    (hne : ∀ {c : Bucket}, Registered c e → c.number ≠ b.number) (hi : b.Indexed (e.cell b))
    (hu : Usable b e) (hg : Grows e { e with registry := e.registry.insert b.hour b }) :
    Sound { e with registry := e.registry.insert b.hour b } := by
  refine { hs with
    hour := fun hc => ?_
    here := fun hc => ?_
    apart := fun {c d} hc hd hcd => ?_
    usable := fun {c} hc => ?_
    indexed := fun {c} hc hw => ?_ }
  · rcases getElem?_insert_eq_some.mp hc with ⟨rfl, rfl⟩ | ⟨-, hc⟩
    · rfl
    · exact hs.hour hc
  · rcases registered_insert hc with rfl | hc
    · exact hn
    · exact hs.here hc
  · rcases registered_insert hc with rfl | hc' <;> rcases registered_insert hd with rfl | hd'
    · rfl
    · exact absurd hcd.symm (hne hd')
    · exact absurd hcd (hne hc')
    · exact hs.apart hc' hd' hcd
  · rcases registered_insert hc with rfl | hc
    · exact hu.grows hg rfl rfl
    · exact (hs.usable hc).grows hg rfl rfl
  · rcases registered_insert hc with rfl | hc
    · exact hi
    · exact hs.indexed hc hw

theorem Acts.sound (h : Acts e k e' k') (hs : Sound e) (hk : Held e k) : Sound e' := by
  have hg := h.grows hk
  cases h with
  | asks store cache ht hsound =>
    refine { hs with
      cache := hsound hs.cache
      usable := fun hc => (hs.usable hc).grows hg rfl rfl
      indexed := fun {c} hc hw => ?_ }
    exact indexed_of_eq (hs.indexed hc hw) rfl (entries?_of_tame ht (hs.usable hc).events)
  | opens b hb =>
    have hd {c : Bucket} (hc : Registered c e) := data_push (hs.here hc)
    refine { hs with
      here := fun hc => ?_
      usable := fun {c} hc => ?_
      indexed := fun {c} hc hw => ?_ }
    · exact Nat.lt_of_lt_of_le (hs.here hc) (by simp)
    · exact (hs.usable hc).grows hg (congrArg _ (hd hc)) (congrArg _ (hd hc))
    · rw [hd hc] at hw
      exact indexed_of_eq (hs.indexed hc hw) (hd hc) rfl
  | prepares hb d =>
    exact hs.setData (hk.here hb) (fun c hc hn => absurd hn (hk.unknown hb hc))
      fun c hc hn => absurd hn (hk.unknown hb hc)
  | enters _ | leaves _ =>
    exact { hs with usable := fun hc => (hs.usable hc).grows hg rfl rfl }
  | @registers b hr hb hn hw hi hu =>
    exact hs.registers (hk.here hb) (hk.unknown hb) hi hu hg
  | @takes b hw' hb hw =>
    refine hs.setData (hs.here hb) (fun c hc hn => ?_) fun _ _ _ => nofun
    rw [hs.apart hc hb hn]
    exact ⟨(hs.usable hb).backed, (hs.usable hb).writable⟩
  | @alters b hb d hd hi hw =>
    refine hs.setData (hs.here (hk.registered hb)) (fun c hc hn => ?_) fun _ _ _ hf => ?_
    · rw [hs.apart hc (hk.registered hb) hn]
      exact ⟨hi, hw⟩
    · rw [hd] at hf
      cases hf
  | @stores b es i last hb hes hi events hf hr store hv =>
    refine { hs with
      usable := fun hc => (hs.usable hc).grows hg rfl rfl
      indexed := fun {c} hc hw => ?_ }
    have hw : (e.data c).writing = false := hw
    have hne : c ≠ b := by
      rintro rfl
      rw [hk.writing hb] at hw
      cases hw
    exact indexed_of_eq (hs.indexed hc hw) rfl
      (entries?_stored hv (hour_ne_of_registered (hk.registered hb) hc hne))
  | @releases b hb hi =>
    have hr := hk.registered hb
    refine hs.setData (hs.here hr) (fun c hc hn => ?_) fun c hc hn _ => ?_
    · rw [hs.apart hc hr hn]
      exact ⟨(hs.usable hr).backed, (hs.usable hr).writable⟩
    · rw [hs.apart hc hr hn]
      exact hi

theorem Held.setData (hk : Held e k) (hn : b.number < e.opened.size) {d : BucketData}
    (hd : ∀ c, k.writes = some c → c.number = b.number → d.writing = true) :
    Held (e.setData b d) k := by
  refine { hk with
    here := fun hc => (size_setData e b d).symm ▸ hk.here hc
    writing := fun {c} hc => ?_ }
  rw [Engine.data_setData hn]
  split
  · next hb => exact hd c hc hb.symm
  · exact hk.writing hc

theorem Acts.held (h : Acts e k e' k') (hs : Sound e) (hk : Held e k) : Held e' k' := by
  have hg := h.grows hk
  cases h with
  | asks | stores => exact { hk with }
  | opens b hb =>
    refine { hk with here := fun hc => ?_, unknown := fun hc hd => ?_, writing := fun hc => ?_ }
    · cases hc
      simp [hb]
    · cases hc
      exact hb ▸ Nat.ne_of_lt (hs.here hd)
    · rw [data_push (hs.here (hk.registered hc))]
      exact hk.writing hc
  | prepares hb d =>
    exact hk.setData (hk.here hb) fun c hc hn => absurd hn (hk.unknown hb (hk.registered hc))
  | enters => exact { hk with registering := fun _ => rfl }
  | registers =>
    exact { hk with
      here := nofun
      unknown := nofun
      registered := fun hc => hg.registered (hk.registered hc) }
  | leaves => exact { hk with registering := nofun }
  | @takes b hk' hb hw =>
    refine { hk with
      here := fun hc => (size_setData ..).symm ▸ hk.here hc
      registered := fun hc => ?_
      writing := fun hc => ?_ }
    · cases hc
      exact hb
    · cases hc
      rw [Engine.data_setData (hs.here hb), if_pos rfl]
  | alters hb d hd => exact hk.setData (hs.here (hk.registered hb)) fun _ _ _ => hd
  | releases =>
    exact { hk with
      here := fun hc => (size_setData ..).symm ▸ hk.here hc
      registered := nofun
      writing := nofun }

theorem Others.setData {d : BucketData} (hg : Grows e (e.setData b d))
    (hm : ∀ c, j.makes = some c → c.number ≠ b.number)
    (hw : ∀ c, j.writes = some c → c.number ≠ b.number) : Others j e (e.setData b d) :=
  { Others.refl j e with
    toGrows := hg
    made := fun hc => data_setData_ne (hm _ hc)
    written := fun hc => data_setData_ne (hw _ hc) }

/-- No step takes what another call has in hand. -/
theorem Acts.apart (h : Acts e k e' k') (hs : Sound e) (hj : Held e j) (ha : j.Apart k) :
    j.Apart k' := by
  cases h with
  | asks | prepares | alters => exact ha
  | stores => exact { ha with }
  | opens b hb =>
    refine { ha with makes := fun c d hc hd => ?_ }
    cases hd
    exact hb ▸ Nat.ne_of_lt (hj.here hc)
  | enters hr => exact { ha with registers := fun h => hj.not_registers hr h.1 }
  | registers => exact { ha with makes := fun _ _ _ hc => (nomatch hc) }
  | leaves => exact { ha with registers := fun h => (nomatch h.2) }
  | takes _ hb hw =>
    refine { ha with writes := fun c d hc hd => ?_ }
    cases hd
    exact hj.writes_ne hs hc hb hw
  | releases => exact { ha with writes := fun _ _ _ hc => (nomatch hc) }

/-- What a call has in hand is not touched by the step of another. -/
theorem Acts.spares (h : Acts e k e' k') (hs : Sound e) (hk : Held e k) (hj : Held e j)
    (ha : j.Apart k) : Others j e e' := by
  have hg := h.grows hk
  have hfree (hr : k.registers = true) : ¬j.registers = true := fun h => ha.registers ⟨h, hr⟩
  cases h with
  | asks _ _ ht _ =>
    exact { Others.refl j e with
      toGrows := hg
      entries := fun hc => entries?_of_tame ht (hs.usable (hj.registered hc)).events }
  | opens =>
    exact { Others.refl j e with
      toGrows := hg
      made := fun hc => data_push (hj.here hc)
      written := fun hc => data_push (hs.here (hj.registered hc)) }
  | prepares hb =>
    exact .setData hg (fun c hc => ha.makes c _ hc hb)
      fun c hc => hk.unknown hb (hj.registered hc)
  | enters hr =>
    exact { Others.refl j e with
      toGrows := hg
      registering := fun h => absurd h (hj.not_registers hr) }
  | registers hr hb =>
    refine { Others.refl j e with
      toGrows := hg
      unknown := fun {c d} hc hd hdr => ?_
      registry := fun h => absurd h (hfree hr) }
    -- The new one is not the bucket that the other call makes.
    refine (registered_insert hdr).resolve_left ?_
    rintro rfl
    exact ha.makes c d hc hb hd.symm
  | leaves hr =>
    exact { Others.refl j e with
      toGrows := hg
      registering := fun h => absurd h (hfree hr) }
  | takes _ hb hw =>
    exact .setData hg (fun c hc => (hj.unknown hc hb).symm) fun c hc => hj.writes_ne hs hc hb hw
  | alters hb | releases hb =>
    exact .setData hg (fun c hc => (hj.unknown hc (hk.registered hb)).symm)
      fun c hc => ha.writes c _ hc hb
  | @stores b es i last hb hes hi events hf hr store hv =>
    refine { Others.refl j e with toGrows := hg, entries := fun {c} hc => ?_ }
    have hne : c ≠ b := fun h => ha.writes c b hc hb (congrArg Bucket.number h)
    exact entries?_stored hv (hour_ne_of_registered (hk.registered hb) (hj.registered hc) hne)

theorem Acts.others (h : Acts e k e' k') (hs : Sound e) (hk : Held e k) (hj : Held e j)
    (ha : j.Apart k) : Others j e e' ∧ j.Apart k' :=
  ⟨h.spares hs hk hj ha, h.apart hs hj ha⟩

-- ---- the rules -----------------------------------------------------------

/-- How calls that add events share an engine. -/
def sharing : Sharing Engine Hand where
  Sound := Sound
  Holds := Held
  May := Acts
  Others := Others
  Apart := Hand.Apart
  stay e _ := .asks e.store e.cache (.refl _) id
  sound := Acts.sound
  holds := Acts.held
  refl := .refl
  trans := .trans
  kept h := h.kept
  symm := .symm
  others := Acts.others

-- ---- what the calls do not share ------------------------------------------

/-- All that calls share that add events is the same. -/
structure Same (e e' : Engine) : Prop where
  entries : e'.store.entries? = e.store.entries?
  cache : e'.cache = e.cache
  opened : e'.opened = e.opened
  registry : e'.registry = e.registry
  registering : e'.registering = e.registering

theorem Same.of_shaken (h : e.Shaken e') : Same e e' := by
  obtain ⟨faults, clock, -, rfl⟩ := h
  exact ⟨rfl, rfl, rfl, rfl, rfl⟩

theorem Same.data (h : Same e e') (b : Bucket) : e'.data b = e.data b := by
  rw [Engine.data, h.opened, Engine.data]

theorem Same.content (h : Same e e') (b : Bucket) : e'.content b = e.content b := by
  rw [Engine.content, h.entries, Engine.content]

theorem Same.registered (h : Same e e') : Registered b e' ↔ Registered b e := by
  rw [Registered, h.registry, Registered]

theorem Grows.of_same (h : Same e e') : Grows e e' where
  size := Nat.le_of_eq (congrArg Array.size h.opened).symm
  registered hb := h.registry ▸ hb
  maps hm := h.entries ▸ hm
  events hx := h.content _ ▸ hx
  content _ := h.content _

theorem Others.of_same (h : Same e e') (k : Hand) : Others k e e' where
  toGrows := .of_same h
  made _ := h.data _
  unknown _ _ := h.registered.mp
  written _ := h.data _
  entries _ := congrFun h.entries _
  registry _ := h.registry
  registering _ := h.registering

theorem Sound.of_same (hs : Sound e) (h : Same e e') : Sound e' where
  cache := h.cache ▸ hs.cache
  hour hb := hs.hour (h.registry ▸ hb)
  here hb := h.opened ▸ hs.here (h.registered.mp hb)
  apart hb hc := hs.apart (h.registered.mp hb) (h.registered.mp hc)
  usable hb := (hs.usable (h.registered.mp hb)).grows (.of_same h) (congrArg _ (h.data _))
    (congrArg _ (h.data _))
  indexed hb hw := indexed_of_eq (hs.indexed (h.registered.mp hb) (h.data _ ▸ hw)) (h.data _)
    (congrFun h.entries _)

/-- The surroundings leave alone what the calls share. -/
theorem Others.of_shaken (h : e.Shaken e') (k : Hand) : Others k e e' := .of_same (.of_shaken h) k

theorem Sound.shaken (hs : Sound e) (h : e.Shaken e') : Sound e' := hs.of_same (.of_shaken h)

end EventSet

end EventStore
