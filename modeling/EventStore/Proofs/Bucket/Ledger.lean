import EventStore.Proofs.Bucket.Batches
import EventStore.Proofs.Bucket.Representation

/-!
# Batches in the order in which they are committed

The events that calls have added to a bucket since it was at rest are those of whole batches, one
after the other: the store holds all that have been committed, and the index knows of all of these
but perhaps the latest, whose call is still at work (`Ledger`). No step takes anything away from
either (`Ledger.moves`, `Batched.run`).
-/

namespace EventStore

open Std Query

namespace Bucket

variable {b : Bucket} {e e' e₀ : Engine} {k k' : Hand} {α : Type}

-- ---- a bucket at rest ----------------------------------------------------

/-- Nobody is at work on the bucket. The ids of what is stored do not exceed its counter, and the
index knows of nothing else. -/
structure Resting (b : Bucket) (e : Engine) : Prop extends Shared b e where
  idle : (e.data b).writing = false
  counted : ∀ p ∈ (e.content b).toList, ∃ id, p.1 = idKey id ∧ id ≤ (e.data b).lastId
  known : ∀ id, (e.data b).index.Tells id → idKey id ∈ e.content b

/-- So it is between the operations of a session. -/
theorem Session.resting {hour : Hour} {log : List Event} (h : Session hour e (some b) log)
    (hr : e.store.Reads) : b.Resting e := by
  have hs := h.standing
  have hrep := hs.represents
  have hi : indexOf (e.content b).toList = .ok ((e.data b).index, (e.data b).lastId) := by
    have hi := hrep.kept.indexOf_eq
    rwa [← hrep.index, ← hrep.last] at hi
  refine ⟨⟨hs.here, hs.cache, hr⟩, hrep.idle, fun p hp => ?_, fun id ht => ?_⟩
  · obtain ⟨id, hid, hle, -⟩ := (le_of_learnt hi).2 p hp
    exact ⟨id, hid, hle⟩
  · obtain ⟨_, x, hx, -⟩ := (describes_of_indexOf hi).exists_of_tells ht
    obtain ⟨value, hv, -⟩ := Option.bind_eq_some_iff.mp hx
    rw [ExtTreeMap.mem_iff_isSome_getElem?, hv]
    rfl

theorem indexAll_append (events more : List Event) (i : Index) :
    indexAll (events ++ more) i = indexAll more (indexAll events i) :=
  List.foldl_append ..

theorem tells_of_indexAll {events : List Event} {i : Index} {id : UInt32}
    (h : (indexAll events i).Tells id) : i.Tells id ∨ ∃ x ∈ events, x.id = id := by
  induction events generalizing i with
  | nil => exact .inl h
  | cons x events ih =>
    rcases ih h with h | ⟨y, hy, hid⟩
    · rcases Index.tells_of_addEvent h with rfl | h
      · exact .inr ⟨x, List.mem_cons_self, rfl⟩
      · exact .inl h
    · exact .inr ⟨y, List.mem_cons_of_mem _ hy, hid⟩

-- ---- batches -------------------------------------------------------------

def batches (given : List (List Event)) (places : List Nat) : List Event :=
  places.flatMap fun j => given[j]?.getD []

theorem batches_concat (given : List (List Event)) (places : List Nat) (j : Nat) :
    batches given (places ++ [j]) = batches given places ++ given[j]?.getD [] := by
  simp [batches]

theorem batches_append {given : List (List Event)} {places : List Nat}
    (h : ∀ j ∈ places, j < given.length) (more : List (List Event)) :
    batches (given ++ more) places = batches given places :=
  List.flatMap_congr fun j hj => by rw [List.getElem?_append_left (h j hj)]

def stageAt (ks : List Hand) (j : Nat) : Stage := (ks[j]?.map Hand.stage).getD .idle

theorem stageAt_of_getElem? {ks : List Hand} {j : Nat} (h : ks[j]? = some k) :
    stageAt ks j = k.stage := by simp [stageAt, h]

theorem getElem?_of_stageAt {ks : List Hand} {j : Nat} (h : stageAt ks j ≠ .idle) :
    ∃ k, ks[j]? = some k ∧ k.stage = stageAt ks j := by
  cases hk : ks[j]? with
  | none => simp [stageAt, hk] at h
  | some k => exact ⟨k, rfl, (stageAt_of_getElem? hk).symm⟩

theorem mem_of_getElem?_ne {before after : List α} {x y : α} {j : Nat}
    (h : (before ++ x :: after)[j]? = some y) (hj : j ≠ before.length) : y ∈ before ++ after := by
  rcases Nat.lt_or_ge j before.length with hlt | hge
  · rw [List.getElem?_append_left hlt] at h
    exact List.mem_append_left _ (List.mem_of_getElem? h)
  · have hlt := Nat.lt_of_le_of_ne hge (Ne.symm hj)
    obtain ⟨n, hn⟩ := Nat.exists_eq_succ_of_ne_zero (Nat.sub_ne_zero_of_lt hlt)
    rw [List.getElem?_append_right hge, hn, List.getElem?_cons_succ] at h
    exact List.mem_append_right _ (List.mem_of_getElem? h)

/-- What a call at work has in hand agrees with the count of what the index knows, and with what is
stored beyond that. -/
def Hand.Tallies (k : Hand) (place : Nat) (count : UInt32) (more : List Nat) : Prop :=
  match k.stage with
  | .idle | .done => True
  | .works => more = [] ∧ k.last = count
  | .stored => more = [place] ∧ k.last = count
  | .told => more = [] ∧ k.last + k.given.length.toUInt32 = count

theorem Hand.tallies_of_not_holds (h : k.stage.holds = false) (place : Nat) (count : UInt32)
    (more : List Nat) : k.Tallies place count more := by
  unfold Tallies
  cases hs : k.stage with
  | idle | done => trivial
  | works | stored | told =>
    rw [hs] at h
    cases h

/-- The id behind those of the batches. -/
def countOf (e₀ : Engine) (b : Bucket) (given : List (List Event)) (places : List Nat) : UInt32 :=
  (e₀.data b).lastId + (batches given places).length.toUInt32

/-- Since `e₀` the batches `seen` have been stored and told to the index, and after them `more`. -/
structure Ledger (b : Bucket) (e₀ e : Engine) (ks : List Hand) (seen more : List Nat) : Prop where
  nodup : (seen ++ more).Nodup
  mem_seen : ∀ j, j ∈ seen ↔ (stageAt ks j).isTold = true
  mem_more : ∀ j ∈ more, stageAt ks j = .stored
  room : (e₀.data b).lastId.toNat + (batches (ks.map Hand.given) (seen ++ more)).length <
    4294967296
  content : (e.content b).toList = (e₀.content b).toList ++
    (b.numbered (e₀.data b).lastId (batches (ks.map Hand.given) (seen ++ more))).map Event.entry
  index : (e.data b).index =
    indexAll (b.numbered (e₀.data b).lastId (batches (ks.map Hand.given) seen)) (e₀.data b).index
  counter : (e.data b).writing = false →
    more = [] ∧ (e.data b).lastId = countOf e₀ b (ks.map Hand.given) seen
  tallies : ∀ j (k : Hand), ks[j]? = some k →
    k.Tallies j (countOf e₀ b (ks.map Hand.given) seen) more

/-- Nothing that is stored is lost, and the bucket's state stays. -/
structure Extends (b : Bucket) (e e' : Engine) : Prop where
  state : (e'.data b).state = (e.data b).state
  content : (e.content b).toList <+: (e'.content b).toList

theorem Extends.refl (b : Bucket) (e : Engine) : b.Extends e e := ⟨rfl, List.prefix_rfl⟩

theorem Extends.trans {e'' : Engine} (h : b.Extends e e') (h' : b.Extends e' e'') :
    b.Extends e e'' :=
  ⟨h'.state.trans h.state, h.content.trans h'.content⟩

variable {ks before after : List Hand} {seen more : List Nat}

theorem Ledger.refl (b : Bucket) (e : Engine) : Ledger b e e [] [] [] where
  nodup := .nil
  mem_seen j := by simp [stageAt, Stage.isTold]
  mem_more := nofun
  room := (e.data b).lastId.toNat_lt
  content := by simp [batches, numbered]
  index := rfl
  counter _ := ⟨rfl, by simp [countOf, batches]⟩
  tallies := nofun

theorem Ledger.lt_length (h : Ledger b e₀ e ks seen more) : ∀ j ∈ seen ++ more, j < ks.length := by
  intro j hj
  have hs : stageAt ks j ≠ .idle := by
    rcases List.mem_append.mp hj with hj | hj
    · have := (h.mem_seen j).mp hj
      intro hs
      rw [hs] at this
      cases this
    · rw [h.mem_more j hj]
      rintro ⟨⟩
  obtain ⟨k, hk, -⟩ := getElem?_of_stageAt hs
  exact (List.getElem?_eq_some_iff.mp hk).1

theorem Ledger.counted (h : Ledger b e₀ e ks seen more) (h₀ : b.Resting e₀) :
    ∀ p ∈ (e.content b).toList, ∃ id, p.1 = idKey id ∧ id.toNat ≤ (e₀.data b).lastId.toNat +
      (batches (ks.map Hand.given) (seen ++ more)).length := by
  intro p hp
  rw [h.content] at hp
  rcases List.mem_append.mp hp with hp | hp
  · obtain ⟨id, hid, hle⟩ := h₀.counted p hp
    exact ⟨id, hid, Nat.le_add_right_of_le (UInt32.le_iff_toNat_le.mp hle)⟩
  · obtain ⟨x, hx, rfl⟩ := List.mem_map.mp hp
    exact ⟨x.id, rfl, (mem_numbered h.room hx).2.1⟩

theorem Ledger.mem_of_tells (h : Ledger b e₀ e ks seen more) (h₀ : b.Resting e₀) {id : UInt32}
    (ht : (e.data b).index.Tells id) : idKey id ∈ e.content b := by
  have hmem {p : Bytes × Bytes} (hp : p ∈ (e.content b).toList) : p.1 ∈ e.content b := by
    rw [ExtTreeMap.mem_iff_isSome_getElem?, ExtTreeMap.mem_toList_iff_getElem?_eq_some.mp hp]
    rfl
  rw [h.index] at ht
  rcases tells_of_indexAll ht with ht | ⟨x, hx, rfl⟩
  · have hid := h₀.known id ht
    obtain ⟨value, hv⟩ := Option.isSome_iff_exists.mp
      (ExtTreeMap.mem_iff_isSome_getElem?.mp hid)
    refine hmem (p := (idKey id, value)) ?_
    rw [h.content]
    exact List.mem_append_left _ (ExtTreeMap.mem_toList_iff_getElem?_eq_some.mpr hv)
  · refine hmem (p := x.entry) ?_
    rw [h.content]
    refine List.mem_append_right _ (List.mem_map_of_mem ?_)
    rw [batches, List.flatMap_append, numbered_append]
    exact List.mem_append_left _ hx

-- ---- steps ---------------------------------------------------------------

theorem Ledger.begins (h : Ledger b e₀ e ks seen more) (hk : k.stage = .idle) :
    Ledger b e₀ e (ks ++ [k]) seen more := by
  have hstage (j : Nat) : stageAt (ks ++ [k]) j = stageAt ks j := by
    rcases Nat.lt_trichotomy j ks.length with hj | rfl | hj
    · rw [stageAt, List.getElem?_append_left hj, stageAt]
    · simp [stageAt, hk]
    · have hj' : (ks ++ [k]).length ≤ j := by simpa using Nat.succ_le_of_lt hj
      rw [stageAt, List.getElem?_eq_none hj', stageAt, List.getElem?_eq_none (Nat.le_of_lt hj)]
  have hlt : ∀ j ∈ seen ++ more, j < (ks.map Hand.given).length := by simpa using h.lt_length
  have hall : batches ((ks ++ [k]).map Hand.given) (seen ++ more) =
      batches (ks.map Hand.given) (seen ++ more) := by
    rw [List.map_append, batches_append hlt]
  have hseen : batches ((ks ++ [k]).map Hand.given) seen = batches (ks.map Hand.given) seen := by
    rw [List.map_append, batches_append fun j hj => hlt j (List.mem_append_left _ hj)]
  refine {
    nodup := h.nodup
    mem_seen := fun j => hstage j ▸ h.mem_seen j
    mem_more := fun j hj => hstage j ▸ h.mem_more j hj
    room := hall ▸ h.room
    content := hall ▸ h.content
    index := hseen ▸ h.index
    counter := fun hw => ?_
    tallies := fun j k' hj => ?_ }
  · rw [countOf, hseen]
    exact h.counter hw
  · rw [countOf, hseen]
    rcases Nat.lt_or_ge j ks.length with hlt | hge
    · exact h.tallies j k' (by rwa [List.getElem?_append_left hlt] at hj)
    · rw [List.getElem?_append_right hge] at hj
      obtain rfl := List.mem_singleton.mp (List.mem_of_getElem? hj)
      exact k'.tallies_of_not_holds (by rw [hk]; rfl) _ _ _

theorem Ledger.kept (h : Ledger b e₀ e ks seen more) (hd : e'.data b = e.data b)
    (hc : e'.content b = e.content b) : Ledger b e₀ e' ks seen more :=
  { h with
    content := hc ▸ h.content
    index := hd ▸ h.index
    counter := hd ▸ h.counter }

section

variable (hrest : ∀ i ∈ before ++ after, i.stage.holds = false)

theorem stageAt_replaced (before after : List Hand) (k k' : Hand) (j : Nat) :
    stageAt (before ++ k' :: after) j =
      if j = before.length then k'.stage else stageAt (before ++ k :: after) j := by
  rw [stageAt, getElem?_replaced before after k k' j]
  split <;> rfl

theorem map_given_replaced (before after : List Hand) {k k' : Hand} (hg : k'.given = k.given) :
    (before ++ k' :: after).map Hand.given = (before ++ k :: after).map Hand.given := by
  simp [hg]

theorem Ledger.mem_seen_replaced (h : Ledger b e₀ e (before ++ k :: after) seen more)
    (hs : k'.stage.isTold = k.stage.isTold) (j : Nat) :
    j ∈ seen ↔ (stageAt (before ++ k' :: after) j).isTold = true := by
  rw [h.mem_seen, stageAt_replaced before after k k']
  split
  · next hj => rw [hj, stageAt_of_getElem? (k := k) (by simp), hs]
  · rfl

theorem batches_own (before after : List Hand) (k : Hand) (seen : List Nat) :
    batches ((before ++ k :: after).map Hand.given) (seen ++ [before.length]) =
      batches ((before ++ k :: after).map Hand.given) seen ++ k.given := by
  rw [batches_concat]
  simp

theorem numbered_own (h : k.last = countOf e₀ b ((before ++ k :: after).map Hand.given) seen) :
    b.numbered (e₀.data b).lastId
        (batches ((before ++ k :: after).map Hand.given) (seen ++ [before.length])) =
      b.numbered (e₀.data b).lastId (batches ((before ++ k :: after).map Hand.given) seen) ++
        b.numbered k.last k.given := by
  rw [batches_own, numbered_append, h]
  rfl

include hrest in
theorem tallies_replaced {count : UInt32} (hk : k'.Tallies before.length count more) :
    ∀ j (i : Hand), (before ++ k' :: after)[j]? = some i → i.Tallies j count more := by
  intro j i hi
  by_cases hj : j = before.length
  · subst hj
    obtain rfl : k' = i := by simpa using hi
    exact hk
  · exact i.tallies_of_not_holds (hrest i (mem_of_getElem?_ne hi hj)) _ _ _

include hrest in
theorem Ledger.takes (h : Ledger b e₀ e (before ++ k :: after) seen more) (hs : Shared b e)
    (hk : k.stage = .idle) (hw : (e.data b).writing = false) :
    Ledger b e₀ (e.setData b { e.data b with writing := true })
      (before ++ { k with last := (e.data b).lastId, stage := .works } :: after) seen more := by
  obtain ⟨rfl, hl⟩ := h.counter hw
  have hg : (before ++ { k with last := (e.data b).lastId, stage := .works } :: after).map
      Hand.given = (before ++ k :: after).map Hand.given := map_given_replaced before after rfl
  refine {
    nodup := h.nodup
    mem_seen := h.mem_seen_replaced (by rw [hk]; rfl)
    mem_more := nofun
    room := hg ▸ h.room
    content := hg ▸ h.content
    index := ?_
    counter := fun hw => ?_
    tallies := tallies_replaced hrest ⟨rfl, hg ▸ hl⟩ }
  · rw [hs.data_setData, hg]
    exact h.index
  · rw [hs.data_setData] at hw
    cases hw

include hrest in
theorem Ledger.releases {stage : Stage} (h : Ledger b e₀ e (before ++ k :: after) seen more)
    (hs : Shared b e) (hk : k.stage = .works ∧ stage = .idle ∧ (e.data b).lastId = k.last ∨
      k.stage = .told ∧ stage = .done ∧
        (e.data b).lastId = k.last + k.given.length.toUInt32) :
    Ledger b e₀ (e.setData b { e.data b with writing := false })
      (before ++ { k with stage := stage } :: after) seen more := by
  have hg : (before ++ { k with stage := stage } :: after).map Hand.given =
      (before ++ k :: after).map Hand.given := map_given_replaced before after rfl
  have htally := h.tallies before.length k (by simp)
  obtain ⟨hm, hl, hstage, hfree⟩ : more = [] ∧
      (e.data b).lastId = countOf e₀ b ((before ++ k :: after).map Hand.given) seen ∧
        stage.isTold = k.stage.isTold ∧ stage.holds = false := by
    rcases hk with ⟨hk, rfl, hl⟩ | ⟨hk, rfl, hl⟩
    all_goals
      rw [Hand.Tallies, hk] at htally
      exact ⟨htally.1, hl.trans htally.2, by rw [hk]; rfl, rfl⟩
  subst hm
  refine {
    nodup := h.nodup
    mem_seen := h.mem_seen_replaced hstage
    mem_more := nofun
    room := hg ▸ h.room
    content := hg ▸ h.content
    index := ?_
    counter := fun _ => ⟨rfl, ?_⟩
    tallies := tallies_replaced hrest (Hand.tallies_of_not_holds hfree _ _ _) }
  · rw [hs.data_setData, hg]
    exact h.index
  · rw [hs.data_setData, hg]
    exact hl

include hrest in
theorem Ledger.tells (h : Ledger b e₀ e (before ++ k :: after) seen more) (hs : Shared b e)
    (hk : k.stage = .stored) (hw : (e.data b).writing = true) :
    Ledger b e₀ (e.setData b
        { e.data b with index := indexAll (b.numbered k.last k.given) (e.data b).index })
      (before ++ { k with stage := .told } :: after) (seen ++ [before.length]) [] := by
  have hg : (before ++ { k with stage := .told } :: after).map Hand.given =
      (before ++ k :: after).map Hand.given := map_given_replaced before after rfl
  have htally := h.tallies before.length k (by simp)
  rw [Hand.Tallies, hk] at htally
  obtain ⟨rfl, hlast⟩ := htally
  refine {
    nodup := by simpa using h.nodup
    mem_seen := fun j => ?_
    mem_more := nofun
    room := ?_
    content := ?_
    index := ?_
    counter := fun hw' => ?_
    tallies := tallies_replaced hrest ⟨rfl, ?_⟩ }
  · rw [stageAt_replaced before after k, List.mem_append, List.mem_singleton, h.mem_seen]
    split
    · next hj => simp [hj, Stage.isTold]
    · next hj => simp [hj]
  · rw [List.append_nil, hg]
    exact h.room
  · rw [List.append_nil, hg]
    exact h.content
  · rw [hs.data_setData, hg, numbered_own hlast, indexAll_append, ← h.index]
  · rw [hs.data_setData] at hw'
    cases hw.symm.trans hw'
  · show k.last + _ = _
    rw [hg, countOf, batches_own, List.length_append, hlast, countOf]
    simp [UInt32.add_assoc]

include hrest in
theorem Ledger.stores (h : Ledger b e₀ e (before ++ k :: after) seen more) (h₀ : b.Resting e₀)
    (hk : k.stage = .works) (hw : (e.data b).writing = true)
    (hr : k.last.toNat + k.given.length < 4294967296)
    (ht : (e.store.entries? b.eventsMap).isSome) {store : Store} (hv : store.entries? =
      (Request.commit (b.writing (b.numbered k.last k.given))).effect e.store.entries?) :
    Ledger b e₀ { e with store := store }
      (before ++ { k with stage := .stored } :: after) seen [before.length] ∧
        b.Extends e { e with store := store } := by
  have hg : (before ++ { k with stage := .stored } :: after).map Hand.given =
      (before ++ k :: after).map Hand.given := map_given_replaced before after rfl
  have htally := h.tallies before.length k (by simp)
  rw [Hand.Tallies, hk] at htally
  obtain ⟨rfl, hlast⟩ := htally
  have hroom := h.room
  rw [List.append_nil] at hroom
  have hcount : k.last.toNat = (e₀.data b).lastId.toNat +
      (batches ((before ++ k :: after).map Hand.given) seen).length := by
    rw [hlast, countOf, toNat_add_toUInt32 _ _ hroom]
  -- The new ids are above all that are there.
  have hcontent : (({ e with store := store } : Engine).content b).toList =
      (e.content b).toList ++ (b.numbered k.last k.given).map Event.entry := by
    obtain ⟨es, hes⟩ := Option.isSome_iff_exists.mp ht
    have hc : e.content b = es := by rw [Engine.content, hes, Option.getD_some]
    rw [hc, ← Entries.toList_applyAll ?_ (pairwise_numbered hr), Engine.content]
    · show ((store.entries? b.eventsMap).getD ∅).toList = _
      rw [hv, effect_writing]
      simp [hes]
    · intro p hp x hx
      obtain ⟨id, hid, hle⟩ := h.counted h₀ p (hc ▸ hp)
      rw [List.append_nil] at hle
      have hlt := UInt32.lt_iff_toNat_lt.mp (mem_numbered hr hx).1
      rw [hid, compare_idKey]
      exact Nat.compare_eq_lt.mpr (by omega)
  have hseen : before.length ∉ seen := by
    rw [h.mem_seen, stageAt_of_getElem? (k := k) (by simp), hk]
    rintro ⟨⟩
  refine ⟨{
    nodup := ?_
    mem_seen := h.mem_seen_replaced (by rw [hk]; rfl)
    mem_more := fun j hj => ?_
    room := ?_
    content := ?_
    index := hg ▸ h.index
    counter := fun hw' => ?_
    tallies := tallies_replaced hrest ⟨rfl, hg ▸ hlast⟩ }, rfl, hcontent ▸ List.prefix_append ..⟩
  · refine List.nodup_append.mpr ⟨by simpa using h.nodup, List.pairwise_singleton .., ?_⟩
    rintro i hi _ hj rfl
    exact hseen (List.mem_singleton.mp hj ▸ hi)
  · rw [List.mem_singleton.mp hj, stageAt_of_getElem? (k := { k with stage := .stored }) (by simp)]
  · rw [hg, batches_own, List.length_append]
    omega
  · rw [hcontent, h.content, List.append_nil, hg, numbered_own hlast, List.append_assoc,
      ← List.map_append]
  · cases hw.symm.trans hw'

end

/-- A step takes nothing away, and leaves the bucket's accounts in order. -/
theorem Ledger.moves (h : Ledger b e₀ e (before ++ k :: after) seen more) (h₀ : b.Resting e₀)
    (hs : Shared b e) (hks : ∀ j ∈ before ++ k :: after, j.stage.holds = true →
      (e.data b).writing = true)
    (hap : (before ++ k :: after).Pairwise (sharing b).Apart) (ha : Acts b e k e' k') :
    ∃ seen' more', Ledger b e₀ e' (before ++ k' :: after) seen' more' ∧ seen <+: seen' ∧
      b.Extends e e' := by
  have hset (d : BucketData) (hd : d.state = (e.data b).state) : b.Extends e (e.setData b d) :=
    ⟨by rw [hs.data_setData, hd], List.prefix_rfl⟩
  have hk := hks k (by simp)
  -- Nobody else is at work while the call is, nor when it comes to work.
  have hrest (hh : k.stage.holds = true ∨ (e.data b).writing = false) :
      ∀ i ∈ before ++ after, i.stage.holds = false := by
    intro i hi
    by_contra hn
    have hn : i.stage.holds = true := by simpa using hn
    obtain ⟨-, hpk, hpb⟩ := List.pairwise_append.mp hap
    rcases hh with hh | hw
    · rcases List.mem_append.mp hi with hi | hi
      · exact hpb i hi k List.mem_cons_self ⟨hn, hh⟩
      · exact (List.pairwise_cons.mp hpk).1 i hi ⟨hh, hn⟩
    · rw [hks i (by simp only [List.mem_append, List.mem_cons] at hi ⊢; tauto) hn] at hw
      cases hw
  cases ha with
  | looks store cache hv =>
    have hc : ({ e with store := store, cache := cache } : Engine).content b = e.content b := by
      rw [Engine.content, Engine.content, ← hv]
    exact ⟨seen, more, h.kept rfl hc, List.prefix_rfl, rfl, hc ▸ List.prefix_rfl⟩
  | takes hi hw =>
    exact ⟨seen, more, h.takes (hrest (.inr hw)) hs hi hw, List.prefix_rfl, hset _ rfl⟩
  | counts hi last =>
    have hw : (e.data b).writing = true := hk (by rw [hi]; rfl)
    refine ⟨seen, more, { h with index := ?_, counter := fun hw' => ?_ }, List.prefix_rfl,
      hset _ rfl⟩
    · rw [hs.data_setData]
      exact h.index
    · rw [hs.data_setData] at hw'
      cases hw.symm.trans hw'
  | stores hi hr ht store hv =>
    have hh : k.stage.holds = true := by rw [hi]; rfl
    obtain ⟨h', he⟩ := h.stores (hrest (.inl hh)) h₀ hi (hk hh) hr ht hv
    exact ⟨seen, _, h', List.prefix_rfl, he⟩
  | tells hi =>
    have hh : k.stage.holds = true := by rw [hi]; rfl
    exact ⟨_, _, h.tells (hrest (.inl hh)) hs hi (hk hh), List.prefix_append .., hset _ rfl⟩
  | releases stage hi =>
    have hh : k.stage.holds = true := by
      rcases hi with ⟨hi, -⟩ | ⟨hi, -⟩
      all_goals rw [hi]; rfl
    exact ⟨seen, more, h.releases (hrest (.inl hh)) hs hi, List.prefix_rfl, hset _ rfl⟩

-- ---- runs ----------------------------------------------------------------

/-- What comes of a scene in which calls add to the bucket and search it. -/
abbrev Interleaves (b : Bucket) : Scene Engine Call.Answer → Scene Engine Call.Answer → Prop :=
  Scene.Run (Call.activity b) (fun _ => True) Engine.Wavers

/-- The calls abide by the rules, and the batches that have come of them since `e₀` are `seen`, of
which the index knows, and `more`. -/
structure Batched (b : Bucket) (e₀ : Engine) (s : Scene Engine Call.Answer) (ks : List Hand)
    (seen more : List Nat) : Prop where
  abides : s.Abides (sharing b) Call.Settled ks
  given : s.tasks.map (·.call.given) = ks.map Hand.given
  ledger : Ledger b e₀ s.state ks seen more

variable {s s' : Scene Engine Call.Answer}

theorem Resting.batched (h : b.Resting e) : Batched b e ⟨e, []⟩ [] [] [] :=
  ⟨⟨h.toShared, .nil, .nil⟩, rfl, .refl b e⟩

theorem Extends.of_wavers (h : e.Wavers e') :
    e'.data b = e.data b ∧ e'.content b = e.content b ∧ b.Extends e e' := by
  obtain ⟨⟨faults, clock, -, rfl⟩, -⟩ := h
  exact ⟨rfl, rfl, rfl, List.prefix_rfl⟩

theorem Shared.wavers (h : Shared b e) (hw : e.Wavers e') : Shared b e' := by
  obtain ⟨⟨faults, clock, -, rfl⟩, hf⟩ := hw
  exact ⟨h.here, h.cache, h.reads.online, hf⟩

theorem Batched.step (h : Batched b e₀ s ks seen more) (h₀ : b.Resting e₀)
    (hs : s.Step (Call.activity b) (fun _ => True) Engine.Wavers s') :
    ∃ ks' seen' more', Batched b e₀ s' ks' seen' more' ∧ seen <+: seen' ∧
      b.Extends s.state s'.state := by
  obtain ⟨habides, hgiven, hledger⟩ := h
  cases hs with
  | @call e ts c _ =>
    refine ⟨ks ++ [⟨c.given, 0, .idle⟩], seen, more, ⟨habides.begins ?_ ?_ ?_, ?_,
      hledger.begins rfl⟩, List.prefix_rfl, .refl b e⟩
    · rintro ⟨⟩
    · rintro j - ⟨-, ⟨⟩⟩
    · exact c.activity_abides rfl rfl
    · simpa using hgiven
  | task hx =>
    have hsound := habides.sound
    have hheld : ∀ j ∈ ks, _ := fun j hj => habides.holds hj
    have hapart := habides.apart
    obtain ⟨before', k, after', k', rfl, hl, hk, hm, habides⟩ := habides.goes hx
    obtain ⟨seen', more', hledger, hseen, hext⟩ := hledger.moves h₀ hsound hheld hapart hm
    refine ⟨_, seen', more', ⟨habides, ?_, hledger⟩, hseen, hext⟩
    rw [map_given_replaced _ _ (Acts.given hm), ← hgiven]
    simp
  | around hw =>
    obtain ⟨hd, hc, hext⟩ := Extends.of_wavers (b := b) hw
    exact ⟨ks, seen, more, ⟨habides.shaken (habides.sound.wavers hw) fun _ _ => hd, hgiven,
      hledger.kept hd hc⟩, List.prefix_rfl, hext⟩

/-- However the steps of calls alternate, batches come one after the other and stay. -/
theorem Batched.run (h : Batched b e₀ s ks seen more) (h₀ : b.Resting e₀)
    (hr : b.Interleaves s s') :
    ∃ ks' seen' more', Batched b e₀ s' ks' seen' more' ∧ seen <+: seen' ∧
      b.Extends s.state s'.state := by
  induction hr with
  | refl => exact ⟨ks, seen, more, h, List.prefix_rfl, .refl b _⟩
  | tail _ hs ih =>
    obtain ⟨ks₁, seen₁, more₁, h₁, hseen₁, hext₁⟩ := ih
    obtain ⟨ks', seen', more', h', hseen', hext'⟩ := h₁.step h₀ hs
    exact ⟨ks', seen', more', h', hseen₁.trans hseen', hext₁.trans hext'⟩

end Bucket

end EventStore
