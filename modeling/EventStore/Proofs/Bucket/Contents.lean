import EventStore.Engine.Bucket
import EventStore.Proofs.Event.Binary
import EventStore.Proofs.Index.Meaning

/-!
# What a bucket stores

Events get ids in their order (`numbered`), and the writes that store them extend the entries
of the map at its end (`Entries.toList_applyAll`), since keys sort as ids do. So an index that
is carried on event by event is the one that would be made anew from the map
(`indexOf_applyAll`), and it tells of the events that the map holds (`describes_of_indexOf`).
-/

namespace EventStore

open Std

-- ---- entries in order ----------------------------------------------------

theorem eq_of_ascending [Ord κ] [TransOrd κ] (f : α → κ) {l₁ l₂ : List α}
    (h₁ : l₁.Pairwise fun p q => compare (f p) (f q) = .lt)
    (h₂ : l₂.Pairwise fun p q => compare (f p) (f q) = .lt) (h : ∀ p, p ∈ l₁ ↔ p ∈ l₂) :
    l₁ = l₂ := by
  have hne (p q : α) (hlt : compare (f p) (f q) = .lt) : p ≠ q := by
    rintro rfl
    simp at hlt
  refine List.Perm.eq_of_pairwise ?_ h₁ h₂ ?_
  · intro p q _ _ hpq hqp
    have := TransCmp.lt_trans hpq hqp
    simp at this
  · exact (List.perm_ext_iff_of_nodup (h₁.imp fun h => hne _ _ h) (h₂.imp fun h => hne _ _ h)).mpr h

theorem Entries.toList_insert {es : Entries} {key value : Bytes}
    (h : ∀ p ∈ es.toList, compare p.1 key = .lt) :
    (es.insert key value).toList = es.toList ++ [(key, value)] := by
  apply eq_of_ascending Prod.fst ExtTreeMap.ordered_keys_toList
  · refine List.pairwise_append.mpr ⟨ExtTreeMap.ordered_keys_toList, List.pairwise_singleton .., ?_⟩
    intro p hp q hq
    rw [List.mem_singleton.mp hq]
    exact h p hp
  · rintro ⟨k, v⟩
    simp only [ExtTreeMap.mem_toList_iff_getElem?_eq_some, ExtTreeMap.getElem?_insert,
      List.mem_append, LawfulEqOrd.compare_eq_iff_eq]
    by_cases hk : key = k
    · subst hk
      have hn : es[key]? ≠ some v := by
        intro hs
        have := h _ (ExtTreeMap.mem_toList_iff_getElem?_eq_some.mpr hs)
        simp at this
      simp [hn, eq_comm]
    · simp [hk, Ne.symm hk]

def Event.entry (e : Event) : Bytes × Bytes := (idKey e.id, Binary.event e)

def Event.record (e : Event) : Record := .set (idKey e.id) (Binary.event e)

/-- Events with ids above all stored ones and in ascending order are listed after these. -/
theorem Entries.toList_applyAll {es : Entries} {events : List Event}
    (h : ∀ p ∈ es.toList, ∀ e ∈ events, compare p.1 (idKey e.id) = .lt)
    (ha : events.Pairwise (·.id < ·.id)) :
    (Record.applyAll es (events.map Event.record)).toList =
      es.toList ++ events.map Event.entry := by
  induction events generalizing es with
  | nil => simp [Record.applyAll]
  | cons e events ih =>
    obtain ⟨he, ha⟩ := List.pairwise_cons.mp ha
    have hi : (es.insert (idKey e.id) (Binary.event e)).toList = es.toList ++ [e.entry] :=
      toList_insert fun p hp => h p hp e (by simp)
    have hlt : ∀ p ∈ (es.insert (idKey e.id) (Binary.event e)).toList, ∀ e' ∈ events,
        compare p.1 (idKey e'.id) = .lt := by
      rw [hi]
      intro p hp e' he'
      rcases List.mem_append.mp hp with hp | hp
      · exact h p hp e' (List.mem_cons_of_mem _ he')
      · rw [List.mem_singleton.mp hp, Event.entry, compare_idKey]
        exact Nat.compare_eq_lt.mpr (he e' he')
    have := ih hlt ha
    simpa [Record.applyAll, Record.apply, Event.record, hi] using this

-- ---- numbering -----------------------------------------------------------

namespace Bucket

variable {b : Bucket} {events more : List Event} {last : UInt32}

theorem add_toUInt32_succ (last : UInt32) (n : Nat) :
    last + 1 + n.toUInt32 = last + (n + 1).toUInt32 := by
  rw [Nat.toUInt32_eq, Nat.toUInt32_eq, UInt32.ofNat_add, UInt32.add_assoc, UInt32.add_comm 1]
  rfl

theorem toNat_add_toUInt32 (last : UInt32) (n : Nat) (h : last.toNat + n < 4294967296) :
    (last + n.toUInt32).toNat = last.toNat + n := by
  have hn : n.toUInt32.toNat = n :=
    UInt32.toNat_ofNat_of_lt' (Nat.lt_of_le_of_lt (Nat.le_add_left ..) h)
  rw [UInt32.toNat_add, hn]
  exact Nat.mod_eq_of_lt h

theorem getElem?_numbered (i : Nat) : (b.numbered last events)[i]? =
    events[i]?.map fun e => { e with id := last + (i + 1).toUInt32, bucket := b.id } := by
  induction events generalizing last i with
  | nil => simp [numbered]
  | cons e events ih =>
    cases i with
    | zero => simp [numbered]
    | succ i => simp only [numbered, List.getElem?_cons_succ, ih, add_toUInt32_succ]

theorem length_numbered (b : Bucket) (last : UInt32) (events : List Event) :
    (b.numbered last events).length = events.length := by
  induction events generalizing last with
  | nil => rfl
  | cons e events ih => exact congrArg (· + 1) (ih _)

theorem numbered_append : b.numbered last (events ++ more) =
    b.numbered last events ++ b.numbered (last + events.length.toUInt32) more := by
  induction events generalizing last with
  | nil => simp [numbered]
  | cons e events ih =>
    simp only [List.cons_append, numbered, ih, List.length_cons, add_toUInt32_succ]

theorem mem_numbered {e : Event} (h : last.toNat + events.length < 4294967296)
    (he : e ∈ b.numbered last events) :
    last < e.id ∧ e.id.toNat ≤ last.toNat + events.length ∧ e.bucket = b.id ∧
      ∃ e' ∈ events, e = { e' with id := e.id, bucket := b.id } := by
  obtain ⟨i, hi⟩ := List.getElem?_of_mem he
  rw [getElem?_numbered] at hi
  obtain ⟨e', he', rfl⟩ := Option.map_eq_some_iff.mp hi
  have hl : i < events.length := (List.getElem?_eq_some_iff.mp he').1
  have hn := toNat_add_toUInt32 last (i + 1) (by omega)
  refine ⟨UInt32.lt_iff_toNat_lt.mpr ?_, ?_, rfl, e', List.mem_of_getElem? he', rfl⟩
  · rw [hn]
    omega
  · rw [hn]
    omega

theorem pairwise_numbered (h : last.toNat + events.length < 4294967296) :
    (b.numbered last events).Pairwise (·.id < ·.id) := by
  induction events generalizing last with
  | nil => exact .nil
  | cons e events ih =>
    rw [List.length_cons] at h
    have hn : (last + 1).toNat = last.toNat + 1 := toNat_add_toUInt32 last 1 (by omega)
    have hs : (last + 1).toNat + events.length < 4294967296 := by omega
    exact List.pairwise_cons.mpr ⟨fun e' he' => (mem_numbered hs he').1, ih hs⟩

-- ---- writing -------------------------------------------------------------

theorem writes_writing (b : Bucket) (events : List Event) :
    (b.writing events).writes = events.map fun e => ⟨b.eventsMap, e.record⟩ := by
  have h (tx : Transaction) :
      (events.foldl (fun tx e => tx.set b.eventsMap (idKey e.id) (Binary.event e)) tx).writes =
      tx.writes ++ events.map fun e => ⟨b.eventsMap, e.record⟩ := by
    induction events generalizing tx with
    | nil => simp
    | cons e events ih =>
      rw [List.foldl_cons, ih, Transaction.set, Transaction.writes_stage]
      simp [Event.record]
  exact h .empty

theorem recordsOf_writing (b : Bucket) (events : List Event) :
    (b.writing events).recordsOf b.eventsMap = events.map Event.record := by
  rw [Transaction.recordsOf, writes_writing, List.filterMap_map, ← List.filterMap_eq_map]
  exact congrArg (List.filterMap · events) (funext fun _ => if_pos rfl)

theorem recordsOf_writing_ne (h : m ≠ b.eventsMap) : (b.writing events).recordsOf m = [] := by
  rw [Transaction.recordsOf, writes_writing, List.filterMap_map]
  exact List.filterMap_eq_nil_iff.mpr fun _ _ => if_neg (Ne.symm h)

-- ---- the index of entries ------------------------------------------------

def learn (known : Index × UInt32) (p : Bytes × Bytes) : Except EngineError (Index × UInt32) :=
  (decode p.1 p.2).map fun (id, e) => (known.1.addEvent id e.properties, max known.2 id)

theorem indexOf_eq (entries : List (Bytes × Bytes)) :
    indexOf entries = entries.foldlM learn (.empty, 0) := rfl

theorem decode_ok {key value : Bytes} {id : UInt32} {e : Event} :
    decode key value = .ok (id, e) ↔ key = idKey id ∧ Binary.readEvent? value = some e := by
  unfold decode
  constructor
  · intro h
    split at h
    · cases h
    · next hk =>
      split at h
      · next he =>
        cases h
        exact ⟨eq_idKey_of_idOfKey? hk, he⟩
      · cases h
  · rintro ⟨rfl, he⟩
    simp [idOfKey?_idKey, he]

theorem learn_ok {known known' : Index × UInt32} {p : Bytes × Bytes} :
    learn known p = .ok known' ↔ ∃ id e, p.1 = idKey id ∧ Binary.readEvent? p.2 = some e ∧
      known' = (known.1.addEvent id e.properties, max known.2 id) := by
  simp [learn, map_ok, decode_ok, and_assoc, eq_comm (a := known')]

theorem max_id (a b : UInt32) : (a ≤ b → max a b = b) ∧ a ≤ max a b ∧ b ≤ max a b := by
  show (a ≤ b → (if a ≤ b then b else a) = b) ∧ a ≤ (if a ≤ b then b else a) ∧
    b ≤ (if a ≤ b then b else a)
  split
  · next h => exact ⟨fun _ => rfl, h, UInt32.le_refl b⟩
  · next h => exact ⟨fun h' => absurd h' h, UInt32.le_refl a, UInt32.le_of_lt (UInt32.not_le.mp h)⟩

/-- Entries that can be read are events under ids, of which the highest is remembered. -/
theorem le_of_learnt {l : List (Bytes × Bytes)} {known known' : Index × UInt32}
    (h : l.foldlM learn known = .ok known') :
    known.2 ≤ known'.2 ∧
      ∀ p ∈ l, ∃ id, p.1 = idKey id ∧ id ≤ known'.2 ∧ (Binary.readEvent? p.2).isSome := by
  induction l generalizing known with
  | nil =>
    cases pure_ok.mp h
    exact ⟨UInt32.le_refl _, by simp⟩
  | cons p l ih =>
    rw [List.foldlM_cons, bind_ok] at h
    obtain ⟨known₁, hp, h⟩ := h
    obtain ⟨id, e, hk, he, rfl⟩ := learn_ok.mp hp
    obtain ⟨hle, hl⟩ := ih h
    refine ⟨UInt32.le_trans (max_id ..).2.1 hle, ?_⟩
    rintro q hq
    rcases List.mem_cons.mp hq with rfl | hq
    · exact ⟨id, hk, UInt32.le_trans (max_id ..).2.2 hle, by simp [he]⟩
    · exact hl q hq

theorem describes_of_learnt {l : List (Bytes × Bytes)} {known known' : Index × UInt32}
    {R : UInt32 → Properties → Prop} (h : l.foldlM learn known = .ok known')
    (hR : known.1.Describes R) :
    known'.1.Describes fun id m => R id m ∨ ∃ p ∈ l, ∃ e, p.1 = idKey id ∧
      Binary.readEvent? p.2 = some e ∧ e.properties = m := by
  induction l generalizing known R with
  | nil =>
    cases pure_ok.mp h
    exact hR.congr (by simp)
  | cons p l ih =>
    rw [List.foldlM_cons, bind_ok] at h
    obtain ⟨known₁, hp, h⟩ := h
    obtain ⟨id, e, hk, he, rfl⟩ := learn_ok.mp hp
    refine (ih h (hR.addEvent id e.properties)).congr fun q m => ?_
    simp only [List.mem_cons, exists_eq_or_imp, or_assoc]
    have : (q = id ∧ m = e.properties) ↔
        ∃ e', p.1 = idKey q ∧ Binary.readEvent? p.2 = some e' ∧ e'.properties = m := by
      constructor
      · rintro ⟨rfl, rfl⟩
        exact ⟨e, hk, he, rfl⟩
      · rintro ⟨e', hq, he', rfl⟩
        rw [he] at he'
        cases he'
        exact ⟨idKey_inj (hq.symm.trans hk), rfl⟩
    rw [this]

/-- The event that a map holds under an id. -/
def eventAt? (es : Entries) (id : UInt32) : Option Event := es[idKey id]?.bind Binary.readEvent?

theorem describes_of_indexOf {es : Entries} (h : indexOf es.toList = .ok (i, last)) :
    i.Describes fun id m => ∃ e, eventAt? es id = some e ∧ e.properties = m := by
  refine (describes_of_learnt h Index.describes_empty).congr fun id m => ?_
  simp only [false_or, eventAt?, Option.bind_eq_some_iff]
  constructor
  · rintro ⟨⟨k, v⟩, hp, e, rfl, he, hm⟩
    exact ⟨e, ⟨v, ExtTreeMap.mem_toList_iff_getElem?_eq_some.mp hp, he⟩, hm⟩
  · rintro ⟨e, ⟨v, hv, he⟩, hm⟩
    exact ⟨(idKey id, v), ExtTreeMap.mem_toList_iff_getElem?_eq_some.mpr hv, e, rfl, he, hm⟩

theorem isSome_eventAt?_of_indexOf {es : Entries} {key : Bytes}
    (h : indexOf es.toList = .ok (i, last)) (hk : key ∈ es) :
    ∃ id, key = idKey id ∧ id ≤ last ∧ (eventAt? es id).isSome := by
  have hv : es[key]? = some es[key] := ExtTreeMap.getElem?_eq_some_getElem hk
  obtain ⟨id, rfl, hle, he⟩ := (le_of_learnt h).2 (key, es[key])
    (ExtTreeMap.mem_toList_iff_getElem?_eq_some.mpr hv)
  exact ⟨id, rfl, hle, by simpa [eventAt?, hv] using he⟩

theorem numbered_fits (h : ∀ e ∈ events, e.Fits) : ∀ e ∈ b.numbered last events, e.Fits := by
  induction events generalizing last with
  | nil => simp [numbered]
  | cons e events ih =>
    intro e' he'
    rcases List.mem_cons.mp he' with rfl | he'
    · exact h e (by simp)
    · exact ih (fun e he => h e (List.mem_cons_of_mem _ he)) e' he'

theorem learnt_numbered {i : Index} (hl : last.toNat + events.length < 4294967296)
    (hf : ∀ e ∈ events, e.Fits) :
    ((b.numbered last events).map Event.entry).foldlM learn (i, last) =
      .ok (indexAll (b.numbered last events) i, last + events.length.toUInt32) := by
  induction events generalizing i last with
  | nil => simp [numbered, indexAll, pure, Except.pure]
  | cons e events ih =>
    rw [List.length_cons] at hl
    have hn : (last + 1).toNat = last.toNat + 1 := toNat_add_toUInt32 last 1 (by omega)
    have hm : max last (last + 1) = last + 1 :=
      (max_id ..).1 (UInt32.le_iff_toNat_le.mpr (by omega))
    have hp : learn (i, last) ({ e with id := last + 1, bucket := b.id } : Event).entry =
        .ok (i.addEvent (last + 1) e.properties, last + 1) := by
      refine learn_ok.mpr ⟨last + 1, _, rfl, Binary.readEvent?_event (hf e (by simp)), ?_⟩
      rw [hm]
    rw [numbered, List.map_cons, List.foldlM_cons, hp]
    show List.foldlM learn _ _ = _
    rw [ih (by omega) fun e he => hf e (List.mem_cons_of_mem _ he), List.length_cons,
      add_toUInt32_succ]
    rfl

theorem lt_of_indexOf {es : Entries} (h : indexOf es.toList = .ok (i, last))
    (hl : last.toNat + events.length < 4294967296) :
    ∀ p ∈ es.toList, ∀ e ∈ b.numbered last events, compare p.1 (idKey e.id) = .lt := by
  intro p hp e he
  obtain ⟨id, hid, hle, -⟩ := (le_of_learnt h).2 p hp
  have := UInt32.lt_of_le_of_lt hle (mem_numbered hl he).1
  rw [hid, compare_idKey]
  exact Nat.compare_eq_lt.mpr this

theorem indexOf_applyAll {es : Entries} (h : indexOf es.toList = .ok (i, last))
    (hl : last.toNat + events.length < 4294967296) (hf : ∀ e ∈ events, e.Fits) :
    indexOf (Record.applyAll es ((b.numbered last events).map Event.record)).toList =
      .ok (indexAll (b.numbered last events) i, last + events.length.toUInt32) := by
  rw [Entries.toList_applyAll (lt_of_indexOf h hl) (pairwise_numbered hl), indexOf_eq,
    List.foldlM_append, ← indexOf_eq, h]
  exact learnt_numbered hl hf

end Bucket

end EventStore
