import EventStore.Event.Binary

/-!
# Reading what was written

`readEvent?_event`: from the binary form of an event the event is read, as long as its counts
and lengths fit the eight bytes that they are written in. `compare_idKey`: keys of ids sort as
the ids do.
-/

namespace EventStore

open Std

/-- Counts and lengths fit into 64 bits, as those of all data in memory do. -/
def Properties.Fits (m : Properties) : Prop :=
  m.size < Bytes.room 8 ∧
    ∀ p ∈ m.toList, p.1.toUTF8.data.toList.length < Bytes.room 8 ∧
      p.2.toUTF8.data.toList.length < Bytes.room 8

instance (m : Properties) : Decidable m.Fits := inferInstanceAs (Decidable (_ ∧ _))

def Event.Fits (e : Event) : Prop := e.properties.Fits

instance (e : Event) : Decidable e.Fits := inferInstanceAs (Decidable e.properties.Fits)

-- ---- maps from their lists -----------------------------------------------

theorem Properties.getElem?_foldl_insert {l : List (String × String)} {m : Properties}
    (hl : l.Pairwise fun a b => a.1 ≠ b.1) (k : String) :
    (∀ v, (k, v) ∈ l → (l.foldl (fun m p => m.insert p.1 p.2) m)[k]? = some v) ∧
      ((∀ v, (k, v) ∉ l) → (l.foldl (fun m p => m.insert p.1 p.2) m)[k]? = m[k]?) := by
  induction l generalizing m with
  | nil => simp
  | cons p l ih =>
    obtain ⟨hp, hl⟩ := List.pairwise_cons.mp hl
    obtain ⟨hin, hout⟩ := ih (m := m.insert p.1 p.2) hl
    constructor
    · intro v hv
      rcases List.mem_cons.mp hv with rfl | hv
      · rw [List.foldl_cons, hout fun v hv => hp _ hv rfl]
        simp
      · exact hin v hv
    · intro hn
      have hk : p.1 ≠ k := by
        rintro rfl
        exact hn p.2 (by simp)
      rw [List.foldl_cons, hout fun v hv => hn v (List.mem_cons_of_mem _ hv)]
      simp [ExtTreeMap.getElem?_insert, hk]

theorem Properties.ofList_toList (m : Properties) : ofList m.toList = m := by
  have hl : m.toList.Pairwise fun a b => a.1 ≠ b.1 := by
    refine ExtTreeMap.distinct_keys_toList.imp ?_
    intro a b h hab
    exact h (by simp [hab])
  apply ExtTreeMap.ext_getElem?
  intro k
  obtain ⟨hin, hout⟩ := getElem?_foldl_insert (m := ∅) hl k
  rw [ofList]
  cases hk : m[k]? with
  | some v => exact hin v (ExtTreeMap.mem_toList_iff_getElem?_eq_some.mpr hk)
  | none =>
    rw [hout fun v hv => by simp [ExtTreeMap.mem_toList_iff_getElem?_eq_some.mp hv] at hk]
    simp

-- ---- parts ---------------------------------------------------------------

namespace Binary

theorem takeNumber_littleEndian (h : n < Bytes.room width) (rest : Bytes) :
    (takeNumber width).run (Bytes.littleEndian width n ++ rest) = some (n, rest) :=
  Bytes.takeNumber?_littleEndian_append h rest

theorem takeBlock_block (h : s.length < Bytes.room 8) (rest : Bytes) :
    takeBlock.run (block s ++ rest) = some (s, rest) := by
  simp only [takeBlock, takeCount, block, count, List.append_assoc, StateT.run_bind,
    takeNumber_littleEndian h, Option.bind_eq_bind, Option.bind_some]
  exact Bytes.split?_append s rest

theorem fromUTF8?_toUTF8 (s : String) :
    String.fromUTF8? ⟨s.toUTF8.data.toList.toArray⟩ = some s := by
  simp [String.fromUTF8?, String.fromUTF8, s.isValidUTF8]

theorem takeText_text {s : String} (h : s.toUTF8.data.toList.length < Bytes.room 8) (rest : Bytes) :
    takeText.run (text s ++ rest) = some (s, rest) := by
  simp only [takeText, text, StateT.run_bind, takeBlock_block h, Option.bind_eq_bind,
    Option.bind_some, fromUTF8?_toUTF8]
  rfl

theorem takeMore_flatMap {item : Decoder α} {write : α → Bytes} {l : List α}
    (h : ∀ a ∈ l, ∀ rest, item.run (write a ++ rest) = some (a, rest)) (taken : List α)
    (rest : Bytes) :
    (takeMore item l.length taken).run (l.flatMap write ++ rest) =
      some (taken.reverse ++ l, rest) := by
  induction l generalizing taken with
  | nil => simp [takeMore]
  | cons a l ih =>
    have ha := h a (by simp) (l.flatMap write ++ rest)
    have hl := ih (fun b hb => h b (List.mem_cons_of_mem _ hb)) (a :: taken)
    simp only [List.length_cons, takeMore, List.flatMap_cons, List.append_assoc,
      StateT.run_bind, ha, Option.bind_eq_bind, Option.bind_some, hl]
    simp

theorem takeMany_flatMap (item : Decoder α) (write : α → Bytes) {l : List α}
    (hl : l.length < Bytes.room 8)
    (h : ∀ a ∈ l, ∀ rest, item.run (write a ++ rest) = some (a, rest)) (rest : Bytes) :
    (takeMany item).run (count l.length ++ l.flatMap write ++ rest) = some (l, rest) := by
  simp only [takeMany, takeCount, count, List.append_assoc, StateT.run_bind,
    takeNumber_littleEndian hl, Option.bind_eq_bind, Option.bind_some, takeMore_flatMap h]
  rfl

theorem takePair_text {p : String × String} (h₁ : p.1.toUTF8.data.toList.length < Bytes.room 8)
    (h₂ : p.2.toUTF8.data.toList.length < Bytes.room 8) (rest : Bytes) :
    takePair.run (text p.1 ++ text p.2 ++ rest) = some (p, rest) := by
  simp only [takePair, List.append_assoc, StateT.run_bind, takeText_text h₁, takeText_text h₂,
    Option.bind_eq_bind, Option.bind_some]
  rfl

theorem takeProperties_properties {m : Properties} (h : m.Fits) (rest : Bytes) :
    takeProperties.run (properties m ++ rest) = some (m, rest) := by
  have hl : m.toList.length < Bytes.room 8 := by simpa using h.1
  have hm := takeMany_flatMap takePair (fun p => text p.1 ++ text p.2) hl
    (fun p hp => takePair_text (h.2 p hp).1 (h.2 p hp).2) rest
  rw [ExtTreeMap.length_toList] at hm
  simp only [takeProperties, properties, StateT.run_bind, hm, Option.bind_eq_bind, Option.bind_some]
  show some (Properties.ofList m.toList, rest) = _
  rw [Properties.ofList_toList]

theorem takeEvent_event {e : Event} (h : e.Fits) (rest : Bytes) :
    takeEvent.run (event e ++ rest) = some (e, rest) := by
  have hi : e.id.toNat < Bytes.room 4 := UInt32.toNat_lt e.id
  have ht : e.timestamp.toUInt64.toNat < Bytes.room 8 := UInt64.toNat_lt _
  have hb : e.bucket.toNat < Bytes.room 4 := UInt32.toNat_lt e.bucket
  simp only [takeEvent, event, List.append_assoc, StateT.run_bind, takeNumber_littleEndian hi,
    takeNumber_littleEndian ht, takeNumber_littleEndian hb, takeProperties_properties h,
    Option.bind_eq_bind, Option.bind_some]
  show some (Event.mk _ _ _ _, rest) = _
  simp

theorem readEvent?_event {e : Event} (h : e.Fits) : readEvent? (event e) = some e := by
  have := takeEvent_event h []
  rw [List.append_nil] at this
  simp [readEvent?, this]

/-- The time stands in front of the properties, so it is read back whatever these are. -/
theorem millis_of_readEvent? {e x : Event} (h : readEvent? (event e) = some x) :
    x.millis = e.millis := by
  have hi : e.id.toNat < Bytes.room 4 := UInt32.toNat_lt e.id
  have ht : e.timestamp.toUInt64.toNat < Bytes.room 8 := UInt64.toNat_lt _
  simp only [readEvent?, takeEvent, event, List.append_assoc, StateT.run_bind,
    takeNumber_littleEndian hi, takeNumber_littleEndian ht, Option.bind_eq_bind, Option.bind_some,
    Option.map_eq_some_iff, Option.bind_eq_some_iff] at h
  obtain ⟨_, ⟨properties, -, bucket, -, hx⟩, rfl⟩ := h
  rw [← Option.some.inj hx]
  simp [Event.millis]

end Binary

-- ---- keys ----------------------------------------------------------------

namespace Bytes

theorem number_append (a b : Bytes) : number (a ++ b) = number a + room a.length * number b := by
  induction a with
  | nil => simp [number, room]
  | cons x a ih =>
    simp only [List.cons_append, number, List.length_cons, room, ih, Nat.mul_add, Nat.mul_assoc,
      Nat.add_assoc]

theorem number_reverse_cons (x : UInt8) (a : Bytes) :
    number (x :: a).reverse = number a.reverse + room a.length * x.toNat := by
  simp [number_append, number]

theorem compare_toNat (x y : UInt8) : compare x y = compare x.toNat y.toNat := by
  simp [compare, compareOfLessAndEq, UInt8.lt_iff_toNat_lt, ← UInt8.toNat_inj]

/-- Byte strings of one length sort as the numbers do that they spell with the highest byte in
front. -/
theorem compare_number_reverse {a b : Bytes} (h : a.length = b.length) :
    compare a b = compare (number a.reverse) (number b.reverse) := by
  induction a generalizing b with
  | nil =>
    cases b with
    | nil => rfl
    | cons y b => cases h
  | cons x a ih =>
    cases b with
    | nil => cases h
    | cons y b =>
      have h : a.length = b.length := by simpa using h
      have ha : number a.reverse < room a.length :=
        (List.length_reverse : a.reverse.length = _) ▸ number_lt a.reverse
      have hb : number b.reverse < room a.length :=
        h ▸ (List.length_reverse : b.reverse.length = _) ▸ number_lt b.reverse
      rw [List.compare_cons_cons, ih h, compare_toNat, number_reverse_cons,
        number_reverse_cons, ← h]
      generalize room a.length = r at ha hb
      rcases Nat.lt_trichotomy x.toNat y.toNat with hxy | hxy | hxy
      · have hm : r * (x.toNat + 1) ≤ r * y.toNat := Nat.mul_le_mul_left r hxy
        have hlt : number a.reverse + r * x.toNat < number b.reverse + r * y.toNat := by
          rw [Nat.mul_add_one] at hm
          omega
        rw [Nat.compare_eq_lt.mpr hxy, Nat.compare_eq_lt.mpr hlt]
        rfl
      · rw [hxy, Nat.compare_eq_eq.mpr rfl]
        simp [compare, compareOfLessAndEq]
      · have hm : r * (y.toNat + 1) ≤ r * x.toNat := Nat.mul_le_mul_left r hxy
        have hlt : number b.reverse + r * y.toNat < number a.reverse + r * x.toNat := by
          rw [Nat.mul_add_one] at hm
          omega
        rw [Nat.compare_eq_gt.mpr hxy, Nat.compare_eq_gt.mpr hlt]
        rfl

end Bytes

theorem length_idKey (id : UInt32) : (idKey id).length = 4 := by
  simp [idKey, Bytes.length_littleEndian]

theorem number_reverse_idKey (id : UInt32) : Bytes.number (idKey id).reverse = id.toNat := by
  rw [idKey, List.reverse_reverse, Bytes.number_littleEndian]
  exact Nat.mod_eq_of_lt (UInt32.toNat_lt id)

theorem compare_idKey (a b : UInt32) : compare (idKey a) (idKey b) = compare a.toNat b.toNat := by
  rw [Bytes.compare_number_reverse (by simp [length_idKey]), number_reverse_idKey,
    number_reverse_idKey]

theorem eq_idKey_of_idOfKey? {key : Bytes} {id : UInt32} (h : idOfKey? key = some id) :
    key = idKey id := by
  unfold idOfKey? at h
  split at h
  · next hl =>
    cases h
    have hn : Bytes.number key.reverse < 4294967296 := by
      have := Bytes.number_lt key.reverse
      rwa [List.length_reverse, hl] at this
    have hk : Bytes.littleEndian 4 (Bytes.number key.reverse) = key.reverse := by
      simpa [hl] using Bytes.littleEndian_number key.reverse
    rw [idKey, Nat.toUInt32_eq, UInt32.toNat_ofNat_of_lt' hn, hk, List.reverse_reverse]
  · cases h

end EventStore
