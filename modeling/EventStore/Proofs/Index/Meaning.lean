import EventStore.Proofs.Query.Satisfaction

/-!
# What an index says

An index that has seen events says which properties are at which ids (`Index.Describes`). Each
event seen adds one id (`Describes.addEvent`), and evaluating criteria finds the ids whose
properties the criteria hold of (`Describes.mem_evaluate`).
-/

namespace EventStore

open Std Query

namespace Index

variable {i : Index} {R R' : UInt32 → Properties → Prop} {p q : UInt32} {m : Properties}

/-- Properties `m` are at `id` where `R id m`. -/
structure Describes (i : Index) (R : UInt32 → Properties → Prop) : Prop where
  known : ∀ id, id ∈ i.known ↔ ∃ m, R id m
  carrying : ∀ id field value,
    id ∈ i.carrying (.ofProperty field value) ↔ ∃ m, R id m ∧ m[field]? = some value
  nameless : ∀ id value, id ∉ i.carrying ⟨none, value⟩

theorem describes_empty : empty.Describes fun _ _ => False where
  known id := by simp [empty]
  carrying id field value := by simp [carrying_empty]
  nameless id value := by simp [carrying_empty]

theorem Describes.congr (h : i.Describes R) (hr : ∀ id m, R id m ↔ R' id m) : i.Describes R' := by
  have : R = R' := funext fun id => funext fun m => propext (hr id m)
  exact this ▸ h

-- ---- an event more -------------------------------------------------------

theorem mem_known_bindAll {l : List (String × String)} :
    q ∈ (i.bindAll p l).known ↔ (q = p ∧ l ≠ []) ∨ q ∈ i.known := by
  unfold bindAll
  induction l generalizing i with
  | nil => simp
  | cons x l ih =>
    rw [List.foldl_cons, ih, mem_known_bindKey]
    by_cases hq : q = p <;> simp [hq]

theorem mem_carrying_bindAll {l : List (String × String)} {key : Key} :
    q ∈ (i.bindAll p l).carrying key ↔
      (q = p ∧ ∃ x ∈ l, key = .ofProperty x.1 x.2) ∨ q ∈ i.carrying key := by
  unfold bindAll
  induction l generalizing i with
  | nil => simp
  | cons x l ih =>
    rw [List.foldl_cons, ih, mem_carrying_bindKey]
    simp only [List.mem_cons, exists_eq_or_imp]
    by_cases hq : q = p <;> simp [hq, or_assoc, or_left_comm]

theorem mem_known_addEvent :
    q ∈ (i.addEvent p m).known ↔ q = p ∨ q ∈ i.known := by
  rw [addEvent, mem_known_bindAll, known_addPosition, ExtTreeSet.mem_insert]
  by_cases hq : q = p
  · simp [hq]
  · simp [hq, Ne.symm hq]

theorem mem_carrying_addEvent {field value : String} :
    q ∈ (i.addEvent p m).carrying (.ofProperty field value) ↔
      (q = p ∧ m[field]? = some value) ∨ q ∈ i.carrying (.ofProperty field value) := by
  rw [addEvent, mem_carrying_bindAll, carrying_addPosition]
  have h : (∃ x ∈ m.toList, Key.ofProperty field value = .ofProperty x.1 x.2) ↔
      m[field]? = some value := by
    constructor
    · rintro ⟨⟨f, v⟩, hx, he⟩
      cases he
      exact ExtTreeMap.mem_toList_iff_getElem?_eq_some.mp hx
    · intro hm
      exact ⟨(field, value), ExtTreeMap.mem_toList_iff_getElem?_eq_some.mpr hm, rfl⟩
  rw [h]

theorem Describes.addEvent (h : i.Describes R) (p : UInt32) (m : Properties) :
    (i.addEvent p m).Describes fun q m' => R q m' ∨ q = p ∧ m' = m where
  known q := by
    rw [mem_known_addEvent, h.known]
    constructor
    · rintro (rfl | ⟨m', hm⟩)
      · exact ⟨m, .inr ⟨rfl, rfl⟩⟩
      · exact ⟨m', .inl hm⟩
    · rintro ⟨m', hm | ⟨hq, -⟩⟩
      · exact .inr ⟨m', hm⟩
      · exact .inl hq
  carrying q field value := by
    rw [mem_carrying_addEvent, h.carrying]
    constructor
    · rintro (⟨hq, hm⟩ | ⟨m', hr, hm⟩)
      · exact ⟨m, .inr ⟨hq, rfl⟩, hm⟩
      · exact ⟨m', .inl hr, hm⟩
    · rintro ⟨m', hr | ⟨hq, rfl⟩, hm⟩
      · exact .inr ⟨m', hr, hm⟩
      · exact .inl ⟨hq, hm⟩
  nameless q value := by
    rw [Index.addEvent, mem_carrying_bindAll, carrying_addPosition]
    rintro (⟨-, x, -, hx⟩ | hq)
    · cases hx
    · exact h.nameless q value hq

-- ---- evaluation ----------------------------------------------------------

theorem Describes.mem_carrying (h : i.Describes R) (key : Key) :
    q ∈ i.carrying key ↔ ∃ m, R q m ∧ key.isIn m = true := by
  obtain ⟨field, value⟩ := key
  cases field with
  | none => simp [h.nameless, Key.isIn]
  | some field => simpa [Key.isIn, Key.ofProperty] using h.carrying q field value

/-- Where each id has one event, evaluating criteria finds the ids whose properties they hold of. -/
theorem Describes.mem_evaluate (h : i.Describes R) (hR : ∀ id m m', R id m → R id m' → m = m')
    (c : Criteria) : q ∈ i.evaluate c ↔ ∃ m, R q m ∧ c.holds m = true := by
  induction c with
  | equals key => exact h.mem_carrying key
  | notEquals key =>
    rw [evaluate, mem_lacking, h.known, h.mem_carrying]
    constructor
    · rintro ⟨⟨m, hm⟩, hn⟩
      refine ⟨m, hm, ?_⟩
      simpa [Criteria.holds] using fun hk => hn ⟨m, hm, hk⟩
    · rintro ⟨m, hm, hk⟩
      refine ⟨⟨m, hm⟩, ?_⟩
      rintro ⟨m', hm', hk'⟩
      obtain rfl := hR _ _ _ hm hm'
      simp [Criteria.holds, hk'] at hk
  | and a b iha ihb =>
    rw [evaluate, ExtTreeSet.mem_inter_iff, iha, ihb]
    constructor
    · rintro ⟨⟨m, hm, ha⟩, m', hm', hb⟩
      obtain rfl := hR _ _ _ hm hm'
      exact ⟨m, hm, by simp [Criteria.holds, ha, hb]⟩
    · rintro ⟨m, hm, hab⟩
      simp only [Criteria.holds, Bool.and_eq_true] at hab
      exact ⟨⟨m, hm, hab.1⟩, m, hm, hab.2⟩
  | or a b iha ihb =>
    rw [evaluate, ExtTreeSet.mem_union_iff, iha, ihb]
    constructor
    · rintro (⟨m, hm, ha⟩ | ⟨m, hm, hb⟩)
      · exact ⟨m, hm, by simp [Criteria.holds, ha]⟩
      · exact ⟨m, hm, by simp [Criteria.holds, hb]⟩
    · rintro ⟨m, hm, hab⟩
      simp only [Criteria.holds, Bool.or_eq_true] at hab
      rcases hab with ha | hb
      · exact .inl ⟨m, hm, ha⟩
      · exact .inr ⟨m, hm, hb⟩

-- ---- positions -----------------------------------------------------------

def Tells (i : Index) (id : UInt32) : Prop := id ∈ i.known ∨ ∃ key, id ∈ i.carrying key

theorem Describes.exists_of_tells (h : i.Describes R) (hq : i.Tells q) : ∃ m, R q m := by
  rcases hq with hq | ⟨key, hq⟩
  · exact (h.known q).mp hq
  · obtain ⟨m, hm, -⟩ := (h.mem_carrying key).mp hq
    exact ⟨m, hm⟩

theorem tells_of_addEvent (h : (i.addEvent p m).Tells q) : q = p ∨ i.Tells q := by
  rcases h with h | ⟨key, h⟩
  · exact (mem_known_addEvent.mp h).imp_right .inl
  · rw [addEvent, mem_carrying_bindAll, carrying_addPosition] at h
    exact h.imp And.left fun h => .inr ⟨key, h⟩

theorem tells_of_mem_evaluate {c : Criteria} (h : q ∈ i.evaluate c) : i.Tells q := by
  induction c with
  | equals key => exact .inr ⟨key, h⟩
  | notEquals key => exact .inl (mem_lacking.mp h).1
  | and a b iha ihb => exact iha (ExtTreeSet.mem_inter_iff.mp h).1
  | or a b iha ihb => exact (ExtTreeSet.mem_union_iff.mp h).elim iha ihb

theorem evaluate_empty (c : Criteria) : empty.evaluate c = ∅ := by
  refine ExtTreeSet.ext_mem fun q => iff_of_false (fun h => ?_) ExtTreeSet.not_mem_empty
  obtain hq | ⟨key, hq⟩ := tells_of_mem_evaluate h
  · exact ExtTreeSet.not_mem_empty hq
  · rw [carrying_empty] at hq
    exact ExtTreeSet.not_mem_empty hq

end Index

end EventStore
