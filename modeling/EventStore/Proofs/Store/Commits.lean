import EventStore.Proofs.Store.Sound

/-!
# What a transaction shows is what it commits

A transaction shows the latest write staged under a key. Stores look at its writes the other way
round, in the order in which they were staged, and a directory map by map; the entries come out as
shown all the same (`Store.commit_shown`). A transaction that names a map that is not there is
refused for the first such map, and has written nothing.
-/

namespace EventStore

/-- The value shown for a key that has been written to; one that was removed shows none. -/
def Transaction.get? (tx : Transaction) (map : String) (key : Bytes) : Option (Option Bytes) :=
  (tx.latest? map key).map Record.value?

/-- Of several writes to a key the last one counts. -/
theorem Record.getElem?_applyAll (entries : Entries) (records : List Record) (k : Bytes) :
    (applyAll entries records)[k]? =
      ((records.reverse.find? (·.key == k)).map value?).getD entries[k]? := by
  induction records generalizing entries with
  | nil => rfl
  | cons r rs ih =>
    rw [show applyAll entries (r :: rs) = applyAll (r.apply entries) rs from rfl, ih,
      getElem?_apply, List.reverse_cons, List.find?_append]
    cases rs.reverse.find? (·.key == k) with
    | some last => rfl
    | none => by_cases h : r.key = k <;> simp [h]

namespace Transaction

variable (tx : Transaction)

theorem latest?_eq (m : String) (k : Bytes) :
    tx.latest? m k = (tx.recordsOf m).reverse.find? (·.key == k) := by
  rw [latest?, recordsOf, writes, List.filterMap_reverse, List.reverse_reverse]
  induction tx.staged with
  | nil => rfl
  | cons w ws ih =>
    by_cases hm : w.map = m <;> by_cases hk : w.record.key = k <;> simp [hm, hk, ih]

theorem getElem?_applyAll (entries : Entries) (m : String) (k : Bytes) :
    (Record.applyAll entries (tx.recordsOf m))[k]? = (tx.get? m k).getD entries[k]? := by
  rw [Record.getElem?_applyAll, get?, latest?_eq]

theorem get?_eq_none {tx : Transaction} (h : ∀ w ∈ tx.writes, w.map ≠ m) (k : Bytes) :
    tx.get? m k = none := by
  rw [get?, latest?_eq, recordsOf_eq_nil h]
  rfl

end Transaction

namespace Store

variable {s : Store} {tx : Transaction}

theorem answer_get_fst (h : s.isAvailable = true) (m : String) (k : Bytes) :
    (s.answer (.get m k)).1 =
      match s.entries? m with
      | some es => .ok es[k]?
      | none => .error (.mapNotFound m) := by
  cases hm : s.entries? m with
  | some es => rw [answer_get (serves_of_isAvailable h _) hm]
  | none => rw [answer_get_of_gone (serves_of_isAvailable h _) hm]

theorem exists_answer_commit (h : s.isAvailable = true)
    (hw : ∀ w ∈ tx.writes, (s.entries? w.map).isSome) :
    ∃ s', s.answer (.commit tx) = (.ok (), s') := by
  obtain ⟨hr, ho⟩ := serves_of_isAvailable h (.commit tx)
  obtain ⟨backing, faults⟩ := s
  simp only [answer, hr, Bool.false_eq_true, if_false]
  cases backing with
  | memory m =>
    obtain ⟨⟨⟩, ha⟩ := Memory.exists_answer (r := .commit tx) ((Bool.not_eq_true' _).mp ho) hw
    exact ⟨_, Prod.ext ha rfl⟩
  | directory dir d =>
    obtain ⟨dir', d', ha⟩ := Directory.exists_commit (d := d) hw
    have ha : dir.answer (fun _ => .none) (.commit tx) d = (.ok (), dir', d') := ha
    exact ⟨⟨.directory dir' d', faults⟩, by rw [Backing.answer, ha]⟩

theorem answer_commit_of_find? (h : s.isAvailable = true)
    (hw : tx.writes.find? (fun w => (s.entries? w.map).isNone) = some w) :
    s.answer (.commit tx) = (.error (.mapNotFound w.map), s) := by
  obtain ⟨hr, ho⟩ := serves_of_isAvailable h (.commit tx)
  obtain ⟨backing, faults⟩ := s
  simp only [answer, hr, Bool.false_eq_true, if_false]
  cases backing with
  | memory m =>
    have hf : tx.writes.find? (fun w => !m.maps.contains w.map) = some w := by
      simpa [entries?, Backing.entries?, ← Std.ExtTreeMap.isSome_getElem?_eq_contains] using hw
    have ho : m.offline = false := (Bool.not_eq_true' _).mp ho
    simp [Backing.answer, Memory.answer, Memory.commit, ho, hf]
  | directory dir d =>
    have hf : tx.writes.find? (fun w => !dir.logs.contains w.map) = some w := by
      simpa [entries?, Backing.entries?, ← Std.ExtTreeMap.isSome_getElem?_eq_contains] using hw
    simp [Backing.answer, Directory.answer, Directory.commit, hf]

/-- A transaction whose maps are all there is committed, and reading then gives what it showed,
where it showed anything, and otherwise what reading gave before. A transaction with a map that is
missing is refused for the first of them, and the store stays as it was. -/
theorem commit_shown (h : s.isAvailable = true) (tx : Transaction) :
    ((∀ w ∈ tx.writes, (s.entries? w.map).isSome) →
      ∃ s', s.answer (.commit tx) = (.ok (), s') ∧
        ∀ m k, (s'.answer (.get m k)).1 =
          match tx.get? m k with
          | some value => .ok value
          | none => (s.answer (.get m k)).1) ∧
    ((∃ w ∈ tx.writes, s.entries? w.map = none) →
      ∃ front w back, tx.writes = front ++ w :: back ∧
        (∀ w' ∈ front, (s.entries? w'.map).isSome) ∧ s.entries? w.map = none ∧
        s.answer (.commit tx) = (.error (.mapNotFound w.map), s)) := by
  refine ⟨fun hw => ?_, fun ⟨w, hw, hm⟩ => ?_⟩
  · obtain ⟨s', ha⟩ := exists_answer_commit h hw
    have h' : s'.isAvailable = true := by
      rw [← h, ← isAvailable_answer s (.commit tx), ha]
    refine ⟨s', ha, fun m k => ?_⟩
    have he : s'.entries? m = (s.entries? m).map (Record.applyAll · (tx.recordsOf m)) :=
      congrFun (replies_of_ok ha).2 m
    rw [answer_get_fst h', answer_get_fst h, he]
    cases hm : s.entries? m with
    | some es =>
      simp only [Option.map_some, tx.getElem?_applyAll]
      cases tx.get? m k <;> rfl
    | none =>
      have hn : ∀ w ∈ tx.writes, w.map ≠ m := by
        rintro w hmem rfl
        exact absurd (hw w hmem) (by simp [hm])
      rw [Transaction.get?_eq_none hn]
      rfl
  · have hsome : (tx.writes.find? fun w => (s.entries? w.map).isNone).isSome :=
      List.find?_isSome.mpr ⟨w, hw, by simp [hm]⟩
    obtain ⟨w', hw'⟩ := Option.isSome_iff_exists.mp hsome
    obtain ⟨hnone, front, back, hsplit, hfront⟩ := List.find?_eq_some_iff_append.mp hw'
    refine ⟨front, w', back, hsplit, fun w hw => ?_, by simpa using hnone,
      answer_commit_of_find? h hw'⟩
    simpa [Option.isSome_iff_ne_none] using hfront w hw

/-- A key set twice, one set and removed, and a transaction that names another map besides. -/
theorem commit_shown_of_removed :
    let s : Store := ⟨.memory ⟨(∅ : Maps).insert "m" ∅, false, 0⟩, []⟩
    let tx := (((Transaction.empty.set "m" [1] [7]).set "m" [2] [8]).remove "m" [2]).set "m" [1] [9]
    s.isAvailable = true ∧ (∀ w ∈ tx.writes, (s.entries? w.map).isSome) ∧
      (∃ s', s.answer (.commit tx) = (.ok (), s') ∧
        (s'.answer (.get "m" [1])).1 = .ok (some [9]) ∧ (s'.answer (.get "m" [2])).1 = .ok none) ∧
      s.answer (.commit (tx.set "n" [1] [7])) = (.error (.mapNotFound "n"), s) := by
  intro s tx
  have h : s.isAvailable = true := rfl
  have hw : ∀ w ∈ tx.writes, (s.entries? w.map).isSome := by
    simp [tx, s, Transaction.writes, Transaction.set, Transaction.remove, Transaction.stage,
      Transaction.empty, entries?, Backing.entries?]
  obtain ⟨s', ha, hget⟩ := (commit_shown h tx).1 hw
  have hn : s.entries? "n" = none := by simp [s, entries?, Backing.entries?]
  have hwrites : (tx.set "n" [1] [7]).writes = tx.writes ++ [⟨"n", .set [1] [7]⟩] :=
    Transaction.writes_stage ..
  obtain ⟨front, w, back, hsplit, -, hmiss, he⟩ :=
    (commit_shown h (tx.set "n" [1] [7])).2 ⟨⟨"n", .set [1] [7]⟩, by simp [hwrites], hn⟩
  refine ⟨h, hw, ⟨s', ha, hget "m" [1], hget "m" [2]⟩, ?_⟩
  have hmem : w ∈ tx.writes ++ [⟨"n", .set [1] [7]⟩] := by simp [← hwrites, hsplit]
  rcases List.mem_append.mp hmem with hmem | hmem
  · exact absurd (hw w hmem) (by simp [hmiss])
  · rw [List.mem_singleton.mp hmem] at he
    exact he

/-- A store in memory that is switched off has the map and refuses the transaction. -/
theorem commit_of_offline :
    let s : Store := ⟨.memory ⟨(∅ : Maps).insert "m" ∅, true, 0⟩, []⟩
    let tx := Transaction.empty.set "m" [1] [10]
    (∀ w ∈ tx.writes, (s.entries? w.map).isSome) ∧
      s.answer (.commit tx) = (.error (.unavailable "memory store offline"), s) := by
  refine ⟨?_, rfl⟩
  simp [Transaction.writes, Transaction.set, Transaction.stage, Transaction.empty, entries?,
    Backing.entries?]

end Store

end EventStore
