import EventStore.Proofs.Store.Alike

/-!
# Stores in order

Nothing but the calls to a store touches what it holds while it is in order (`Store.Sound`). Such a
store fails only where it must: a call that fails has changed nothing, and where no calls are
refused each call is answered for which the maps are there (`Store.Able.exists_answer`).
-/

namespace EventStore

open Std

/-- The maps that the call needs are there, and the one that it makes can have a file. -/
def Request.Possible : Request α → View → Prop
  | .openMap name, _ =>
    Directory.validName name = true ∧ Path.isLong (name ++ Directory.extension) = false
  | .removeMap _, _ | .mapNames, _ => True
  | .get m _, v | .count m, v | .scan m, v => (v m).isSome
  | .commit tx, v => ∀ w ∈ tx.writes, (v w.map).isSome

-- ---- in memory -----------------------------------------------------------

theorem Memory.exists_answer {m : Memory} {r : Request α} (ho : m.offline = false)
    (h : r.Possible (m.maps[·]?)) : ∃ a, (m.answer r).1 = .ok a := by
  unfold answer
  rw [ho, if_neg Bool.false_ne_true]
  have hmap {name : String} (hs : (m.maps[name]?).isSome) : ∃ es, m.map? name = .ok es :=
    have ⟨es, hes⟩ := Option.isSome_iff_exists.mp hs
    ⟨es, map?_ok.mpr hes⟩
  cases r with
  | openMap name => exact ⟨_, rfl⟩
  | removeMap name => exact ⟨_, rfl⟩
  | mapNames => exact ⟨_, rfl⟩
  | commit tx =>
    have hfind : tx.writes.find? (fun w => !m.maps.contains w.map) = none := by
      refine List.find?_eq_none.mpr fun w hw => ?_
      simpa using h w hw
    exact ⟨(), by simp only [commit, hfind]⟩
  | _ =>
    obtain ⟨es, hes⟩ := hmap h
    dsimp only
    rw [hes]
    exact ⟨_, rfl⟩

-- ---- in a directory ------------------------------------------------------

namespace Directory

variable {fits : List Record → Prop} {s : Directory} {d : Disk}

theorem exists_commit {tx : Transaction} (hw : ∀ w ∈ tx.writes, (s.entries? w.map).isSome) :
    ∃ s' d', commit (fun _ => .none) s tx d = (.ok (), s', d') := by
  have hfind : tx.writes.find? (fun w => !s.logs.contains w.map) = none := by
    refine List.find?_eq_none.mpr fun w hm => ?_
    simpa [entries?] using hw w hm
  obtain ⟨s', d', ha, -⟩ := appendAll_none tx (s := s) (d := d) (nodup_touched tx) (by
    intro name hn
    obtain ⟨w, hm, rfl⟩ := mem_touched.mp hn
    exact hw w hm)
  exact ⟨s', d', by simp only [commit, hfind, ha]⟩

theorem Intact.exists_answer (h : s.Intact fits d) {r : Request α} (hp : r.Possible s.entries?) :
    ∃ a, (s.answer (fun _ => .none) r d).1 = .ok a := by
  have hlog {name : String} (hs : (s.entries? name).isSome) : ∃ log, s.log? name = .ok log := by
    rw [entries?, Option.isSome_map] at hs
    obtain ⟨log, hl⟩ := Option.isSome_iff_exists.mp hs
    exact ⟨log, log?_ok.mpr hl⟩
  cases r with
  | openMap name => exact ⟨(), h.openMap_fst hp.1 hp.2⟩
  | removeMap name =>
    cases hl : s.logs[name]? with
    | none => exact ⟨false, by simp only [Directory.answer, Directory.removeMap, hl]⟩
    | some log => exact ⟨true, by simp only [Directory.answer, h.removeMap_eq hl]⟩
  | mapNames => exact ⟨_, rfl⟩
  | commit tx =>
    obtain ⟨s', d', ha⟩ := exists_commit (d := d) hp
    exact ⟨(), congrArg Prod.fst ha⟩
  | _ =>
    obtain ⟨log, hl⟩ := hlog hp
    dsimp only [Directory.answer]
    rw [hl]
    exact ⟨_, rfl⟩

end Directory

-- ---- either way ----------------------------------------------------------

namespace Store

/-- Each map of a directory has a file of its own, and nobody else has touched the files. -/
def Sound (s : Store) : Prop :=
  match s.backing with
  | .memory _ => True
  | .directory s d => s.Intact (fun _ => True) d

/-- The store is in order, and refuses no calls. -/
structure Able (s : Store) : Prop where
  sound : s.Sound
  available : s.isAvailable = true

variable {s s' : Store}

theorem Sound.answer (h : s.Sound) (r : Request α) : (s.answer r).2.Sound := by
  obtain ⟨backing, faults⟩ := s
  unfold Store.answer
  split
  · exact h
  cases backing with
  | memory m => trivial
  | directory dir d =>
    have h : dir.Intact (fun _ => True) d := h
    refine h.answer (r := r) ?_ rfl
    cases r <;> simp [Request.Fits]

theorem Sound.entries?_of_error (h : s.Sound) {r : Request α} {p : StoreError}
    (ha : s.answer r = (.error p, s')) : s'.entries? = s.entries? := by
  by_cases hr : r.kind = .removeMap
  · obtain ⟨backing, faults⟩ := s
    unfold Store.answer at ha
    split at ha
    · cases ha
      rfl
    cases backing with
    | memory m =>
      simp only [Backing.answer, Prod.mk.injEq] at ha
      obtain ⟨ha, rfl⟩ := ha
      exact congrArg (Backing.memory · |>.entries?) (Memory.answer_error (Prod.ext ha rfl))
    | directory dir d =>
      simp only [Backing.answer, Prod.mk.injEq] at ha
      have h : dir.Intact (fun _ => True) d := h
      exact absurd hr (h.kind_ne_of_error (Prod.ext ha.1 rfl))
  · exact Store.entries?_of_error hr ha

theorem faults_answer (s : Store) (r : Request α) : (s.answer r).2.faults = s.faults := by
  unfold Store.answer
  split <;> rfl

theorem isOnline_answer (s : Store) (r : Request α) : (s.answer r).2.isOnline = s.isOnline := by
  obtain ⟨backing, faults⟩ := s
  unfold Store.answer
  split
  · rfl
  cases backing with
  | memory m => exact congrArg (!·) (m.offline_answer r)
  | directory dir d => rfl

theorem isAvailable_answer (s : Store) (r : Request α) :
    (s.answer r).2.isAvailable = s.isAvailable := by
  rw [isAvailable, faults_answer, isOnline_answer, isAvailable]

/-- Where no calls are refused, a call is answered if that is possible. -/
theorem Able.exists_answer (h : s.Able) {r : Request α} (hp : r.Possible s.entries?) :
    ∃ a s', s.answer r = (.ok a, s') ∧ s'.Able := by
  have hable : (s.answer r).2.Able := ⟨h.sound.answer r, (isAvailable_answer s r).trans h.available⟩
  suffices hok : ∃ a, (s.answer r).1 = .ok a by
    obtain ⟨a, ha⟩ := hok
    exact ⟨a, (s.answer r).2, Prod.ext ha rfl, hable⟩
  obtain ⟨hr, ho⟩ := serves_of_isAvailable h.available r
  have hsound := h.sound
  clear hable h
  obtain ⟨backing, faults⟩ := s
  simp only [Store.answer, hr, Bool.false_eq_true, if_false]
  cases backing with
  | memory m => exact Memory.exists_answer ((Bool.not_eq_true' _).mp ho) hp
  | directory dir d => exact Directory.Intact.exists_answer hsound hp

theorem sound_of_openAt {root : Path} {sync : Bool} {dir : Directory} {d₀ d : Disk}
    (ho : Directory.openAt root sync d₀ = (.ok dir, d))
    (hn : ∀ name, Directory.validName name = true → d₀.nodes[Directory.fileOf root name]? = none)
    (faults : List Fault) :
    Sound ⟨.directory dir d, faults⟩ ∧ ∀ m, entries? ⟨.directory dir d, faults⟩ m = none := by
  obtain ⟨h, he⟩ : dir.Intact (fun _ => True) d ∧ dir.logs = ∅ := Directory.intact_of_openAt ho hn
  refine ⟨h, fun m => ?_⟩
  show dir.logs[m]?.map MapLog.entries = none
  rw [he, show (∅ : Logs)[m]? = none from ExtTreeMap.getElem?_empty]
  rfl

/-- A store in a directory that did not exist before. -/
def inNewDirectory : Store where
  backing := .directory ⟨["store"], false, ∅⟩
    { Disk.empty with nodes := Disk.empty.nodes.insert ["store"] .directory }
  faults := []

theorem sound_inNewDirectory : Sound inNewDirectory ∧ ∀ m, entries? inNewDirectory m = none := by
  have ho : Directory.openAt ["store"] false .empty = (.ok ⟨["store"], false, ∅⟩,
      { Disk.empty with nodes := Disk.empty.nodes.insert ["store"] .directory }) := rfl
  exact sound_of_openAt ho (fun name _ => by simp [Disk.empty, Directory.fileOf]) []

end Store

end EventStore
