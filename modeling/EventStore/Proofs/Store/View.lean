import EventStore.Proofs.Lookup
import EventStore.Proofs.Results
import EventStore.Store.Basic

/-!
# What a store holds

Stores of both kinds show the same thing: entries by the name of their map. A call that
succeeds answers from these (`Request.Replies`) and changes them in one way (`Request.effect`),
whatever the store is made of; a call that fails leaves them alone (`Store.entries?_of_error`),
unless it was to remove a map.
-/

namespace EventStore

open Std

/-- The entries of the maps that exist. -/
abbrev View := String → Option Entries

def Backing.entries? : Backing → View
  | .memory m, name => m.maps[name]?
  | .directory s _, name => s.logs[name]?.map MapLog.entries

def Store.entries? (s : Store) : View := s.backing.entries?

namespace Request

/-- What a call leaves of a view when it succeeds. -/
def effect : Request α → View → View
  | .openMap name, v, m => if m = name then some ((v name).getD ∅) else v m
  | .removeMap name, v, m => if m = name then none else v m
  | .commit tx, v, m => (v m).map (Record.applyAll · (tx.recordsOf m))
  | .mapNames, v, m | .get .., v, m | .count _, v, m | .scan _, v, m => v m

/-- What a call answers when it succeeds. -/
def Replies : Request α → View → α → Prop
  | .openMap _, _, _ => True
  | .removeMap name, v, had => had = (v name).isSome
  | .mapNames, v, names => names.Nodup ∧ ∀ m, m ∈ names ↔ (v m).isSome
  | .get m key, v, value => ∃ entries, v m = some entries ∧ value = entries[key]?
  | .count m, v, n => ∃ entries, v m = some entries ∧ n = entries.size
  | .scan m, v, l => ∃ entries, v m = some entries ∧ l = entries.toList
  | .commit tx, v, _ => ∀ w ∈ tx.writes, (v w.map).isSome

end Request

theorem Transaction.recordsOf_eq_nil {tx : Transaction} (h : ∀ w ∈ tx.writes, w.map ≠ m) :
    tx.recordsOf m = [] := by
  simp only [recordsOf, List.filterMap_eq_nil_iff]
  intro w hw
  simp [h w hw]

theorem nodup_toList [Ord α] [TransOrd α] (s : ExtTreeSet α compare) : s.toList.Nodup := by
  refine List.Pairwise.imp ?_ (ExtTreeSet.distinct_toList (t := s))
  rintro a b h rfl
  exact h ReflCmp.compare_self

-- ---- in memory -----------------------------------------------------------

namespace Memory

theorem map?_ok {m : Memory} : m.map? name = .ok es ↔ m.maps[name]? = some es := by
  unfold map?
  split <;> simp [*]

theorem getElem?_write (maps : Maps) (w : Write) (m : String) :
    (write maps w)[m]? = maps[m]?.map fun es => if w.map = m then w.record.apply es else es := by
  rw [write, ExtTreeMap.getElem?_modify]
  by_cases h : w.map = m
  · subst h
    simp
  · have hc : compare w.map m ≠ .eq := fun e => h (LawfulEqOrd.eq_of_compare e)
    simp [h, hc]

theorem getElem?_foldl_write (maps : Maps) (ws : List Write) (m : String) :
    (ws.foldl write maps)[m]? = maps[m]?.map fun es =>
      Record.applyAll es (ws.filterMap fun w => if w.map = m then some w.record else none) := by
  induction ws generalizing maps with
  | nil => simp [Record.applyAll]
  | cons w ws ih =>
    rw [List.foldl_cons, ih, getElem?_write]
    by_cases h : w.map = m <;> simp [h, Record.applyAll, Function.comp_def]

theorem commit_ok {m m' : Memory} (h : m.commit tx = (.ok (), m')) :
    (∀ w ∈ tx.writes, (m.maps[w.map]?).isSome) ∧
      ∀ name, m'.maps[name]? = m.maps[name]?.map (Record.applyAll · (tx.recordsOf name)) := by
  unfold commit at h
  split at h
  · cases h
  · next hf =>
    cases h
    refine ⟨fun w hw => ?_, fun name => getElem?_foldl_write _ _ _⟩
    have := List.find?_eq_none.mp hf w hw
    simpa using this

theorem getElem?_openMap (maps : Maps) (name m : String) :
    (maps.insertIfNew name ∅)[m]? = (Request.openMap name).effect (maps[·]?) m := by
  rw [ExtTreeMap.getElem?_insertIfNew]
  by_cases hm : m = name
  · subst hm
    by_cases h : m ∈ maps
    · simp [Request.effect, h]
    · simp [Request.effect, h]
  · have hc : compare name m ≠ .eq := fun e => hm (LawfulEqOrd.eq_of_compare e).symm
    simp [Request.effect, hm, hc]

theorem getElem?_removeMap (maps : Maps) (name m : String) :
    (maps.erase name)[m]? = (Request.removeMap name).effect (maps[·]?) m := by
  by_cases hm : m = name
  · simp [Request.effect, hm]
  · simp [Request.effect, hm, getElem?_erase_of_ne hm]

theorem answer_ok {m m' : Memory} {r : Request α} (h : m.answer r = (.ok a, m')) :
    r.Replies (m.maps[·]?) a ∧ ∀ name, m'.maps[name]? = r.effect (m.maps[·]?) name := by
  unfold answer at h
  split at h
  · cases h
  · cases r with
    | openMap name =>
      cases h
      exact ⟨trivial, getElem?_openMap _ _⟩
    | removeMap name =>
      cases h
      exact ⟨by simp [Request.Replies], getElem?_removeMap _ _⟩
    | mapNames =>
      cases h
      exact ⟨⟨ExtTreeMap.nodup_keys, by simp⟩, fun _ => rfl⟩
    | commit tx => exact commit_ok h
    | _ =>
      simp only [Prod.mk.injEq, map_ok, map?_ok] at h
      obtain ⟨⟨es, hes, rfl⟩, rfl⟩ := h
      exact ⟨⟨es, hes, rfl⟩, fun _ => rfl⟩

theorem answer_error {m m' : Memory} {r : Request α} (h : m.answer r = (.error p, m')) :
    m' = m := by
  unfold answer at h
  split at h
  · cases h
    rfl
  · cases r with
    | commit tx =>
      simp only [commit] at h
      split at h
      · cases h
        rfl
      · cases h
    | _ => simp_all

end Memory

-- ---- in a directory ------------------------------------------------------

namespace Directory

def entries? (s : Directory) : View := fun name => s.logs[name]?.map MapLog.entries

theorem log?_ok {s : Directory} : s.log? name = .ok log ↔ s.logs[name]? = some log := by
  unfold log?
  split <;> simp [*]

theorem entries?_insert (s : Directory) (name : String) (log : MapLog) (m : String) :
    ({ s with logs := s.logs.insert name log } : Directory).entries? m =
      if m = name then some log.entries else s.entries? m := by
  simp only [entries?, ExtTreeMap.getElem?_insert, LawfulEqOrd.compare_eq_iff_eq, @eq_comm _ name m]
  split <;> rfl

theorem append_none (log : MapLog) (sync : Bool) (records : List Record) (d : Disk) :
    ∃ log' d', log.append .none sync records d = (.ok (), log', d') ∧
      log'.entries = Record.applyAll log.entries records := by
  simp [MapLog.append, MapLog.writeFrame, Hazard.none]

theorem appendAll_none (tx : Transaction) {names : List String} {s : Directory} {d : Disk}
    (hn : names.Nodup) (he : ∀ name ∈ names, (s.entries? name).isSome) :
    ∃ s' d', appendAll (fun _ => .none) tx names s d = (.ok (), s', d') ∧ ∀ m, s'.entries? m =
      if m ∈ names then (s.entries? m).map (Record.applyAll · (tx.recordsOf m))
      else s.entries? m := by
  induction names generalizing s d with
  | nil => exact ⟨s, d, rfl, fun m => by simp⟩
  | cons name rest ih =>
    obtain ⟨hm, hn⟩ := List.nodup_cons.mp hn
    obtain ⟨log, hl⟩ := Option.isSome_iff_exists.mp (Option.isSome_map ▸ he name (by simp))
    obtain ⟨log', d', ha, hes⟩ := append_none log s.sync (tx.recordsOf name) d
    obtain ⟨s'', d'', hr, hv⟩ := ih (s := { s with logs := s.logs.insert name log' })
      (d := d') hn (by
      intro other ho
      rw [entries?_insert]
      split
      · rfl
      · exact he other (List.mem_cons_of_mem _ ho))
    refine ⟨s'', d'', by simp [appendAll, hl, ha, hr], fun m => ?_⟩
    rw [hv, entries?_insert]
    by_cases h : m = name
    · subst h
      simp [hm, hes, entries?, hl]
    · simp [h]

theorem mem_touched {tx : Transaction} : m ∈ touched tx ↔ ∃ w ∈ tx.writes, w.map = m := by
  have h (ws : List Write) (names : ExtTreeSet String compare) :
      m ∈ ws.foldl (fun names w => names.insert w.map) names ↔ m ∈ names ∨ ∃ w ∈ ws, w.map = m := by
    induction ws generalizing names with
    | nil => simp
    | cons w ws ih => simp [ih, ExtTreeSet.mem_insert, or_assoc, or_left_comm]
  simp [touched, h]

theorem nodup_touched (tx : Transaction) : (touched tx).Nodup := nodup_toList _

theorem commit_none (tx : Transaction) {s : Directory} {d : Disk} :
    (∃ p, commit (fun _ => .none) s tx d = (.error p, s, d)) ∨
      (∀ w ∈ tx.writes, (s.entries? w.map).isSome) ∧
        ∃ s' d', commit (fun _ => .none) s tx d = (.ok (), s', d') ∧
          ∀ m, s'.entries? m = (s.entries? m).map (Record.applyAll · (tx.recordsOf m)) := by
  unfold commit
  split
  · exact .inl ⟨_, rfl⟩
  · next hf =>
    have he : ∀ w ∈ tx.writes, (s.entries? w.map).isSome := by
      intro w hw
      have := List.find?_eq_none.mp hf w hw
      simpa [entries?] using this
    obtain ⟨s', d', ha, hv⟩ := appendAll_none tx (s := s) (d := d) (nodup_touched tx) (by
      intro name hn
      obtain ⟨w, hw, rfl⟩ := mem_touched.mp hn
      exact he w hw)
    refine .inr ⟨he, s', d', ha, fun m => ?_⟩
    rw [hv]
    split
    · rfl
    · next hm =>
      have : tx.recordsOf m = [] :=
        Transaction.recordsOf_eq_nil fun w hw hwm => hm (mem_touched.mpr ⟨w, hw, hwm⟩)
      simp [this, Record.applyAll]

theorem openMap_ok {s s' : Directory} {d d' : Disk} (h : s.openMap name d = (.ok (), s', d'))
    (m : String) :
    s'.entries? m = (Request.openMap name).effect s.entries? m := by
  unfold openMap at h
  split at h
  · cases h
  · split at h
    · next hc =>
      cases h
      have hs : s.logs[name]?.isSome := by simpa using hc
      obtain ⟨log, hl⟩ := Option.isSome_iff_exists.mp hs
      by_cases hm : m = name
      · subst hm
        simp [Request.effect, entries?, hl]
      · simp [Request.effect, hm]
    · next hc =>
      have hl : s.logs[name]? = none := by simpa using hc
      split at h
      · next log d₁ hr =>
        cases h
        have he : log.entries = ∅ := by
          unfold MapLog.create at hr
          split at hr <;> cases hr
          rfl
        rw [entries?_insert]
        simp [Request.effect, entries?, hl, he]
      · cases h

theorem openMap_error {s s' : Directory} {d d' : Disk} (h : s.openMap name d = (.error p, s', d')) :
    s' = s := by
  unfold openMap at h
  split at h
  · cases h
    rfl
  · split at h
    · cases h
    · split at h <;> cases h
      rfl

theorem entries?_erase (s : Directory) (name : String) :
    ({ s with logs := s.logs.erase name } : Directory).entries? =
      (Request.removeMap name).effect s.entries? := by
  funext m
  simp only [entries?, Request.effect, ExtTreeMap.getElem?_erase, LawfulEqOrd.compare_eq_iff_eq,
    @eq_comm _ name m]
  split <;> rfl

theorem removeMap_ok {s s' : Directory} {d d' : Disk}
    (h : removeMap .none s name d = (.ok had, s', d')) :
    had = (s.entries? name).isSome ∧ ∀ m,
      s'.entries? m = (Request.removeMap name).effect s.entries? m := by
  unfold removeMap at h
  split at h
  · next hl =>
    cases h
    refine ⟨by simp [entries?, hl], fun m => ?_⟩
    by_cases hm : m = name
    · simp [Request.effect, entries?, hm, hl]
    · simp [Request.effect, hm]
  · next log hl =>
    simp only [Hazard.none, Bool.false_eq_true, ↓reduceIte] at h
    split at h <;> cases h <;>
      exact ⟨by simp [entries?, hl], fun m => congrFun (entries?_erase s name) m⟩

/-- The map is forgotten before its file is removed. -/
theorem removeMap_error {s s' : Directory} {d d' : Disk}
    (h : removeMap .none s name d = (.error p, s', d')) :
    s'.entries? = (Request.removeMap name).effect s.entries? := by
  unfold removeMap at h
  split at h
  · cases h
  · simp only [Hazard.none, Bool.false_eq_true, ↓reduceIte] at h
    split at h <;> cases h
    exact entries?_erase s name

theorem answer_ok {s s' : Directory} {d d' : Disk} {r : Request α}
    (h : s.answer (fun _ => .none) r d = (.ok a, s', d')) :
    r.Replies s.entries? a ∧ ∀ m, s'.entries? m = r.effect s.entries? m := by
  cases r with
  | openMap name => exact ⟨trivial, openMap_ok h⟩
  | removeMap name => exact removeMap_ok h
  | mapNames =>
    cases h
    exact ⟨⟨ExtTreeMap.nodup_keys, by simp [entries?]⟩, fun _ => rfl⟩
  | commit tx =>
    rcases commit_none tx (s := s) (d := d) with ⟨p, he⟩ | ⟨hw, s'', d'', ho, hv⟩
    · cases he.symm.trans h
    · cases ho.symm.trans h
      exact ⟨hw, hv⟩
  | _ =>
    simp only [answer, Prod.mk.injEq, map_ok, log?_ok] at h
    obtain ⟨⟨log, hl, rfl⟩, rfl, rfl⟩ := h
    exact ⟨⟨log.entries, by simp [entries?, hl], rfl⟩, fun _ => rfl⟩

theorem answer_error {s s' : Directory} {d d' : Disk} {r : Request α} (hr : r.kind ≠ .removeMap)
    (h : s.answer (fun _ => .none) r d = (.error p, s', d')) : s' = s := by
  cases r with
  | openMap name => exact openMap_error h
  | removeMap name => exact absurd rfl hr
  | mapNames => cases h
  | commit tx =>
    rcases commit_none tx (s := s) (d := d) with ⟨p, he⟩ | ⟨hw, s'', d'', ho, hv⟩
    · cases he.symm.trans h
      rfl
    · cases ho.symm.trans h
  | _ => simp_all [answer]

end Directory

-- ---- either way ----------------------------------------------------------

namespace Store

theorem Backing.answer_ok {b b' : Backing} {r : Request α} (h : Backing.answer r b = (.ok a, b')) :
    r.Replies b.entries? a ∧ ∀ m, b'.entries? m = r.effect b.entries? m := by
  cases b with
  | memory m =>
    simp only [answer, Prod.mk.injEq] at h
    obtain ⟨ha, rfl⟩ := h
    exact Memory.answer_ok (Prod.ext ha rfl)
  | directory s d =>
    simp only [answer, Prod.mk.injEq] at h
    obtain ⟨ha, rfl⟩ := h
    exact Directory.answer_ok (Prod.ext ha rfl)

theorem Backing.answer_error {b b' : Backing} {r : Request α} (hr : r.kind ≠ .removeMap)
    (h : Backing.answer r b = (.error p, b')) : b'.entries? = b.entries? := by
  cases b with
  | memory m =>
    simp only [answer, Prod.mk.injEq] at h
    obtain ⟨ha, rfl⟩ := h
    exact congrArg (Backing.memory · |>.entries?) (Memory.answer_error (Prod.ext ha rfl))
  | directory s d =>
    simp only [answer, Prod.mk.injEq] at h
    obtain ⟨ha, rfl⟩ := h
    exact congrArg Directory.entries? (Directory.answer_error hr (Prod.ext ha rfl))

/-- A call that succeeds answers what the view says and changes it as its effect says. -/
theorem replies_of_ok {s s' : Store} {r : Request α} (h : s.answer r = (.ok a, s')) :
    r.Replies s.entries? a ∧ s'.entries? = r.effect s.entries? := by
  unfold answer at h
  split at h
  · cases h
  · simp only [Prod.mk.injEq] at h
    obtain ⟨ha, rfl⟩ := h
    obtain ⟨hr, he⟩ := Backing.answer_ok (Prod.ext ha rfl)
    exact ⟨hr, funext he⟩

/-- A call that fails changes nothing, unless it was to remove a map. -/
theorem entries?_of_error {s s' : Store} {r : Request α} (hr : r.kind ≠ .removeMap)
    (h : s.answer r = (.error p, s')) : s'.entries? = s.entries? := by
  unfold answer at h
  split at h
  · cases h
    rfl
  · simp only [Prod.mk.injEq] at h
    obtain ⟨ha, rfl⟩ := h
    exact Backing.answer_error hr (Prod.ext ha rfl)

theorem Backing.removeMap_error {b b' : Backing}
    (h : Backing.answer (.removeMap name) b = (.error p, b')) :
    b'.entries? = b.entries? ∨ b'.entries? = (Request.removeMap name).effect b.entries? := by
  cases b with
  | memory m =>
    simp only [answer, Prod.mk.injEq] at h
    obtain ⟨ha, rfl⟩ := h
    exact .inl (congrArg (Backing.memory · |>.entries?) (Memory.answer_error (Prod.ext ha rfl)))
  | directory s d =>
    simp only [answer, Prod.mk.injEq] at h
    obtain ⟨ha, rfl⟩ := h
    exact .inr (Directory.removeMap_error (Prod.ext ha rfl))

/-- A map that cannot be removed may be gone all the same. -/
theorem entries?_of_removeMap_error {s s' : Store}
    (h : s.answer (.removeMap name) = (.error p, s')) :
    s'.entries? = s.entries? ∨ s'.entries? = (Request.removeMap name).effect s.entries? := by
  unfold answer at h
  split at h
  · cases h
    exact .inl rfl
  · simp only [Prod.mk.injEq] at h
    obtain ⟨ha, rfl⟩ := h
    exact Backing.removeMap_error (Prod.ext ha rfl)

def isOnline (s : Store) : Bool :=
  match s.backing with
  | .memory m => !m.offline
  | .directory .. => true

def Serves (s : Store) (r : Request α) : Prop := s.refuses r = false ∧ s.isOnline = true

theorem refuses_of_faults {s : Store} (h : ∀ f ∈ s.faults, f.kind = .commit) {r : Request α}
    (hr : r.kind ≠ .commit) : s.refuses r = false := by
  refine List.any_eq_false.mpr fun f hf hfr => ?_
  rw [h f hf] at hfr
  exact hr (eq_of_beq (Bool.and_eq_true_iff.mp hfr).1).symm

def isAvailable (s : Store) : Bool := s.faults.isEmpty && s.isOnline

theorem serves_of_isAvailable {s : Store} (h : s.isAvailable = true) (r : Request α) :
    s.Serves r := by
  simp only [isAvailable, Bool.and_eq_true, List.isEmpty_iff] at h
  exact ⟨by simp [refuses, h.1], h.2⟩

theorem answer_get {s : Store} (h : s.Serves (.get m key)) (hm : s.entries? m = some es) :
    s.answer (.get m key) = (.ok es[key]?, s) := by
  obtain ⟨backing, faults⟩ := s
  obtain ⟨hr, ho⟩ := h
  unfold answer
  rw [if_neg (by simp [hr])]
  cases backing with
  | memory mem =>
    have hmap : mem.map? m = .ok es := Memory.map?_ok.mpr hm
    simp only [isOnline, Bool.not_eq_true'] at ho
    simp [Backing.answer, Memory.answer, ho, hmap, Except.map]
  | directory d disk =>
    obtain ⟨log, hl, rfl⟩ := Option.map_eq_some_iff.mp hm
    have hlog : d.log? m = .ok log := Directory.log?_ok.mpr hl
    simp [Backing.answer, Directory.answer, hlog, Except.map]

theorem answer_get_of_gone {s : Store} (h : s.Serves (.get m key)) (hm : s.entries? m = none) :
    s.answer (.get m key) = (.error (.mapNotFound m), s) := by
  obtain ⟨backing, faults⟩ := s
  obtain ⟨hr, ho⟩ := h
  unfold answer
  rw [if_neg (by simp [hr])]
  cases backing with
  | memory mem =>
    have hm : mem.maps[m]? = none := hm
    simp only [isOnline, Bool.not_eq_true'] at ho
    simp [Backing.answer, Memory.answer, ho, Memory.map?, hm, Except.map]
  | directory d disk =>
    have hm : d.logs[m]? = none := Option.map_eq_none_iff.mp hm
    simp [Backing.answer, Directory.answer, Directory.log?, hm, Except.map]

end Store

end EventStore
