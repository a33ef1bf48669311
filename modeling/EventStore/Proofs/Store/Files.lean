import EventStore.Proofs.Store.Recovery
import EventStore.Proofs.Store.View

/-!
# Directories of logs

As long as nobody else writes to it, a directory has a file for each of its maps and no other that
could be taken for one, and each file holds what the map does (`Directory.Intact`). Every call keeps
that, and opening the directory again finds the same maps.
-/

namespace EventStore

open Std

theorem Path.mem_lineage {path q : Path} : q ∈ path.lineage ↔ q <+: path := by
  rw [lineage, List.mem_map]
  constructor
  · rintro ⟨n, -, rfl⟩
    exact List.take_prefix ..
  · intro h
    refine ⟨q.length, List.mem_range.mpr (Nat.lt_succ_of_le h.length_le), ?_⟩
    exact (List.prefix_iff_eq_take.mp h).symm

namespace Disk

variable {d d' : Disk} {path : Path} {n : Nat}

theorem checkDirectory_ok :
    d.checkDirectory path = .ok () ↔ ∀ q, q <+: path → d.nodes[q]? = some .directory := by
  simp only [← Path.mem_lineage]
  unfold checkDirectory
  split
  · next h => simpa using h
  · next q h =>
    simp only [reduceCtorEq, false_iff]
    intro hall
    have hq := List.find?_some h
    rw [hall q (List.mem_of_find?_eq_some h)] at hq
    simp at hq

theorem find_ok : d.find path = .ok n ↔ d.nodes[path]? = some (.file n) := by
  refine ⟨fun h => ?_, find_of_getElem?⟩
  unfold find node at h
  split at h
  · next hn =>
    split at hn
    · next hnode =>
      cases hn
      cases h
      exact hnode
    · split at hn <;> cases hn
  · cases h
  · cases h

theorem find_of_none (hn : d.nodes[path]? = none) (hd : d.checkDirectory path.dropLast = .ok ()) :
    d.find path = .error path.absence := by
  simp only [find, node, hn, hd]

theorem getElem?_foldl_directories (ps : List Path) (nodes : ExtTreeMap Path Node compare)
    (q : Path) :
    (ps.foldl (fun ns p => ns.insert p .directory) nodes)[q]? =
      if q ∈ ps then some .directory else nodes[q]? := by
  induction ps generalizing nodes with
  | nil => simp
  | cons p ps ih =>
    rw [List.foldl_cons, ih, ExtTreeMap.getElem?_insert]
    by_cases hp : p = q
    · simp [hp]
    · simp [hp, Ne.symm hp]

/-- A path has its directories afterwards, and nothing else has changed. -/
theorem createDirectories_ok (h : d.createDirectories path = .ok d') :
    path.any Path.isLong = false ∧ (∀ q, q <+: path → d'.nodes[q]? = some .directory) ∧
      (∀ q, ¬ q <+: path → d'.nodes[q]? = d.nodes[q]?) := by
  unfold createDirectories at h
  split at h
  · cases h
  split at h
  · cases h
  next hs =>
    cases h
    refine ⟨by simpa using hs, fun q hq => ?_, fun q hq => ?_⟩ <;>
      rw [← Path.mem_lineage] at hq <;>
      simp only [getElem?_foldl_directories, hq, if_true, if_false]

theorem createDirectories_of_there (hs : path.any Path.isLong = false)
    (hd : ∀ q, q <+: path → d.nodes[q]? = some .directory) : d.createDirectories path = .ok d := by
  have hfile : path.lineage.find? (fun q => d.nodes[q]?.any Node.isFile) = none := by
    rw [List.find?_eq_none]
    intro q hq
    rw [hd q (Path.mem_lineage.mp hq)]
    simp [Node.isFile]
  simp only [createDirectories, hfile, hs, Bool.false_eq_true, if_false]
  congr 2
  refine ExtTreeMap.ext_getElem? fun q => ?_
  rw [getElem?_foldl_directories]
  split
  · next hq => exact (hd q (Path.mem_lineage.mp hq)).symm
  · rfl

theorem mem_list {file : String} : file ∈ d.list path ↔ (d.nodes[path ++ [file]]?).isSome := by
  simp only [list, List.mem_filterMap, ExtTreeMap.mem_keys, ExtTreeMap.isSome_getElem?_iff_mem]
  constructor
  · rintro ⟨p, hp, hf⟩
    split at hf
    · next hd =>
      obtain ⟨front, rfl⟩ := List.getLast?_eq_some_iff.mp hf
      rw [List.dropLast_concat] at hd
      exact hd ▸ hp
    · cases hf
  · intro hp
    exact ⟨_, hp, by simp⟩

end Disk

namespace MapLog

variable {log : MapLog} {txs : List (List Record)} {d d' : Disk}

theorem Holds.of_disk (h : log.Holds txs d) (hn : d'.nodes[log.path]? = d.nodes[log.path]?)
    (hb : d'.bytes log.file = d.bytes log.file) : log.Holds txs d' :=
  ⟨Disk.find_ok.mpr (hn.trans (Disk.find_ok.mp h.found)), hb.trans h.bytes, h.entries, h.valid⟩

theorem append_disk (log : MapLog) (sync : Bool) (rs : List Record) (d : Disk) :
    (log.append .none sync rs d).2.2 = d.append log.file (Frame.encode rs) := by
  simp [append, writeFrame, Hazard.none]

end MapLog

namespace Directory

theorem mapOfFile?_eq_some {file name : String} :
    mapOfFile? file = some name ↔ file = name ++ extension ∧ validName name = true := by
  have hname (name : String) : String.ofList ((name ++ extension).toList.take
      ((name ++ extension).length - extension.length)) = name := by
    rw [String.length_append, Nat.add_sub_cancel, String.toList_append, ← String.length_toList,
      List.take_left, String.ofList_toList]
  unfold mapOfFile?
  constructor
  · intro h
    dsimp only at h
    split at h
    · next hf =>
      cases h
      exact hf
    · cases h
  · rintro ⟨rfl, hv⟩
    simp only [hname, hv, and_self, if_true]

variable {fits : List Record → Prop} {s s' : Directory} {d d' : Disk} {name : String}
  {log : MapLog} {root : Path}

theorem fileOf_inj {name' : String} (h : fileOf root name = fileOf root name') : name = name' := by
  have := List.append_cancel_left h
  simpa [String.append_left_inj] using this

theorem not_fileOf_prefix : ¬ fileOf root name <+: root := by
  intro h
  have hle := h.length_le
  rw [fileOf, List.length_append, List.length_singleton] at hle
  omega

/-- The map is in the file of its name, and its file holds transactions that fit. -/
structure Filed (fits : List Record → Prop) (root : Path) (name : String) (log : MapLog)
    (d : Disk) : Prop where
  named : validName name = true
  path : log.path = fileOf root name
  below : log.file < d.next
  holds : ∃ txs, (∀ rs ∈ txs, fits rs) ∧ log.Holds txs d

/-- Each map of the directory has a file of its own, which holds what the map does, and there are no
other files that could be taken for maps. -/
structure Intact (fits : List Record → Prop) (s : Directory) (d : Disk) : Prop where
  home : ∀ q, q <+: s.root → d.nodes[q]? = some .directory
  short : s.root.any Path.isLong = false
  filed : ∀ {name log}, s.logs[name]? = some log → Filed fits s.root name log d
  apart : ∀ {name name' : String} {log log' : MapLog}, s.logs[name]? = some log →
    s.logs[name']? = some log' → log.file = log'.file → name = name'
  absent : ∀ {name}, validName name = true → s.logs[name]? = none →
    d.nodes[fileOf s.root name]? = none

theorem Filed.of_disk (h : Filed fits root name log d)
    (hn : d'.nodes[fileOf root name]? = d.nodes[fileOf root name]?)
    (hb : d'.bytes log.file = d.bytes log.file) (hx : d.next ≤ d'.next) :
    Filed fits root name log d' := by
  obtain ⟨txs, hf, hh⟩ := h.holds
  exact { h with
    below := Nat.lt_of_lt_of_le h.below hx
    holds := ⟨txs, hf, hh.of_disk (h.path ▸ hn) hb⟩ }

namespace Intact

theorem root_directory (h : s.Intact fits d) :
    d.checkDirectory (fileOf s.root name).dropLast = .ok () := by
  rw [fileOf, List.dropLast_concat]
  exact Disk.checkDirectory_ok.mpr h.home

theorem of_sync (h : s.Intact fits d) (sync : Bool) : Intact fits { s with sync := sync } d :=
  { h with }

theorem absence (h : s.Intact fits d) : (fileOf s.root name).absence =
    if Path.isLong (name ++ extension) then .nameTooLong else .notFound := by
  simp only [Path.absence, fileOf, List.any_append, h.short, Bool.false_or, List.any_cons,
    List.any_nil, Bool.or_false]

-- ---- what calls do -------------------------------------------------------

/-- A new map has a new file. -/
theorem made (h : s.Intact fits d) (hv : validName name = true) (hn : s.logs[name]? = none) :
    Intact fits { s with logs := s.logs.insert name ⟨fileOf s.root name, d.next, ∅, 0⟩ }
      ⟨d.nodes.insert (fileOf s.root name) (.file d.next), d.contents.insert d.next [],
        d.next + 1⟩ := by
  generalize hd : (⟨d.nodes.insert (fileOf s.root name) (.file d.next),
    d.contents.insert d.next [], d.next + 1⟩ : Disk) = d'
  have hself : d'.nodes[fileOf s.root name]? = some (.file d.next) := by
    rw [← hd]
    exact ExtTreeMap.getElem?_insert_self
  have hother {p : Path} (hp : fileOf s.root name ≠ p) : d'.nodes[p]? = d.nodes[p]? := by
    rw [← hd]
    exact getElem?_insert_of_ne hp.symm _
  have hbytes {n : Nat} : d'.bytes n = if d.next = n then [] else d.bytes n := by
    rw [← hd]
    simp only [Disk.bytes, ExtTreeMap.getD_insert, LawfulEqOrd.compare_eq_iff_eq]
  have hnext : d'.next = d.next + 1 := by rw [← hd]
  refine {
    home := fun q hq => ?_
    short := h.short
    filed := fun hl => ?_
    apart := fun hl hl' hf => ?_
    absent := fun hv' hl => ?_ }
  · rw [hother]
    · exact h.home q hq
    · rintro rfl
      exact not_fileOf_prefix hq
  · rcases getElem?_insert_eq_some.mp hl with ⟨rfl, rfl⟩ | ⟨hne, hl⟩
    · refine ⟨hv, rfl, hnext ▸ Nat.lt_succ_self _, [], by simp, ?_, ?_, rfl, rfl⟩
      · exact Disk.find_of_getElem? hself
      · exact hbytes.trans (if_pos rfl)
    · refine (h.filed hl).of_disk (hother fun he => hne (fileOf_inj he).symm) ?_
        (hnext ▸ Nat.le_succ _)
      rw [hbytes, if_neg (Nat.ne_of_gt (h.filed hl).below)]
  · rcases getElem?_insert_eq_some.mp hl with ⟨rfl, rfl⟩ | ⟨-, hm⟩ <;>
      rcases getElem?_insert_eq_some.mp hl' with ⟨rfl, rfl⟩ | ⟨-, hm'⟩
    · rfl
    · exact absurd hf.symm (Nat.ne_of_lt (h.filed hm').below)
    · exact absurd hf (Nat.ne_of_lt (h.filed hm).below)
    · exact h.apart hm hm' hf
  · obtain ⟨hne, hl⟩ := getElem?_insert_eq_none.mp hl
    rw [hother fun he => hne (fileOf_inj he).symm]
    exact h.absent hv' hl

theorem dropped (h : s.Intact fits d) (hl : s.logs[name]? = some log) :
    Intact fits { s with logs := s.logs.erase name }
      { d with nodes := d.nodes.erase (fileOf s.root name) } := by
  have hother {p : Path} (hp : fileOf s.root name ≠ p) :
      (d.nodes.erase (fileOf s.root name))[p]? = d.nodes[p]? :=
    getElem?_erase_of_ne hp.symm
  refine {
    home := fun q hq => ?_
    short := h.short
    filed := fun hm => ?_
    apart := fun hm hm' =>
      h.apart (getElem?_erase_eq_some.mp hm).2 (getElem?_erase_eq_some.mp hm').2
    absent := fun {m} hv hm => ?_ }
  · refine (hother ?_).trans (h.home q hq)
    rintro rfl
    exact not_fileOf_prefix hq
  · obtain ⟨hne, hm⟩ := getElem?_erase_eq_some.mp hm
    exact (h.filed hm).of_disk (hother fun he => hne (fileOf_inj he).symm) rfl (Nat.le_refl _)
  · by_cases he : m = name
    · subst he
      exact ExtTreeMap.getElem?_erase_self
    · have hm : (s.logs.erase name)[m]? = none := hm
      rw [getElem?_erase_of_ne he] at hm
      exact (hother fun hf => he (fileOf_inj hf).symm).trans (h.absent hv hm)

theorem appended (h : s.Intact fits d) (hl : s.logs[name]? = some log) {rs : List Record}
    (hf : fits rs) {log' : MapLog} (ha : log.append .none s.sync rs d = (.ok (), log', d')) :
    Intact fits { s with logs := s.logs.insert name log' } d' := by
  obtain ⟨hv, hp, hb, txs, hfits, hh⟩ := h.filed hl
  -- Logs know their files by number, so it is the numbers that keep them apart here.
  obtain ⟨log₁, d₁, ha', hh', hp', hfile⟩ := hh.append s.sync rs
  obtain rfl : d' = d.append log.file (Frame.encode rs) := by
    rw [← MapLog.append_disk log s.sync, ha]
  cases ha.symm.trans ha'
  have hbytes {n : Nat} (hn : log.file ≠ n) :
      (d.append log.file (Frame.encode rs)).bytes n = d.bytes n := by
    rw [Disk.append, Disk.bytes_setBytes, if_neg hn]
  refine { h with
    filed := fun hm => ?_
    apart := fun hm hm' => ?_
    absent := fun hv hm => h.absent hv (getElem?_insert_eq_none.mp hm).2 }
  · rcases getElem?_insert_eq_some.mp hm with ⟨rfl, rfl⟩ | ⟨hne, hm⟩
    · refine ⟨hv, hp'.trans hp, hfile ▸ hb, txs ++ [rs], ?_, hh'⟩
      simpa [or_imp, forall_and] using ⟨hfits, hf⟩
    · exact (h.filed hm).of_disk rfl (hbytes fun he => hne (h.apart hl hm he).symm) (Nat.le_refl _)
  · rcases getElem?_insert_eq_some.mp hm with ⟨rfl, rfl⟩ | ⟨-, hm₁⟩ <;>
      rcases getElem?_insert_eq_some.mp hm' with ⟨rfl, rfl⟩ | ⟨-, hm₂⟩
    · exact fun _ => rfl
    · exact fun hf => h.apart hl hm₂ (hfile ▸ hf)
    · exact fun hf => h.apart hm₁ hl (hfile ▸ hf)
    · exact h.apart hm₁ hm₂

theorem openMap_of_some (hv : validName name = true) (hl : s.logs[name]? = some log) :
    s.openMap name d = (.ok (), s, d) := by
  have hc : s.logs.contains name = true := by
    rw [ExtTreeMap.contains_eq_isSome_getElem?, hl]
    rfl
  simp only [Directory.openMap, hv, hc, Bool.not_true, Bool.false_eq_true, if_false, if_true]

theorem openMap_eq (h : s.Intact fits d) (hv : validName name = true) (hn : s.logs[name]? = none) :
    s.openMap name d =
      if Path.isLong (name ++ extension) then (.error (.ofDisk .nameTooLong), s, d)
      else (.ok (), { s with logs := s.logs.insert name ⟨fileOf s.root name, d.next, ∅, 0⟩ },
        ⟨d.nodes.insert (fileOf s.root name) (.file d.next), d.contents.insert d.next [],
          d.next + 1⟩) := by
  have hc : s.logs.contains name = false := by
    rw [ExtTreeMap.contains_eq_isSome_getElem?, hn]
    rfl
  have hfind := Disk.find_of_none (h.absent hv hn) h.root_directory
  rw [h.absence] at hfind
  simp only [openMap, hv, hc, MapLog.create, Disk.openFile, hfind, Bool.not_true,
    Bool.false_eq_true, if_false]
  by_cases hl : Path.isLong (name ++ extension) = true
  · simp only [hl, if_true]
  · simp only [hl, Bool.false_eq_true, if_false, h.root_directory]

theorem openMap_fst (h : s.Intact fits d) (hv : validName name = true)
    (hl : Path.isLong (name ++ extension) = false) : (s.openMap name d).1 = .ok () := by
  cases hn : s.logs[name]? with
  | none => simp only [h.openMap_eq hv hn, hl, Bool.false_eq_true, if_false]
  | some log => rw [openMap_of_some hv hn]

theorem removeMap_eq (h : s.Intact fits d) (hl : s.logs[name]? = some log) :
    removeMap .none s name d = (.ok true, { s with logs := s.logs.erase name },
      { d with nodes := d.nodes.erase (fileOf s.root name) }) := by
  obtain ⟨-, hp, -, txs, -, hh⟩ := h.filed hl
  have hfind := hh.found
  rw [hp] at hfind
  simp only [removeMap, hl, hp, Hazard.none, Bool.false_eq_true, if_false, Disk.removeFile, hfind,
    Except.map]

theorem openMap (h : s.Intact fits d) {a : Except StoreError Unit}
    (ho : s.openMap name d = (a, s', d')) : s'.Intact fits d' := by
  by_cases hv : validName name = true
  · cases hn : s.logs[name]? with
    | none =>
      rw [h.openMap_eq hv hn] at ho
      split at ho <;> cases ho
      · exact h
      · exact h.made hv hn
    | some log =>
      rw [openMap_of_some hv hn] at ho
      cases ho
      exact h
  · simp only [Directory.openMap, hv, Bool.not_false, if_true] at ho
    cases ho
    exact h

theorem removeMap (h : s.Intact fits d) {a : Except StoreError Bool}
    (hr : removeMap .none s name d = (a, s', d')) : s'.Intact fits d' := by
  cases hl : s.logs[name]? with
  | none =>
    simp only [Directory.removeMap, hl] at hr
    cases hr
    exact h
  | some log =>
    rw [h.removeMap_eq hl] at hr
    cases hr
    exact h.dropped hl

theorem appendAll (h : s.Intact fits d) {tx : Transaction} (hf : ∀ m, fits (tx.recordsOf m))
    {names : List String} {a : Except StoreError Unit}
    (ha : appendAll (fun _ => .none) tx names s d = (a, s', d')) : s'.Intact fits d' := by
  induction names generalizing s d with
  | nil =>
    cases ha
    exact h
  | cons name rest ih =>
    simp only [Directory.appendAll] at ha
    split at ha
    · cases ha
      exact h
    next log hl =>
      obtain ⟨log', d₁, happ, -⟩ := append_none log s.sync (tx.recordsOf name) d
      rw [happ] at ha
      exact ih (h.appended hl (hf name) happ) ha

end Intact

end Directory

/-- What the call writes to each map fits. -/
def Request.Fits (fits : List Record → Prop) : Request α → Prop
  | .commit tx => ∀ m, fits (tx.recordsOf m)
  | _ => True

namespace Directory

variable {fits : List Record → Prop} {s s' : Directory} {d d' : Disk} {name : String}

theorem Intact.answer (h : s.Intact fits d) {r : Request α} (hr : r.Fits fits)
    {a : Except StoreError α} (ha : s.answer (fun _ => .none) r d = (a, s', d')) :
    s'.Intact fits d' := by
  cases r with
  | openMap name => exact h.openMap ha
  | removeMap name => exact h.removeMap ha
  | commit tx =>
    simp only [Directory.answer, commit] at ha
    split at ha
    · cases ha
      exact h
    · exact h.appendAll hr ha
  | _ =>
    cases ha
    exact h

theorem Intact.kind_ne_of_error (h : s.Intact fits d) {r : Request α} {p : StoreError}
    (ha : s.answer (fun _ => .none) r d = (.error p, s', d')) : r.kind ≠ .removeMap := by
  cases r with
  | removeMap name =>
    simp only [Directory.answer] at ha
    cases hl : s.logs[name]? with
    | none =>
      simp only [Directory.removeMap, hl] at ha
      cases ha
    | some log =>
      rw [h.removeMap_eq hl] at ha
      cases ha
  | _ =>
    intro hk
    cases hk

-- ---- opening -------------------------------------------------------------

theorem mem_filterMap_list {root : Path} :
    name ∈ (d.list root).filterMap mapOfFile? ↔
      validName name = true ∧ (d.nodes[fileOf root name]?).isSome := by
  simp only [List.mem_filterMap, mapOfFile?_eq_some, Disk.mem_list]
  constructor
  · rintro ⟨_, hf, rfl, hv⟩
    exact ⟨hv, hf⟩
  · rintro ⟨hv, hf⟩
    exact ⟨_, hf, rfl, hv⟩

theorem replayAll_ok {root : Path} {names : List String} (found : Logs)
    (h : ∀ name ∈ names, ∃ log, MapLog.replay d (fileOf root name) = .ok (log, d)) :
    ∃ all, replayAll root names found d = (.ok all, d) ∧
      (∀ m ∈ names, ∃ log, all[m]? = some log ∧
        MapLog.replay d (fileOf root m) = .ok (log, d)) ∧
      ∀ m ∉ names, all[m]? = found[m]? := by
  induction names generalizing found with
  | nil => exact ⟨found, rfl, by simp, fun _ _ => rfl⟩
  | cons name rest ih =>
    obtain ⟨⟨log, hr⟩, hrest⟩ := List.forall_mem_cons.mp h
    obtain ⟨all, ha, hin, hout⟩ := ih (found.insert name log) hrest
    refine ⟨all, by simp only [replayAll, hr, ha], fun m hm => ?_, fun m hm => ?_⟩
    · by_cases hmr : m ∈ rest
      · exact hin m hmr
      · obtain rfl : m = name := (List.mem_cons.mp hm).resolve_right hmr
        exact ⟨log, (hout m hmr).trans ExtTreeMap.getElem?_insert_self, hr⟩
    · obtain ⟨hne, hmr⟩ := not_or.mp (mt List.mem_cons.mpr hm)
      rw [hout m hmr, getElem?_insert_of_ne hne]

theorem Intact.filed_iff (h : s.Intact fits d) :
    name ∈ (d.list s.root).filterMap mapOfFile? ↔ (s.logs[name]?).isSome := by
  rw [mem_filterMap_list]
  cases hl : s.logs[name]? with
  | none =>
    simp only [Option.isSome_none, Bool.false_eq_true, iff_false, not_and]
    intro hv
    simp [h.absent hv hl]
  | some log =>
    obtain ⟨hv, hp, -, txs, -, hh⟩ := h.filed hl
    have hnode := Disk.find_ok.mp hh.found
    rw [hp] at hnode
    simp [hv, hnode]

/-- Opening the directory again finds what it holds, and leaves the disk as it is. -/
theorem Intact.openAt_root (h : s.Intact fits d) (hf : ∀ rs, fits rs → Frame.Fits rs)
    (sync : Bool) : openAt s.root sync d = (.ok { s with sync := sync }, d) := by
  have hread : ∀ name ∈ (d.list s.root).filterMap mapOfFile?, ∃ log, s.logs[name]? = some log ∧
      MapLog.replay d (fileOf s.root name) = .ok (log, d) := by
    intro name hname
    obtain ⟨log, hl⟩ := Option.isSome_iff_exists.mp (h.filed_iff.mp hname)
    obtain ⟨-, hp, -, txs, hfits, hh⟩ := h.filed hl
    exact ⟨log, hl, hp ▸ hh.replay fun rs hrs => hf rs (hfits rs hrs)⟩
  obtain ⟨all, ha, hin, hout⟩ := replayAll_ok ∅ fun name hname => (hread name hname).imp
    fun _ => And.right
  have hall : all = s.logs := by
    refine ExtTreeMap.ext_getElem? fun m => ?_
    by_cases hm : m ∈ (d.list s.root).filterMap mapOfFile?
    · obtain ⟨log, hl, hr⟩ := hread m hm
      obtain ⟨log', hl', hr'⟩ := hin m hm
      cases hr.symm.trans hr'
      rw [hl, hl']
    · rw [hout m hm, ExtTreeMap.getElem?_empty]
      rw [h.filed_iff, Bool.not_eq_true, Option.isSome_eq_false_iff,
        Option.isNone_iff_eq_none] at hm
      exact hm.symm
  simp only [openAt, Disk.createDirectories_of_there h.short h.home, ha, hall]

theorem intact_of_openAt {root : Path} {sync : Bool} (ho : openAt root sync d = (.ok s, d'))
    (hn : ∀ name, validName name = true → d.nodes[fileOf root name]? = none) :
    s.Intact fits d' ∧ s.logs = ∅ := by
  unfold openAt at ho
  split at ho
  · cases ho
  next d₁ hd =>
    obtain ⟨hs, hhome, hsame⟩ := Disk.createDirectories_ok hd
    have hnone (name : String) (hv : validName name = true) : d₁.nodes[fileOf root name]? = none :=
      (hsame _ not_fileOf_prefix).trans (hn name hv)
    have hnames : (d₁.list root).filterMap mapOfFile? = [] := by
      refine List.eq_nil_iff_forall_not_mem.mpr fun name hname => ?_
      obtain ⟨hv, hf⟩ := mem_filterMap_list.mp hname
      rw [hnone name hv] at hf
      cases hf
    rw [hnames] at ho
    cases ho
    have hempty (m : String) : (∅ : Logs)[m]? = none := ExtTreeMap.getElem?_empty
    refine ⟨⟨hhome, hs, fun hl => ?_, fun hl => ?_, fun hv _ => hnone _ hv⟩, rfl⟩
    · rw [hempty] at hl
      cases hl
    · rw [hempty] at hl
      cases hl

end Directory

end EventStore
