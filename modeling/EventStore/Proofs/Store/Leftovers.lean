import EventStore.Proofs.Store.Alike

/-!
# Files that could not be removed

A map is forgotten before its file is removed. If the file cannot be removed, a map made anew under
the same name goes on in it and begins empty, while a replay finds first what the file had held. So
what a map shows is what is found when the directory is opened again, exactly if its file was new or
empty when the map was made (`Directory.Site.replayed_iff_of_run`), and it was unless a removal
failed.
-/

namespace EventStore

open Std

namespace Disk

variable {d d' : Disk} {path : Path} {n : Nat} {txs : List (List Record)}

/-- What the file at a path holds; nothing if there is none. -/
def held (d : Disk) (path : Path) : Bytes := (d.read path).toOption.getD []

theorem held_of_file (h : d.nodes[path]? = some (.file n)) : d.held path = d.bytes n := by
  rw [held, read, find_ok.mpr h]
  rfl

theorem held_of_none (h : d.nodes[path]? = none) : d.held path = [] := by
  cases hf : d.find path with
  | ok n => cases h.symm.trans (find_ok.mp hf)
  | error p => rw [held, read, hf]; rfl

/-- The file at a path is opened, or made if there is none. Nothing else changes. -/
structure Opens (d : Disk) (path : Path) (n : Nat) (d' : Disk) : Prop where
  node : d'.nodes[path]? = some (.file n)
  nodes : ∀ p ≠ path, d'.nodes[p]? = d.nodes[p]?
  held : d'.bytes n = d.held path
  bytes : ∀ m < d.next, d'.bytes m = d.bytes m
  next : d.next ≤ d'.next
  origin : d.nodes[path]? = some (.file n) ∨
    d.nodes[path]? = none ∧ d.next ≤ n ∧ n < d'.next

theorem opens_of_file (h : d.nodes[path]? = some (.file n)) : d.Opens path n d :=
  ⟨h, fun _ _ => rfl, (held_of_file h).symm, fun _ _ => rfl, Nat.le_refl _, .inl h⟩

theorem opens_of_none (h : d.nodes[path]? = none) :
    d.Opens path d.next
      ⟨d.nodes.insert path (.file d.next), d.contents.insert d.next [], d.next + 1⟩ where
  node := ExtTreeMap.getElem?_insert_self
  nodes p hp := getElem?_insert_of_ne hp _
  held := by
    rw [held_of_none h, Disk.bytes]
    exact ExtTreeMap.getD_insert_self
  bytes m hm := by
    have hne : d.next ≠ m := Nat.ne_of_gt hm
    simp only [Disk.bytes, ExtTreeMap.getD_insert, LawfulEqOrd.compare_eq_iff_eq, if_neg hne]
  next := Nat.le_succ _
  origin := .inr ⟨h, Nat.le_refl _, Nat.lt_succ_self _⟩

theorem openFile_opens (h : d.openFile path = .ok (n, d')) : d.Opens path n d' := by
  unfold openFile at h
  split at h
  · next hf =>
    cases h
    exact opens_of_file (find_ok.mp hf)
  · next hf =>
    have hn : d.nodes[path]? = none := by
      cases hn : d.nodes[path]? with
      | none => rfl
      | some node => cases node <;> simp [find, node, hn] at hf
    split at h
    · cases h
      exact opens_of_none hn
    · cases h
  · cases h

/-- The file holds transactions that fit. -/
structure Shelves (d : Disk) (n : Nat) (txs : List (List Record)) : Prop where
  below : n < d.next
  bytes : d.bytes n = Frame.log txs
  fits : ∀ rs ∈ txs, Frame.Fits rs

theorem Shelves.of_eq (h : d.Shelves n txs) (hb : d'.bytes n = d.bytes n)
    (hx : d.next ≤ d'.next) : d'.Shelves n txs :=
  ⟨Nat.lt_of_lt_of_le h.below hx, hb.trans h.bytes, h.fits⟩

theorem Shelves.append (h : d.Shelves n txs) {rs : List Record} (hf : Frame.Fits rs) :
    (d.append n (Frame.encode rs)).Shelves n (txs ++ [rs]) where
  below := h.below
  bytes := by rw [bytes_append, h.bytes, Frame.log_concat]
  fits := by simpa [or_imp, forall_and] using ⟨h.fits, hf⟩

theorem Shelves.replay (h : d.Shelves n txs) (hn : d.nodes[path]? = some (.file n)) :
    MapLog.replay d path =
      .ok (⟨path, n, Record.applyAll ∅ txs.flatten, (Frame.log txs).length⟩, d) := by
  have hh : MapLog.Holds ⟨path, n, Record.applyAll ∅ txs.flatten, (Frame.log txs).length⟩ txs d :=
    ⟨find_ok.mpr hn, h.bytes, rfl, rfl⟩
  exact hh.replay h.fits

end Disk

namespace Directory

/-- A use of a directory, in which the removal of a file may fail. -/
inductive Move : Type 1
  | use (u : Use)
  /-- The map is to be removed, but its file cannot be. -/
  | remain (name : String)

/-- Every frame fits. -/
def Move.Fits : Move → Prop
  | use (.call r) => r.Fits Frame.Fits
  | _ => True

/-- A directory, its disk, and for each map what its file held when the map was made. -/
structure Site where
  dir : Directory
  disk : Disk
  found : String → Bytes

namespace Site

/-- What is held by the files of the maps that a call makes. -/
def finds (s : Site) : Request α → String → Bytes
  | .openMap name => fun m =>
    if m = name ∧ s.dir.logs[name]? = none then s.disk.held (fileOf s.dir.root name)
    else s.found m
  | _ => s.found

/-- If it cannot be opened again, the directory is used as it is. -/
def move (s : Site) : Move → Site
  | .use (.call r) =>
    let (_, dir, disk) := s.dir.answer (fun _ => .none) r s.disk
    ⟨dir, disk, s.finds r⟩
  | .use (.reopen sync) =>
    match openAt s.dir.root sync s.disk with
    | (.ok dir, disk) => ⟨dir, disk, fun _ => []⟩
    | (.error _, disk) => { s with disk := disk }
  | .remain name =>
    let (_, dir, disk) := removeMap { Hazard.none with removalFails := true } s.dir name s.disk
    ⟨dir, disk, s.found⟩

def run (s : Site) (moves : List Move) : Site := moves.foldl move s

/-- The map is in the file of its name, behind what the file held when the map was made. That was
nothing, unless the file could not be removed. -/
structure Follows (remained : String → Prop) (root : Path) (name : String) (found : Bytes)
    (log : MapLog) (d : Disk) : Prop where
  named : validName name = true
  path : log.path = fileOf root name
  node : d.nodes[fileOf root name]? = some (.file log.file)
  holds : ∃ old new, found = Frame.log old ∧ d.Shelves log.file (old ++ new) ∧
    log.entries = Record.applyAll ∅ new.flatten ∧ log.validLength = (Frame.log new).length
  clean : found ≠ [] → remained name

/-- Each map has the file of its name. A file without a map is one that could not be removed. -/
structure Settled (remained : String → Prop) (s : Site) : Prop where
  home : ∀ q, q <+: s.dir.root → s.disk.nodes[q]? = some .directory
  short : s.dir.root.any Path.isLong = false
  shelved : ∀ {name node}, validName name = true →
    s.disk.nodes[fileOf s.dir.root name]? = some node →
      ∃ n txs, node = .file n ∧ s.disk.Shelves n txs
  apart : ∀ {name name' n}, validName name = true → validName name' = true →
    s.disk.nodes[fileOf s.dir.root name]? = some (.file n) →
      s.disk.nodes[fileOf s.dir.root name']? = some (.file n) → name = name'
  follows : ∀ {name log}, s.dir.logs[name]? = some log →
    Follows remained s.dir.root name (s.found name) log s.disk
  left : ∀ {name}, validName name = true → s.dir.logs[name]? = none →
    s.disk.nodes[fileOf s.dir.root name]? ≠ none → remained name

variable {remained : String → Prop} {s : Site} {name : String} {log : MapLog} {n : Nat} {d' : Disk}

theorem Follows.of_eq {found : Bytes} {root : Path} {d : Disk}
    (h : Follows remained root name found log d)
    (hn : d'.nodes[fileOf root name]? = d.nodes[fileOf root name]?)
    (hb : d'.bytes log.file = d.bytes log.file) (hx : d.next ≤ d'.next) :
    Follows remained root name found log d' := by
  obtain ⟨old, new, ho, hs, hheld⟩ := h.holds
  exact { h with node := hn.trans h.node, holds := ⟨old, new, ho, hs.of_eq hb hx, hheld⟩ }

theorem Follows.below {found : Bytes} {root : Path} {d : Disk}
    (h : Follows remained root name found log d) : log.file < d.next := by
  obtain ⟨_, _, -, hs, -⟩ := h.holds
  exact hs.below

namespace Settled

-- ---- making maps ---------------------------------------------------------

/-- What was found for a map that is not there does not matter. -/
theorem finding (h : Settled remained s) (hn : s.dir.logs[name]? = none) (f : String → Bytes)
    (hf : ∀ m ≠ name, f m = s.found m) : Settled remained { s with found := f } := by
  refine { h with follows := fun {m log} hl => ?_ }
  have hne : m ≠ name := by
    rintro rfl
    cases hn.symm.trans hl
  show Follows _ _ _ (f m) _ _
  rw [hf m hne]
  exact h.follows hl

theorem shelves_opened (h : Settled remained s) (hv : validName name = true)
    (ho : s.disk.Opens (fileOf s.dir.root name) n d') : ∃ txs, d'.Shelves n txs := by
  rcases ho.origin with hf | ⟨hf, -, hlt⟩
  · obtain ⟨_, txs, he, hs⟩ := h.shelved hv hf
    cases he
    exact ⟨txs, hs.of_eq (ho.bytes n hs.below) ho.next⟩
  · exact ⟨[], hlt, ho.held.trans (Disk.held_of_none hf), by simp⟩

theorem apart_opened (h : Settled remained s) (hv : validName name = true)
    (ho : s.disk.Opens (fileOf s.dir.root name) n d') {m : String} (hm : m ≠ name)
    (hv' : validName m = true) : s.disk.nodes[fileOf s.dir.root m]? ≠ some (.file n) := by
  intro hf'
  rcases ho.origin with hf | ⟨-, hle, -⟩
  · exact hm (h.apart hv' hv hf' hf)
  · obtain ⟨_, _, he, hs⟩ := h.shelved hv' hf'
    cases he
    exact absurd hs.below (Nat.not_lt.mpr hle)

/-- A map begins empty, over whatever its file holds. -/
theorem made (h : Settled remained s) (hv : validName name = true) (hn : s.dir.logs[name]? = none)
    (ho : s.disk.Opens (fileOf s.dir.root name) n d') {f : String → Bytes}
    (hself : f name = s.disk.held (fileOf s.dir.root name)) (hother : ∀ m ≠ name, f m = s.found m) :
    Settled remained ⟨{ s.dir with
      logs := s.dir.logs.insert name ⟨fileOf s.dir.root name, n, ∅, 0⟩ }, d', f⟩ := by
  obtain ⟨txs, hs⟩ := h.shelves_opened hv ho
  have hnodes {m : String} (hm : m ≠ name) :
      d'.nodes[fileOf s.dir.root m]? = s.disk.nodes[fileOf s.dir.root m]? :=
    ho.nodes _ fun he => hm (fileOf_inj he)
  refine {
    home := fun q hq => ?_
    short := h.short
    shelved := fun {m node} hv' hf => ?_
    apart := fun {m m' k} hv₁ hv₂ hf₁ hf₂ => ?_
    follows := fun {m log} hl => ?_
    left := fun {m} hv' hl => ?_ }
  · rw [ho.nodes q fun he => not_fileOf_prefix (he ▸ hq)]
    exact h.home q hq
  · by_cases hm : m = name
    · subst hm
      cases hf.symm.trans ho.node
      exact ⟨n, txs, rfl, hs⟩
    · obtain ⟨k, txs, rfl, hs⟩ := h.shelved hv' ((hnodes hm).symm.trans hf)
      exact ⟨k, txs, rfl, hs.of_eq (ho.bytes k hs.below) ho.next⟩
  · by_cases hm₁ : m = name <;> by_cases hm₂ : m' = name
    · rw [hm₁, hm₂]
    · subst hm₁
      cases hf₁.symm.trans ho.node
      exact absurd ((hnodes hm₂).symm.trans hf₂) (h.apart_opened hv ho hm₂ hv₂)
    · subst hm₂
      cases hf₂.symm.trans ho.node
      exact absurd ((hnodes hm₁).symm.trans hf₁) (h.apart_opened hv ho hm₁ hv₁)
    · exact h.apart hv₁ hv₂ ((hnodes hm₁).symm.trans hf₁) ((hnodes hm₂).symm.trans hf₂)
  · show Follows remained s.dir.root m (f m) log d'
    rcases getElem?_insert_eq_some.mp hl with ⟨rfl, rfl⟩ | ⟨hm, hl⟩
    · refine ⟨hv, rfl, ho.node, ⟨txs, [], ?_, ?_, rfl, rfl⟩, fun hne => h.left hv hn fun hf => ?_⟩
      · rw [hself, ← ho.held, hs.bytes]
      · rwa [List.append_nil]
      · rw [hself, Disk.held_of_none hf] at hne
        exact hne rfl
    · have hm' := h.follows hl
      rw [hother m hm]
      exact hm'.of_eq (hnodes hm) (ho.bytes _ hm'.below) ho.next
  · obtain ⟨hm, hl⟩ := getElem?_insert_eq_none.mp hl
    intro hne
    rw [hnodes hm] at hne
    exact h.left hv' hl hne

theorem openMap (h : Settled remained s) {a : Except StoreError Unit} {dir : Directory}
    (ho : s.dir.openMap name s.disk = (a, dir, d')) :
    Settled remained ⟨dir, d', s.finds (.openMap name)⟩ := by
  have hother : ∀ m ≠ name, s.finds (.openMap name) m = s.found m := fun m hm =>
    if_neg fun he => hm he.1
  unfold Directory.openMap at ho
  split at ho
  · next hv =>
    cases ho
    cases hn : s.dir.logs[name]? with
    | none => exact h.finding hn _ hother
    | some log => simp [(h.follows hn).named] at hv
  · next hv =>
    rw [Bool.not_eq_true, Bool.not_eq_false'] at hv
    split at ho
    · next hc =>
      cases ho
      obtain ⟨log, hl⟩ := Option.isSome_iff_exists.mp
        (ExtTreeMap.contains_eq_isSome_getElem?.symm.trans hc)
      have hsame : s.finds (.openMap name) = s.found := by
        funext m
        refine if_neg fun he => ?_
        cases hl.symm.trans he.2
      rwa [hsame]
    · next hc =>
      have hn : s.dir.logs[name]? = none := by
        rwa [ExtTreeMap.contains_eq_isSome_getElem?, Bool.not_eq_true,
          Option.isSome_eq_false_iff, Option.isNone_iff_eq_none] at hc
      split at ho
      · next log hcreate =>
        cases ho
        unfold MapLog.create at hcreate
        split at hcreate
        · next hopen =>
          cases hcreate
          exact h.made hv hn (Disk.openFile_opens hopen) (if_pos ⟨rfl, hn⟩) hother
        · cases hcreate
      · cases ho
        exact h.finding hn _ hother

-- ---- removing maps -------------------------------------------------------

/-- A map is forgotten, and its file is removed or remains. -/
theorem forgotten (h : Settled remained s) {nodes : ExtTreeMap Path Node compare}
    (hnodes : ∀ p ≠ fileOf s.dir.root name, nodes[p]? = s.disk.nodes[p]?)
    (hself : nodes[fileOf s.dir.root name]? = none ∨ remained name ∧
      nodes[fileOf s.dir.root name]? = s.disk.nodes[fileOf s.dir.root name]?) :
    Settled remained ⟨{ s.dir with logs := s.dir.logs.erase name },
      { s.disk with nodes := nodes }, s.found⟩ := by
  have hfile {m : String} (hm : m ≠ name) :
      nodes[fileOf s.dir.root m]? = s.disk.nodes[fileOf s.dir.root m]? :=
    hnodes _ fun he => hm (fileOf_inj he)
  have hthere {m : String} {node : Node} (hf : nodes[fileOf s.dir.root m]? = some node) :
      s.disk.nodes[fileOf s.dir.root m]? = some node := by
    by_cases hm : m = name
    · subst hm
      rcases hself with hnone | ⟨-, hsame⟩
      · cases hnone.symm.trans hf
      · exact hsame.symm.trans hf
    · exact (hfile hm).symm.trans hf
  refine {
    home := fun q hq => (hnodes q fun he => not_fileOf_prefix (he ▸ hq)).trans (h.home q hq)
    short := h.short
    shelved := fun hv hf => ?_
    apart := fun hv hv' hf hf' => h.apart hv hv' (hthere hf) (hthere hf')
    follows := fun {m log} hl => ?_
    left := fun {m} hv hl hne => ?_ }
  · obtain ⟨k, txs, hk, hs⟩ := h.shelved hv (hthere hf)
    exact ⟨k, txs, hk, hs.of_eq rfl (Nat.le_refl _)⟩
  · obtain ⟨hm, hl⟩ := getElem?_erase_eq_some.mp hl
    exact (h.follows hl).of_eq (hfile hm) rfl (Nat.le_refl _)
  · by_cases hm : m = name
    · subst hm
      exact (hself.resolve_left hne).1
    · refine h.left hv ?_ (hfile hm ▸ hne)
      rwa [getElem?_erase_of_ne hm] at hl

theorem removeMap (h : Settled remained s) {a : Except StoreError Bool} {dir : Directory}
    (hr : removeMap .none s.dir name s.disk = (a, dir, d')) :
    Settled remained ⟨dir, d', s.found⟩ := by
  unfold Directory.removeMap at hr
  split at hr
  · cases hr
    exact h
  · next log hl =>
    obtain ⟨-, hp, hf, -⟩ := h.follows hl
    have hfound : s.disk.find log.path = .ok log.file := Disk.find_ok.mpr (hp ▸ hf)
    simp only [Hazard.none, Bool.false_eq_true, if_false, Disk.removeFile, hfound, Except.map] at hr
    cases hr
    rw [hp]
    exact h.forgotten (fun p hne => getElem?_erase_of_ne hne) (.inl ExtTreeMap.getElem?_erase_self)

theorem remain (h : Settled remained s) (hr : remained name) {a : Except StoreError Bool}
    {dir : Directory}
    (hm : Directory.removeMap { Hazard.none with removalFails := true } s.dir name s.disk =
      (a, dir, d')) : Settled remained ⟨dir, d', s.found⟩ := by
  unfold Directory.removeMap at hm
  split at hm
  · cases hm
    exact h
  · cases hm
    exact h.forgotten (fun _ _ => rfl) (.inr ⟨hr, rfl⟩)

-- ---- appending -----------------------------------------------------------

theorem appended (h : Settled remained s) (hl : s.dir.logs[name]? = some log) {rs : List Record}
    (hf : Frame.Fits rs) {log' : MapLog}
    (ha : log.append .none s.dir.sync rs s.disk = (.ok (), log', d')) :
    Settled remained ⟨{ s.dir with logs := s.dir.logs.insert name log' }, d', s.found⟩ := by
  have hlog := h.follows hl
  obtain ⟨old, new, hfound, hs, hentries, hvalid⟩ := hlog.holds
  obtain rfl : d' = s.disk.append log.file (Frame.encode rs) := by
    rw [← MapLog.append_disk log s.dir.sync, ha]
  obtain rfl : log' = { log with
      entries := Record.applyAll log.entries rs
      validLength := log.validLength + (Frame.encode rs).length } := by
    simp only [MapLog.append, MapLog.writeFrame, Hazard.none, Bool.and_false, Bool.not_false,
      Prod.mk.injEq, true_and] at ha
    exact ha.1.symm
  have hs' := hs.append hf
  have hbytes {n : Nat} (hn : log.file ≠ n) :
      (s.disk.append log.file (Frame.encode rs)).bytes n = s.disk.bytes n := by
    rw [Disk.append, Disk.bytes_setBytes, if_neg hn]
  refine { h with
    shelved := fun {m node} hv hm => ?_
    follows := fun {m log'} hm => ?_
    left := fun hv hm => h.left hv (getElem?_insert_eq_none.mp hm).2 }
  · obtain ⟨n, txs, rfl, ht⟩ := h.shelved hv hm
    by_cases hn : log.file = n
    · subst hn
      exact ⟨log.file, _, rfl, hs'⟩
    · exact ⟨n, txs, rfl, ht.of_eq (hbytes hn) (Nat.le_refl _)⟩
  · rcases getElem?_insert_eq_some.mp hm with ⟨rfl, rfl⟩ | ⟨hne, hm⟩
    · refine { hlog with holds := ⟨old, new ++ [rs], hfound, ?_, ?_, ?_⟩ }
      · rwa [← List.append_assoc]
      · rw [Record.applyAll_concat, ← hentries]
      · rw [Frame.log_concat, List.length_append, ← hvalid]
    · have hm' := h.follows hm
      refine hm'.of_eq rfl (hbytes fun he => hne ?_) (Nat.le_refl _)
      exact (h.apart hlog.named hm'.named hlog.node (he ▸ hm'.node)).symm

theorem appendAll (h : Settled remained s) {tx : Transaction}
    (hf : ∀ m, Frame.Fits (tx.recordsOf m)) {names : List String} {a : Except StoreError Unit}
    {dir : Directory}
    (ha : Directory.appendAll (fun _ => .none) tx names s.dir s.disk = (a, dir, d')) :
    Settled remained ⟨dir, d', s.found⟩ := by
  induction names generalizing s with
  | nil =>
    cases ha
    exact h
  | cons name rest ih =>
    simp only [Directory.appendAll] at ha
    split at ha
    · cases ha
      exact h
    next log hl =>
      obtain ⟨log', d₁, happ, -⟩ := append_none log s.dir.sync (tx.recordsOf name) s.disk
      rw [happ] at ha
      exact ih (s := ⟨_, d₁, s.found⟩) (h.appended hl (hf name) happ) ha

-- ---- opening -------------------------------------------------------------

theorem shelves_listed (h : Settled remained s)
    (hname : name ∈ (s.disk.list s.dir.root).filterMap mapOfFile?) :
    validName name = true ∧ ∃ n txs,
      s.disk.nodes[fileOf s.dir.root name]? = some (.file n) ∧ s.disk.Shelves n txs := by
  obtain ⟨hv, hf⟩ := mem_filterMap_list.mp hname
  obtain ⟨node, hf⟩ := Option.isSome_iff_exists.mp hf
  obtain ⟨n, txs, rfl, hs⟩ := h.shelved hv hf
  exact ⟨hv, n, txs, hf, hs⟩

/-- When the directory is opened again, every map is what its file holds. -/
theorem openAt_root (h : Settled remained s) (sync : Bool) :
    ∃ logs, openAt s.dir.root sync s.disk = (.ok ⟨s.dir.root, sync, logs⟩, s.disk) ∧
      Settled remained ⟨⟨s.dir.root, sync, logs⟩, s.disk, fun _ => []⟩ ∧
      ∀ (name : String) (log : MapLog), s.dir.logs[name]? = some log →
        ∃ log', logs[name]? = some log' ∧
          MapLog.replay s.disk log.path = .ok (log', s.disk) := by
  have hreplay : ∀ name ∈ (s.disk.list s.dir.root).filterMap mapOfFile?, ∃ log,
      MapLog.replay s.disk (fileOf s.dir.root name) = .ok (log, s.disk) := by
    intro name hname
    obtain ⟨-, n, txs, hf, hs⟩ := h.shelves_listed hname
    exact ⟨_, hs.replay hf⟩
  obtain ⟨logs, ha, hin, hout⟩ := replayAll_ok ∅ hreplay
  have hopen : openAt s.dir.root sync s.disk = (.ok ⟨s.dir.root, sync, logs⟩, s.disk) := by
    simp only [openAt, Disk.createDirectories_of_there h.short h.home, ha]
  refine ⟨logs, hopen, { h with
    follows := fun {name log} hl => ?_
    left := fun {name} hv hl hne => ?_ }, fun name log hl => ?_⟩
  · by_cases hname : name ∈ (s.disk.list s.dir.root).filterMap mapOfFile?
    · obtain ⟨log', hl', hr⟩ := hin name hname
      cases hl.symm.trans hl'
      obtain ⟨hv, n, txs, hf, hs⟩ := h.shelves_listed hname
      cases hr.symm.trans (hs.replay hf)
      exact ⟨hv, rfl, hf, ⟨[], txs, rfl, hs, rfl, rfl⟩, fun hne => absurd rfl hne⟩
    · cases (ExtTreeMap.getElem?_empty.symm.trans (hout name hname).symm).trans hl
  · have hname : name ∈ (s.disk.list s.dir.root).filterMap mapOfFile? :=
      mem_filterMap_list.mpr ⟨hv, Option.isSome_iff_ne_none.mpr hne⟩
    obtain ⟨log', hl', -⟩ := hin name hname
    cases hl.symm.trans hl'
  · have hlog := h.follows hl
    have hname : name ∈ (s.disk.list s.dir.root).filterMap mapOfFile? :=
      mem_filterMap_list.mpr ⟨hlog.named, by rw [hlog.node]; rfl⟩
    rw [hlog.path]
    exact hin name hname

-- ---- one move after the other --------------------------------------------

theorem move (h : Settled remained s) {m : Move} (hf : m.Fits)
    (hr : ∀ name, m = .remain name → remained name) : Settled remained (s.move m) := by
  cases m with
  | remain name => exact h.remain (hr name rfl) rfl
  | use u =>
    cases u with
    | reopen sync =>
      obtain ⟨logs, ho, h', -⟩ := h.openAt_root sync
      simp only [Site.move, ho]
      exact h'
    | call r =>
      cases r with
      | openMap name => exact h.openMap rfl
      | removeMap name => exact h.removeMap rfl
      | commit tx =>
        simp only [Site.move, Directory.answer, commit, finds]
        split
        · exact h
        · exact h.appendAll hf rfl
      | _ => exact h

theorem run (h : Settled remained s) {moves : List Move} (hf : ∀ m ∈ moves, m.Fits)
    (hr : ∀ name, .remain name ∈ moves → remained name) : Settled remained (s.run moves) := by
  induction moves generalizing s with
  | nil => exact h
  | cons m rest ih =>
    obtain ⟨hm, hrest⟩ := List.forall_mem_cons.mp hf
    refine ih (h.move hm ?_) hrest fun name hname => hr name (List.mem_cons_of_mem _ hname)
    rintro name rfl
    exact hr name List.mem_cons_self

/-- A map is what is found when the directory is opened again, exactly if its file held nothing when
the map was made. -/
theorem replayed_iff (h : Settled remained s) (sync : Bool) :
    ∃ logs, openAt s.dir.root sync s.disk = (.ok ⟨s.dir.root, sync, logs⟩, s.disk) ∧
      ∀ name log, s.dir.logs[name]? = some log → ∃ log' old new, logs[name]? = some log' ∧
        MapLog.replay s.disk log.path = .ok (log', s.disk) ∧
        s.disk.read log.path = .ok (Frame.log (old ++ new)) ∧ s.found name = Frame.log old ∧
        log.entries = Record.applyAll ∅ new.flatten ∧
        log'.entries = Record.applyAll ∅ (old ++ new).flatten ∧
        log'.validLength = (Frame.log (old ++ new)).length ∧ (log' = log ↔ s.found name = []) ∧
        (s.found name ≠ [] → remained name) := by
  obtain ⟨logs, ho, -, hlogs⟩ := h.openAt_root sync
  refine ⟨logs, ho, fun name log hl => ?_⟩
  obtain ⟨log', hl', hr⟩ := hlogs name log hl
  obtain ⟨-, hp, hf, ⟨old, new, hfound, hs, hentries, hvalid⟩, hclean⟩ := h.follows hl
  have hreplay := hs.replay (hp ▸ hf : s.disk.nodes[log.path]? = some (.file log.file))
  cases hr.symm.trans hreplay
  refine ⟨_, old, new, hl', hr, ?_, hfound, hentries, rfl, rfl, ⟨?_, ?_⟩, hclean⟩
  · rw [Disk.read, Disk.find_ok.mpr (hp ▸ hf), Except.map, hs.bytes]
  · intro he
    have hlength := congrArg MapLog.validLength he
    simp only [hvalid, Frame.log_append, List.length_append] at hlength
    rw [hfound]
    exact List.eq_nil_of_length_eq_zero (by omega)
  · intro he
    obtain rfl := Frame.log_eq_nil_iff.mp (hfound.symm.trans he)
    rw [List.nil_append, ← hentries, ← hvalid]

end Settled

theorem settled_of_openAt {root : Path} {sync : Bool} {d₀ d : Disk} {dir : Directory}
    (ho : openAt root sync d₀ = (.ok dir, d))
    (hn : ∀ name, validName name = true → d₀.nodes[fileOf root name]? = none) :
    Settled remained ⟨dir, d, fun _ => []⟩ := by
  obtain ⟨h, he⟩ : dir.Intact Frame.Fits d ∧ dir.logs = ∅ := intact_of_openAt ho hn
  have hlogs (name : String) : dir.logs[name]? = none := by
    rw [he]
    exact ExtTreeMap.getElem?_empty
  have habsent {name : String} (hv : validName name = true) :
      d.nodes[fileOf dir.root name]? = none := h.absent hv (hlogs name)
  exact {
    home := h.home
    short := h.short
    shelved := fun hv hf => (nomatch (habsent hv).symm.trans hf)
    apart := fun hv _ hf => (nomatch (habsent hv).symm.trans hf)
    follows := fun {name _} hl => (nomatch (hlogs name).symm.trans hl)
    left := fun hv _ hne => absurd (habsent hv) hne }

/-- A directory that did not exist before. -/
def newDirectory : Site := ⟨⟨["store"], false, ∅⟩, (openAt ["store"] false .empty).2, fun _ => []⟩

/-- The map is made and written to, and is to be removed, but its file remains. -/
def remainder : List Move :=
  [.use (.call (.openMap "m")), .use (.call (.commit (Transaction.empty.set "m" [1] [10]))),
    .remain "m"]

/-- The directory is opened again and the map removed, and made and written to anew. -/
def secondRemoval : List Move :=
  [.use (.reopen true), .use (.call (.removeMap "m")), .use (.call (.openMap "m")),
    .use (.call (.commit (Transaction.empty.set "m" [2] [20])))]

theorem fits_set (name : String) {k v : Bytes} (h : Frame.Fits [.set k v]) (m : String) :
    Frame.Fits ((Transaction.empty.set name k v).recordsOf m) := by
  by_cases hm : name = m
  · simpa [Transaction.recordsOf, Transaction.writes, Transaction.set, Transaction.stage,
      Transaction.empty, hm] using h
  · have hnil : (Transaction.empty.set name k v).recordsOf m = [] := by
      refine Transaction.recordsOf_eq_nil fun w hw => ?_
      rw [List.mem_singleton.mp hw]
      exact hm
    rw [hnil]
    decide +kernel

/-- Made anew over the file that remains, the map is empty. What was removed is there again when the
directory is opened. -/
theorem revived_of_remained :
    let s := newDirectory.run (remainder ++ [.use (.call (.openMap "m"))])
    (s.dir.logs["m"]?).map (·.entries.toList) = some [] ∧
      ((s.move (.use (.reopen true))).dir.logs["m"]?).map (·.entries.toList) =
        some [([1], [10])] := by
  constructor <;> decide +kernel

end Site

end Directory

end EventStore
