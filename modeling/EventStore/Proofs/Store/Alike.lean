import EventStore.Proofs.Store.Files

/-!
# Directories answer as memory does

Over a disk that nobody else writes to, a directory answers every list of calls as a store in memory
does, however often it is opened again in between (`Directory.replies_eq`). Only the length of file
names tells them apart: in memory a map can have a name of any length.
-/

namespace EventStore

open Std

/-- What is done with a store: calls, and for a directory that it is opened again. -/
inductive Use : Type 1
  | call {α : Type} (r : Request α)
  | reopen (sync : Bool)

inductive Reply : Type 1
  | to {α : Type} (a : Except StoreError α)

namespace Use

/-- Maps have valid names, and every frame fits. -/
def IsValid : Use → Prop
  | call (.openMap name) => Directory.validName name = true
  | call (.commit tx) => ∀ m, Frame.Fits (tx.recordsOf m)
  | _ => True

/-- Names are no longer than those of files can be. -/
def IsShort : Use → Prop
  | call (.openMap name) => Path.isLong (name ++ Directory.extension) = false
  | _ => True

end Use

def Directory.replies : List Use → Directory → Disk → List Reply
  | [], _, _ => []
  | .call r :: rest, s, d =>
    let (a, s, d) := s.answer (fun _ => .none) r d
    .to a :: replies rest s d
  | .reopen sync :: rest, s, d =>
    match openAt s.root sync d with
    | (.ok s, d) => .to (.ok ()) :: replies rest s d
    | (.error p, d) => .to (.error p : Except StoreError Unit) :: replies rest s d

/-- Memory is not opened again. -/
def Memory.replies : List Use → Memory → List Reply
  | [], _ => []
  | .call r :: rest, m =>
    let (a, m) := m.answer r
    .to a :: replies rest m
  | .reopen _ :: rest, m => .to (.ok ()) :: replies rest m

theorem Memory.offline_answer (m : Memory) (r : Request α) :
    (m.answer r).2.offline = m.offline := by
  unfold Memory.answer
  split
  · rfl
  cases r with
  | commit tx =>
    simp only [Memory.commit]
    split <;> rfl
  | _ => rfl

namespace Directory

variable {s s' : Directory} {d d' : Disk} {m : Memory} {name : String}

/-- The directory holds what is in memory, and its files hold it too. -/
structure Mirrors (s : Directory) (d : Disk) (m : Memory) : Prop where
  intact : s.Intact Frame.Fits d
  same : ∀ name, m.maps[name]? = s.entries? name
  online : m.offline = false

namespace Mirrors

theorem contains_eq (h : s.Mirrors d m) (name : String) :
    s.logs.contains name = m.maps.contains name := by
  rw [ExtTreeMap.contains_eq_isSome_getElem?, ExtTreeMap.contains_eq_isSome_getElem?, h.same,
    entries?, Option.isSome_map]

theorem map_log? (h : s.Mirrors d m) (name : String) (f : Entries → α) :
    (s.log? name).map (fun log => f log.entries) = (m.map? name).map f := by
  have := h.same name
  unfold log? Memory.map?
  rw [this, entries?]
  cases s.logs[name]? <;> rfl

theorem keys_eq (h : s.Mirrors d m) : s.logs.keys = m.maps.keys := by
  have hm : m.maps = s.logs.map fun _ log => log.entries :=
    ExtTreeMap.ext_getElem? fun name => by rw [h.same, ExtTreeMap.getElem?_map, entries?]
  rw [hm, ExtTreeMap.keys_map]

theorem commit_fst (h : s.Mirrors d m) (tx : Transaction) :
    (commit (fun _ => .none) s tx d).1 = (m.commit tx).1 := by
  have hsame : (fun w : Write => !m.maps.contains w.map) = fun w => !s.logs.contains w.map :=
    funext fun w => by rw [h.contains_eq]
  unfold commit Memory.commit
  rw [hsame]
  cases hfind : tx.writes.find? fun w => !s.logs.contains w.map with
  | some w => rfl
  | none =>
    obtain ⟨s', d', ha, -⟩ := appendAll_none tx (s := s) (d := d) (nodup_touched tx) (by
      intro name hn
      obtain ⟨w, hw, rfl⟩ := mem_touched.mp hn
      have := List.find?_eq_none.mp hfind w hw
      simpa [entries?] using this)
    simp only [ha]

theorem answer_fst (h : s.Mirrors d m) {r : Request α} (hv : (Use.call r).IsValid)
    (hs : (Use.call r).IsShort) : (s.answer (fun _ => .none) r d).1 = (m.answer r).1 := by
  unfold Memory.answer
  rw [h.online, if_neg Bool.false_ne_true]
  cases r with
  | openMap name =>
    rw [Directory.answer, h.intact.openMap_fst hv hs]
  | removeMap name =>
    show _ = Except.ok (m.maps.contains name)
    rw [← h.contains_eq, ExtTreeMap.contains_eq_isSome_getElem?]
    cases hl : s.logs[name]? with
    | none => simp only [answer, removeMap, hl, Option.isSome_none]
    | some log => simp only [answer, h.intact.removeMap_eq hl, Option.isSome_some]
  | mapNames => exact congrArg Except.ok h.keys_eq
  | get name key => exact h.map_log? name (·[key]?)
  | count name => exact h.map_log? name (·.size)
  | scan name => exact h.map_log? name (·.toList)
  | commit tx => exact h.commit_fst tx

/-- Both answer the same, and go on alike. -/
theorem answer (h : s.Mirrors d m) {r : Request α} (hv : (Use.call r).IsValid)
    (hs : (Use.call r).IsShort) {a : Except StoreError α}
    (ha : s.answer (fun _ => .none) r d = (a, s', d')) :
    ∃ m', m.answer r = (a, m') ∧ s'.Mirrors d' m' := by
  have hfst := h.answer_fst hv hs
  rw [ha] at hfst
  refine ⟨(m.answer r).2, Prod.ext hfst.symm rfl, ?_⟩
  generalize hm : m.answer r = res at hfst ⊢
  obtain ⟨a', m'⟩ := res
  obtain rfl : a = a' := hfst
  refine ⟨h.intact.answer ?_ ha, ?_, ?_⟩
  · cases r <;> first | exact hv | trivial
  · cases a with
    | ok a =>
      have hsame : (fun name => m.maps[name]?) = s.entries? := funext h.same
      intro name
      rw [(Memory.answer_ok hm).2, (answer_ok ha).2, hsame]
    | error p =>
      have hr : r.kind ≠ .removeMap := h.intact.kind_ne_of_error ha
      rw [Memory.answer_error hm, answer_error hr ha]
      exact h.same
  · rw [← h.online, ← Memory.offline_answer m r, hm]

end Mirrors

theorem replies_eq_of_mirrors (h : s.Mirrors d m) {uses : List Use}
    (hv : ∀ u ∈ uses, u.IsValid) (hs : ∀ u ∈ uses, u.IsShort) :
    s.replies uses d = m.replies uses := by
  induction uses generalizing s d m with
  | nil => rfl
  | cons u rest ih =>
    have hv' : ∀ u ∈ rest, u.IsValid := fun u hu => hv u (List.mem_cons_of_mem _ hu)
    have hs' : ∀ u ∈ rest, u.IsShort := fun u hu => hs u (List.mem_cons_of_mem _ hu)
    cases u with
    | call r =>
      obtain ⟨a, s', d', ha⟩ : ∃ a s' d', s.answer (fun _ => .none) r d = (a, s', d') :=
        ⟨_, _, _, rfl⟩
      obtain ⟨m', hm, h'⟩ := h.answer (hv _ List.mem_cons_self) (hs _ List.mem_cons_self) ha
      simp only [Directory.replies, Memory.replies, ha, hm, ih h' hv' hs']
    | reopen sync =>
      have hopen := h.intact.openAt_root (fun _ hf => hf) sync
      have h' : Mirrors { s with sync := sync } d m := ⟨h.intact.of_sync sync, h.same, h.online⟩
      simp only [Directory.replies, Memory.replies, hopen, ih h' hv' hs']

theorem Mirrors.empty (h : s.Intact Frame.Fits d) (he : s.logs = ∅) : s.Mirrors d .empty := by
  refine ⟨h, fun name => ?_, rfl⟩
  rw [entries?, he, show (∅ : Logs)[name]? = none from ExtTreeMap.getElem?_empty]
  exact ExtTreeMap.getElem?_empty

theorem validName_ofList (l : List Char) : validName (String.ofList l) =
    (!l.isEmpty && l.head? != some '.' &&
      l.all fun c => c.isAlphanum || c == '_' || c == '-' || c == '.') := by
  have he : (String.ofList l).isEmpty = l.isEmpty := by
    cases l with
    | nil => rfl
    | cons c l => simp
  rw [validName, he, String.toList_ofList]

theorem replies_of_isLong (h : s.Intact Frame.Fits d) (hv : validName name = true)
    (hn : s.logs[name]? = none) (hl : Path.isLong (name ++ extension) = true) :
    s.replies [.call (.openMap name)] d =
      [.to (.error (.ofDisk .nameTooLong) : Except StoreError Unit)] := by
  simp only [Directory.replies, answer, h.openMap_eq hv hn, hl, if_true]

/-- Two hundred and fifty-two letters are a valid name, but too long for a file with the ending. -/
def longName : String := String.ofList (List.replicate 252 'a')

end Directory

end EventStore
