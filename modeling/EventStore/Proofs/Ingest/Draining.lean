import EventStore.Proofs.Ingest.Line
import EventStore.Proofs.Ingest.Parts
import EventStore.Proofs.Ingest.Report

/-!
# One drain

A drain goes through a batch by attempts and by hours. Of each hour what is stored, what goes back
and what is still to be tried stay in line, and in the end the drain has nothing in hand
(`drainOnce_abides`).
-/

namespace EventStore

namespace Ingest

open Std Operation EventSet

variable {before : HourLogs} {e e' : Engine} {k k' : Hand} {least : Nat}

-- ---- events of several hours ---------------------------------------------

/-- The first events of the hour that were still to be tried are settled, of which `again` are to be
tried again. -/
structure Hand.Settles (k : Hand) (hour : Hour) (events again : List Event) (k' : Hand) : Prop where
  todo : k'.todo = k.todo.put hour ((k.todo hour).drop events.length)
  back : k'.back = k.back.put hour (k.back hour ++ again)
  tried : k'.tried = k.tried
  subset : again ⊆ events

theorem addGroup_abides {hour : Hour} {events : List Event} (h : Rests before e k)
    (hn : events ≠ []) (hin : ∀ x ∈ events, x.hour? = some hour ∧ x.Fits)
    (ht : events <+: k.todo hour) (r : Report) :
    (addGroup r hour events).Abides (solo before) e k fun r' e' k' => Rests before e' k' ∧
      ∃ back, r'.retry = r.retry ++ back ∧ k.Settles hour events back k' := by
  obtain ⟨id, hid⟩ : ∃ id, hour.tokenSeconds? = some id := by
    obtain ⟨x, rest, rfl⟩ := List.exists_cons_of_ne_nil hn
    have hx := (hin x List.mem_cons_self).1
    exact Option.isSome_iff_exists.mp (Option.filter_eq_some_iff.mp hx).2
  have hsame : k.back.put hour (k.back hour ++ []) = k.back := by
    rw [List.append_nil, HourLogs.put_eq]
  have hop : Operation.Abides (solo before) (do (← getOrCreate hour).addAll events) e k
      (fun _ e' k' => Rests before e' k' ∧ k' = k.stores hour events)
      (fun p e' k' => Rests before e' k' ∧
        k' = if p.isRetryable then k.returns hour events else k.loses hour events) := by
    refine .bind ((getOrCreate_abides h hid).mono (fun _ _ _ h => h) fun _ _ _ => False.elim) ?_
    rintro b e₁ _ ⟨rfl, h₁, rfl, hb⟩
    exact addTo_abides h₁ hb hn hin ht
  refine Activity.Abides.bind hop ?_
  rintro (p | stored) e₁ k₁ ⟨h₁, hk⟩
  · dsimp only
    split
    · next hp =>
      obtain rfl := hk.trans (if_pos hp)
      exact .pure' ⟨h₁, events, rfl, rfl, rfl, rfl, List.Subset.refl _⟩
    · next hp =>
      obtain rfl := hk.trans (if_neg hp)
      exact .pure' ⟨h₁, [], (List.append_nil _).symm, rfl, hsame.symm, rfl, List.nil_subset _⟩
  · subst hk
    exact .pure' ⟨h₁, [], (List.append_nil _).symm, rfl, hsame.symm, rfl, List.nil_subset _⟩

def AreGroups (groups : List (Hour × List Event)) : Prop :=
  ∀ g ∈ groups, g.2 ≠ [] ∧ ∀ x ∈ g.2, x.hour? = some g.1 ∧ x.Fits

theorem areGroups_groups {events : List Event} (hf : ∀ x ∈ events, x.Fits) :
    AreGroups (groups events) := by
  intro g hg
  obtain ⟨hour, hh, rfl⟩ := List.mem_map.mp hg
  obtain ⟨x, hx, hxh⟩ := mem_hoursOf.mp hh
  refine ⟨List.ne_nil_of_mem (List.mem_filter.mpr ⟨hx, by simpa using hxh⟩), fun y hy => ?_⟩
  obtain ⟨hy, hyh⟩ := List.mem_filter.mp hy
  exact ⟨eq_of_beq hyh, hf y hy⟩

theorem flatMap_ite_eq {hours : List Hour} (hn : hours.Nodup) (hour : Hour) (l : List Event) :
    (hours.flatMap fun h => if h = hour then l else []) = if hour ∈ hours then l else [] := by
  induction hours with
  | nil => rfl
  | cons h hours ih =>
    obtain ⟨hh, hn⟩ := List.nodup_cons.mp hn
    rw [List.flatMap_cons, ih hn]
    by_cases he : h = hour
    · subst he
      simp [hh]
    · simp [he, Ne.symm he]

theorem ofHour_ofHour (hour h : Hour) (events : List Event) :
    ofHour hour (ofHour h events) = if h = hour then ofHour hour events else [] := by
  split
  · next he => rw [he, ofHour, ofHour, List.filter_filter]; simp
  · next he =>
    rw [ofHour, ofHour, List.filter_filter, List.filter_eq_nil_iff]
    intro x _ hx
    simp only [Bool.and_eq_true, beq_iff_eq] at hx
    exact he (Option.some.inj (hx.2.symm.trans hx.1))

theorem ofHour_groups (hour : Hour) (events : List Event) :
    ofHour hour ((groups events).flatMap Prod.snd) = ofHour hour events := by
  have hgroups : (groups events).flatMap Prod.snd =
      (hoursOf events).toList.flatMap fun h => ofHour h events := by
    rw [groups, List.flatMap_map]
    rfl
  rw [hgroups, ofHour, List.filter_flatMap]
  show ((hoursOf events).toList.flatMap fun h => ofHour hour (ofHour h events)) = _
  simp only [ofHour_ofHour]
  rw [flatMap_ite_eq (nodup_toList _)]
  split
  · rfl
  · next hh =>
    refine (List.filter_eq_nil_iff.mpr fun x hx hxh => hh ?_).symm
    exact mem_hoursOf.mpr ⟨x, hx, eq_of_beq hxh⟩

/-- Since the drain held `k₀` all but these groups have been settled, of which `retry` go back, and
`rest` comes after them. -/
structure Storing (before : HourLogs) (k₀ : Hand) (rest : HourLogs) (gs : List (Hour × List Event))
    (retry : List Event) (e : Engine) (k : Hand) : Prop where
  rests : Rests before e k
  groups : AreGroups gs
  todo : ∀ hour, k.todo hour = ofHour hour (gs.flatMap Prod.snd) ++ rest hour
  back : ∀ hour, k.back hour = k₀.back hour ++ ofHour hour retry
  tried : k.tried = k₀.tried
  fits : ∀ x ∈ retry, x.Fits

variable {k₀ : Hand} {rest : HourLogs}

theorem ofHour_eq_self {hour : Hour} {events : List Event}
    (h : ∀ x ∈ events, x.hour? = some hour) : ofHour hour events = events :=
  List.filter_eq_self.mpr fun x hx => by simpa using h x hx

theorem ofHour_eq_nil {hour h : Hour} (hne : h ≠ hour) {events : List Event}
    (hin : ∀ x ∈ events, x.hour? = some hour) : ofHour h events = [] :=
  List.filter_eq_nil_iff.mpr fun x hx hxh =>
    hne (Option.some.inj ((eq_of_beq hxh).symm.trans (hin x hx)))

/-- What goes back comes behind what did before. -/
theorem Storing.settles {hour : Hour} {group again : List Event} {gs : List (Hour × List Event)}
    {retry : List Event} (h : Storing before k₀ rest ((hour, group) :: gs) retry e k)
    (h' : Rests before e' k') (hk : k.Settles hour group again k') :
    Storing before k₀ rest gs (retry ++ again) e' k' := by
  obtain ⟨⟨-, hgroup⟩, hgroups⟩ := List.forall_mem_cons.mp h.groups
  have hin : ∀ x ∈ group, x.hour? = some hour := fun x hx => (hgroup x hx).1
  have hagain : ∀ x ∈ again, x.hour? = some hour := fun x hx => hin x (hk.subset hx)
  refine {
    rests := h'
    groups := hgroups
    todo := fun i => ?_
    back := fun i => ?_
    tried := hk.tried.trans h.tried
    fits := List.forall_mem_append.mpr ⟨h.fits, fun x hx => (hgroup x (hk.subset hx)).2⟩ }
  · rw [hk.todo, put_apply]
    split
    · next hi =>
      rw [hi, h.todo, List.flatMap_cons, ofHour_append, ofHour_eq_self hin, List.append_assoc,
        List.drop_left]
    · next hi =>
      rw [h.todo, List.flatMap_cons, ofHour_append, ofHour_eq_nil hi hin, List.nil_append]
  · rw [hk.back, put_apply, ofHour_append, ← List.append_assoc, ← h.back]
    split
    · next hi => rw [hi, ofHour_eq_self hagain]
    · next hi => rw [ofHour_eq_nil hi hagain, List.append_nil]

theorem addAll_abides {events : List Event} (h : Rests before e k) (hf : ∀ x ∈ events, x.Fits)
    (ht : ∀ hour, k.todo hour = ofHour hour events ++ rest hour) :
    (EventSet.addAll events).Abides (solo before) e k
      fun r => Storing before k rest [] r.retry := by
  have hstart : Storing before k rest (groups events) [] e k := {
    rests := h
    groups := areGroups_groups hf
    todo := fun hour => by rw [ofHour_groups, ht]
    back := fun hour => (List.append_nil _).symm
    tried := rfl
    fits := List.forall_mem_nil _ }
  refine .foldlM (fun gs (r : Report) => Storing before k rest gs r.retry) hstart ?_
  rintro ⟨hour, group⟩ gs r e₁ k₁ h₁
  obtain ⟨hn, hin⟩ := h₁.groups _ List.mem_cons_self
  have hfirst : group <+: k₁.todo hour := by
    rw [h₁.todo, List.flatMap_cons, ofHour_append, ofHour_eq_self fun x hx => (hin x hx).1,
      List.append_assoc]
    exact List.prefix_append ..
  refine (addGroup_abides h₁.rests hn hin hfirst r).mono ?_
  rintro r' e₂ k₂ ⟨h₂, again, hr, hk⟩
  exact hr ▸ h₁.settles h₂ hk

-- ---- events that have been tried equally often ---------------------------

/-- The drain has still to do with these groups. All that it has to do with has been tried `least`
times or more. -/
structure Draining (before : HourLogs) (least : Nat) (gs : List (Nat × List Event)) (d : Drained)
    (e : Engine) (k : Hand) : Prop where
  rests : Rests before e k
  tried : k.tried = some least
  todo : ∀ hour, k.todo hour = ofHour hour (gs.flatMap Prod.snd)
  back : ∀ hour, k.back hour = ofHour hour (d.requeue.map Queued.event)
  sorted : ByAttempts d.requeue
  requeue : ∀ q ∈ d.requeue, q.event.Fits ∧ least ≤ q.attempts ∧ ∀ g ∈ gs, g.1 < q.attempts
  groups : gs.Pairwise fun g g' => g'.1 < g.1
  fits : ∀ g ∈ gs, least ≤ g.1 ∧ ∀ x ∈ g.2, x.Fits

theorem count_abides {f : Engine → Engine} (hc : ∀ u, (f u).core = u.core)
    (hf : ∀ u, (f u).store.faults = u.store.faults) (hq : ∀ u, (f u).queue = u.queue) :
    (Activity.change f).Abides (solo before) e k fun _ e' k' => k' = k ∧ e'.core = e.core := by
  refine .atomically fun u hu => ⟨k, moves_of_same (hf u) ?_ (hq u) fun m => ?_, rfl, ?_⟩
  · show (f u).core.locked = u.core.locked
    rw [hc]
  · rw [entries?_of_core (hc u)]
  · exact (hc u).trans (core_found hu)

theorem moves_drops {back : HourLogs} (h : ∀ hour, back hour <+: k.back hour) :
    Moves before e k e { k with back := back } := by
  refine ⟨fun hc hk => ⟨hc, { hk with
    refused := fun hour hb => hk.refused hour fun hn => hb ?_ }⟩, fun hour => ?_⟩
  · have := h hour
    rw [hn] at this
    exact List.prefix_nil.mp this
  · exact (((h hour).sublist.append_left _).append_right _).append_right _

/-- Events that the report names go back behind those of other groups, or are given up together. -/
theorem tryAgain_abides {gs : List (Nat × List Event)} {d : Drained} {n : Nat} {retry : List Event}
    (h : Draining before least gs d e
      { k with back := fun hour => ofHour hour (d.requeue.map (·.event)) })
    (hb : ∀ hour, k.back hour = ofHour hour (d.requeue.map Queued.event) ++ ofHour hour retry)
    (hf : ∀ x ∈ retry, x.Fits) (hn : least ≤ n) (hd : ∀ q ∈ d.requeue, n < q.attempts)
    (hg : ∀ g ∈ gs, g.1 < n) :
    (tryAgain d n retry).Abides (solo before) e k (Draining before least gs) := by
  have hrests : Rests before e k := ⟨h.rests.holds, h.rests.able⟩
  unfold tryAgain
  split
  · next hr =>
    obtain rfl := List.isEmpty_iff.mp hr
    exact .pure' { h with
      rests := hrests
      back := fun hour => (hb hour).trans (List.append_nil _) }
  refine .bind (P := fun _ e' k' => k' = k ∧ e'.core = e.core)
    (.observe fun u hu => ⟨rfl, core_found hu⟩) ?_
  rintro s e₁ k ⟨rfl, hc⟩
  split
  · refine .bind (P := fun _ e' k' => Draining before least gs d e' k') (.atomically fun u hu =>
      ⟨_, (moves_drops fun hour => ⟨_, (hb hour).symm⟩).trans
        (moves_of_same rfl rfl rfl fun _ => rfl), ?_⟩) fun _ _ _ h => .pure' h
    have hcore : u.core = e.core := (core_found hu).trans hc
    exact { h with rests := h.rests.of_core hcore }
  · refine .pure' { h with
      rests := hrests.of_core hc
      back := fun hour => ?_
      sorted := ?_
      requeue := ?_ }
    · rw [hb, List.map_append, ofHour_append, List.map_map]
      simp [Function.comp_def]
    · refine List.pairwise_append.mpr ⟨h.sorted, ?_, ?_⟩
      · exact List.pairwise_map.mpr (List.pairwise_of_forall fun _ _ => Nat.le_refl _)
      · rintro p hp q hq
        obtain ⟨x, -, rfl⟩ := List.mem_map.mp hq
        exact hd p hp
    · refine List.forall_mem_append.mpr ⟨h.requeue, List.forall_mem_map.mpr fun x hx => ?_⟩
      exact ⟨hf x hx, Nat.le_succ_of_le hn,
        fun g hgs => Nat.lt_succ_of_lt (hg g hgs)⟩

theorem drainGroup_abides {gs : List (Nat × List Event)} {d : Drained} {n : Nat}
    {events : List Event} (h : Draining before least ((n, events) :: gs) d e k) :
    (drainGroup d n events).Abides (solo before) e k (Draining before least gs) := by
  obtain ⟨⟨hn, hf⟩, hfits⟩ := List.forall_mem_cons.mp h.fits
  obtain ⟨hg, hgroups⟩ := List.pairwise_cons.mp h.groups
  have htodo (hour : Hour) :
      k.todo hour = ofHour hour events ++ ofHour hour (gs.flatMap Prod.snd) := by
    rw [h.todo, List.flatMap_cons, ofHour_append]
  rw [drainGroup_eq]
  refine .bind (addAll_abides h.rests hf htodo) ?_
  rintro r e₁ k₁ ⟨h₁, -, htodo, hback, htried, hretry⟩
  have hdraining {e₂ : Engine} (h₂ : Rests before e₂ k₁) : Draining before least gs
      { d with committed := d.committed + r.committed.length } e₂
      { k₁ with back := fun hour => ofHour hour (d.requeue.map (·.event)) } :=
    { rests := ⟨h₂.holds, h₂.able⟩
      tried := htried.trans h.tried
      todo := htodo
      back := fun _ => rfl
      sorted := h.sorted
      requeue := fun q hq => ⟨(h.requeue q hq).1, (h.requeue q hq).2.1,
        fun g hg => (h.requeue q hq).2.2 g (List.mem_cons_of_mem _ hg)⟩
      groups := hgroups
      fits := hfits }
  have hbehind (q : Queued) (hq : q ∈ d.requeue) : n < q.attempts :=
    (h.requeue q hq).2.2 _ List.mem_cons_self
  have hback (hour : Hour) := h.back hour ▸ hback hour
  unfold reckon
  dsimp only
  split
  · refine .bind (count_abides (fun _ => rfl) (fun _ => rfl) fun _ => rfl) ?_
    rintro - e₂ k₁ ⟨rfl, hc⟩
    exact tryAgain_abides (hdraining (h₁.of_core hc)) hback hretry hn hbehind hg
  · exact tryAgain_abides (hdraining h₁) hback hretry hn hbehind hg

-- ---- a whole drain -------------------------------------------------------

theorem filter_append_filter_not {batch : List Queued} {n : Nat} (hs : ByAttempts batch)
    (hn : ∀ q ∈ batch, q.attempts ≤ n) :
    batch.filter (·.attempts == n) ++ batch.filter (!·.attempts == n) = batch := by
  induction batch with
  | nil => rfl
  | cons q batch ih =>
    obtain ⟨hq, hs⟩ := List.pairwise_cons.mp hs
    obtain ⟨hqn, hn⟩ := List.forall_mem_cons.mp hn
    by_cases he : q.attempts = n
    · simpa [he] using ih hs hn
    · have hnone : batch.filter (·.attempts == n) = [] :=
        List.filter_eq_nil_iff.mpr fun p hp hpn => by
          have := hq p hp
          have hpn : p.attempts = n := by simpa using hpn
          omega
      have hall : batch.filter (!·.attempts == n) = batch := by
        have := ih hs hn
        rwa [hnone] at this
      simp [he, hnone, hall]

theorem flatMap_filter_attempts {batch : List Queued} {attempts : List Nat}
    (hs : ByAttempts batch) (ha : attempts.Pairwise fun m n => n < m)
    (hmem : ∀ q ∈ batch, q.attempts ∈ attempts) :
    (attempts.flatMap fun n => batch.filter (·.attempts == n)) = batch := by
  induction attempts generalizing batch with
  | nil =>
    rw [List.eq_nil_iff_forall_not_mem.mpr fun q hq => List.not_mem_nil (hmem q hq)]
    rfl
  | cons n attempts ih =>
    obtain ⟨hn, ha⟩ := List.pairwise_cons.mp ha
    have hle : ∀ q ∈ batch, q.attempts ≤ n := fun q hq =>
      (List.mem_cons.mp (hmem q hq)).elim Nat.le_of_eq fun h => Nat.le_of_lt (hn _ h)
    have hrest : (attempts.flatMap fun m => batch.filter (·.attempts == m)) =
        attempts.flatMap fun m =>
          (batch.filter (!·.attempts == n)).filter (·.attempts == m) := by
      refine List.flatMap_congr fun m hm => ?_
      rw [List.filter_filter]
      refine List.filter_congr fun q _ => ?_
      by_cases hq : q.attempts = m
      · simp [hq, Nat.ne_of_lt (hn m hm)]
      · simp [hq]
    rw [List.flatMap_cons, hrest, ih (hs.filter _) ha, filter_append_filter_not hs hle]
    intro q hq
    obtain ⟨hq, hne⟩ := List.mem_filter.mp hq
    exact (List.mem_cons.mp (hmem q hq)).resolve_left (by simpa using hne)

/-- There is a group for each count of attempts, the highest first. -/
theorem exists_byAttempts (batch : List Queued) : ∃ attempts : List Nat,
    attempts.Pairwise (fun m n => n < m) ∧ (∀ n, n ∈ attempts ↔ ∃ q ∈ batch, q.attempts = n) ∧
      byAttempts batch =
        attempts.map fun n => (n, (batch.filter (·.attempts == n)).map Queued.event) := by
  refine ⟨_, List.pairwise_reverse.mpr (ExtTreeSet.ordered_toList.imp Nat.compare_eq_lt.mp),
    fun n => ?_, rfl⟩
  rw [List.mem_reverse, ExtTreeSet.mem_toList, ExtTreeSet.mem_ofList]
  simp

theorem flatMap_byAttempts {batch : List Queued} (hs : ByAttempts batch) :
    (byAttempts batch).flatMap Prod.snd = batch.map Queued.event := by
  obtain ⟨attempts, ha, hmem, hby⟩ := exists_byAttempts batch
  have hflat := flatMap_filter_attempts hs ha fun q hq => (hmem _).mpr ⟨q, hq, rfl⟩
  rw [hby, List.flatMap_map]
  exact List.map_flatMap.symm.trans (congrArg (List.map Queued.event) hflat)

/-- Of the queue as it is, in its order, the batch is the first part. -/
theorem takeBatch_abides (h : Rests before e k) (hk : k.IsEmpty) :
    takeBatch.Abides (solo before) e k fun batch e' k' => Rests before e' k' ∧
      (∀ hour, k'.todo hour = ofHour hour (batch.map Queued.event)) ∧
      (∀ hour, k'.back hour = []) ∧ ByAttempts batch ∧
        ∃ least, k'.tried = some least ∧ ∀ q ∈ batch, q.event.Fits ∧ least ≤ q.attempts := by
  refine .atomically fun u hu => ?_
  have hu' : Rests before u k := h.of_core (core_found hu)
  dsimp only
  generalize max 1 u.settings.batchSize = n
  have hqueue := List.take_append_drop n u.queue
  have hsorted := hu.holds.sorted
  have hfits := hu.holds.fits
  rw [ByAttempts, ← hqueue, List.pairwise_append] at hsorted
  rw [← hqueue] at hfits
  generalize htake : u.queue.take n = batch at hqueue hsorted hfits ⊢
  generalize hdrop : u.queue.drop n = rest at hqueue hsorted hfits ⊢
  obtain ⟨hbatch, hrest, hcross⟩ := hsorted
  obtain ⟨hfbatch, hfrest⟩ := List.forall_mem_append.mp hfits
  -- What is left in the queue has not been tried more often than its first event.
  obtain ⟨m, hm, hmin⟩ : ∃ m, (∀ q ∈ rest, q.attempts ≤ m) ∧ ∀ q ∈ batch, m ≤ q.attempts := by
    cases rest with
    | nil => exact ⟨0, List.forall_mem_nil _, fun _ _ => Nat.zero_le _⟩
    | cons p rest =>
      exact ⟨p.attempts, List.forall_mem_cons.mpr ⟨Nat.le_refl _, (List.pairwise_cons.mp hrest).1⟩,
        fun q hq => hcross q hq p List.mem_cons_self⟩
  refine ⟨{ k with todo := fun hour => ofHour hour (batch.map Queued.event), tried := some m },
    ⟨fun hc hk => ?_, fun hour => ?_⟩, ⟨hu'.holds, hu'.able⟩, fun _ => rfl, hk.back, hbatch, m, rfl,
    fun q hq => ⟨hfbatch q hq, hmin q hq⟩⟩
  · refine ⟨⟨hc.faults, hc.unlocked⟩, { hk with
      sorted := hrest
      tried := ?_
      fits := hfrest }⟩
    rintro _ ⟨⟩
    exact hm
  · simp only [line, hk.back, hk.todo, ← hqueue, List.map_append, ofHour_append, List.append_nil]
    rw [List.append_assoc]

theorem putBack_abides {d : Drained} (h : Draining before least [] d e k) :
    (putBack d.requeue).Abides (solo before) e k
      fun _ e' k' => Rests before e' k' ∧ k'.IsEmpty := by
  refine .atomically fun u hu => ?_
  have hu' : Rests before u k := h.rests.of_core (core_found hu)
  refine ⟨{ k with back := fun _ => [], todo := fun _ => [], tried := none },
    ⟨fun hc hk => ⟨⟨hc.faults, hc.unlocked⟩, { hk with
      refused := fun _ hb => absurd rfl hb
      sorted := ?_
      tried := nofun
      fits := ?_ }⟩, fun hour => ?_⟩, ⟨hu'.holds, hu'.able⟩, fun _ => rfl, fun _ => rfl⟩
  · refine List.pairwise_append.mpr ⟨h.sorted, hk.sorted, fun p hp q hq => ?_⟩
    exact Nat.le_trans (hk.tried least h.tried q hq) (h.requeue p hp).2.1
  · exact List.forall_mem_append.mpr ⟨fun q hq => (h.requeue q hq).1, hk.fits⟩
  · simp only [line, h.back, h.todo, List.flatMap_nil, List.map_append, ofHour_append]
    simp [ofHour]

theorem finish_abides {d : Drained} (h : Draining before least [] d e k) :
    (finish d).Abides (solo before) e k fun _ e' k' => Rests before e' k' ∧ k'.IsEmpty := by
  have hend {e' : Engine} {k' : Hand} (h' : Rests before e' k' ∧ k'.IsEmpty) :
      Activity.Abides (solo before) (do
        countIngested d.committed
        return d.committed) e' k' fun _ e' k' => Rests before e' k' ∧ k'.IsEmpty := by
    refine .bind (count_abides (fun _ => rfl) (fun _ => rfl) fun _ => rfl) ?_
    rintro - e'' k' ⟨rfl, hc⟩
    exact .pure' ⟨h'.1.of_core hc, h'.2⟩
  unfold finish
  split
  · exact .bind (putBack_abides h) fun _ _ _ h' => hend h'
  · next he =>
    have hnone : d.requeue = [] := by simpa using he
    exact hend ⟨h.rests, fun hour => by rw [h.back, hnone]; rfl, h.todo⟩

/-- In the end the drain has nothing in hand. -/
theorem drainOnce_abides (h : Rests before e k) (hk : k.IsEmpty) :
    drainOnce.Abides (solo before) e k fun _ e' k' => Rests before e' k' ∧ k'.IsEmpty := by
  rw [drainOnce_eq]
  refine .bind (takeBatch_abides h hk) ?_
  rintro batch e₁ k₁ ⟨h₁, htodo, hback, hsorted, least, htried, hfits⟩
  unfold drainBatch
  split
  · next he =>
    obtain rfl := List.isEmpty_iff.mp he
    exact .pure' ⟨h₁, hback, htodo⟩
  have hdraining : Draining before least (byAttempts batch) ⟨0, []⟩ e₁ k₁ := by
    obtain ⟨attempts, ha, hmem, hby⟩ := exists_byAttempts batch
    refine {
      rests := h₁
      tried := htried
      todo := fun hour => ?_
      back := hback
      sorted := .nil
      requeue := nofun
      groups := ?_
      fits := ?_ }
    · rw [flatMap_byAttempts hsorted, htodo]
    · rw [hby]
      exact List.pairwise_map.mpr ha
    · rw [hby]
      refine List.forall_mem_map.mpr fun n hn => ⟨?_, List.forall_mem_map.mpr fun q hq => ?_⟩
      · obtain ⟨q, hq, rfl⟩ := (hmem n).mp hn
        exact (hfits q hq).2
      · exact (hfits q (List.mem_filter.mp hq).1).1
  exact .bind (Activity.Abides.foldlM (fun gs d e' k' => Draining before least gs d e' k')
    hdraining fun _ _ _ _ _ h => drainGroup_abides h) fun _ _ _ h₂ => finish_abides h₂

end Ingest

end EventStore
