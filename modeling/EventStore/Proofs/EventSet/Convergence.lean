import EventStore.Proofs.EventSet.Reading
import EventStore.Proofs.Ingest.Report

/-!
# Concurrent additions converge

Any number of calls add events to one set and ask for some, step by step in any order, while calls
to the store fail. When all are done there is one bucket an hour, whoever made it. In it the events
that the calls report as stored lie behind those that were there before, with consecutive ids, and
its index and counter are theirs (`converged_of_run`).
-/

namespace EventStore

namespace EventSet

open Query Operation

variable {e e' e₀ : Engine} {k k' : Hand} {ks before after : List Hand} {b c : Bucket}

inductive Call
  | add (x : Event)
  | addAll (events : List Event)
  | getOrCreate (hour : Hour)
  | query (text : String) (range : TimeRange) (most : Nat) (token : Token)
  | purge
  | dropData (now : Instant)
  | lock
  | unlock

namespace Call

abbrev Answer : Call → Type
  | add _ => Except EngineError Event
  | addAll _ => Report
  | getOrCreate _ => Except EngineError Bucket
  | query .. => Except EngineError (List Event)
  | purge | dropData _ => Except EngineError Nat
  | lock | unlock => Except EngineError Unit

def activity : (c : Call) → Activity Engine c.Answer
  | add x => (EventSet.add x).run
  | addAll events => EventSet.addAll events
  | getOrCreate hour => (EventSet.getOrCreate hour).run
  | query text range most token => (EventSet.query text range most token).run
  | purge => EventSet.purge.run
  | dropData now => (EventSet.dropData now).run
  | lock => EventSet.lock.run
  | unlock => EventSet.unlock.run

/-- The call adds events, which the store can hold, makes a bucket for them or asks for events. It
evicts and locks nothing. -/
def Stays : Call → Prop
  | add x => x.Fits
  | addAll events => ∀ x ∈ events, x.Fits
  | getOrCreate _ | query .. => True
  | purge | dropData _ | lock | unlock => False

instance : (c : Call) → Decidable c.Stays
  | add x => inferInstanceAs (Decidable x.Fits)
  | addAll events => inferInstanceAs (Decidable (∀ x ∈ events, x.Fits))
  | getOrCreate _ | query .. => .isTrue trivial
  | purge | dropData _ | lock | unlock => .isFalse id

def given : Call → List Event
  | add x => [x]
  | addAll events => events
  | _ => []

/-- The events that the call says it has stored. -/
def stored : (c : Call) → c.Answer → List Event
  | add _, .ok x => [x]
  | addAll _, r => r.committed
  | _, _ => []

def Satisfied : (c : Call) → c.Answer → Prop
  | query text _ _ _, .ok found => ∀ x ∈ found, satisfies text x.properties = true
  | _, _ => True

/-- What a call has done in the end is what it says. -/
structure Settled (c : Call) (a : c.Answer) (k : Hand) : Prop where
  free : k.IsFree (c.stored a)
  given : bare (c.stored a) ≤ bare c.given
  satisfied : c.Satisfied a

end Call

theorem Call.activity_abides {c : Call} (h : c.Stays) :
    c.activity.Abides sharing e .empty fun a _ => c.Settled a := by
  have hfree : Hand.IsFree .empty [] := ⟨rfl, rfl, rfl⟩
  cases c with
  | add x =>
    refine Activity.Abides.mono (add_abides hfree h) ?_
    rintro (p | added) e' k' hk
    · exact ⟨hk, Multiset.zero_le _, trivial⟩
    · obtain ⟨hk, b, last, hb⟩ := hk
      refine ⟨hk, ?_, trivial⟩
      show bare [added] ≤ bare [x]
      rw [hb, bare_numbered]
  | addAll events =>
    refine ((addAll_abides hfree h).and_keeps (addAll_covers events) fun _ _ => trivial).mono ?_
    rintro r e' k' ⟨hk, -, lost, -, hr⟩
    refine ⟨hk, ?_, trivial⟩
    show bare r.committed ≤ bare events
    rw [← hr, add_assoc]
    exact Multiset.le_add_right _ _
  | getOrCreate hour =>
    refine Activity.Abides.mono (getOrCreate_abides hfree hour) ?_
    rintro (p | b) e' k' hk
    · exact ⟨hk, Multiset.zero_le _, trivial⟩
    · exact ⟨hk.2.2, Multiset.zero_le _, trivial⟩
  | query text range most token =>
    refine Activity.Abides.mono (query_leaves text range most token e .empty) ?_
    rintro (p | found) e' k' hk
    · obtain rfl : k' = .empty := hk
      exact ⟨hfree, Multiset.zero_le _, trivial⟩
    · obtain ⟨rfl, hfound⟩ := hk
      exact ⟨hfree, Multiset.zero_le _, hfound⟩
  | purge | dropData | lock | unlock => cases h

/-- Calls that evict and lock nothing may go on at the same time. -/
theorem orderly_stays :
    Scene.Orderly sharing Call.activity Call.Stays Engine.Shaken .empty Call.Settled where
  call h := Call.activity_abides h
  holds := held_empty _
  apart := Hand.apart_empty _
  sound h hs := hs.shaken h
  others h := .of_shaken h _

-- ---- accounts of a run ---------------------------------------------------

/-- Some call is at work where the engine says so. -/
structure Attended (e : Engine) (ks : List Hand) : Prop where
  writing : ∀ {b : Bucket}, Registered b e → (e.data b).writing = true →
    ∃ k ∈ ks, k.writes = some b
  registering : e.registering = true → ∃ k ∈ ks, k.registers = true

/-- A step attends to what nobody attended to before. -/
theorem Acts.writing (h : Acts e k e' k') (hs : Sound e) (hk : Held e k) (hb : Registered b e')
    (hw : (e'.data b).writing = true) :
    k'.writes = some b ∨ Registered b e ∧ (e.data b).writing = true ∧ k.writes ≠ some b := by
  -- A bucket of another number is as it was.
  have hother {c : Bucket} {d : BucketData} (hb : Registered b e) (hne : b.number ≠ c.number)
      (hw : ((e.setData c d).data b).writing = true) : (e.data b).writing = true := by
    rwa [data_setData_ne hne] at hw
  have hsame {w : Option Bucket} (hkw : w = k.writes) (hb : Registered b e)
      (hw : (e.data b).writing = true) :
      w = some b ∨ Registered b e ∧ (e.data b).writing = true ∧ k.writes ≠ some b := by
    by_cases hkb : k.writes = some b
    · exact .inl (hkw.trans hkb)
    · exact .inr ⟨hb, hw, hkb⟩
  cases h with
  | asks | enters | leaves | stores => exact hsame rfl hb hw
  | opens c hc => exact hsame rfl hb (data_push (hs.here hb) ▸ hw)
  | prepares hc d => exact hsame rfl hb (hother hb (hk.unknown hc hb) hw)
  | @registers c hr hc hn hi _ =>
    refine hsame rfl ?_ hw
    have hne : b ≠ c := by
      rintro rfl
      have hw : (e.data b).writing = true := hw
      rw [hi] at hw
      cases hw
    exact ((getElem?_insert_eq_some.mp hb).resolve_left fun h => hne h.2).2
  | @takes c hkw hc hi =>
    by_cases hn : b.number = c.number
    · exact .inl (congrArg some (hs.apart hc hb hn.symm))
    · exact .inr ⟨hb, hother hb hn hw, by simp [hkw]⟩
  | @alters c hc d hd =>
    by_cases hn : b.number = c.number
    · exact .inl (hs.apart hb (hk.registered hc) hn ▸ hc)
    · exact hsame rfl hb (hother hb hn hw)
  | @releases c hc hi =>
    have hn : b.number ≠ c.number := by
      intro hn
      rw [Engine.data_setData (hs.here (hk.registered hc)), if_pos hn.symm] at hw
      cases hw
    refine .inr ⟨hb, hother hb hn hw, fun hkb => hn ?_⟩
    rw [Option.some.inj (hkb.symm.trans hc)]

theorem Acts.registering (h : Acts e k e' k') (hr : e'.registering = true) :
    k'.registers = true ∨ e.registering = true ∧ k.registers = false := by
  cases h with
  | enters => exact .inl rfl
  | leaves => cases hr
  | _ =>
    by_cases hk : k.registers = true
    · exact .inl hk
    · exact .inr ⟨hr, by simpa using hk⟩

/-- A step stores nothing, or events with the next ids behind those that are there. -/
theorem Acts.stored (h : Acts e k e' k') (hk : Held e k) :
    k'.stored = k.stored ∧ (∀ c, e'.content c = e.content c) ∨
    ∃ (b : Bucket) (i : Index) (last : UInt32) (events : List Event), Registered b e ∧
      Bucket.indexOf (e.content b).toList = .ok (i, last) ∧ (∀ x ∈ events, x.Fits) ∧
      last.toNat + events.length < 4294967296 ∧
      k'.stored = k.stored ++ b.numbered last events ∧
      (e'.content b).toList = (e.content b).toList ++ (b.numbered last events).map Event.entry ∧
      ∀ c : Bucket, c.hour ≠ b.hour → e'.content c = e.content c := by
  cases h with
  | asks store cache ht _ => exact .inl ⟨rfl, content_of_tame ht⟩
  | @stores b es i last hb hes hi events hf hr store hv =>
    have hc : e.content b = es := by rw [Engine.content, hes, Option.getD_some]
    refine .inr ⟨b, i, last, events, hk.registered hb, hc ▸ hi, hf, hr, rfl, ?_, fun c hne => ?_⟩
    · rw [hc, ← Entries.toList_applyAll (Bucket.lt_of_indexOf hi hr) (Bucket.pairwise_numbered hr)]
      simp only [Engine.content]
      rw [hv, Bucket.effect_writing]
      simp [hes]
    · simp only [Engine.content, entries?_stored hv hne]
  | _ => exact .inl ⟨rfl, fun _ => rfl⟩

theorem Attended.moves (h : Attended e (before ++ k :: after)) (hs : Sound e) (hk : Held e k)
    (ha : Acts e k e' k') : Attended e' (before ++ k' :: after) := by
  -- Who attends is the call that takes the step, or another, which still does.
  have hstill {P : Hand → Prop} (hp : ∃ j ∈ before ++ k :: after, P j) (hn : ¬P k) :
      ∃ j ∈ before ++ k' :: after, P j := by
    obtain ⟨j, hj, hpj⟩ := hp
    have hne : j ≠ k := by
      rintro rfl
      exact hn hpj
    rcases List.mem_append.mp hj with hj | hj
    · exact ⟨j, List.mem_append_left _ hj, hpj⟩
    · exact ⟨j, List.mem_append_right _ (List.mem_cons_of_mem _
        ((List.mem_cons.mp hj).resolve_left hne)), hpj⟩
  constructor
  · intro b hb hw
    rcases ha.writing hs hk hb hw with hk' | ⟨hb, hw, hn⟩
    · exact ⟨k', by simp, hk'⟩
    · exact hstill (h.writing hb hw) hn
  · intro hr
    rcases ha.registering hr with hk' | ⟨hr, hn⟩
    · exact ⟨k', by simp, hk'⟩
    · exact hstill (h.registering hr) (by simp [hn])

theorem hour_of_id {b c : Bucket} (h : b.id = c.id) : b.hour = c.hour := by
  have hs : b.hour.startSeconds = c.hour.startSeconds := by
    rw [← b.toNat_id, ← c.toNat_id, h]
  unfold Hour.startSeconds at hs
  have hn : b.hour.number = c.hour.number := by omega
  exact congrArg Hour.mk hn

def ofBucket (b : Bucket) (events : List Event) : List Event := events.filter (·.bucket == b.id)

theorem bucket_of_mem_numbered {x : Event} {last : UInt32} {events : List Event}
    (h : x ∈ b.numbered last events) : x.bucket = b.id := by
  obtain ⟨i, hi⟩ := List.getElem?_of_mem h
  rw [Bucket.getElem?_numbered] at hi
  obtain ⟨y, -, rfl⟩ := Option.map_eq_some_iff.mp hi
  rfl

theorem ofBucket_numbered (b c : Bucket) (last : UInt32) (events : List Event) :
    ofBucket b (c.numbered last events) =
      if c.hour = b.hour then b.numbered last events else [] := by
  split
  · next hh =>
    rw [← Bucket.numbered_congr hh, ofBucket, List.filter_eq_self, Bucket.id_congr hh.symm]
    exact fun x hx => beq_iff_eq.mpr (bucket_of_mem_numbered hx)
  · next hh =>
    rw [ofBucket, List.filter_eq_nil_iff]
    intro x hx hb
    exact hh (hour_of_id ((bucket_of_mem_numbered hx).symm.trans (beq_iff_eq.mp hb)))

/-- Since `e₀` the events `log` have come behind those that were there for the bucket. They are what
has been stored for it. -/
structure Logged (e₀ e : Engine) (b : Bucket) (stored : List Event) (last : UInt32)
    (log : List Event) : Prop where
  stored : (ofBucket b stored).Perm (b.numbered last log)
  entries : (e.content b).toList = (e₀.content b).toList ++ (b.numbered last log).map Event.entry
  fits : ∀ x ∈ log, x.Fits
  room : last.toNat + log.length < 4294967296
  registered : log ≠ [] → ∃ c, e.registry[b.hour]? = some c
  follows : log ≠ [] → ∃ i, Bucket.indexOf (e₀.content b).toList = .ok (i, last)

theorem indexOf_logged {last : UInt32} {log : List Event} {i : Index} {l l₀ : List (Bytes × Bytes)}
    (h : l = l₀ ++ (b.numbered last log).map Event.entry) (hf : ∀ x ∈ log, x.Fits)
    (hr : last.toNat + log.length < 4294967296) (hi : Bucket.indexOf l₀ = .ok (i, last)) :
    Bucket.indexOf l =
      .ok (Bucket.indexAll (b.numbered last log) i, last + log.length.toUInt32) := by
  rw [h, Bucket.indexOf_eq, List.foldlM_append, ← Bucket.indexOf_eq, hi]
  exact Bucket.learnt_numbered hr hf

variable {last : UInt32} {log stored stored' : List Event}

theorem Logged.perm (h : Logged e₀ e b stored last log)
    (hs : (ofBucket b stored').Perm (ofBucket b stored)) : Logged e₀ e b stored' last log :=
  { h with stored := hs.trans h.stored }

theorem Logged.grows (h : Logged e₀ e b stored last log) (hg : Grows e e')
    (hc : e'.content b = e.content b) : Logged e₀ e' b stored last log :=
  { h with
    entries := hc ▸ h.entries
    registered := fun hn => (h.registered hn).imp fun _ hc => hg.registered hc }

theorem Logged.stores (h : Logged e₀ e b stored last log) (hg : Grows e e')
    (hb : e.registry[b.hour]? = some c) {i : Index} {next : UInt32} {events : List Event}
    (hi : Bucket.indexOf (e.content b).toList = .ok (i, next)) (hf : ∀ x ∈ events, x.Fits)
    (hr : next.toNat + events.length < 4294967296)
    (hc : (e'.content b).toList =
      (e.content b).toList ++ (b.numbered next events).map Event.entry) :
    ∃ last, Logged e₀ e' b (stored ++ b.numbered next events) last (log ++ events) := by
  -- The next id is the one after the log.
  obtain ⟨last, h, hnext, i₀, hi₀⟩ : ∃ last, Logged e₀ e b stored last log ∧
      next = last + log.length.toUInt32 ∧
        ∃ i, Bucket.indexOf (e₀.content b).toList = .ok (i, last) := by
    by_cases hn : log = []
    · subst hn
      have he : (e.content b).toList = (e₀.content b).toList := by
        simpa [Bucket.numbered] using h.entries
      exact ⟨next, { h with
        entries := by simpa [Bucket.numbered] using he
        room := by simpa using next.toNat_lt
        registered := absurd rfl
        follows := absurd rfl }, by simp, i, he ▸ hi⟩
    · obtain ⟨i₀, hi₀⟩ := h.follows hn
      rw [indexOf_logged h.entries h.fits h.room hi₀] at hi
      cases hi
      exact ⟨last, h, rfl, i₀, hi₀⟩
  have hlen := Bucket.toNat_add_toUInt32 last log.length h.room
  have hnumbered : b.numbered last (log ++ events) =
      b.numbered last log ++ b.numbered next events := by
    rw [Bucket.numbered_append, hnext]
  refine ⟨last, {
    stored := ?_
    entries := ?_
    fits := ?_
    room := ?_
    registered := fun _ => ⟨c, hg.registered hb⟩
    follows := fun _ => ⟨i₀, hi₀⟩ }⟩
  · rw [hnumbered, ofBucket, List.filter_append]
    refine h.stored.append (List.Perm.of_eq ?_)
    exact (ofBucket_numbered b b next events).trans (if_pos rfl)
  · rw [hc, h.entries, hnumbered, List.map_append, List.append_assoc]
  · exact fun x hx => (List.mem_append.mp hx).elim (h.fits x) (hf x)
  · rw [List.length_append]
    rw [hnext, hlen] at hr
    omega

/-- What a step stores comes behind what has been stored. -/
theorem Logged.moves (h : Logged e₀ e b ((before ++ k :: after).flatMap Hand.stored) last log)
    (hk : Held e k) (ha : Acts e k e' k') : ∃ last log,
      Logged e₀ e' b ((before ++ k' :: after).flatMap Hand.stored) last log := by
  have hg := ha.grows hk
  rcases ha.stored hk with ⟨hs, hc⟩ | ⟨c, i, next, events, hc, hi, hf, hr, hs, hes, hne⟩
  · refine ⟨last, log, (h.grows hg (hc b)).perm ?_⟩
    simp only [List.flatMap_append, List.flatMap_cons, hs]
    exact .refl _
  · have hperm : ((before ++ k' :: after).flatMap Hand.stored).Perm
        ((before ++ k :: after).flatMap Hand.stored ++ c.numbered next events) := by
      simp only [List.flatMap_append, List.flatMap_cons, hs, List.append_assoc]
      exact (List.perm_append_comm.append_left _).append_left _
    by_cases hh : c.hour = b.hour
    · have hcb (e : Engine) : e.content c = e.content b := by
        rw [Engine.content, Bucket.eventsMap, hh, Engine.content, Bucket.eventsMap]
      rw [hcb, hcb, Bucket.numbered_congr hh] at hes
      rw [Bucket.numbered_congr hh] at hperm
      have hreg : e.registry[b.hour]? = some c := hh ▸ (show e.registry[c.hour]? = some c from hc)
      obtain ⟨last, h⟩ := h.stores hg hreg (hcb e ▸ hi) hf hr hes
      exact ⟨last, log ++ events, h.perm (hperm.filter _)⟩
    · refine ⟨last, log, (h.grows hg (hne b (Ne.symm hh))).perm ((hperm.filter _).trans ?_)⟩
      rw [List.filter_append]
      exact List.Perm.of_eq (by
        rw [← ofBucket, ← ofBucket, ofBucket_numbered, if_neg hh, List.append_nil])

-- ---- a whole run ---------------------------------------------------------

/-- Nobody is at work. -/
structure Quiet (e : Engine) : Prop extends Sound e where
  idle : ∀ {b : Bucket}, Registered b e → (e.data b).writing = false
  registering : e.registering = false

/-- So it is whenever calls have been made one after the other. -/
theorem quiet_of_reached (h : Reached e) : Quiet e := by
  obtain ⟨logs, hh⟩ := h.holds
  have hindexed {b : Bucket} (hb : Registered b e) : b.Indexed (e.cell b) := by
    obtain ⟨-, hr, hw⟩ := hh.inUse hb
    obtain ⟨es, hes⟩ := Option.isSome_iff_exists.mp (hr.there hw).1
    have hi := hr.kept.indexOf_eq
    rw [hes, Option.getD_some, ← hr.index, ← hr.last] at hi
    exact ⟨es, hes, hi⟩
  refine {
    cache := hh.cache
    hour := hh.hour
    here := fun hb => (hh.inUse hb).here
    apart := fun {b c} hb hc hn => ?_
    usable := fun {b} hb => ?_
    indexed := fun hb _ => hindexed hb
    idle := fun hb => (hh.inUse hb).represents.idle
    registering := hh.free }
  · by_contra hne
    exact hh.apart hb hc (hour_ne_of_registered hc hb hne) hn
  · obtain ⟨-, hr, hw⟩ := hh.inUse hb
    obtain ⟨hevents, hoptions⟩ := hr.there hw
    obtain ⟨es, hes⟩ := Option.isSome_iff_exists.mp hevents
    exact ⟨hevents, hoptions, content_eq hes ▸ backed_of_indexed (hindexed hb) hes, hw⟩

/-- What has come of `e₀` is accounted for by what the calls have in hand. -/
structure Accounted (e₀ e : Engine) (ks : List Hand) : Prop where
  grows : Grows e₀ e
  attended : Attended e ks
  placed : ∀ x ∈ ks.flatMap Hand.stored, ∃ b : Bucket, x.bucket = b.id
  logged : ∀ b, ∃ last log, Logged e₀ e b (ks.flatMap Hand.stored) last log

theorem Quiet.accounted (h : Quiet e) : Accounted e e [] where
  grows := .refl e
  attended := ⟨fun hb hw => by simp [h.idle hb] at hw, fun hr => by simp [h.registering] at hr⟩
  placed := nofun
  logged b := ⟨0, [], .refl _, by simp [Bucket.numbered], nofun, by simp, absurd rfl, absurd rfl⟩

theorem Accounted.of_same (h : Accounted e₀ e ks) (hs : Same e e') : Accounted e₀ e' ks := by
  refine ⟨h.grows.trans (.of_same hs), ⟨fun hb hw => ?_, fun hr => ?_⟩, h.placed, fun b => ?_⟩
  · exact h.attended.writing (hs.registered.mp hb) (hs.data _ ▸ hw)
  · exact h.attended.registering (hs.registering ▸ hr)
  · obtain ⟨last, log, hl⟩ := h.logged b
    exact ⟨last, log, hl.grows (.of_same hs) (hs.content b)⟩

theorem accounted_preserved (e₀ : Engine) :
    Scene.Preserves sharing Engine.Shaken .empty (Accounted e₀) where
  call {e ks} h := by
    have hks : (ks ++ [Hand.empty]).flatMap Hand.stored = ks.flatMap Hand.stored := by
      simp [Hand.empty]
    refine ⟨h.grows, ⟨fun hb hw => ?_, fun hr => ?_⟩, hks ▸ h.placed, hks ▸ h.logged⟩
    · obtain ⟨k, hk, hkb⟩ := h.attended.writing hb hw
      exact ⟨k, List.mem_append_left _ hk, hkb⟩
    · obtain ⟨k, hk, hkr⟩ := h.attended.registering hr
      exact ⟨k, List.mem_append_left _ hk, hkr⟩
  task {e k e' k' before after} hs hk ha h := by
    refine ⟨h.grows.trans (Acts.grows ha hk), h.attended.moves hs hk ha, fun x hx => ?_,
      fun b => ?_⟩
    · have hplaced := h.placed x
      simp only [List.flatMap_append, List.flatMap_cons, List.mem_append] at hx hplaced
      rcases Acts.stored ha hk with ⟨hks, -⟩ | ⟨b, -, last, events, -, -, -, -, hks, -⟩
      · exact hplaced (hks ▸ hx)
      · rw [hks, List.mem_append] at hx
        rcases hx with hx | (hx | hx) | hx
        · exact hplaced (.inl hx)
        · exact hplaced (.inr (.inl hx))
        · exact ⟨b, bucket_of_mem_numbered hx⟩
        · exact hplaced (.inr (.inr hx))
    · obtain ⟨last, log, hl⟩ := h.logged b
      exact hl.moves hk ha
  around hr h := h.of_same (.of_shaken hr)

abbrev Task := EventStore.Task Engine Call.Answer

abbrev Scene := EventStore.Scene Engine Call.Answer

/-- What the task says it has stored. -/
def reported (t : Task) : List Event := (t.rest.answer?.map t.call.stored).getD []

/-- Since `e₀` the events have been stored for the bucket, behind those that were there and with the
ids that follow, and the bucket's index and counter are those of all. -/
structure Continues (e₀ e : Engine) (b : Bucket) (events : List Event) (i : Index) (last : UInt32)
    (log : List Event) (es : Entries) : Prop where
  before : Bucket.indexOf (e₀.content b).toList = .ok (i, last)
  room : last.toNat + log.length < 4294967296
  events : events.Perm (b.numbered last log)
  there : e.store.entries? b.eventsMap = some es
  entries : es.toList = (e₀.content b).toList ++ (b.numbered last log).map Event.entry
  index : (e.data b).index = Bucket.indexAll (b.numbered last log) i
  lastId : (e.data b).lastId = last + log.length.toUInt32

/-- What calls that evict and lock nothing have made of `e₀` when all of them are done. -/
structure Converged (e₀ : Engine) (s : Scene) : Prop where
  quiet : Quiet s.state
  /-- There is at most one bucket an hour. -/
  one : ∀ {h h' : Hour} {b c : Bucket}, s.state.registry[h]? = some b →
    s.state.registry[h']? = some c → b.hour = c.hour → b = c
  kept : ∀ {h : Hour} {b : Bucket}, e₀.registry[h]? = some b → s.state.registry[h]? = some b
  given : ∀ t ∈ s.tasks, bare (reported t) ≤ bare t.call.given
  distinct : ((s.tasks.flatMap reported).map fun x => (x.bucket, x.id)).Nodup
  /-- What has been stored for a bucket is what the calls say. -/
  continues : ∀ {b : Bucket}, Registered b s.state → ∃ i last log es,
    Continues e₀ s.state b (ofBucket b (s.tasks.flatMap reported)) i last log es
  /-- Where no bucket has been registered, nothing has been stored. -/
  absent : ∀ {b : Bucket}, s.state.registry[b.hour]? = none →
    s.state.content b = e₀.content b ∧ ofBucket b (s.tasks.flatMap reported) = []

theorem nodup_places {events : List Event} (hp : ∀ x ∈ events, ∃ b : Bucket, x.bucket = b.id)
    (h : ∀ b, ∃ last log, last.toNat + log.length < 4294967296 ∧
      (ofBucket b events).Perm (b.numbered last log)) :
    (events.map fun x => (x.bucket, x.id)).Nodup := by
  refine List.pairwise_map.mpr (List.pairwise_iff_forall_sublist.mpr ?_)
  intro x y hxy he
  obtain ⟨hb, hid⟩ := Prod.mk.inj he
  obtain ⟨b, hxb⟩ := hp x (hxy.subset List.mem_cons_self)
  obtain ⟨last, log, hr, hl⟩ := h b
  have hids : (ofBucket b events).Pairwise (·.id ≠ ·.id) :=
    hl.symm.pairwise ((Bucket.pairwise_numbered hr).imp fun h => UInt32.ne_of_lt h)
      fun h => h.symm
  have hsub : [x, y].Sublist (ofBucket b events) := by
    have := hxy.filter (·.bucket == b.id)
    simpa [ofBucket, hxb, ← hb] using this
  exact List.pairwise_iff_forall_sublist.mp hids hsub hid

theorem Accounted.continues (h : Accounted e₀ e ks) (hi : b.Indexed (e.cell b)) : ∃ i last log es,
      Continues e₀ e b (ofBucket b (ks.flatMap Hand.stored)) i last log es := by
  obtain ⟨es, hes, hi⟩ := hi
  have hes : e.store.entries? b.eventsMap = some es := hes
  have hi : Bucket.indexOf es.toList = .ok ((e.data b).index, (e.data b).lastId) := hi
  have hc : e.content b = es := by rw [Engine.content, hes, Option.getD_some]
  obtain ⟨last, log, hl⟩ := h.logged b
  by_cases hn : log = []
  · subst hn
    have he : es.toList = (e₀.content b).toList := by
      simpa [Bucket.numbered, hc] using hl.entries
    exact ⟨_, (e.data b).lastId, [], es, he ▸ hi, by simpa using UInt32.toNat_lt _, hl.stored, hes,
      by simpa [Bucket.numbered] using he, by simp [Bucket.numbered, Bucket.indexAll], by simp⟩
  · obtain ⟨i, hi₀⟩ := hl.follows hn
    have hentries := hc ▸ hl.entries
    rw [indexOf_logged hentries hl.fits hl.room hi₀] at hi
    obtain ⟨hindex, hlast⟩ := Prod.mk.inj (Except.ok.inj hi)
    exact ⟨i, last, log, es, hi₀, hl.room, hl.stored, hes, hentries, hindex.symm, hlast.symm⟩

theorem Accounted.absent (h : Accounted e₀ e ks) (hb : e.registry[b.hour]? = none) :
    e.content b = e₀.content b ∧ ofBucket b (ks.flatMap Hand.stored) = [] := by
  obtain ⟨last, log, hl⟩ := h.logged b
  have hn : log = [] := by
    by_contra hn
    obtain ⟨c, hc⟩ := hl.registered hn
    rw [hb] at hc
    cases hc
  subst hn
  exact ⟨h.grows.content hb, hl.stored.eq_nil⟩

theorem Accounted.quiet (h : Accounted e₀ e ks) (hs : Sound e)
    (hfree : ∀ k ∈ ks, k.writes = none ∧ k.registers = false) : Quiet e := by
  refine ⟨hs, fun {b} hb => ?_, ?_⟩
  · by_contra hw
    obtain ⟨k, hk, hkb⟩ := h.attended.writing hb (by simpa using hw)
    rw [(hfree k hk).1] at hkb
    cases hkb
  · by_contra hw
    obtain ⟨k, hk, hkr⟩ := h.attended.registering (by simpa using hw)
    rw [(hfree k hk).2] at hkr
    cases hkr

theorem Accounted.distinct (h : Accounted e₀ e ks) :
    ((ks.flatMap Hand.stored).map fun x => (x.bucket, x.id)).Nodup :=
  nodup_places h.placed fun b =>
    have ⟨last, log, hl⟩ := h.logged b
    ⟨last, log, hl.room, hl.stored⟩

theorem free_of_settled {ts : List Task}
    (h : ts.Forall₂ (fun t k => ∃ a, t.rest.answer? = some a ∧ t.call.Settled a k) ks) :
    ks.flatMap Hand.stored = ts.flatMap reported ∧
      (∀ k ∈ ks, k.writes = none ∧ k.registers = false) ∧
        ∀ t ∈ ts, bare (reported t) ≤ bare t.call.given := by
  induction h with
  | nil => exact ⟨rfl, List.forall_mem_nil _, List.forall_mem_nil _⟩
  | @cons t k ts ks hk _ ih =>
    obtain ⟨hstored, hks, hts⟩ := ih
    obtain ⟨a, ha, ⟨hw, hr, hs⟩, hgiven, -⟩ := hk
    have hreported : reported t = t.call.stored a := by rw [reported, ha]; rfl
    refine ⟨?_, List.forall_mem_cons.mpr ⟨⟨hw, hr⟩, hks⟩,
      List.forall_mem_cons.mpr ⟨hreported ▸ hgiven, hts⟩⟩
    rw [List.flatMap_cons, List.flatMap_cons, hstored, hreported, hs]

/-- However the steps of calls alternate that evict and lock nothing, and whatever calls to the
store fail, when all are done there is one bucket an hour, and what they say they have stored is
what it holds behind what it held before, with consecutive ids and the index that goes with it. -/
theorem converged_of_run {e₀ : Engine} {s : Scene} (h₀ : Quiet e₀)
    (hr : Scene.Run Call.activity Call.Stays Engine.Shaken ⟨e₀, []⟩ s)
    (hq : s.isQuiet = true) : Converged e₀ s := by
  obtain ⟨ks, habides, hacc⟩ := Scene.exists_abides_of_run orderly_stays
    (accounted_preserved e₀) hr ⟨h₀.toSound, .nil, .nil⟩ h₀.accounted
  obtain ⟨hstored, hfree, hgiven⟩ := free_of_settled (habides.settled hq)
  have hquiet := hacc.quiet habides.sound hfree
  refine ⟨hquiet, fun {h h' b c} hb hc hh => ?_, hacc.grows.registered, hgiven,
    hstored ▸ hacc.distinct, fun hb => ?_, fun hb => ?_⟩
  · have hhb := hquiet.hour hb
    have hhc := hquiet.hour hc
    subst hhb
    rw [← hhc, ← hh, hb] at hc
    exact Option.some.inj hc
  · exact hstored ▸ hacc.continues (hquiet.indexed hb (hquiet.idle hb))
  · exact hstored ▸ hacc.absent hb

-- ---- one run -------------------------------------------------------------

theorem quiet_fresh (store : Store) {cache : Cache} (hc : cache.Sound)
    (settings : Config.EngineSection) : Quiet (.fresh store cache settings) where
  cache := hc
  hour h := by simp [Engine.fresh] at h
  here h := by simp [Registered, Engine.fresh] at h
  apart h := by simp [Registered, Engine.fresh] at h
  usable h := by simp [Registered, Engine.fresh] at h
  indexed h := by simp [Registered, Engine.fresh] at h
  idle h := by simp [Registered, Engine.fresh] at h
  registering := rfl

/-- Two calls to add events of one hour, for which there is no bucket yet. -/
def twoAdding : List Call :=
  [.add (Event.new 1709647200000),
    .addAll [Event.new 1709647200001, Event.new 1709647200002]]

def twoAdded (e : Engine) : Scene :=
  .turns Call.activity e twoAdding (List.replicate 40 [0, 1]).flatten

theorem run_twoAdded (e : Engine) :
    Scene.Run Call.activity Call.Stays Engine.Shaken ⟨e, []⟩ (twoAdded e) :=
  Scene.run_turns (by decide +kernel) _

/-- Both have opened a bucket, of which one has been registered and holds all. -/
theorem converged_of_run_of_two : ∃ e₀ s, Quiet e₀ ∧
    Scene.Run Call.activity Call.Stays Engine.Shaken ⟨e₀, []⟩ s ∧ s.isQuiet = true ∧
    s.state.opened.size = 2 ∧ (s.tasks.flatMap reported).map (·.id) = [1, 2, 3] ∧
    Converged e₀ s := by
  have h₀ : Quiet (.fresh .inMemory .standard .standard) := quiet_fresh _ (Cache.sound_new _ _) _
  have hq : (twoAdded (.fresh .inMemory .standard .standard)).isQuiet = true := by decide +kernel
  exact ⟨_, _, h₀, run_twoAdded _, hq, by decide +kernel, by decide +kernel,
    converged_of_run h₀ (run_twoAdded _) hq⟩

end EventSet

end EventStore
