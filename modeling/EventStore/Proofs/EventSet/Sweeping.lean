import EventStore.Proofs.Bucket.Dropped
import EventStore.Proofs.Bucket.Undisturbed
import EventStore.Proofs.EventSet.Throughout

/-!
# Sweeping a set

To purge a set or to drop its old data is to evict the buckets of some hours, one after the other,
and to spare the locked ones. Whatever calls to the store fail on the way, nothing but these buckets
is touched, and each of them can still be evicted or is gone for good (`EventSet.Thinned`). A sweep
that succeeds has evicted all (`Sweep.triple`), and where no call is refused it does succeed and
tells how many those were (`Sweep.exists_result`).
-/

namespace EventStore

open Std Query Operation

namespace EventSet

-- ---- in service ----------------------------------------------------------

/-- Nobody is at work on the bucket, and it can be written to as far as it knows. -/
structure InService (_ : Bucket) (c : Cell) : Prop where
  writable : c.data.state.isWritable = true
  idle : c.data.writing = false

theorem lasting_inService : Bucket.Lasting InService where
  view h _ _ := ⟨h.writable, h.idle⟩
  prepared h _ := ⟨h.writable, h.idle⟩
  rebuilt {b c v} h := by
    obtain ⟨index, last, -, rfl⟩ := h
    refine ⟨?_, rfl⟩
    dsimp only [Bucket.markedState]
    split <;> rfl
  added h _ _ := ⟨h.writable, h.idle⟩
  marked locked h _ _ := ⟨by cases locked <;> rfl, h.idle⟩

/-- A bucket that has lost its events may still be ready. -/
theorem outlasts_inService : Outlasts InService := by
  rintro b c _ h (_ | ⟨-, -⟩ | ⟨hg, -⟩)
  · exact h
  · exact ⟨h.writable, h.idle⟩
  · cases hg

theorem inService_of_evolved {e : Engine} (h : Evolved true e) : Throughout InService e :=
  throughout_of_evolved lasting_inService (fun _ => outlasts_inService) h

end EventSet

-- ---- what is known of buckets --------------------------------------------

namespace Engine

variable {e e' : Engine} {b c : Bucket}

theorem data_congr (h : b.number = c.number) : e.data b = e.data c := by rw [data, h, data]

theorem opened_eq (hs : e.opened.size = e'.opened.size) (h : ∀ b, e.data b = e'.data b) :
    e.opened = e'.opened := by
  refine Array.ext hs fun i hi hi' => ?_
  -- The data of a bucket depend on nothing but its number.
  have hd := h { Bucket.firstHour with number := i }
  simpa [data, Array.getD_eq_getD_getElem?, hi, hi'] using hd

end Engine

namespace EventSet

-- ---- what is to go -------------------------------------------------------

variable {p : Hour → Bool} {e e' u u' : Engine} {b c : Bucket} {hour : Hour}

/-- The bucket is registered for one of the hours `p`, and it is not locked. -/
structure Doomed (p : Hour → Bool) (e : Engine) (b : Bucket) : Prop where
  registered : Registered b e
  meant : p b.hour = true
  unlocked : (e.data b).state ≠ .locked

/-- Nothing is left of the bucket. -/
structure Erased (b : Bucket) (e : Engine) : Prop where
  registry : e.registry[b.hour]? = none
  data : e.data b = .gone
  events : e.store.entries? b.eventsMap = none
  options : e.store.entries? b.optionsMap = none

/-- Some of the doomed buckets have been erased, and others may have lost their maps. Everything
else is as it was, but for time and the calls that the store refuses. -/
structure Thinned (p : Hour → Bool) (e e' : Engine) : Prop where
  registry : ∀ {hour : Hour} {b : Bucket}, e'.registry[hour]? = some b → e.registry[hour]? = some b
  kept : ∀ {b : Bucket}, Registered b e →
    Registered b e' ∧ e'.data b = e.data b ∨ Doomed p e b ∧ Erased b e'
  size : e'.opened.size = e.opened.size
  data : ∀ {b : Bucket}, (∀ {c}, Doomed p e c → b.number ≠ c.number) → e'.data b = e.data b
  maps : ∀ {m : String}, (∀ {c : Bucket}, Doomed p e c → m ≠ c.eventsMap ∧ m ≠ c.optionsMap) →
    e'.store.entries? m = e.store.entries? m
  rest : e' = { e with
    store := e'.store, clock := e'.clock, opened := e'.opened, registry := e'.registry }

namespace Thinned

theorem registered (h : Thinned p e e') (hb : Registered b e') : Registered b e := h.registry hb

theorem data_eq (h : Thinned p e e') (hb : Registered b e') : e'.data b = e.data b := by
  rcases h.kept (h.registered hb) with ⟨-, hd⟩ | ⟨-, he⟩
  · exact hd
  · rw [Registered, he.registry] at hb
    cases hb

theorem doomed (h : Thinned p e e') (hd : Doomed p e' b) : Doomed p e b :=
  ⟨h.registered hd.registered, hd.meant, h.data_eq hd.registered ▸ hd.unlocked⟩

theorem maps_eq (h : Thinned p e e') (hne : ∀ {c : Bucket}, Doomed p e c → b.hour ≠ c.hour) :
    e'.store.entries? b.eventsMap = e.store.entries? b.eventsMap ∧
      e'.store.entries? b.optionsMap = e.store.entries? b.optionsMap := by
  refine ⟨h.maps fun {c} hc => ⟨fun hm => ?_, Hour.eventsMap_ne_optionsMap b.named c.named⟩,
    h.maps fun {c} hc => ⟨(Hour.eventsMap_ne_optionsMap c.named b.named).symm, fun hm => ?_⟩⟩
  · exact hne hc (Hour.eventsMap_inj b.named c.named hm)
  · exact hne hc (Hour.optionsMap_inj b.named c.named hm)

theorem erased {P : Bucket → Cell → Prop} (h : Thinned p e e') (h' : Thinned p e' u)
    (he : Throughout P e) (hb : Registered b e) (hg : Erased b e') : Erased b u := by
  have hne {c : Bucket} (hc : Doomed p e' c) : b.hour ≠ c.hour := by
    intro hh
    have hc := hc.registered
    rw [Registered, ← hh, hg.registry] at hc
    cases hc
  obtain ⟨hevents, hoptions⟩ := h'.maps_eq hne
  refine ⟨?_, ?_, hevents.trans hg.events, hoptions.trans hg.options⟩
  · refine Option.eq_none_iff_forall_not_mem.mpr fun c hc => ?_
    have hc := h'.registry hc
    rw [hg.registry] at hc
    cases hc
  · refine (h'.data fun hc hn => hne hc ?_).trans hg.data
    rw [he.apart hb (h.doomed hc).registered hn]

theorem trans {P : Bucket → Cell → Prop} (h : Thinned p e e') (h' : Thinned p e' u)
    (he : Throughout P e) : Thinned p e u where
  registry hb := h.registry (h'.registry hb)
  kept hb := by
    rcases h.kept hb with ⟨hb', hd⟩ | ⟨hd, hg⟩
    · rcases h'.kept hb' with ⟨hb'', hd'⟩ | ⟨hd', hg⟩
      · exact .inl ⟨hb'', hd'.trans hd⟩
      · exact .inr ⟨h.doomed hd', hg⟩
    · exact .inr ⟨hd, h.erased h' he hb hg⟩
  size := h'.size.trans h.size
  data hn := (h'.data fun hd => hn (h.doomed hd)).trans (h.data hn)
  maps hm := (h'.maps fun hd => hm (h.doomed hd)).trans (h.maps hm)
  rest := by rw [h'.rest, h.rest]

theorem of_same (hs : b.Spares e e') (hc : e'.cell b = e.cell b) : Thinned p e e' := by
  have hdata (c : Bucket) : e'.data c = e.data c := by
    by_cases hn : c.number = b.number
    · rw [Engine.data_congr hn, Engine.data_congr hn]
      exact congrArg Cell.data hc
    · exact hs.others c hn
  have hv : e'.store.entries? = e.store.entries? := congrArg Cell.view hc
  exact {
    registry := fun hc => registry_eq hs ▸ hc
    kept := fun hc => .inl ⟨by rwa [Registered, registry_eq hs], hdata _⟩
    size := hs.size
    data := fun _ => hdata _
    maps := fun _ => by rw [hv]
    rest := by rw [hs.rest] }

theorem of_shaken (h : e.Shaken e') : Thinned p e e' :=
  have ⟨hs, hc⟩ := Bucket.Spares.of_shaken Bucket.firstHour h
  of_same hs hc

theorem of_spares {P : Bucket → Cell → Prop} (he : Throughout P e) (hb : Doomed p e b)
    (hs : b.Spares e e') (hd : e'.data b = e.data b)
    (hv : b.Confined e.store.entries? e'.store.entries?) : Thinned p e e' where
  registry hc := registry_eq hs ▸ hc
  kept {c} hc := by
    refine .inl ⟨by rwa [Registered, registry_eq hs], ?_⟩
    by_cases hn : c.number = b.number
    · rw [he.apart hc hb.registered hn, hd]
    · exact hs.others c hn
  size := hs.size
  data hn := hs.others _ (hn hb)
  maps hm := hv _ (hm hb).1 (hm hb).2
  rest := by rw [hs.rest]

/-- A bucket that was doomed has been evicted. -/
theorem evicted {P : Bucket → Cell → Prop} (he : Throughout P e) (hb : Doomed p e b)
    (hs : b.Spares e e') (hw : (e.data b).state.isWritable = true)
    (hc : e'.cell b = b.emptied false (e.cell b)) :
    Thinned p e { e' with registry := e'.registry.erase b.hour } := by
  have hview : e'.store.entries? = b.withoutMaps e.store.entries? := by
    refine (congrArg Cell.view hc).trans (if_neg fun hd => ?_)
    rw [show (e.data b).state = .dropped from hd] at hw
    cases hw
  refine {
    registry := fun h => registry_eq hs ▸ (getElem?_erase_eq_some.mp h).2
    kept := fun {c} h => ?_
    size := hs.size
    data := fun hn => hs.others _ (hn hb)
    maps := fun {m} hm => ?_
    rest := by rw [hs.rest] }
  · by_cases hcb : c = b
    · subst hcb
      refine .inr ⟨hb, ExtTreeMap.getElem?_erase_self, congrArg Cell.data hc, ?_, ?_⟩
      · show e'.store.entries? c.eventsMap = none
        rw [hview, Bucket.withoutMaps_apply, if_pos (.inl rfl)]
      · show e'.store.entries? c.optionsMap = none
        rw [hview, Bucket.withoutMaps_apply, if_pos (.inr rfl)]
    · refine .inl ⟨?_, hs.others c fun hn => hcb (he.apart h hb.registered hn)⟩
      have hh : c.hour ≠ b.hour := hour_ne_of_registered hb.registered h hcb
      exact getElem?_erase_eq_some.mpr ⟨hh, registry_eq hs ▸ h⟩
  · show e'.store.entries? m = e.store.entries? m
    rw [hview, Bucket.withoutMaps_apply, if_neg (not_or.mpr (hm hb))]

end Thinned

/-- All doomed buckets have been erased, and the other registered ones are what they were, with
their maps. -/
structure Swept (p : Hour → Bool) (e u : Engine) : Prop extends Thinned p e u where
  erased : ∀ {b : Bucket}, Doomed p e b → Erased b u
  spared : ∀ {b : Bucket}, Registered b e → ¬ Doomed p e b →
    Registered b u ∧ u.data b = e.data b ∧
      u.store.entries? b.eventsMap = e.store.entries? b.eventsMap ∧
        u.store.entries? b.optionsMap = e.store.entries? b.optionsMap

/-- If no doomed buckets are left, that is because they have been erased. -/
theorem Thinned.swept (h : Thinned p e u) (hn : ∀ b, ¬ Doomed p u b) : Swept p e u where
  toThinned := h
  erased {b} hb := by
    rcases h.kept hb.registered with ⟨hb', hd⟩ | ⟨-, hg⟩
    · exact absurd ⟨hb', hb.meant, hd ▸ hb.unlocked⟩ (hn b)
    · exact hg
  spared {b} hb hne := by
    obtain ⟨hb', hd⟩ := (h.kept hb).resolve_right fun hd => hne hd.1
    exact ⟨hb', hd, h.maps_eq fun hc =>
      hour_ne_of_registered hc.registered hb fun hbc => hne (hbc ▸ hc)⟩

namespace Swept

theorem none (h : Swept p e u) : ¬ Doomed p u b := by
  intro hd
  have hb := hd.registered
  rw [Registered, (h.erased (h.doomed hd)).registry] at hb
  cases hb

theorem of_thinned {P : Bucket → Cell → Prop} (h : Thinned p e e') (h' : Swept p e' u)
    (he : Throughout P e) : Swept p e u := (h.trans h'.toThinned he).swept fun _ => h'.none

theorem getElem?_registry {P : Bucket → Cell → Prop} (h : Swept p e u) (he : Throughout P e) :
    u.registry[hour]? = some b ↔ e.registry[hour]? = some b ∧ ¬ Doomed p e b := by
  constructor
  · intro hb
    refine ⟨h.registry hb, fun hd => ?_⟩
    rw [← he.hour (h.registry hb), (h.erased hd).registry] at hb
    cases hb
  · rintro ⟨hb, hn⟩
    have hreg := (h.spared (he.registered hb) hn).1
    rwa [Registered, he.hour hb] at hreg

/-- There is only one way to sweep a set. -/
theorem eq {P : Bucket → Cell → Prop} (h : Swept p e u) (h' : Swept p e u')
    (he : Throughout P e) :
    u = { u' with store := u.store, clock := u.clock } ∧
      u.store.entries? = u'.store.entries? := by
  have hregistry : u.registry = u'.registry := by
    refine ExtTreeMap.ext_getElem? fun hour => Option.ext fun b => ?_
    rw [h.getElem?_registry he, h'.getElem?_registry he]
  have hdata (b : Bucket) : u.data b = u'.data b := by
    by_cases hc : ∃ c, Doomed p e c ∧ b.number = c.number
    · obtain ⟨c, hc, hn⟩ := hc
      rw [Engine.data_congr hn, Engine.data_congr hn, (h.erased hc).data, (h'.erased hc).data]
    · have hn {c : Bucket} (hd : Doomed p e c) : b.number ≠ c.number := fun hn => hc ⟨c, hd, hn⟩
      rw [h.data hn, h'.data hn]
  have hopened : u.opened = u'.opened :=
    Engine.opened_eq (h.size.trans h'.size.symm) hdata
  constructor
  · rw [h.rest, h'.rest, hregistry, hopened]
  · funext m
    by_cases hc : ∃ c : Bucket, Doomed p e c ∧ (m = c.eventsMap ∨ m = c.optionsMap)
    · obtain ⟨c, hc, rfl | rfl⟩ := hc
      · rw [(h.erased hc).events, (h'.erased hc).events]
      · rw [(h.erased hc).options, (h'.erased hc).options]
    · have hm {c : Bucket} (hd : Doomed p e c) : m ≠ c.eventsMap ∧ m ≠ c.optionsMap :=
        ⟨fun hm => hc ⟨c, hd, .inl hm⟩, fun hm => hc ⟨c, hd, .inr hm⟩⟩
      rw [h.maps hm, h'.maps hm]

end Swept

-- ---- one hour ------------------------------------------------------------

theorem data_eq_of_left {cell cell' : Cell} (h : b.Left false cell cell') :
    cell'.data = cell.data := by
  cases h with
  | untouched => rfl
  | stripped => rfl
  | restarting hg => cases hg

/-- Evicts the bucket of an hour, and tells whether that was done. -/
def evictHour (hour : Hour) : Operation Bool := do
  match ← bucket? hour with
  | none => return false
  | some b =>
    if ← b.discard false then
      forget b
      return true
    else return false

theorem evict_cons (hour : Hour) (rest : List Hour) (n : Nat) : evict (hour :: rest) n =
    evictHour hour >>= fun done => evict rest (if done then n + 1 else n) := by
  rw [evict, evictHour, bind_assoc]
  congr 1
  funext r
  cases r with
  | none => rw [pure_bind]; rfl
  | some b =>
    dsimp only
    rw [bind_assoc]
    congr 1
    funext done
    cases done with
    | true => simp only [if_true, bind_assoc, pure_bind]
    | false => simp only [Bool.false_eq_true, if_false, pure_bind]

/-- The hour has none but a locked bucket. -/
def Spent (e : Engine) (hour : Hour) : Prop :=
  ∀ b, e.registry[hour]? = some b → (e.data b).state = .locked

theorem discard_thins (h : Throughout InService e) (hb : Registered b e) (hp : p b.hour = true) :
    (b.discard false).Triple e
      (fun done e' => b.Spares e e' ∧
        (done = false ∧ (e.data b).state = .locked ∧ e'.cell b = e.cell b ∨
          done = true ∧ Doomed p e b ∧ e'.cell b = b.emptied false (e.cell b)))
      (fun _ e' => Throughout InService e' ∧ Thinned p e e') := by
  refine (Bucket.discard_does b false _ e (h.here hb) rfl).mono ?_ ?_
  · rintro done e' ⟨hs, -, hsame | ⟨rfl, hl, hc⟩⟩
    · exact ⟨hs, .inl hsame⟩
    · exact ⟨hs, .inr ⟨rfl, ⟨hb, hp, hl⟩, hc⟩⟩
  · rintro q e' ⟨hs, -, hd⟩
    have hv := confined_of_left hd.left
    exact ⟨h.changed lasting_inService hb hs hv (outlasts_inService (h.each hb) hd.left),
      .of_spares h ⟨hb, hp, hd.unlocked⟩ hs (data_eq_of_left hd.left) hv⟩

theorem evictHour_thins (h : Throughout InService e) (hp : p hour = true) :
    (evictHour hour).Triple e
      (fun _ e' => Throughout InService e' ∧ Thinned p e e' ∧ Spent e' hour)
      (fun _ e' => Throughout InService e' ∧ Thinned p e e') := by
  refine .bind (P := fun r u => e.Shaken u ∧ r = u.registry[hour]?)
    (.lift fun _ _ => ends_ofRegistry) ?_
  rintro (_ | b) u ⟨hs, hr⟩
  · refine .pure' ⟨h.shaken hs, .of_shaken hs, fun b hb => ?_⟩
    rw [← hr] at hb
    cases hb
  have hu := h.shaken hs
  have hb := hu.registered hr.symm
  obtain rfl := hu.hour hr.symm
  have hthin {e' : Engine} (ht : Thinned p u e') : Thinned p e e' :=
    (Thinned.of_shaken hs).trans ht h
  refine .bind ((discard_thins hu hb hp).mono (fun _ _ hd => hd) fun _ _ ⟨h', ht⟩ =>
    ⟨h', hthin ht⟩) ?_
  rintro done v ⟨hsp, ⟨rfl, hl, hc⟩ | ⟨rfl, hd, hc⟩⟩
  · refine .pure' ⟨hu.unchanged lasting_inService hb hsp hc, hthin (.of_same hsp hc),
      fun c hc' => ?_⟩
    rw [registry_eq hsp, ← hr] at hc'
    obtain rfl := Option.some.inj hc'
    exact (congrArg (·.data.state) hc).trans hl
  · have hv : v.store.entries? = (b.emptied false (u.cell b)).view := congrArg Cell.view hc
    have hgone := hu.forgotten lasting_inService hb hsp (hv ▸ b.confined_emptied (u.cell b))
    have hthinned := Thinned.evicted hu hd hsp (hu.each hb).writable hc
    refine .bind (P := fun _ e' => Throughout InService e' ∧ Thinned p e e' ∧ Spent e' b.hour)
      (.lift fun _ e' hf => ?_) fun _ _ h' => .pure' h'
    have hr' : v.registry[b.hour]? = some b := by rw [registry_eq hsp]; exact hb
    have hw := ends_forget hr' hf
    refine ⟨hgone.shaken hw, hthin (hthinned.trans (.of_shaken hw) hu), fun c hc => ?_⟩
    rw [shaken_registry hw, ExtTreeMap.getElem?_erase_self] at hc
    cases hc

/-- Whether there is a bucket of the hour that is not locked. -/
def due (e : Engine) (hour : Hour) : Bool :=
  (e.registry[hour]?).any fun b => (e.data b).state != .locked

theorem evictHour_result (h : Throughout InService e) (ha : e.store.Able) (hour : Hour)
    (rounds : Nat) :
    ∃ e', (evictHour hour).result rounds e = some (.ok (due e hour), e') ∧ e'.store.Able := by
  have hbucket : Operation.result rounds (liftM (bucket? hour)) e =
      some (.ok e.registry[hour]?, e) := result_lift_run (run_ofRegistry h.free (·[hour]?) rounds)
  rw [evictHour, result_bind, hbucket, due]
  cases hb : e.registry[hour]? with
  | none => exact ⟨e, rfl, ha⟩
  | some b =>
    have hreg := h.registered hb
    obtain ⟨u, hr, hsp, hable, -⟩ :=
      Bucket.discard_runs (b := b) (c := e.cell b) (h.each hreg).idle e rounds (h.here hreg) rfl ha
    dsimp only [Option.bind_some]
    rw [result_bind, hr]
    show ∃ e', Operation.result rounds (if ((e.data b).state != .locked) = true then _ else _) u =
      some (.ok ((e.data b).state != .locked), e') ∧ _
    cases (e.data b).state != .locked with
    | false => exact ⟨u, rfl, hable⟩
    | true =>
      have hfree : (!u.registering) = true := by
        rw [registering_eq hsp, h.free]
        rfl
      have hforget : Operation.result rounds (liftM (forget b)) u =
          some (.ok (), { u with registry := u.registry.erase b.hour }) := by
        refine result_lift_run ((if_pos hfree).trans (congrArg (fun w => some ((), w)) (if_pos ?_)))
        rw [registry_eq hsp]
        exact hreg
      refine ⟨{ u with registry := u.registry.erase b.hour }, ?_, hable⟩
      rw [if_pos rfl, result_bind, hforget]
      rfl

-- ---- hour after hour -----------------------------------------------------

theorem Spent.thinned (h : Spent e hour) (ht : Thinned p e e') (he : Throughout InService e) :
    Spent e' hour := by
  intro b hb
  have hb' := ht.registry hb
  obtain rfl := he.hour hb'
  rw [ht.data_eq hb, h b hb']

theorem evict_thins (h : Throughout InService e) {hours : List Hour}
    (hp : ∀ hour ∈ hours, p hour = true) (n : Nat) : (evict hours n).Triple e
      (fun _ e' => Throughout InService e' ∧ Thinned p e e' ∧ ∀ hour ∈ hours, Spent e' hour)
      (fun _ e' => Throughout InService e' ∧ Thinned p e e') := by
  induction hours generalizing e n with
  | nil => exact .pure' ⟨h, .of_shaken (.refl e), nofun⟩
  | cons hour hours ih =>
    rw [evict_cons]
    refine .bind (evictHour_thins h (hp hour List.mem_cons_self)) fun done u ⟨hu, ht, hspent⟩ => ?_
    refine (ih hu (fun hour hh => hp hour (List.mem_cons_of_mem _ hh)) _).mono ?_ ?_
    · rintro n e' ⟨he', ht', hall⟩
      exact ⟨he', ht.trans ht' h, List.forall_mem_cons.mpr ⟨hspent.thinned ht' hu, hall⟩⟩
    · exact fun _ _ ⟨he', ht'⟩ => ⟨he', ht.trans ht' h⟩

/-- What is evicted in one hour is none of the others' business. -/
theorem due_eq_of_evictHour {done : Bool} {hour' : Hour} (h : Throughout InService e)
    (he : (evictHour hour).Ends e (.ok done) e') (hne : hour' ≠ hour) :
    due e' hour' = due e hour' := by
  obtain ⟨-, ht, -⟩ := evictHour_thins (p := (· == hour)) h (beq_self_eq_true hour) _ _ he
  unfold due
  cases hb : e.registry[hour']? with
  | none =>
    cases hb' : e'.registry[hour']? with
    | none => rfl
    | some b =>
      rw [ht.registry hb'] at hb
      cases hb
  | some b =>
    obtain rfl := h.hour hb
    obtain ⟨hb', hd⟩ := (ht.kept hb).resolve_right fun hd => hne (beq_iff_eq.mp hd.1.meant)
    rw [show e'.registry[b.hour]? = some b from hb', Option.any_some, Option.any_some, hd]

theorem evict_result (h : Throughout InService e) (ha : e.store.Able) {hours : List Hour}
    (hn : hours.Nodup) (n rounds : Nat) : ∃ e', (evict hours n).result rounds e =
      some (.ok (n + hours.countP (due e)), e') ∧ e'.store.Able := by
  induction hours generalizing e n with
  | nil => exact ⟨e, rfl, ha⟩
  | cons hour hours ih =>
    obtain ⟨hnot, hn⟩ := List.nodup_cons.mp hn
    obtain ⟨u, hr, hu⟩ := evictHour_result h ha hour rounds
    have hends := ends_of_result hr
    have hsame : hours.countP (due u) = hours.countP (due e) :=
      List.countP_congr fun hour' hh => by
        rw [due_eq_of_evictHour h hends fun heq => hnot (heq ▸ hh)]
    obtain ⟨h', -, -⟩ := evictHour_thins (p := fun _ => true) h rfl _ _ hends
    obtain ⟨e', hr', ha'⟩ := ih h' hu hn (if due e hour then n + 1 else n)
    have hsum : (if due e hour then n + 1 else n) + hours.countP (due e) =
        n + (hours.countP (due e) + if due e hour then 1 else 0) := by split <;> omega
    refine ⟨e', ?_, ha'⟩
    rw [evict_cons, result_bind, hr, List.countP_cons, ← hsum, ← hsame]
    exact hr'

-- ---- all hours of a kind -------------------------------------------------

def evictWhere (p : Hour → Bool) : Operation Nat := do evict ((← registry).keys.filter p) 0

def doomed (p : Hour → Bool) (e : Engine) : List Bucket :=
  e.buckets.filter fun b => p b.hour && (e.data b).state != .locked

variable {P : Bucket → Cell → Prop}

theorem mem_doomed (h : Throughout P e) : b ∈ doomed p e ↔ Doomed p e b := by
  rw [doomed, List.mem_filter, Bool.and_eq_true, bne_iff_ne]
  constructor
  · rintro ⟨hb, hp, hl⟩
    obtain ⟨hour, hb⟩ := exists_of_mem_values hb
    exact ⟨h.registered hb, hp, hl⟩
  · exact fun hd => ⟨mem_values hd.registered, hd.meant, hd.unlocked⟩

theorem keys_eq (h : Throughout P e) : e.registry.keys = e.buckets.map Bucket.hour := by
  rw [← ExtTreeMap.map_fst_toList_eq_keys, Engine.buckets, values_eq, List.map_map]
  refine List.map_congr_left fun ⟨hour, b⟩ hb => ?_
  exact (h.hour (ExtTreeMap.mem_toList_iff_getElem?_eq_some.mp hb)).symm

theorem countP_due (h : Throughout P e) (p : Hour → Bool) :
    (e.registry.keys.filter p).countP (due e) = (doomed p e).length := by
  rw [List.countP_filter, keys_eq h, List.countP_map, doomed, ← List.countP_eq_length_filter]
  refine List.countP_congr fun b hb => ?_
  obtain ⟨hour, hb⟩ := exists_of_mem_values hb
  rw [Function.comp_apply, due, show e.registry[b.hour]? = some b from h.registered hb,
    Option.any_some, Bool.and_comm]

/-- If this succeeds all of them are gone, and if it fails some may be. -/
theorem evictWhere_triple (h : Throughout InService e) (p : Hour → Bool) : (evictWhere p).Triple e
    (fun _ u => Throughout InService u ∧ Swept p e u)
    (fun _ u => Throughout InService u ∧ Thinned p e u) := by
  refine .bind (P := fun r u => e.Shaken u ∧ r = u.registry) (.lift fun _ _ => ends_registry) ?_
  rintro _ u ⟨hs, rfl⟩
  have hstart : Thinned p e u := .of_shaken hs
  have hp : ∀ hour ∈ u.registry.keys.filter p, p hour = true :=
    fun hour hh => (List.mem_filter.mp hh).2
  refine (evict_thins (h.shaken hs) hp 0).mono ?_ fun _ _ ⟨h', ht⟩ => ⟨h', hstart.trans ht h⟩
  rintro n e' ⟨h', ht, hspent⟩
  refine ⟨h', (hstart.trans ht h).swept fun b hd =>
    hd.unlocked (hspent b.hour ?_ b hd.registered)⟩
  have hb : u.registry[b.hour]? = some b := ht.registry hd.registered
  refine List.mem_filter.mpr ⟨ExtTreeMap.mem_keys.mpr ?_, hd.meant⟩
  exact ExtTreeMap.mem_iff_isSome_getElem?.mpr (hb ▸ rfl)

theorem evictWhere_result (h : Throughout InService e) (ha : e.store.Able) (p : Hour → Bool)
    (rounds : Nat) : ∃ u, (evictWhere p).result rounds e = some (.ok (doomed p e).length, u) ∧
      u.store.Able := by
  have hregistry : Operation.result rounds (liftM registry) e = some (.ok e.registry, e) :=
    result_lift_run (run_ofRegistry h.free id rounds)
  have hn : (e.registry.keys.filter p).Nodup := ExtTreeMap.nodup_keys.filter p
  obtain ⟨u, hr, hu⟩ := evict_result h ha hn 0 rounds
  refine ⟨u, ?_, hu⟩
  rw [evictWhere, result_bind, hregistry]
  rwa [countP_due h, Nat.zero_add] at hr

-- ---- a sweep -------------------------------------------------------------

theorem retention_triple {E : EngineError → Engine → Prop} :
    Triple (liftM retention) e (fun span u => e.Shaken u ∧ span = e.retention) E := by
  refine .lift fun span u hr => ?_
  obtain ⟨_, ⟨faults, clock, hclock, rfl⟩, hr⟩ := Activity.ends_atomically.mp hr
  cases hr
  exact ⟨⟨faults, clock, hclock, rfl⟩, rfl⟩

inductive Sweep
  | purge
  | dropData (now : Instant)

namespace Sweep

def operation : Sweep → Operation Nat
  | purge => EventSet.purge
  | dropData now => EventSet.dropData now

/-- The hours whose buckets are to go. There is no answer if the limit cannot be represented. -/
def hours? (e : Engine) : Sweep → Option (Hour → Bool)
  | purge => some fun _ => true
  | dropData now => (now.shift? (-e.retention)).map fun cutoff hour => decide (hour.start < cutoff)

variable {s : Sweep}

theorem operation_purge : operation .purge = evictWhere fun _ => true := by
  simp only [operation, EventSet.purge, evictWhere, List.filter_true]

theorem triple (h : Throughout InService e) (hp : s.hours? e = some p) : s.operation.Triple e
    (fun _ u => Throughout InService u ∧ Swept p e u)
    (fun _ u => Throughout InService u ∧ Thinned p e u) := by
  cases s with
  | purge =>
    obtain rfl := Option.some.inj hp
    exact operation_purge ▸ evictWhere_triple h _
  | dropData now =>
    obtain ⟨cutoff, hc, rfl⟩ := Option.map_eq_some_iff.mp hp
    refine .bind retention_triple ?_
    rintro _ u ⟨hs, rfl⟩
    simp only [hc]
    have hstart {p : Hour → Bool} : Thinned p e u := .of_shaken hs
    refine (evictWhere_triple (h.shaken hs) _).mono ?_ fun _ _ ⟨h', ht⟩ => ⟨h', hstart.trans ht h⟩
    exact fun _ _ ⟨h', ht⟩ => ⟨h', .of_thinned hstart ht h⟩

/-- Where no call is refused a sweep succeeds, and tells how many buckets it has evicted. -/
theorem exists_result (h : Throughout InService e) (ha : e.store.Able) (hp : s.hours? e = some p)
    (rounds : Nat) : ∃ u, s.operation.result rounds e = some (.ok (doomed p e).length, u) ∧
      Swept p e u ∧ u.store.Able := by
  suffices hok : ∃ u, s.operation.result rounds e = some (.ok (doomed p e).length, u) ∧
      u.store.Able by
    obtain ⟨u, hr, hu⟩ := hok
    exact ⟨u, hr, (triple h hp _ _ (ends_of_result hr)).2, hu⟩
  cases s with
  | purge =>
    obtain rfl := Option.some.inj hp
    exact operation_purge ▸ evictWhere_result h ha _ rounds
  | dropData now =>
    obtain ⟨cutoff, hc, rfl⟩ := Option.map_eq_some_iff.mp hp
    obtain ⟨u, hr, hu⟩ := evictWhere_result h ha (fun hour => decide (hour.start < cutoff)) rounds
    refine ⟨u, ?_, hu⟩
    rw [operation, EventSet.dropData, result_bind, retention, Activity.observe, result_lift]
    simp only [Option.bind_some, hc]
    exact hr

end Sweep

end EventSet

end EventStore
