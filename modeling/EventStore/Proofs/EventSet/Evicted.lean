import EventStore.Proofs.Engine.Proceeding
import EventStore.Proofs.EventSet.Waning

/-!
# Queries while buckets are evicted

A query that goes on while buckets are evicted finds what it would find alone among those of its
buckets that it reaches in time, or it fails because the map of one of them is gone
(`partly_of_run`). It does fail where the map goes between the ids that the query takes from the
index and the events that it loads for them, since only then the bucket says that it is dropped
(`lost_of_evicted`).
-/

namespace EventStore

open Query Operation

open Engine (SameButCache)

-- ---- alone ---------------------------------------------------------------

/-- Alone in `e₀`, whatever its cache remembers, the operation answers `a`. -/
def Operation.Yields (op : Operation α) (e₀ : Engine) (a : α) : Prop :=
  ∀ e, SameButCache e₀ e → ∀ rounds, ∃ e', op.result rounds e = some (.ok a, e') ∧
    SameButCache e₀ e'

namespace Operation.Yields

variable {α β : Type} {op : Operation α} {e₀ : Engine} {a : α}

theorem pure' (a : α) (e₀ : Engine) : (pure a : Operation α).Yields e₀ a :=
  fun e he _ => ⟨e, rfl, he⟩

theorem bind {f : α → Operation β} {b : β} (h : op.Yields e₀ a) (hf : (f a).Yields e₀ b) :
    (op >>= f).Yields e₀ b := by
  intro e he rounds
  obtain ⟨e₁, hr, he₁⟩ := h e he rounds
  obtain ⟨e₂, hr', he₂⟩ := hf e₁ he₁ rounds
  refine ⟨e₂, ?_, he₂⟩
  rw [result_bind, hr]
  exact hr'

theorem of_result (h : ∀ c t rounds, op.result rounds (e₀.recalling c t) =
    some (.ok a, e₀.recalling c t)) : op.Yields e₀ a := by
  intro e he rounds
  have hr := h e.cache e.clock rounds
  rw [← he.eq] at hr
  exact ⟨e, hr, he⟩

theorem criteria {text : String} {c : Criteria} (hc : compile text = .ok c) :
    (Bucket.criteria text).Yields e₀ c := by
  intro e he rounds
  refine ⟨e.asked text, Bucket.criteria_result he.sound' hc rounds, he.sound,
    (he.sound'.getOrCompile e.clock text).2, ?_⟩
  conv => lhs; rw [he.eq]
  rw [he.eq]
  rfl

end Operation.Yields

namespace EventSet

variable {e₀ e : Engine} {b : Bucket} {k : List Bucket} {text : String} {c : Criteria}
  {range : TimeRange} {token : Token} {α β : Type}

-- ---- one bucket ----------------------------------------------------------

/-- The bucket's map of events is not found. -/
def Lost (b : Bucket) (p : EngineError) (k : List Bucket) : Prop :=
  p = .store (.mapNotFound b.eventsMap) ∧ b ∈ k

/-- What the operation reads is what it would read in `e₀`, unless the bucket is lost. -/
def Tells (e₀ : Engine) (b : Bucket) (op : Operation α) : Prop :=
  ∀ k, Learns e₀ op k (fun a _ => op.Yields e₀ a) (Lost b)

theorem Tells.pure' (a : α) : Tells e₀ b (pure a) := fun _ => .pure' (.pure' a e₀)

theorem Tells.bind {op : Operation α} {f : α → Operation β} (h : Tells e₀ b op)
    (hf : ∀ a, Tells e₀ b (f a)) : Tells e₀ b (op >>= f) := fun k =>
  .bind (h k) fun a k' _ ha => (hf a k').mono (fun _ _ _ hb => ha.bind hb) fun _ _ _ h => h

section

variable (h₀ : Quiet e₀) (ha : e₀.store.isAvailable = true) (hb : Registered b e₀)
include h₀ hb

omit h₀ hb in
theorem get_learns {es : Entries} (hes : e₀.store.entries? b.eventsMap = some es)
    (key : Bytes) :
    Learns e₀ (call (.get b.eventsMap key)) k (fun value _ => value = es[key]?) (Lost b) := by
  refine .attempt fun u hu hk => ?_
  have hserves := Store.serves_of_isAvailable hu.available (.get b.eventsMap key)
  rcases hu.maps b.eventsMap with hm | hg
  · rw [Store.answer_get hserves (hm.trans hes)]
    exact ⟨k, List.Subset.refl k, ⟨.refl _, hu, hk⟩, rfl⟩
  · rw [Store.answer_get_of_gone hserves hg]
    exact ⟨b :: k, List.subset_cons_self b k, ⟨.refl _, hu, List.forall_mem_cons.mpr ⟨hg, hk⟩⟩,
      rfl, List.mem_cons_self⟩

include ha in
theorem load_tells (id : UInt32) : Tells e₀ b (b.load id) := by
  obtain ⟨es, hes, hi⟩ : b.Indexed (e₀.cell b) := h₀.indexed hb (h₀.idle hb)
  have hloaded : (b.load id).Yields e₀ (b.loaded? es id) := .of_result fun c t rounds =>
    Bucket.load_result (e := e₀.recalling c t) (Store.serves_of_isAvailable ha _) hes hi rounds
  intro k
  show Learns e₀ (call (.get b.eventsMap (idKey id)) >>= b.read id) k _ _
  refine .bind (get_learns hes _) fun value k₁ _ hv => ?_
  rw [hv, b.read_eq id hi]
  exact .pure' hloaded

include ha in
theorem amid_tells (most : Nat) (after : UInt32) (range : TimeRange) (positions : Positions) :
    Tells e₀ b (b.amid most after range positions) :=
  Bucket.amid_induction (P := Tells e₀ b) .pure'
    (fun id _ _ hf => (load_tells h₀ ha hb id).bind hf) most after range

omit h₀ hb in
theorem criteria_learns (hc : compile text = .ok c) {E : EngineError → List Bucket → Prop} :
    Learns e₀ (Bucket.criteria text) k (fun c' _ => c' = c) E := by
  refine .attempt fun u hu hk => ?_
  obtain ⟨ha, hs⟩ := hu.cache.getOrCompile u.clock text
  rw [hc] at ha
  revert ha hs
  obtain ⟨r, cache⟩ := u.cache.getOrCompile u.clock text
  rintro rfl hs
  exact ⟨k, List.Subset.refl k, ⟨.refl _, hu.asks (.refl _) hu.available hs u.clock, hk⟩, rfl⟩

omit h₀ in
/-- The positions are those in `e₀`, or there are none since the bucket is gone. -/
theorem matching_learns (hc : compile text = .ok c) {E : EngineError → List Bucket → Prop} :
    Learns e₀ (b.matching text) k
      (fun ps k' => (b.matching text).Yields e₀ ps ∨ ps = ∅ ∧ b ∈ k') E := by
  refine .bind (criteria_learns hc) fun _ k₁ _ hc' => .observe fun u hu hk => ?_
  subst hc'
  dsimp only
  rcases hu.index hb with hi | ⟨hi, hg⟩
  · refine ⟨k₁, List.Subset.refl k₁, hk, .inl ?_⟩
    rw [hi]
    exact (Yields.criteria hc).bind (.of_result fun _ _ _ => rfl)
  · refine ⟨b :: k₁, List.subset_cons_self b k₁, List.forall_mem_cons.mpr ⟨hg, hk⟩,
      .inr ⟨?_, List.mem_cons_self⟩⟩
    rw [hi, Index.evaluate_empty]

omit h₀ hb in
theorem amid_nothing (b : Bucket) (most : Nat) (after : UInt32) (range : TimeRange) :
    b.amid most after range ∅ = pure [] := by
  unfold Bucket.amid
  split
  · rfl
  · rfl

include ha in
theorem search_learns (hc : compile text = .ok c) (most : Nat) (after : UInt32)
    (range : TimeRange) : Learns e₀ (b.search text most after range) k
      (fun found k' => (b.search text most after range).Yields e₀ found ∨ found = [] ∧ b ∈ k')
      (Lost b) := by
  refine .bind (matching_learns hb hc) fun ps k₁ _ hps => ?_
  show Learns e₀ (b.among most after range ps) k₁ _ _
  rw [Bucket.among_eq]
  refine .bind (Q := fun state k' => state = (e₀.data b).state ∨ state = .dropped ∧ b ∈ k')
    (.observe fun u hu hk => ?_) fun state k₂ hk₂ hstate => ?_
  · rcases hu.state hb with hs | ⟨hs, hg⟩
    · exact ⟨k₁, List.Subset.refl k₁, hk, .inl hs⟩
    · exact ⟨b :: k₁, List.subset_cons_self b k₁, List.forall_mem_cons.mpr ⟨hg, hk⟩,
        .inr ⟨hs, List.mem_cons_self⟩⟩
  rcases hps with hps | ⟨rfl, hg⟩
  · rcases hstate with rfl | ⟨rfl, hg⟩
    · have hrest : Tells e₀ b (if (e₀.data b).state = .dropped then pure []
          else b.amid most after range ps) := by
        split
        · exact .pure' _
        · exact amid_tells h₀ ha hb most after range ps
      refine (hrest k₂).mono (fun found k' _ hfound => .inl (hps.bind ?_)) fun _ _ _ h => h
      exact Yields.bind (.of_result fun _ _ _ => rfl) hfound
    · exact .pure' (.inr ⟨rfl, hg⟩)
  · rw [amid_nothing, ite_self]
    exact .pure' (.inr ⟨rfl, hk₂ hg⟩)

omit h₀ in
theorem countMatching_learns (hc : compile text = .ok c)
    {E : EngineError → List Bucket → Prop} :
    Learns e₀ (b.countMatching text) k
      (fun n k' => (b.countMatching text).Yields e₀ n ∨ n = 0 ∧ b ∈ k') E := by
  refine .bind (matching_learns hb hc) fun ps k₁ _ hps => .pure' ?_
  rcases hps with hps | ⟨rfl, hg⟩
  · exact .inl (hps.bind (.pure' _ e₀))
  · exact .inr ⟨rfl, hg⟩

end

-- ---- bucket by bucket ----------------------------------------------------

/-- The answer of an operation that goes through buckets one after the other: what it is alone
with those that are spared, where the others are gone, or that the map of one is gone. -/
inductive Partly (e₀ : Engine) (op : List Bucket → Operation α) (gone : Bucket → Prop)
    (bs : List Bucket) : Except EngineError α → Prop
  | found {spared : List Bucket} {a : α} (hs : spared.Sublist bs)
    (hg : ∀ b ∈ bs, b ∈ spared ∨ gone b) (ha : (op spared).Yields e₀ a) :
    Partly e₀ op gone bs (.ok a)
  | lost {b : Bucket} (hb : b ∈ bs) (hg : gone b) :
    Partly e₀ op gone bs (.error (.store (.mapNotFound b.eventsMap)))

namespace Partly

variable {op next : List Bucket → Operation α} {gone gone' : Bucket → Prop} {bs bs' : List Bucket}
  {r : Except EngineError α}

theorem mono (h : Partly e₀ op gone bs r) (hg : ∀ b, gone b → gone' b) :
    Partly e₀ op gone' bs r := by
  cases h with
  | found hs hb ha => exact .found hs (fun b hm => (hb b hm).imp_right (hg b)) ha
  | lost hb hgone => exact .lost hb (hg _ hgone)

theorem within (h : Partly e₀ op gone bs r) (hs : bs.Sublist bs')
    (hg : ∀ b ∈ bs', b ∈ bs ∨ gone b) : Partly e₀ op gone bs' r := by
  cases h with
  | found hs' hb ha =>
    exact .found (hs'.trans hs) (fun b hm => (hg b hm).elim (hb b) .inr) ha
  | lost hb hgone => exact .lost (hs.subset hb) hgone

theorem skip (h : Partly e₀ op gone bs r) (hg : gone b) : Partly e₀ op gone (b :: bs) r :=
  h.within (List.sublist_cons_self b bs) (List.forall_mem_cons.mpr ⟨.inr hg, fun _ => .inl⟩)

theorem visit (h : Partly e₀ next gone bs r)
    (hv : ∀ bs a, (next bs).Yields e₀ a → (op (b :: bs)).Yields e₀ a) :
    Partly e₀ op gone (b :: bs) r := by
  cases h with
  | found hs hb ha =>
    refine .found (hs.cons_cons b) (List.forall_mem_cons.mpr ⟨.inl List.mem_cons_self, ?_⟩)
      (hv _ _ ha)
    exact fun c hc => (hb c hc).imp_left (List.mem_cons_of_mem b)
  | lost hb hgone => exact .lost (List.mem_cons_of_mem b hb) hgone

/-- Where no bucket is gone, the answer is the one in `e₀`. -/
theorem whole (h : Partly e₀ op gone bs r) (hn : bs.Nodup) (hg : ∀ b ∈ bs, ¬gone b) :
    ∃ a, r = .ok a ∧ (op bs).Yields e₀ a := by
  cases h with
  | @found spared a hs hb ha =>
    have hsub : bs ⊆ spared := fun b hm => (hb b hm).resolve_right (hg b hm)
    rw [hs.eq_of_length_le (hn.subperm hsub).length_le] at ha
    exact ⟨a, rfl, ha⟩
  | lost hb hgone => exact absurd hgone (hg _ hb)

end Partly

/-- An operation that goes through buckets and learns its answer from those that are left. -/
def LearnsPartly (e₀ : Engine) (op : List Bucket → Operation α) (bs k : List Bucket)
    (x : Operation α) : Prop :=
  Learns e₀ x k (fun a k' => Partly e₀ op (· ∈ k') bs (.ok a))
    fun p k' => Partly e₀ op (· ∈ k') bs (.error p)

namespace LearnsPartly

variable {op next : List Bucket → Operation α} {bs bs' : List Bucket} {x : Operation α}

theorem visit (h : LearnsPartly e₀ next bs k x)
    (hv : ∀ bs a, (next bs).Yields e₀ a → (op (b :: bs)).Yields e₀ a) :
    LearnsPartly e₀ op (b :: bs) k x :=
  Learns.mono h (fun _ _ _ h => h.visit hv) fun _ _ _ h => h.visit hv

theorem skip (h : LearnsPartly e₀ op bs k x) (hg : b ∈ k) :
    LearnsPartly e₀ op (b :: bs) k x :=
  Learns.mono h (fun _ _ hk h => h.skip (hk hg)) fun _ _ hk h => h.skip (hk hg)

theorem within (h : LearnsPartly e₀ op bs k x) (hs : bs.Sublist bs')
    (hg : ∀ b ∈ bs', b ∈ bs ∨ b ∈ k) : LearnsPartly e₀ op bs' k x :=
  Learns.mono h (fun _ _ hk h => h.within hs fun b hb => (hg b hb).imp_right (hk ·))
    fun _ _ hk h => h.within hs fun b hb => (hg b hb).imp_right (hk ·)

end LearnsPartly

section

variable (h₀ : Quiet e₀) (ha : e₀.store.isAvailable = true) (hc : compile text = .ok c)
  {bs : List Bucket} {found : List Event}
include h₀ ha hc

theorem searchAll_learns {most : Nat} (hbs : ∀ b ∈ bs, Registered b e₀)
    (hm : ¬(0 < most ∧ most ≤ found.length)) :
    LearnsPartly e₀ (searchAll text range most token · found) bs k
      (searchAll text range most token bs found) := by
  induction bs generalizing found k with
  | nil => exact .pure' (.found (List.Sublist.refl []) (List.forall_mem_nil _) (.pure' found e₀))
  | cons b rest ih =>
    obtain ⟨hb, hbs⟩ := List.forall_mem_cons.mp hbs
    refine .bind ((search_learns h₀ ha hb hc _ (after token b) range).mono (fun _ _ _ h => h) ?_)
      fun more k₁ _ hmore => ?_
    · rintro p k' - ⟨rfl, hg⟩
      exact .lost List.mem_cons_self hg
    dsimp only
    rcases hmore with hmore | ⟨rfl, hg⟩
    · split
      · next hfull =>
        refine .pure' (.found (List.Sublist.refl (b :: rest)) (fun _ => .inl) (hmore.bind ?_))
        dsimp only
        rw [if_pos hfull]
        exact .pure' _ e₀
      · next hfew =>
        refine (ih hbs hfew).visit fun spared a h => hmore.bind ?_
        dsimp only
        rw [if_neg hfew]
        exact h
    · rw [List.append_nil, if_neg hm]
      exact (ih hbs hm).skip hg

theorem countAll_learns (hbs : ∀ b ∈ bs, Registered b e₀) (n : Nat) :
    LearnsPartly e₀ (countAll text range · n) bs k (countAll text range bs n) := by
  induction bs generalizing n k with
  | nil => exact .pure' (.found (List.Sublist.refl []) (List.forall_mem_nil _) (.pure' n e₀))
  | cons b rest ih =>
    obtain ⟨hb, hbs⟩ := List.forall_mem_cons.mp hbs
    -- Either way the events of the bucket are counted, and then those of the rest.
    by_cases hcov : covers range b = true
    · have hop (bs : List Bucket) : countAll text range (b :: bs) n =
          b.countMatching text >>= fun m => countAll text range bs (n + m) := by
        rw [countAll, if_pos hcov]
      rw [hop]
      refine .bind (countMatching_learns hb hc) fun m k₁ _ hm => ?_
      rcases hm with hm | ⟨rfl, hg⟩
      · refine (ih hbs (n + m)).visit fun spared a h => ?_
        rw [hop]
        exact hm.bind h
      · exact (ih hbs n).skip hg
    · have hop (bs : List Bucket) : countAll text range (b :: bs) n =
          b.search text 0 0 range >>= fun found => countAll text range bs (n + found.length) := by
        rw [countAll, if_neg hcov]
      rw [hop]
      refine .bind ((search_learns h₀ ha hb hc 0 0 range).mono (fun _ _ _ h => h) ?_)
        fun found k₁ _ hfound => ?_
      · rintro p k' - ⟨rfl, hg⟩
        exact .lost List.mem_cons_self hg
      rcases hfound with hfound | ⟨rfl, hg⟩
      · refine (ih hbs (n + found.length)).visit fun spared a h => ?_
        rw [hop]
        exact hfound.bind h
      · exact (ih hbs n).skip hg

end

-- ---- the buckets in use --------------------------------------------------

/-- The buckets that a query goes through. -/
def visited (e : Engine) (range : TimeRange) (token : Token) : List Bucket :=
  e.registry.values.filter (visits range token)

theorem registered_of_mem_visited (h : Sound e) (hb : b ∈ visited e range token) :
    Registered b e :=
  have ⟨_, hb⟩ := exists_of_mem_values (List.mem_filter.mp hb).1
  h.registered hb

theorem nodup_visited (h : Sound e) : (visited e range token).Nodup :=
  ((values_ordered h.hour).imp fun hlt he => absurd (he ▸ hlt) (Int.lt_irrefl _)).filter _

theorem visited_sublist (h₀ : Sound e₀) (h : Waned e₀ e) :
    (visited e range token).Sublist (visited e₀ range token) := by
  have ho := values_ordered h₀.hour
  have ho' := values_ordered fun hb => h₀.hour (h.registry hb)
  have hn : e.registry.values.Nodup :=
    ho'.imp fun hlt he => absurd (he ▸ hlt) (Int.lt_irrefl _)
  have hsub : e.registry.values ⊆ e₀.registry.values := by
    intro b hb
    obtain ⟨hour, hb⟩ := exists_of_mem_values hb
    exact mem_values (h.registry hb)
  obtain ⟨l, hl, hs⟩ := hn.subperm hsub
  unfold visited
  rw [← hl.eq_of_pairwise (fun b c _ _ hbc hcb => absurd (hbc.trans hcb) (Int.lt_irrefl _))
    (ho.sublist hs) ho']
  exact hs.filter _

theorem select_learns (h₀ : Quiet e₀) (range : TimeRange) (token : Token)
    {E : EngineError → List Bucket → Prop} :
    Learns e₀ (liftM (select range token)) k (fun bs k' => bs.Sublist (visited e₀ range token) ∧
      ∀ b ∈ visited e₀ range token, b ∈ bs ∨ b ∈ k') E := by
  refine .ofRegistry (f := (·.values.filter (visits range token))) fun u hu hk => ?_
  have hleft (b : Bucket) (hb : b ∈ (visited e₀ range token).filter (· ∉ visited u range token)) :
      Gone b u := by
    obtain ⟨hb, hn⟩ := List.mem_filter.mp hb
    refine (hu.kept (registered_of_mem_visited h₀.toSound hb)).resolve_left fun hr => ?_
    exact of_decide_eq_true hn (List.mem_filter.mpr ⟨mem_values hr, (List.mem_filter.mp hb).2⟩)
  refine ⟨k ++ (visited e₀ range token).filter (· ∉ visited u range token),
    List.subset_append_left k _, List.forall_mem_append.mpr ⟨hk, hleft⟩,
    visited_sublist h₀.toSound hu, fun b hb => ?_⟩
  by_cases hm : b ∈ visited u range token
  · exact .inl hm
  · exact .inr (List.mem_append_right k (List.mem_filter.mpr ⟨hb, decide_eq_true hm⟩))

section

variable (h₀ : Quiet e₀) (hc : compile text = .ok c) (hr : range.start ≤ range.stop)
  (op : List Bucket → Operation α)
include h₀ hc hr

theorem asked_learns
    (h : ∀ bs k, (∀ b ∈ bs, Registered b e₀) → LearnsPartly e₀ op bs k (op bs)) :
    LearnsPartly e₀ op (visited e₀ range token) k
      (do checkRange range; let _ ← Bucket.criteria text; op (← select range token)) := by
  have hcheck : checkRange range = .ok () := if_pos hr
  rw [hcheck]
  refine .bind (Q := fun _ _ => True) (.pure' trivial) fun _ k₁ _ _ =>
    .bind (criteria_learns hc) fun _ k₂ _ _ => .bind (select_learns h₀ range token)
      fun bs k₃ _ ⟨hs, hleft⟩ => ?_
  exact (h bs k₃ fun b hb => registered_of_mem_visited h₀.toSound (hs.subset hb)).within hs hleft

theorem asked_yields {a : α} (h : (op (visited e₀ range token)).Yields e₀ a) :
    (do checkRange range; let _ ← Bucket.criteria text; op (← select range token) :
      Operation α).Yields e₀ a := by
  have hcheck : checkRange range = .ok () := if_pos hr
  rw [hcheck]
  refine .bind (.pure' () e₀) (.bind (.criteria hc) (.bind (a := visited e₀ range token) ?_ h))
  exact .of_result fun c t rounds =>
    result_lift_run (run_select (e := e₀.recalling c t) h₀.registering range token rounds)

end

-- ---- nothing to wait for -------------------------------------------------

def Vacant (e : Engine) : Prop := e.registering = false

theorem criteria_proceeds (text : String) : (Bucket.criteria text).Proceeds Vacant :=
  .attempt fun _ h => h

theorem load_proceeds (b : Bucket) (id : UInt32) : (b.load id).Proceeds Vacant := by
  refine .bind (.call fun _ _ h => h) fun value => ?_
  cases value with
  | none => exact .pure' none
  | some value =>
    dsimp only
    split
    · exact .pure' _
    · exact .throw' _

theorem matching_proceeds (b : Bucket) (text : String) : (b.matching text).Proceeds Vacant :=
  .bind (criteria_proceeds text) fun _ => .lift (.observe _)

theorem search_proceeds (b : Bucket) (text : String) (most : Nat) (after : UInt32)
    (range : TimeRange) : (b.search text most after range).Proceeds Vacant :=
  .bind (matching_proceeds b text) fun _ =>
    Bucket.among_induction (P := fun op => Operation.Proceeds Vacant op) .pure'
      (fun _ hf => .bind (.lift (.observe _)) hf)
      (fun id _ _ hf => .bind (load_proceeds b id) hf) most after range

theorem searchAll_proceeds (most : Nat) (bs : List Bucket) (found : List Event) :
    (searchAll text range most token bs found).Proceeds Vacant := by
  induction bs generalizing found with
  | nil => exact .pure' found
  | cons b rest ih =>
    refine .bind (search_proceeds b ..) fun more => ?_
    dsimp only
    split
    · exact .pure' _
    · exact ih _

theorem countAll_proceeds (bs : List Bucket) (n : Nat) :
    (countAll text range bs n).Proceeds Vacant := by
  induction bs generalizing n with
  | nil => exact .pure' n
  | cons b rest ih =>
    unfold countAll
    split
    · exact .bind (.bind (matching_proceeds b text) fun _ => .pure' _) fun _ => ih _
    · exact .bind (search_proceeds b ..) fun _ => ih _

theorem asked_proceeds {op : List Bucket → Operation α} (h : ∀ bs, (op bs).Proceeds Vacant) :
    Operation.Proceeds Vacant
      (do checkRange range; let _ ← Bucket.criteria text; op (← select range token)) := by
  refine .bind (.result _) fun _ => .bind (criteria_proceeds text) fun _ => .bind (.lift ?_) h
  exact .bind (.bind (.whenever fun e he => ⟨by simpa [Vacant] using he, he⟩) fun _ => .pure' _)
    fun _ => .pure' _

end EventSet

-- ---- whole runs ----------------------------------------------------------

def Engine.Ages (e e' : Engine) : Prop := ∃ clock, e.clock ≤ clock ∧ e' = { e with clock := clock }

namespace Service

namespace Call

/-- The call asks for events, with a query that compiles and a range that is not reversed. -/
def Asks : Call → Prop
  | set (.query text range _ _) | count text range =>
    (compile text).isOk = true ∧ range.start ≤ range.stop
  | _ => False

def Evicts : Call → Prop
  | set .purge | set (.dropData _) => True
  | _ => False

/-- The answer to a call that asks for events is what it would be alone in `e₀` with those of the
buckets that are spared, or that the map of one is gone. -/
def PartlyAnswered (e₀ : Engine) (gone : Bucket → Prop) : (c : Call) → c.Answer → Prop
  | set (.query text range most token), r =>
    EventSet.Partly e₀ (EventSet.searchAll text range most token · []) gone
      (EventSet.visited e₀ range token) r
  | count text range, r =>
    EventSet.Partly e₀ (EventSet.countAll text range · 0) gone
      (EventSet.visited e₀ range .start) r
  | _, _ => True

end Call

open EventSet (Learns Gone Quiet Registered Vacant)

variable {e₀ : Engine} {c : Call}

theorem exists_criteria {text : String} (h : (compile text).isOk = true) :
    ∃ c, compile text = .ok c := by
  cases hc : compile text with
  | ok c => exact ⟨c, rfl⟩
  | error p =>
    rw [hc] at h
    cases h

theorem Call.activity_proceeds (h : c.Asks) : c.activity.Proceeds Vacant := by
  cases c with
  | set c =>
    cases c with
    | query text range most token =>
      exact EventSet.asked_proceeds fun bs => EventSet.searchAll_proceeds most bs []
    | _ => exact h.elim
  | count text range => exact EventSet.asked_proceeds fun bs => EventSet.countAll_proceeds bs 0
  | _ => exact h.elim

section

variable (h₀ : Quiet e₀) (ha : e₀.store.isAvailable = true)
include h₀ ha

theorem Call.activity_learns (h : c.Asks ∨ c.Evicts) (e : Engine) :
    c.activity.Abides (EventSet.waning e₀) e [] fun a _ k => c.PartlyAnswered e₀ (· ∈ k) a := by
  -- What an operation learns, seen as an activity.
  have habides {α : Type} {op : Operation α} {Q : Except EngineError α → List Bucket → Prop}
      (h : Learns e₀ op [] (fun a k => Q (.ok a) k) fun p k => Q (.error p) k) :
      Activity.Abides (EventSet.waning e₀) op.run e [] fun r _ k => Q r k := by
    refine Activity.Abides.mono (h e) ?_
    rintro (p | a) _ k hk
    · exact hk.2
    · exact hk.2
  rcases h with h | h
  · cases c with
    | set c =>
      cases c with
      | query text range most token =>
        obtain ⟨c, hc⟩ := exists_criteria h.1
        exact habides (EventSet.asked_learns h₀ hc h.2 _ fun bs k hbs =>
          EventSet.searchAll_learns h₀ ha hc hbs (by simp +contextual [Nat.pos_iff_ne_zero]))
      | _ => exact h.elim
    | count text range =>
      obtain ⟨c, hc⟩ := exists_criteria h.1
      exact habides (EventSet.asked_learns h₀ hc h.2 _ fun bs k hbs =>
        EventSet.countAll_learns h₀ ha hc hbs 0)
    | _ => exact h.elim
  · cases c with
    | set c =>
      cases c with
      | purge =>
        exact habides (Q := fun _ _ => True) (EventSet.evictOf_learns h₀ (·.keys))
      | dropData now => exact habides (Q := fun _ _ => True) (EventSet.dropData_learns h₀ now)
      | _ => exact h.elim
    | _ => exact h.elim

/-- Calls that ask for events and calls that evict may go on at the same time. -/
theorem orderly_asks_evicts : Scene.Orderly (EventSet.waning e₀) Call.activity
    (fun c => c.Asks ∨ c.Evicts) Engine.Ages [] fun c a k => c.PartlyAnswered e₀ (· ∈ k) a where
  call {_ e} h := Call.activity_learns h₀ ha h e
  holds := List.forall_mem_nil _
  apart := trivial
  sound := by
    rintro e _ ⟨clock, -, rfl⟩ h
    exact h.asks (.refl _) h.available h.cache clock
  others := by
    rintro e _ _ ⟨clock, -, rfl⟩
    exact .refl _

end

theorem Call.PartlyAnswered.mono {gone gone' : Bucket → Prop} {a : c.Answer}
    (h : c.PartlyAnswered e₀ gone a) (hg : ∀ b, gone b → gone' b) :
    c.PartlyAnswered e₀ gone' a := by
  unfold PartlyAnswered at h ⊢
  split at h
  · exact EventSet.Partly.mono h hg
  · exact EventSet.Partly.mono h hg
  · trivial

theorem Call.PartlyAnswered.whole {gone : Bucket → Prop} {a : c.Answer}
    (h : c.PartlyAnswered e₀ gone a) (h₀ : Quiet e₀) (hq : c.Asks)
    (hg : ∀ b, Registered b e₀ → ¬gone b) (rounds : Nat) :
    ∃ e, c.activity.run rounds e₀ = some (a, e) := by
  have hsame : Engine.SameButCache e₀ e₀ := ⟨h₀.cache, h₀.cache, rfl⟩
  have hspared {range : TimeRange} {token : Token} :
      ∀ b ∈ EventSet.visited e₀ range token, ¬gone b :=
    fun b hb => hg b (EventSet.registered_of_mem_visited h₀.toSound hb)
  cases c with
  | set c =>
    cases c with
    | query text range most token =>
      obtain ⟨c, hc⟩ := exists_criteria hq.1
      obtain ⟨found, rfl, hy⟩ := EventSet.Partly.whole h (EventSet.nodup_visited h₀.toSound) hspared
      obtain ⟨e, he, -⟩ := EventSet.asked_yields h₀ hc hq.2
        (EventSet.searchAll text range most token · []) hy e₀ hsame rounds
      exact ⟨e, he⟩
    | _ => exact hq.elim
  | count text range =>
    obtain ⟨c, hc⟩ := exists_criteria hq.1
    obtain ⟨n, rfl, hy⟩ := EventSet.Partly.whole h (EventSet.nodup_visited h₀.toSound) hspared
    obtain ⟨e, he, -⟩ := EventSet.asked_yields h₀ hc hq.2
      (EventSet.countAll text range · 0) hy e₀ hsame rounds
    exact ⟨e, he⟩
  | _ => exact hq.elim

/-- An event with one property. -/
def marked (ms : Int64) : Event :=
  { Event.new ms with properties := Properties.ofList [("A", "x")] }

def addBoth : Operation Event := do
  let _ ← EventSet.add (marked 1709647200000)
  EventSet.add (marked 1709650800000)

/-- Both hours are asked for, and the set is purged when the query has taken `n` steps. -/
def purgedAfter (n : Nat) (e : Engine) : Scene Engine Call.Answer :=
  .turns Call.activity e
    [.set (.query "A = \"x\"" ⟨⟨1709647200, 0⟩, ⟨1709654399, 0⟩⟩ 0 .start), .set .purge]
    (.replicate n 0 ++ .replicate 50 1 ++ .replicate 20 0)

def queried? : Task Engine Call.Answer → Option (Except EngineError (List Event))
  | ⟨.set (.query ..), rest⟩ => rest.answer?
  | _ => none

theorem asks_of_queried {t : Task Engine Call.Answer} {r : Except EngineError (List Event)}
    (h : queried? t = some r) (hc : t.call.Asks ∨ t.call.Evicts) :
    t.call.Asks ∧ ∃ a, t.rest.answer? = some a := by
  obtain ⟨c, rest⟩ := t
  cases c with
  | set c =>
    cases c with
    | query => exact ⟨hc.resolve_right id, r, h⟩
    | _ => cases h
  | _ => cases h

theorem exists_purgedAfter {n : Nat} {p : Except EngineError (List Event) → Bool}
    (h : (addBoth.result 0 (.fresh .inMemory .standard .standard)).map (fun r => r.1.isOk &&
      (r.2.store.isAvailable && ((purgedAfter n r.2).tasks.filterMap queried?).any p)) =
        some true) :
    ∃ e₀ t a r, Quiet e₀ ∧ e₀.store.isAvailable = true ∧
      Scene.Run Call.activity (fun c => c.Asks ∨ c.Evicts) Engine.Ages ⟨e₀, []⟩
        (purgedAfter n e₀) ∧
      t ∈ (purgedAfter n e₀).tasks ∧ t.call.Asks ∧ t.rest.answer? = some a ∧
      queried? t = some r ∧ p r = true := by
  obtain ⟨x, e₀, hadd, hp⟩ := exists_ends_of_isOk 0 addBoth _ (fun e => e.store.isAvailable &&
    ((purgedAfter n e).tasks.filterMap queried?).any p) h
  obtain ⟨ha, hp⟩ := (Bool.and_eq_true ..).mp hp
  obtain ⟨y, e₁, hfirst, hsecond⟩ := ends_bind_ok hadd
  have hreached : EventSet.Reached e₀ :=
    .add (.add (.start (Cache.sound_new _ _) fun _ => rfl) (by decide +kernel) hfirst)
      (by decide +kernel) hsecond
  have hcalls : ∀ c ∈ [Call.set (.query "A = \"x\"" ⟨⟨1709647200, 0⟩, ⟨1709654399, 0⟩⟩ 0 .start),
      .set .purge], c.Asks ∨ c.Evicts := by
    refine List.forall_mem_cons.mpr ⟨.inl ⟨by decide +kernel, by decide⟩, ?_⟩
    exact List.forall_mem_cons.mpr ⟨.inr trivial, List.forall_mem_nil _⟩
  obtain ⟨r, hr, hp⟩ := List.any_eq_true.mp hp
  obtain ⟨t, ht, hq⟩ := List.mem_filterMap.mp hr
  obtain ⟨hasks, a, hanswer⟩ := asks_of_queried hq (Scene.call_turns hcalls _ t ht)
  exact ⟨e₀, t, a, r, EventSet.quiet_of_reached hreached, ha, Scene.run_turns hcalls _, ht, hasks,
    hanswer, hq, hp⟩

/-- The second hour is purged when the query has taken the id of its event, and the query fails
though its text compiles, its range is in order and the store refuses nothing. -/
theorem lost_of_evicted : ∃ e₀ t a, Quiet e₀ ∧ e₀.store.isAvailable = true ∧
    Scene.Run Call.activity (fun c => c.Asks ∨ c.Evicts) Engine.Ages ⟨e₀, []⟩ (purgedAfter 9 e₀) ∧
    t ∈ (purgedAfter 9 e₀).tasks ∧ t.call.Asks ∧ t.rest.answer? = some a ∧
    queried? t = some (.error (.store (.mapNotFound "optics_2024030515"))) := by
  obtain ⟨e₀, t, a, r, h₀, ha, hr, ht, hq, hanswer, hqr, hp⟩ :=
    exists_purgedAfter (n := 9) (p := fun
      | .error p => p == .store (.mapNotFound "optics_2024030515")
      | .ok _ => false) (by decide +kernel)
  cases r with
  | error p => exact ⟨e₀, t, a, h₀, ha, hr, ht, hq, hanswer, beq_iff_eq.mp hp ▸ hqr⟩
  | ok found => cases hp

end Service

end EventStore
