import EventStore.Proofs.Engine.Seek
import EventStore.Proofs.Engine.Work
import EventStore.Proofs.EventSet.Additions
import EventStore.Proofs.EventSet.Query

/-!
# Queries among others

A query takes ids from the index of a bucket and loads the events one by one later. Whatever others
do meanwhile, what it finds lies in its range (`works_query`). While they only add events, each id
that was taken keeps its event, so what it finds satisfies it (`query_leaves`).
-/

namespace EventStore

open Query Operation

-- ---- times ---------------------------------------------------------------

namespace Bucket

variable (b : Bucket) {range : TimeRange} {found : List Event}

theorem works_load (id : UInt32) : (b.load id).Works := by
  refine .bind (.call trivial) fun value _ => ?_
  cases value with
  | none => exact .pure' trivial
  | some value =>
    dsimp only
    split
    · exact .pure' trivial
    · exact .throw' _

theorem works_timeOf (id : UInt32) : (b.timeOf id).Works :=
  .bind (b.works_load id) fun _ _ => .pure' trivial

theorem works_matching (text : String) : (b.matching text).Works :=
  .bind (.attempt fun _ => ⟨rfl, .refl⟩) fun _ _ => .lift (.observe _)

theorem works_collect {most : Nat} {ids : List UInt32}
    (h : ∀ x ∈ found, range.holds x.millis = true) :
    (b.collect range most ids found).WorksTo fun more =>
      ∀ x ∈ more, range.holds x.millis = true := by
  induction ids generalizing found with
  | nil => exact .pure' (by simpa using h)
  | cons id ids ih =>
    rw [collect]
    split
    · exact .pure' (by simpa using h)
    refine .bind (b.works_load id) fun e _ => ?_
    cases e with
    | none => exact ih h
    | some e =>
      refine ih ?_
      split
      · next he => exact List.forall_mem_cons.mpr ⟨he, h⟩
      · exact h

theorem works_search (text : String) (most : Nat) (after : UInt32) (range : TimeRange) :
    (b.search text most after range).WorksTo fun found =>
      ∀ x ∈ found, range.holds x.millis = true := by
  refine .bind (b.works_matching text) fun positions _ => .bind (.lift (.observe _)) fun s _ => ?_
  split
  · exact .pure' nofun
  dsimp only
  split
  · exact .pure' nofun
  split
  · exact .pure' nofun
  have hcollect (first : Nat) :
      (b.collect range most (List.drop first (positions.above after)) []).WorksTo fun found =>
        ∀ x ∈ found, range.holds x.millis = true := b.works_collect (List.forall_mem_nil _)
  split
  · exact hcollect 0
  · refine .bind (Q := fun _ => True) ?_ fun first _ => hcollect first
    exact Seek.seek_induction (P := fun op => Operation.Works op) _ (fun _ => .pure' trivial)
      fun _ _ _ h => .bind (b.works_timeOf _) fun t _ => h t

end Bucket

namespace EventSet

theorem works_searchAll (text : String) (range : TimeRange) (most : Nat) (token : Token)
    (bs : List Bucket) {found : List Event} (h : ∀ x ∈ found, range.holds x.millis = true) :
    (searchAll text range most token bs found).WorksTo fun found =>
      ∀ x ∈ found, range.holds x.millis = true := by
  induction bs generalizing found with
  | nil => exact .pure' h
  | cons b bs ih =>
    refine .bind (b.works_search text _ _ range) fun more hm => ?_
    have h := List.forall_mem_append.mpr ⟨h, hm⟩
    dsimp only
    split
    · exact .pure' h
    · exact ih h

/-- What a query finds lies in the range, whatever others do. -/
theorem works_query (text : String) (range : TimeRange) (most : Nat) (token : Token) :
    (query text range most token).WorksTo fun found =>
      ∀ x ∈ found, range.holds x.millis = true :=
  .bind (.result _) fun _ _ => .bind (.attempt fun _ => ⟨rfl, .refl⟩) fun _ _ =>
    .bind (Q := fun _ => True) (.lift (.bind (works_ofRegistry _) fun _ _ => .pure' trivial))
      fun _ _ => works_searchAll text range most token _ nofun

-- ---- events that are there -----------------------------------------------

variable {e e' e₀ : Engine} {k : Hand} {b : Bucket} {text : String} {range : TimeRange}
  {found : List Event}

/-- From one step of a call to the next nothing is lost. -/
theorem grows_of_abides {α : Type} {x : Activity Engine α} {Q : α → Engine → Hand → Prop}
    (h : x.Abides sharing e k Q) (hg : Grows e₀ e) :
    x.Abides sharing e k fun a e' k' => Grows e₀ e' ∧ Q a e' k' :=
  h.and_leads hg (fun _ hk ha hg => hg.trans (Acts.grows ha hk)) fun ho hg => hg.trans ho.toGrows

/-- The operation leaves the call with what it held before, and `Q` is true of its answer. -/
def Leaves (op : Operation α) (e : Engine) (k : Hand) (Q : α → Engine → Prop) : Prop :=
  op.Abides sharing e k (fun a e' k' => k' = k ∧ Q a e') fun _ _ k' => k' = k

namespace Leaves

variable {α β : Type} {op : Operation α} {Q : α → Engine → Prop}

theorem pure' {a : α} (h : Q a e) : Leaves (pure a) e k Q := ⟨rfl, h⟩

theorem throw' (p : EngineError) : Leaves (throw p : Operation α) e k Q := rfl

theorem bind {f : α → Operation β} {R : β → Engine → Prop} (h : Leaves op e k Q)
    (hf : ∀ a e', Grows e e' → Q a e' → Leaves (f a) e' k R) : Leaves (op >>= f) e k R := by
  refine Operation.Abides.bind (P := fun a e' k' => Grows e e' ∧ k' = k ∧ Q a e')
    (Activity.Abides.mono (grows_of_abides h (.refl e)) ?_) ?_
  · rintro (p | a) e' k' ⟨hg, h⟩
    · exact h
    · exact ⟨hg, h⟩
  · rintro a e' _ ⟨hg, rfl, hq⟩
    exact hf a e' hg hq

theorem observe {f : Engine → α} (h : ∀ u, sharing.Finds k e u → Q (f u) u) :
    Leaves (liftM (Activity.observe f)) e k Q :=
  .lift (.observe fun u hu => ⟨rfl, h u hu⟩)

end Leaves

def Meets (b : Bucket) (text : String) (e : Engine) (id : UInt32) : Prop :=
  ∃ x, Bucket.eventAt? (e.content b) id = some x ∧ satisfies text x.properties = true

theorem Meets.grows {id : UInt32} (h : Meets b text e id) (hg : Grows e e') :
    Meets b text e' id := by
  obtain ⟨x, hx, hs⟩ := h
  exact ⟨x, hg.events hx, hs⟩

theorem criteria_leaves (text : String) (e : Engine) (k : Hand) :
    Leaves (Bucket.criteria text) e k fun c _ => compile text = .ok c := by
  refine .attempt fun u hu => ?_
  obtain ⟨hc, hs⟩ := hu.sound.cache.getOrCompile u.clock text
  refine ⟨k, .asks _ _ (.refl _) fun _ => hs, ?_⟩
  dsimp only
  cases hg : u.cache.getOrCompile u.clock text with
  | mk c cache =>
    rw [hg] at hc
    obtain rfl : c = compile text := hc
    cases hc' : compile text with
    | ok c => exact ⟨rfl, rfl⟩
    | error p => rfl

theorem matching_leaves (hb : Registered b e) (text : String) :
    Leaves (b.matching text) e k fun ids e' => ∀ id ∈ ids, Meets b text e' id := by
  refine .bind (criteria_leaves text e k) fun c e₁ hg hc => .observe fun u hu id hid => ?_
  have hb := hu.others.registered (hg.registered hb)
  obtain ⟨part, last, hi, hp⟩ := (hu.sound.usable hb).backed
  obtain ⟨x, hx, hs⟩ := (Bucket.mem_evaluate_of_indexOf hi hc).mp hid
  exact ⟨x, hp id x hx, hs⟩

theorem get_leaves (b : Bucket) (id : UInt32) (e : Engine) (k : Hand) :
    Leaves (call (.get b.eventsMap (idKey id))) e k fun value e' => ∀ x,
      Bucket.eventAt? (e'.content b) id = some x → value.bind Binary.readEvent? = some x := by
  refine (isTame_get _ _).call_abides ?_ fun _ _ _ _ _ => rfl
  rintro u value s hu ⟨es, hes, rfl⟩ hs
  refine ⟨rfl, fun x hx => ?_⟩
  rwa [content_eq (e := { u with store := s }) (hs ▸ hes : s.entries? b.eventsMap = some es)] at hx

theorem load_leaves {id : UInt32} (h : Meets b text e id) :
    Leaves (b.load id) e k fun r _ => ∀ x, r = some x → satisfies text x.properties = true := by
  refine .bind (get_leaves b id e k) fun value e₁ hg hv => ?_
  obtain ⟨x, hx, hs⟩ := h.grows hg
  obtain ⟨bytes, rfl, hr⟩ := Option.bind_eq_some_iff.mp (hv x hx)
  simp only [hr]
  refine .pure' ?_
  rintro _ ⟨⟩
  exact hs

theorem timeOf_leaves (b : Bucket) (id : UInt32) (e : Engine) (k : Hand) :
    Leaves (b.timeOf id) e k fun _ _ => True := by
  refine .bind (Q := fun _ _ => True) (.bind (get_leaves b id e k) fun value e₁ _ _ => ?_)
    fun _ _ _ _ => .pure' trivial
  cases value with
  | none => exact .pure' trivial
  | some value =>
    dsimp only
    split
    · exact .pure' trivial
    · exact .throw' _

theorem collect_leaves {most : Nat} {ids : List UInt32} (hids : ∀ id ∈ ids, Meets b text e id)
    (h : ∀ x ∈ found, satisfies text x.properties = true) :
    Leaves (b.collect range most ids found) e k fun more _ =>
      ∀ x ∈ more, satisfies text x.properties = true := by
  induction ids generalizing e found with
  | nil => exact .pure' (by simpa using h)
  | cons id ids ih =>
    obtain ⟨hid, hids⟩ := List.forall_mem_cons.mp hids
    rw [Bucket.collect]
    split
    · exact .pure' (by simpa using h)
    refine .bind (load_leaves hid) fun r e' hg hr => ?_
    have hids : ∀ id ∈ ids, Meets b text e' id := fun id hid => (hids id hid).grows hg
    cases r with
    | none => exact ih hids h
    | some x =>
      refine ih hids ?_
      split
      · exact List.forall_mem_cons.mpr ⟨hr x rfl, h⟩
      · exact h

theorem search_leaves (hb : Registered b e) (text : String) (most : Nat) (after : UInt32)
    (range : TimeRange) : Leaves (b.search text most after range) e k fun found _ =>
      ∀ x ∈ found, satisfies text x.properties = true := by
  refine .bind (matching_leaves hb text) fun ids e₁ _ hids => ?_
  refine .bind (Q := fun _ _ => True) (.observe fun _ _ => trivial) fun s e₂ hg₂ _ => ?_
  split
  · exact .pure' nofun
  dsimp only
  split
  · exact .pure' nofun
  split
  · exact .pure' nofun
  have hcollect (first : Nat) {e₃ : Engine} (hg₃ : Grows e₂ e₃) :
      Leaves (b.collect range most (List.drop first (ids.above after)) []) e₃ k fun found _ =>
        ∀ x ∈ found, satisfies text x.properties = true := by
    refine collect_leaves (fun id hid => ?_) (List.forall_mem_nil _)
    have hid := Positions.mem_above.mp (List.mem_of_mem_drop hid)
    exact ((hids id hid.1).grows hg₂).grows hg₃
  split
  · exact hcollect 0 (.refl _)
  · refine .bind (Q := fun _ _ => True) ?_ fun first e₃ hg₃ _ => hcollect first hg₃
    exact Seek.seek_induction (P := fun op => ∀ e, Leaves op e k fun _ _ => True) _
      (fun _ _ => .pure' trivial)
      (fun _ _ _ h e => .bind (timeOf_leaves b _ e k) fun t e' _ _ => h t e') e₂

theorem searchAll_leaves {bs : List Bucket} {most : Nat} {token : Token}
    (hbs : ∀ b ∈ bs, Registered b e) (h : ∀ x ∈ found, satisfies text x.properties = true) :
    Leaves (searchAll text range most token bs found) e k fun found _ =>
      ∀ x ∈ found, satisfies text x.properties = true := by
  induction bs generalizing e found with
  | nil => exact .pure' h
  | cons b bs ih =>
    obtain ⟨hb, hbs⟩ := List.forall_mem_cons.mp hbs
    refine .bind (search_leaves hb text _ _ range) fun more e' hg hm => ?_
    have h := List.forall_mem_append.mpr ⟨h, hm⟩
    dsimp only
    split
    · exact .pure' h
    · exact ih (fun b hb => hg.registered (hbs b hb)) h

/-- What a query finds while events are only added satisfies it. -/
theorem query_leaves (text : String) (range : TimeRange) (most : Nat) (token : Token) (e : Engine)
    (k : Hand) : Leaves (query text range most token) e k fun found _ =>
      ∀ x ∈ found, satisfies text x.properties = true := by
  refine .bind (Q := fun _ _ => True) (.result (fun _ _ => ⟨rfl, trivial⟩) fun _ _ => rfl)
    fun _ e₁ _ _ => .bind (criteria_leaves text e₁ k) fun _ e₂ _ _ => ?_
  refine .bind (Q := fun bs e' => ∀ b ∈ bs, Registered b e') (.lift (.bind
    (P := fun bs e' k' => k' = k ∧ ∀ b ∈ bs, Registered b e') (.bind
      (P := fun r e' k' => k' = k ∧ ∀ b ∈ r.values, Registered b e')
      (.whenever fun u hu _ => ⟨k, sharing.stay u k, rfl, fun b hb => ?_⟩) ?_) ?_))
    fun bs e₃ _ hbs => searchAll_leaves hbs nofun
  · obtain ⟨hour, hb⟩ := exists_of_mem_values hb
    exact Sound.registered hu.sound hb
  · exact fun r _ _ h => .pure' h
  · exact fun bs _ _ h => .pure' ⟨h.1, fun b hb => h.2 b (List.mem_filter.mp hb).1⟩

end EventSet

end EventStore
