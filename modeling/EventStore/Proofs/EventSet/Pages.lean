import EventStore.Engine.Paging
import EventStore.Proofs.EventSet.Query

/-!
# Pages

Pages are asked one after the other, each with the token that came with the one before, while
events are added. No event comes twice, and when the pages end every event has come that was
stored before the first of them (`pages_of_turned`). What is left to come is the part of the
listing behind the token.
-/

namespace EventStore

open Std Query Operation EventSet

namespace Page

variable {e e' e₀ : Engine} {logs : HourLogs} {text : String} {range : TimeRange}
  {token : Token} {x y : Event} {l : List Event} {size : Nat}

-- ---- one page ------------------------------------------------------------

theorem events_ofFound_perm (size : Nat) (l : List Event) :
    (ofFound size l).events.Perm (l.take size) :=
  List.mergeSort_perm ..

theorem mem_ofFound : x ∈ (ofFound size l).events ↔ x ∈ l.take size :=
  (events_ofFound_perm size l).mem_iff

theorem pairwise_ofFound (size : Nat) (l : List Event) :
    (ofFound size l).events.Pairwise fun x y => Event.before x y = true := by
  refine List.pairwise_mergeSort ?_ ?_ _
  · intro a b c hab hbc
    simp only [Event.before, Bool.or_eq_true, Bool.and_eq_true, decide_eq_true_eq, beq_iff_eq,
      UInt32.le_iff_toNat_le] at *
    omega
  · intro a b
    simp only [Event.before, Bool.or_eq_true, Bool.and_eq_true, decide_eq_true_eq, beq_iff_eq,
      UInt32.le_iff_toNat_le]
    omega

/-- One event more than fit is enough to make the page. -/
theorem ofFound_take (size : Nat) (l : List Event) :
    ofFound size (l.take (size + 1)) = ofFound size l := by
  have ht : (l.take (size + 1)).take size = l.take size := by
    rw [List.take_take, Nat.min_eq_left (Nat.le_succ size)]
  have hlt : size < (l.take (size + 1)).length ↔ size < l.length := by
    rw [List.length_take]
    omega
  simp only [ofFound, ht, hlt]

/-- The next page follows the last event of this one in the order of places. -/
theorem next_ofFound_of_lt (hs : l.Pairwise (·.token.Before ·.token)) (h0 : 0 < size)
    (hl : size < l.length) :
    ∃ x ∈ l.take size, (ofFound size l).next = x.token ∧
      (∀ y ∈ l.take size, ¬ x.token.Before y.token) ∧
      ∀ y ∈ l.drop size, x.token.Before y.token := by
  have hne : l.take size ≠ [] := by
    rw [Ne, List.take_eq_nil_iff]
    rintro (rfl | rfl)
    · exact absurd h0 (Nat.lt_irrefl 0)
    · exact absurd hl (Nat.not_lt_zero _)
  have hsplit := hs
  rw [← List.take_append_drop size l, List.pairwise_append] at hsplit
  refine ⟨(l.take size).getLast hne, List.getLast_mem hne, ?_, fun y hy hb => ?_, ?_⟩
  · simp only [ofFound, if_pos hl, List.getLast?_eq_some_getLast hne, Option.map_some,
      Option.getD_some]
  · have hlast := hsplit.1
    rw [← List.dropLast_concat_getLast hne, List.pairwise_append] at hlast
    rw [← List.dropLast_concat_getLast hne, List.mem_append, List.mem_singleton] at hy
    rcases hy with hy | hy
    · exact Token.Before.irrefl _ (hb.trans (hlast.2.2 y hy _ (List.mem_singleton.mpr rfl)))
    · exact Token.Before.irrefl _ (hy ▸ hb)
  · exact hsplit.2.2 _ (List.getLast_mem hne)

theorem next_ofFound_of_le (hl : l.length ≤ size) : (ofFound size l).next = .start :=
  if_neg (Nat.not_lt.mpr hl)

theorem not_before_start (token : Token) : ¬ token.Before .start := by
  rintro (h | ⟨-, h⟩) <;> exact absurd h (by simp [Token.start])

theorem ofFound_splits (hs : l.Pairwise (·.token.Before ·.token))
    (ht : ∀ x ∈ l, token.Before x.token) (h0 : 0 < size) :
    ((ofFound size l).next ≠ .start → size < l.length ∧ token.Before (ofFound size l).next ∧
        ∀ x ∈ (ofFound size l).events, ¬ (ofFound size l).next.Before x.token) ∧
      ∀ x ∈ l, x ∈ (ofFound size l).events ∨ (ofFound size l).next ≠ .start ∧
        (ofFound size l).next.Before x.token := by
  rcases Nat.lt_or_ge size l.length with hl | hl
  · obtain ⟨y, hy, hn, hle, hlt⟩ := next_ofFound_of_lt hs h0 hl
    have hbefore : token.Before (ofFound size l).next := hn ▸ ht y (List.mem_of_mem_take hy)
    have hne : (ofFound size l).next ≠ .start := fun he => not_before_start token (he ▸ hbefore)
    refine ⟨fun _ => ⟨hl, hbefore, fun x hx => hn ▸ hle x (mem_ofFound.mp hx)⟩, fun x hx => ?_⟩
    rw [← List.take_append_drop size l, List.mem_append] at hx
    exact hx.imp mem_ofFound.mpr fun hx => ⟨hne, hn ▸ hlt x hx⟩
  · refine ⟨fun hne => absurd (next_ofFound_of_le hl) hne, fun x hx => .inl (mem_ofFound.mpr ?_)⟩
    rwa [List.take_of_length_le hl]

/-- What follows a page is what a query with its token goes through. -/
theorem listed_next_perm (h : Stands e logs) (ho : InOrder range e) (h0 : 0 < size)
    (hl : size < (listed e logs text range token).length) :
    (listed e logs text range (ofFound size (listed e logs text range token)).next).Perm
      ((listed e logs text range token).drop size) := by
  have hs : (listed e logs text range token).Pairwise (·.token.Before ·.token) := h.pairwise_listed
  obtain ⟨x, hx, hn, hle, hlt⟩ := next_ofFound_of_lt hs h0 hl
  rw [hn]
  refine (List.perm_ext_iff_of_nodup h.nodup_listed h.nodup_listed.drop).mpr fun y => ?_
  rw [h.mem_listed_iff ho]
  constructor
  · rintro ⟨hy, hb, hrest⟩
    have hxt := (h.of_mem_listed (List.mem_of_mem_take hx)).2.1
    have hmem : y ∈ listed e logs text range token :=
      (h.mem_listed_iff ho).mpr ⟨hy, hxt.trans hb, hrest⟩
    rw [← List.take_append_drop size (listed e logs text range token), List.mem_append] at hmem
    exact hmem.resolve_left fun hm => hle y hm hb
  · intro hy
    obtain ⟨hst, -, hrest⟩ := h.of_mem_listed (List.mem_of_mem_drop hy)
    exact ⟨hst, hlt y hy, hrest⟩

theorem size_pos (n : Nat) : 0 < max 1 n := Nat.lt_of_lt_of_le Nat.one_pos (Nat.le_max_left 1 n)

theorem upTo_succ (size : Nat) (l : List Event) : upTo (size + 1) l = l.take (size + 1) := rfl

theorem query_result {q : Criteria} (h : Holds e logs) (ha : e.store.isAvailable = true)
    (hc : compile text = .ok q) (hr : range.start ≤ range.stop) (token : Token) (rounds : Nat) :
    ∃ e', (query text range token).result rounds e =
      some (.ok (ofFound (max 1 e.settings.pageSize) (listed e logs text range token)), e') ∧
        e.Recalls e' := by
  obtain ⟨e', hq, hrec⟩ := EventSet.query_result h ha hc hr
    (max 1 e.settings.pageSize + 1) token rounds
  refine ⟨e', ?_, hrec⟩
  rw [query, result_bind, Page.size, Activity.observe, result_lift]
  show Operation.result rounds
    (EventSet.query text range (max 1 e.settings.pageSize + 1) token >>= _) e = _
  rw [result_bind, hq, upTo_succ]
  show Operation.result rounds (pure (ofFound _ _)) e' = _
  rw [ofFound_take, result_pure]

/-- Why a query is refused, whatever the set holds. -/
def refusal? (text : String) (range : TimeRange) : Option EngineError :=
  if range.start ≤ range.stop then
    match compile text with
    | .ok _ => none
    | .error p => some (.query p)
  else some (.query (.badTimeRange range.reversedText))

theorem refusal?_eq_none :
    refusal? text range = none ↔ range.start ≤ range.stop ∧ ∃ q, compile text = .ok q := by
  unfold refusal?
  split
  · next hr => cases hc : compile text <;> simp [hr]
  · next hr => simp [hr]

theorem query_refused {p : EngineError} (hs : e.cache.Sound) (hp : refusal? text range = some p)
    (most : Nat) (token : Token) (rounds : Nat) :
    ∃ e', (EventSet.query text range most token).result rounds e = some (.error p, e') := by
  unfold refusal? at hp
  split at hp
  · next hr =>
    split at hp
    · cases hp
    · next p' hc =>
      cases hp
      exact ⟨_, EventSet.query_refused hs hc hr most token rounds⟩
  · next hr =>
    cases hp
    exact ⟨_, query_reversed hr most token rounds e⟩

theorem page_refused {p : EngineError} (hs : e.cache.Sound) (hp : refusal? text range = some p)
    (token : Token) (rounds : Nat) :
    ∃ e', (query text range token).result rounds e = some (.error p, e') := by
  obtain ⟨e', hq⟩ := query_refused hs hp (max 1 e.settings.pageSize + 1) token rounds
  refine ⟨e', ?_⟩
  rw [query, result_bind, Page.size, Activity.observe, result_lift]
  show Operation.result rounds
    (EventSet.query text range (max 1 e.settings.pageSize + 1) token >>= _) e = _
  rw [result_bind, hq]
  rfl

theorem of_query_ok {page : Page} (h : Holds e logs) (ha : e.store.isAvailable = true)
    (hq : (query text range token).result rounds e = some (.ok page, e')) :
    page = ofFound (max 1 e.settings.pageSize) (listed e logs text range token) ∧ e.Recalls e' := by
  cases hp : refusal? text range with
  | some p =>
    obtain ⟨e'', hq'⟩ := page_refused h.cache hp token rounds
    cases hq.symm.trans hq'
  | none =>
    obtain ⟨hr, q, hc⟩ := refusal?_eq_none.mp hp
    obtain ⟨e'', hq', hrec⟩ := query_result h ha hc hr token rounds
    cases hq.symm.trans hq'
    exact ⟨rfl, hrec⟩

-- ---- pages one after the other -------------------------------------------

/-- A page with the token it was asked with, and the size it could have. -/
structure Turn where
  token : Token
  size : Nat
  page : Page

def shown (turns : List Turn) : List Event := turns.flatMap (·.page.events)

/-- Pages have been turned from `e₀` on. Each comes from an engine whose store takes every call,
and is asked with the token of the one before, the first with the start token; meanwhile events
are added, with success or without. -/
inductive Turned (text : String) (range : TimeRange) (e₀ : Engine) :
    Engine → Token → List Turn → Prop
  | start (h : Reached e₀) : Turned text range e₀ e₀ .start []
  | turn {e e' : Engine} {token turns rounds page} (h : Turned text range e₀ e token turns)
    (hmore : turns = [] ∨ token ≠ .start) (ha : e.store.isAvailable = true)
    (hq : (query text range token).result rounds e = some (.ok page, e')) :
    Turned text range e₀ e' page.next (turns ++ [⟨token, max 1 e.settings.pageSize, page⟩])
  | add {e e' : Engine} {token turns x r} (h : Turned text range e₀ e token turns)
    (hf : Event.Fits x) (he : (EventSet.add x).Ends e r e') : Turned text range e₀ e' token turns
  | addAll {e e' : Engine} {token turns events r} (h : Turned text range e₀ e token turns)
    (hf : ∀ x ∈ events, Event.Fits x) (he : (EventSet.addAll events).Ends Engine.Shaken e r e') :
    Turned text range e₀ e' token turns

/-- What is to hold of a page by itself. -/
structure Turn.Proper (t : Turn) : Prop where
  full : t.page.next ≠ .start → t.page.events.length = t.size
  ordered : t.page.events.Pairwise fun x y => Event.before x y = true
  after : ∀ x ∈ t.page.events, t.token.Before x.token

/-- What holds after each page: those that have come lie up to the token, and those that have not
lie after it. -/
structure Progress (text : String) (range : TimeRange) (e₀ e : Engine) (token : Token)
    (turns : List Turn) : Prop where
  stands : ∃ logs, Holds e logs ∧ ∀ x, e₀.Stores x → e.Stores x
  proper : ∀ t ∈ turns, t.Proper
  distinct : (shown turns).Pairwise (·.token ≠ ·.token)
  passed : turns = [] ∨ token ≠ .start → ∀ x ∈ shown turns, ¬ token.Before x.token
  complete : InOrder range e → ∀ x, e₀.Stores x → satisfies text x.properties = true →
    range.Takes x.millis → ¬ token.Before x.token ∨ turns ≠ [] ∧ token = .start → x ∈ shown turns

variable {turns : List Turn}

theorem inOrder_mono (h : InOrder range e') (hs : ∀ x, e.Stores x → e'.Stores x) :
    InOrder range e :=
  h.imp_right fun h x y hx hy => h x y (hs x hx) (hs y hy)

theorem Progress.grown (h : Progress text range e₀ e token turns)
    (hs : ∃ logs, Holds e' logs ∧ ∀ x, e.Stores x → e'.Stores x) :
    Progress text range e₀ e' token turns := by
  obtain ⟨logs, hl, hmono⟩ := hs
  obtain ⟨-, -, hmono₀⟩ := h.stands
  exact ⟨⟨logs, hl, fun x hx => hmono x (hmono₀ x hx)⟩, h.proper, h.distinct, h.passed,
    fun ho => h.complete (inOrder_mono ho hmono)⟩

theorem Progress.start (h : Reached e₀) : Progress text range e₀ e₀ .start [] := by
  obtain ⟨logs, hl⟩ := h.holds
  refine ⟨⟨logs, hl, fun _ h => h⟩, by simp, .nil, by simp [shown], fun _ x hx _ _ hp => ?_⟩
  rcases hp with hp | ⟨hp, -⟩
  · obtain ⟨b, -, hc⟩ := hl.stores_iff.mp hx
    have h0 := (bucket_of_committed? hc).2
    refine absurd ?_ hp
    by_cases hb : x.bucket = 0
    · exact .inr ⟨hb.symm, h0⟩
    · exact .inl (UInt32.pos_iff_ne_zero.mpr hb)
  · exact absurd rfl hp

theorem shown_concat (turns : List Turn) (t : Turn) :
    shown (turns ++ [t]) = shown turns ++ t.page.events := by
  simp [shown]

theorem Progress.turn {page : Page} (h : Progress text range e₀ e token turns)
    (hmore : turns = [] ∨ token ≠ .start) (ha : e.store.isAvailable = true)
    (hq : (query text range token).result rounds e = some (.ok page, e')) :
    Progress text range e₀ e' page.next (turns ++ [⟨token, max 1 e.settings.pageSize, page⟩]) := by
  obtain ⟨logs, hl, hmono⟩ := h.stands
  obtain ⟨rfl, cache, hcache, rfl⟩ := of_query_ok hl ha hq
  have hs : (listed e logs text range token).Pairwise (·.token.Before ·.token) := hl.pairwise_listed
  have hbefore (x : Event) (hx : x ∈ listed e logs text range token) := (hl.of_mem_listed hx).2.1
  have hlisted (ho : InOrder range e) (x : Event) (hx : e.Stores x ∧ token.Before x.token ∧
      satisfies text x.properties = true ∧ range.Takes x.millis) :
      x ∈ listed e logs text range token :=
    (hl.mem_listed_iff ho).mpr hx
  obtain ⟨hnext, hsplit⟩ := ofFound_splits hs hbefore (size_pos e.settings.pageSize)
  have hperm := events_ofFound_perm (max 1 e.settings.pageSize) (listed e logs text range token)
  have hordered := pairwise_ofFound (max 1 e.settings.pageSize) (listed e logs text range token)
  have hafter : ∀ x ∈ (ofFound (max 1 e.settings.pageSize) (listed e logs text range token)).events,
      token.Before x.token := fun x hx => hbefore x (List.mem_of_mem_take (hperm.mem_iff.mp hx))
  generalize max 1 e.settings.pageSize = size at *
  generalize listed e logs text range token = l at *
  have hpassed := h.passed hmore
  refine ⟨⟨logs, hl.recalls ⟨cache, hcache, rfl⟩, hmono⟩, ?_, ?_, ?_, ?_⟩
  · intro t ht
    rcases List.mem_append.mp ht with ht | ht
    · exact h.proper t ht
    · rw [List.mem_singleton.mp ht]
      refine ⟨fun hne => ?_, hordered, hafter⟩
      rw [hperm.length_eq, List.length_take, Nat.min_eq_left (Nat.le_of_lt (hnext hne).1)]
  · rw [shown_concat, List.pairwise_append]
    refine ⟨h.distinct, (hperm.pairwise_iff Ne.symm).mpr (hs.take.imp ?_), fun x hx y hy he => ?_⟩
    · exact fun {x y} hb he => Token.Before.irrefl _ (he ▸ hb)
    · exact hpassed x hx (he ▸ hafter y hy)
  · rintro (hnil | hne)
    · simp at hnil
    · obtain ⟨-, htoken, hle⟩ := hnext hne
      intro x hx
      rw [shown_concat, List.mem_append] at hx
      rcases hx with hx | hx
      · exact fun hb => hpassed x hx (htoken.trans hb)
      · exact hle x hx
  · intro ho x hx hsat hr hp
    rw [shown_concat, List.mem_append]
    by_cases hb : token.Before x.token
    · rcases hsplit x (hlisted ho x ⟨hmono x hx, hb, hsat, hr⟩) with hx | ⟨hne, hx⟩
      · exact .inr hx
      · rcases hp with hp | ⟨-, hp⟩
        · exact absurd hx hp
        · exact absurd hp hne
    · exact .inl (h.complete ho x hx hsat hr (.inl hb))

theorem Turned.progress (h : Turned text range e₀ e token turns) :
    Progress text range e₀ e token turns := by
  induction h with
  | start h => exact .start h
  | turn _ hmore ha hq ih => exact ih.turn hmore ha hq
  | add _ hf he ih =>
    obtain ⟨logs, hl, -⟩ := ih.stands
    have := add_triple hl hf _ _ he
    split at this
    · obtain ⟨b, -, hl', -⟩ := this
      exact ih.grown ⟨_, hl', fun x => hl.stores_mono hl'.toStands (logs.grow_put b.hour _)⟩
    · exact ih.grown ⟨logs, this, fun x => hl.stores_mono this.toStands (.refl logs)⟩
  | addAll _ hf he ih =>
    obtain ⟨logs, hl, -⟩ := ih.stands
    obtain ⟨logs', hl', hgrow⟩ := holds_of_addAll hl hf he
    exact ih.grown ⟨logs', hl', fun x => hl.stores_mono hl'.toStands hgrow⟩

-- ---- all pages at once ---------------------------------------------------

/-- One round of a query for all pages, from a token and the events so far. -/
def round (text : String) (range : TimeRange) (s : Token × List Event) :
    Activity Engine ((Token × List Event) ⊕ Except EngineError (List Event)) := do
  match ← (query text range s.1).run with
  | .error p => return .inr (.error p)
  | .ok page =>
    let found := s.2 ++ page.events
    if page.next.isStart then return .inr (.ok found) else return .inl (page.next, found)

theorem run_round_ok {page : Page} (found : List Event)
    (hq : (query text range token).result rounds e = some (.ok page, e')) :
    (round text range (token, found)).run rounds e =
      some (if page.next.isStart then .inr (.ok (found ++ page.events))
        else .inl (page.next, found ++ page.events), e') := by
  have hq : Activity.run rounds (query text range token).run e = some (.ok page, e') := hq
  refine (Activity.run_bind ..).trans ?_
  rw [hq]
  show Activity.run rounds (if page.next.isStart = true then _ else _) e' = _
  split <;> rfl

theorem run_round_error {p : EngineError} (found : List Event)
    (hq : (query text range token).result rounds e = some (.error p, e')) :
    (round text range (token, found)).run rounds e = some (.inr (.error p), e') := by
  have hq : Activity.run rounds (query text range token).run e = some (.error p, e') := hq
  refine (Activity.run_bind ..).trans ?_
  rw [hq]
  rfl

theorem result_queryAll {r : Except EngineError (List Event)}
    (h : Activity.rounds (fun s e => (round text range s).run rounds e) rounds (.start, []) e =
      some (r, e')) :
    (queryAll text range).result rounds e = some (r, e') := by
  show (Activity.loop (round text range) (.start, []) Activity.done).run rounds e = _
  rw [Activity.run, h]
  rfl

/-- Round by round all of the listing is found. -/
theorem rounds_of_listed {q : Criteria} (h : Holds e logs) (ha : e.store.isAvailable = true)
    (hc : compile text = .ok q) (hr : range.start ≤ range.stop) (ho : InOrder range e)
    (token : Token) (found : List Event) (rounds : Nat) {most : Nat}
    (hm : (listed e logs text range token).length < most) :
    ∃ rest e',
      Activity.rounds (fun s e => (round text range s).run rounds e) most (token, found) e =
        some (.ok (found ++ rest), e') ∧ rest.Perm (listed e logs text range token) := by
  induction most generalizing token found e with
  | zero => exact absurd hm (Nat.not_lt_zero _)
  | succ most ih =>
    obtain ⟨_, hq, cache, hcache, rfl⟩ := query_result h ha hc hr token rounds
    have hround := run_round_ok found hq
    have h0 := size_pos e.settings.pageSize
    generalize max 1 e.settings.pageSize = size at *
    rcases Nat.lt_or_ge size (listed e logs text range token).length with hl | hl
    · have hperm := listed_next_perm h.toStands ho h0 hl
      obtain ⟨x, hx, hn, -⟩ := next_ofFound_of_lt h.pairwise_listed h0 hl
      have hne : (ofFound size (listed e logs text range token)).next.isStart = false := by
        have hb := (h.of_mem_listed (List.mem_of_mem_take hx)).2.1
        rw [Token.isStart, beq_eq_false_iff_ne, hn]
        exact fun he => not_before_start token (he ▸ hb)
      have hlen := hperm.length_eq
      rw [List.length_drop] at hlen
      obtain ⟨rest, e', hrest, hp⟩ := ih (e := { e with cache := cache })
        (h.recalls ⟨cache, hcache, rfl⟩) ha ho
        (ofFound size (listed e logs text range token)).next
        (found ++ (ofFound size (listed e logs text range token)).events)
        (show (listed e logs text range _).length < most by omega)
      refine ⟨(ofFound size (listed e logs text range token)).events ++ rest, e', ?_, ?_⟩
      · rw [Activity.rounds, hround]
        simp only [hne, Bool.false_eq_true, ↓reduceIte]
        rw [hrest, List.append_assoc]
      · have hp : rest.Perm ((listed e logs text range token).drop size) := hp.trans hperm
        have := (events_ofFound_perm size (listed e logs text range token)).append hp
        rwa [List.take_append_drop] at this
    · refine ⟨(ofFound size (listed e logs text range token)).events,
        { e with cache := cache }, ?_, ?_⟩
      · rw [Activity.rounds, hround, next_ofFound_of_le hl]
        rfl
      · have := events_ofFound_perm size (listed e logs text range token)
        rwa [List.take_of_length_le hl] at this

/-- The same answers in some order, or the same error. -/
def Alike : Except EngineError (List Event) → Except EngineError (List Event) → Prop
  | .ok l, .ok l' => l.Perm l'
  | .error p, .error p' => p = p'
  | _, _ => False

theorem queryAll_alike (h : Holds e logs) (ha : e.store.isAvailable = true) (ho : InOrder range e) :
    ∃ rounds all e₁ found e₂, (queryAll text range).result rounds e = some (all, e₁) ∧
      (EventSet.query text range 0 .start).result rounds e = some (found, e₂) ∧ Alike all found ∧
        (all.isOk = true ↔ range.start ≤ range.stop ∧ ∃ q, compile text = .ok q) := by
  rw [← refusal?_eq_none]
  cases hp : refusal? text range with
  | none =>
    obtain ⟨hr, q, hc⟩ := refusal?_eq_none.mp hp
    obtain ⟨rest, e₁, hrest, hperm⟩ := rounds_of_listed h ha hc hr ho .start []
      ((listed e logs text range .start).length + 1) (Nat.lt_succ_self _)
    obtain ⟨e₂, hq, -⟩ := EventSet.query_result h ha hc hr 0 .start
      ((listed e logs text range .start).length + 1)
    refine ⟨_, _, e₁, _, e₂, result_queryAll hrest, hq, hperm, by simp [Except.isOk, Except.toBool]⟩
  | some p =>
    obtain ⟨e₁, hq₁⟩ := page_refused h.cache hp .start 1
    obtain ⟨e₂, hq₂⟩ := query_refused h.cache hp 0 .start 1
    have hround := run_round_error [] hq₁
    refine ⟨1, .error p, e₁, .error p, e₂, result_queryAll ?_, hq₂, rfl,
      by simp [Except.isOk, Except.toBool]⟩
    rw [Activity.rounds, hround]

def isReady : Operation Bool := attempt fun e => (.ok e.store.isAvailable, e)

/-- Two events that are sought, on pages of one event each, and another event that is added
between the pages. -/
def twoPages : Operation Bool := do
  let _ ← EventSet.add Bucket.firstEvent
  let _ ← EventSet.add ((Event.new 1709647200001).withProperty "level" "error")
  let ready ← isReady
  let first ← query "level = \"error\"" ⟨⟨1709647200, 0⟩, ⟨1709650799, 0⟩⟩ .start
  let _ ← EventSet.add (Event.new 1709647200002)
  let stillReady ← isReady
  let last ← query "level = \"error\"" ⟨⟨1709647200, 0⟩, ⟨1709650799, 0⟩⟩ first.next
  return ready && stillReady && first.next != .start && last.next == .start

end Page

end EventStore
