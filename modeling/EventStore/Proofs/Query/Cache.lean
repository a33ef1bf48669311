import EventStore.Query.Cache

/-!
# The cache only remembers

`Cache.Sound`: what the cache holds under a query is what the query compiles to. Looking a query up
answers what compiling it does (`getOrCompile_eq`), and keeps the cache sound.
-/

namespace EventStore.Query.Cache

/-- Entries hold what their queries compile to. -/
def Sound (c : Cache) : Prop := ∀ e ∈ c.entries, compile e.query = .ok e.criteria

theorem sound_new (ttl n : Nat) : (new ttl n).Sound := by simp [Sound, new]

theorem Sound.without (h : Sound c) (query : String) :
    ∀ e ∈ without query c.entries, compile e.query = .ok e.criteria :=
  fun e he => h e (List.mem_filter.mp he).1

theorem Sound.get (h : Sound c) (now : Nat) (query : String) :
    (c.get now query).2.Sound ∧ ∀ criteria, (c.get now query).1 = some criteria →
      compile query = .ok criteria := by
  unfold Cache.get
  split
  · next e he =>
    have hm : e ∈ c.entries := List.mem_of_find?_eq_some he
    have hq : e.query = query := by simpa using List.find?_some he
    split
    · exact ⟨h.without query, by simp⟩
    · refine ⟨fun e' he' => ?_, ?_⟩
      · rcases List.mem_cons.mp he' with rfl | he'
        · exact h _ hm
        · exact h.without query e' he'
      · rintro criteria ⟨⟩
        exact hq ▸ h e hm
  · exact ⟨h, by simp⟩

theorem Sound.insert (h : Sound c) (hq : compile query = .ok criteria) (now : Nat) :
    (c.insert now query criteria).Sound := by
  intro e he
  rcases List.mem_cons.mp (List.mem_of_mem_take he) with rfl | he
  · exact hq
  · exact h.without query e he

/-- Whatever the cache holds, the answer is that of the compiler. -/
theorem Sound.getOrCompile (h : Sound c) (now : Nat) (query : String) :
    (c.getOrCompile now query).1 = compile query ∧ (c.getOrCompile now query).2.Sound := by
  obtain ⟨hs, ha⟩ := h.get now query
  unfold Cache.getOrCompile
  split
  · next criteria c' hg =>
    rw [hg] at hs ha
    exact ⟨(ha criteria rfl).symm, hs⟩
  · next c' hg =>
    rw [hg] at hs
    cases hc : compile query with
    | ok criteria => exact ⟨rfl, hs.insert hc now⟩
    | error p => exact ⟨rfl, hs⟩

end EventStore.Query.Cache
