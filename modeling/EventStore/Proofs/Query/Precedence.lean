import EventStore.Proofs.Query.Refusal

/-!
# The compiler reads calls by precedence

A compiler that hears calls knows nothing of the expression they come from. `Phrase` is the grammar
of the sequences of calls that make sense, and `Level.Reads` says what they mean: an `and` binds
more tightly than an `or`, and operators of one kind are read from the left. A fresh compiler
accepts the sequences of the grammar and no others, and comes to what they mean
(`Compiler.accepts_iff_derives`).
-/

namespace EventStore.Query

-- ---- the grammar ---------------------------------------------------------

inductive Phrase
  | term
  | chain

/-- A term is a comparison of leaves, or a chain between the two ends of a group. A chain is terms
with `and` or `or` between them. -/
inductive Phrase.Derives : Phrase → List Call → Prop
  | comparison {op l r} (ho : op.isComparison = true) (hl : l.isLeaf = true)
    (hr : r.isLeaf = true) : Derives .term [.comparison op l r]
  | group {calls} (h : Derives .chain calls) : Derives .term (.enter :: calls ++ [.exit])
  | one {calls} (h : Derives .term calls) : Derives .chain calls
  | more {left op right} (hl : Derives .chain left) (ho : op.isLogical = true)
    (hr : Derives .term right) : Derives .chain (left ++ .logical op :: right)

/-- What stands between two `and`, between two `or`, and between the two ends of a group. -/
inductive Level
  | operand
  | conjunction
  | disjunction

/-- What calls mean. The left side of an operator may hold operators of its own kind, the right side
only tighter ones. -/
inductive Level.Reads : Level → List Call → Criteria → Prop
  | comparison {op l r c} (ho : op.isComparison = true) (h : (Expr.binary op l r).Denotes c) :
    Reads .operand [.comparison op l r] c
  | group {calls c} (h : Reads .disjunction calls c) : Reads .operand (.enter :: calls ++ [.exit]) c
  | factor {calls c} (h : Reads .operand calls c) : Reads .conjunction calls c
  | and {left right a b} (hl : Reads .conjunction left a) (hr : Reads .operand right b) :
    Reads .conjunction (left ++ .logical .and :: right) (.and a b)
  | alternative {calls c} (h : Reads .conjunction calls c) : Reads .disjunction calls c
  | or {left right a b} (hl : Reads .disjunction left a) (hr : Reads .conjunction right b) :
    Reads .disjunction (left ++ .logical .or :: right) (.or a b)

section

variable {calls left right : List Call} {op : Op} {c a b : Criteria}

theorem Expr.Denotes.operands {l r : Expr} (h : (binary op l r).Denotes c)
    (ho : op.isComparison = true) :
    (∃ s, l.operandText? = some s) ∧ ∃ s, r.operandText? = some s := by
  cases h with
  | equal hl hr | notEqual hl hr => exact ⟨⟨_, hl⟩, _, hr⟩
  | and | or => cases ho

theorem comparison_eq_ok_iff {l r : Expr} :
    Compiler.comparison op l r = .ok c ↔
      op.isComparison = true ∧ (Expr.binary op l r).Denotes c := by
  rw [← Expr.compile_eq_ok_iff, Expr.compile_eq_lower]
  cases op with
  | equal | notEqual => simp [Op.isComparison, Expr.lower]
  | and | or =>
    simp only [Compiler.comparison, Op.isComparison]
    split <;> simp

namespace Phrase

def level : Phrase → Level
  | term => .operand
  | chain => .disjunction

theorem Derives.join (hl : chain.Derives left) (ho : op.isLogical = true)
    (hr : chain.Derives right) : chain.Derives (left ++ .logical op :: right) := by
  generalize hp : chain = phrase at hr
  induction hr with
  | comparison | group => cases hp
  | one hr => exact .more hl ho hr
  | more _ ho' hr ih => simpa using Derives.more (ih hp) ho' hr

end Phrase

namespace Level

def phrase : Level → Phrase
  | operand => .term
  | conjunction | disjunction => .chain

theorem Reads.join (hl : disjunction.Reads left a) (hr : operand.Reads right b) :
    ∃ c, disjunction.Reads (left ++ .logical .and :: right) c := by
  cases hl with
  | alternative hl => exact ⟨_, .alternative (.and hl hr)⟩
  | or hll hlr => exact ⟨_, by simpa using Reads.or hll (.and hlr hr)⟩

theorem Reads.derives {level : Level} (h : level.Reads calls c) : level.phrase.Derives calls := by
  induction h with
  | comparison ho h =>
    have ⟨hl, hr⟩ := h.operands ho
    exact .comparison ho (Expr.isLeaf_eq_true_iff.mpr hl) (Expr.isLeaf_eq_true_iff.mpr hr)
  | group _ ih => exact .group ih
  | factor _ ih => exact .one ih
  | and _ _ ihl ihr => exact .more ihl rfl ihr
  | alternative _ ih => exact ih
  | or _ _ ihl ihr => exact ihl.join rfl ihr

end Level

theorem Phrase.Derives.exists_reads {phrase : Phrase} (h : phrase.Derives calls) :
    ∃ c, phrase.level.Reads calls c := by
  induction h with
  | comparison ho hl hr =>
    obtain ⟨c, hc⟩ := Expr.exists_denotes_of_comparison ho (Expr.IsCondition.offence? ⟨ho, hl, hr⟩)
    exact ⟨c, .comparison ho hc⟩
  | group _ ih => exact ih.imp fun _ => .group
  | one _ ih => exact ih.imp fun _ h => .alternative (.factor h)
  | @more left op right _ ho _ ihl ihr =>
    obtain ⟨a, ha⟩ := ihl
    obtain ⟨b, hb⟩ := ihr
    cases op with
    | equal | notEqual => cases ho
    | and => exact ha.join hb
    | or => exact ⟨_, .or ha (.factor hb)⟩

end

-- ---- one group -----------------------------------------------------------

/-- The calls are those of a group so far, and an alternative comes next. -/
inductive Frame.Begins : Frame → List Call → Prop
  | empty : Begins .empty []
  | or {calls a} (h : Level.disjunction.Reads calls a) :
    Begins ⟨[a], [.or]⟩ (calls ++ [.logical .or])

/-- The calls are those of a group so far, and an operand comes next. -/
inductive Frame.Waits : Frame → List Call → Prop
  | alternative {f before} (h : Begins f before) : Waits f before
  | and {f before calls a} (h : Begins f before) (ha : Level.conjunction.Reads calls a) :
    Waits ⟨a :: f.operands, .and :: f.operators⟩ (before ++ (calls ++ [.logical .and]))

/-- The calls are those of a group so far. -/
inductive Frame.Hears : Frame → List Call → Prop
  | waits {f calls} (h : Waits f calls) : Hears f calls
  | complete {f before calls c} (h : Waits f before) (hc : Level.operand.Reads calls c) :
    Hears ⟨c :: f.operands, f.operators⟩ (before ++ calls)

namespace Frame

variable {f g : Frame} {before calls : List Call} {op : Op} {c : Criteria}

theorem Begins.balanced (h : f.Begins calls) : f.operands.length = f.operators.length := by
  cases h <;> rfl

theorem Waits.balanced (h : f.Waits calls) : f.operands.length = f.operators.length := by
  cases h with
  | alternative h => exact h.balanced
  | and h => simp [h.balanced]

/-- Operators as loose as `or` end all that is there. -/
theorem Begins.reduce_all (h : f.Begins before) (hc : Level.conjunction.Reads calls c)
    (hs : s ≤ 1) : ∃ d, reduceWhile s f.operators (c :: f.operands) = .ok ⟨[d], []⟩ ∧
      Level.disjunction.Reads (before ++ calls) d := by
  cases h with
  | empty => exact ⟨c, rfl, .alternative hc⟩
  | @or before a h =>
    refine ⟨.or a c, ?_, by simpa using Level.Reads.or h hc⟩
    simp [reduceWhile, Op.precedence, Nat.not_lt.mpr hs, combine]

theorem Waits.reduce_alternative (h : f.Waits before) (hc : Level.operand.Reads calls c) :
    ∃ (g : Frame) (front last : List Call) (d : Criteria), g.Begins front ∧
      Level.conjunction.Reads last d ∧ before ++ calls = front ++ last ∧
      ∀ s ≤ 2, reduceWhile s f.operators (c :: f.operands) =
        reduceWhile s g.operators (d :: g.operands) := by
  cases h with
  | alternative h => exact ⟨f, before, calls, c, h, .factor hc, rfl, fun _ _ => rfl⟩
  | @and g front left a h ha =>
    refine ⟨g, front, _, .and a c, h, .and ha hc, by simp, fun s hs => ?_⟩
    simp [reduceWhile, Op.precedence, Nat.not_lt.mpr hs, combine]

theorem Waits.finish_ne_ok (h : f.Waits calls) : f.finish ≠ .ok c := by
  cases h with
  | alternative h => cases h <;> simp [finish, reduceWhile, combine, empty, Op.precedence]
  | and h => cases h <;> simp [finish, reduceWhile, combine, empty, Op.precedence]

theorem Hears.reads (h : f.Hears calls) (hf : f.finish = .ok c) :
    Level.disjunction.Reads calls c := by
  cases h with
  | waits h => exact absurd hf h.finish_ne_ok
  | complete h hc =>
    obtain ⟨f', front, last, d, hf', hd, hcalls, hr⟩ := h.reduce_alternative hc
    obtain ⟨e, he, hreads⟩ := hf'.reduce_all hd (Nat.zero_le 1)
    have : c = e := by simpa [finish, hr 0 (Nat.zero_le 2), he] using hf.symm
    rw [this, hcalls]
    exact hreads

theorem Hears.pushOperand (h : f.Hears before) (hc : Level.operand.Reads calls c)
    (hp : f.pushOperand c = (g, none)) : g.Hears (before ++ calls) := by
  cases h with
  | waits h =>
    rw [Frame.pushOperand, if_pos h.balanced] at hp
    cases hp
    exact .complete h hc
  | complete h =>
    simp [Frame.pushOperand, h.balanced] at hp

theorem Hears.pushOperator (h : f.Hears calls) (ho : op.isLogical = true)
    (hp : f.pushOperator op = (g, none)) : g.Hears (calls ++ [.logical op]) := by
  cases h with
  | waits h => simp [Frame.pushOperator, h.balanced] at hp
  | @complete f front calls c h hc =>
    obtain ⟨f', front, last, d, hf, hd, hcalls, hr⟩ := h.reduce_alternative hc
    rw [hcalls]
    cases op with
    | equal | notEqual => cases ho
    | and =>
      have hstay : reduceWhile 2 f'.operators (d :: f'.operands) =
          .ok ⟨d :: f'.operands, f'.operators⟩ :=
        reduceWhile_of_looser (by cases hf <;> simp [empty, Op.precedence])
      have hpush : Frame.pushOperator ⟨c :: f.operands, f.operators⟩ .and =
          (⟨d :: f'.operands, .and :: f'.operators⟩, none) := by
        simp [Frame.pushOperator, h.balanced, Op.precedence, hr 2 (Nat.le_refl 2), hstay]
      cases hpush.symm.trans hp
      simpa using Hears.waits (.and hf hd)
    | or =>
      obtain ⟨e, he, hreads⟩ := hf.reduce_all hd (Nat.le_refl 1)
      have hpush : Frame.pushOperator ⟨c :: f.operands, f.operators⟩ .or =
          (⟨[e], [.or]⟩, none) := by
        simp [Frame.pushOperator, h.balanced, Op.precedence, hr 1 (by decide), he]
      cases hpush.symm.trans hp
      exact .waits (.alternative (.or hreads))

end Frame

-- ---- all open groups -----------------------------------------------------

namespace Compiler

/-- The calls so far: those of every open group, the ones in front of its beginning first. -/
inductive Hears : Compiler → List Call → Prop
  | outermost {f calls} (h : f.Hears calls) : Hears ⟨f, []⟩ calls
  | inner {f g outer before calls} (ho : Hears ⟨g, outer⟩ before) (h : f.Hears calls) :
    Hears ⟨f, g :: outer⟩ (before ++ .enter :: calls)

variable {k k' : Compiler} {calls rest : List Call} {call : Call} {c : Criteria}

theorem hears_fresh : fresh.Hears [] := .outermost (.waits (.alternative .empty))

theorem Hears.onCurrent {step : Frame → Frame × Option CompileProblem}
    (h : k.Hears calls) (hk : k.onCurrent step = (k', none))
    (hstep : ∀ g before, k.current.Hears before → step k.current = (g, none) →
      g.Hears (before ++ rest)) : k'.Hears (calls ++ rest) := by
  obtain ⟨f, outer⟩ := k
  simp only [Compiler.onCurrent, Prod.mk.injEq] at hk
  obtain ⟨rfl, hnone⟩ := hk
  have hs (before) (h : f.Hears before) := hstep _ before h (Prod.ext rfl hnone)
  cases h with
  | outermost h => exact .outermost (hs _ h)
  | inner ho h => simpa using Hears.inner ho (hs _ h)

theorem Hears.exit {f g : Frame} {outer : List Frame} (h : Hears ⟨f, g :: outer⟩ calls)
    (hf : f.finish = .ok c) (hk : Compiler.onCurrent ⟨g, outer⟩ (·.pushOperand c) = (k', none)) :
    k'.Hears (calls ++ [.exit]) := by
  cases h with
  | @inner _ _ _ before calls ho h =>
    have hgroup : Level.operand.Reads (.enter :: calls ++ [.exit]) c := .group (h.reads hf)
    simpa using ho.onCurrent hk fun _ _ hg hp => hg.pushOperand hgroup hp

theorem Hears.hear (h : k.Hears calls) (hk : k.hear call = (k', none)) :
    k'.Hears (calls ++ [call]) := by
  cases call with
  | comparison op l r =>
    simp only [Compiler.hear] at hk
    split at hk
    next c hc =>
      obtain ⟨ho, hd⟩ := comparison_eq_ok_iff.mp hc
      exact h.onCurrent hk fun _ _ hf hp => hf.pushOperand (.comparison ho hd) hp
    · cases hk
  | logical op =>
    simp only [Compiler.hear] at hk
    split at hk
    next ho => exact h.onCurrent hk fun _ _ hf hp => hf.pushOperator ho hp
    · cases hk
  | operand e => cases hk
  | enter =>
    cases hk
    exact .inner h (.waits (.alternative .empty))
  | exit =>
    obtain ⟨f, _ | ⟨g, outer⟩⟩ := k
    · cases hk
    · simp only [Compiler.hear] at hk
      split at hk
      next c hf => exact h.exit hf hk
      · cases hk

theorem Hears.hearAll (h : k.Hears calls) (hk : k.hearAll rest = .ok k') :
    k'.Hears (calls ++ rest) := by
  induction rest generalizing k calls with
  | nil =>
    cases hk
    simpa using h
  | cons call rest ih =>
    rw [Compiler.hearAll] at hk
    split at hk
    next k₁ hcall => simpa using ih (h.hear hcall) hk
    · cases hk

theorem Hears.finish (h : k.Hears calls) (hk : k.finish = .ok c) :
    Level.disjunction.Reads calls c := by
  cases h with
  | outermost h => exact h.reads hk
  | inner => cases hk

end Compiler

/-- How tightly operators must bind that stand beside it. -/
def Level.strength : Level → Nat
  | operand => 3
  | conjunction => 2
  | disjunction => 1

theorem Level.Reads.lowers {level : Level} {calls : List Call} (h : level.Reads calls c) :
    Compiler.Lowers (.ok c) level.strength calls := by
  induction h with
  | comparison ho h =>
    have hc := comparison_eq_ok_iff.mpr ⟨ho, h⟩
    exact hc ▸ Compiler.lowers_comparison _ _ _ _
  | group _ ih => exact ih.group _
  | factor _ ih | alternative _ ih => exact ih.grouped false fun _ => by decide
  | and _ _ ihl ihr =>
    have ho : Op.and.isLogical = true := rfl
    exact Compiler.Lowers.logical .and ho (fun _ _ _ => rfl) ihl ihr
  | or _ _ ihl ihr =>
    have ho : Op.or.isLogical = true := rfl
    exact Compiler.Lowers.logical .or ho (fun _ _ _ => rfl) ihl ihr

namespace Compiler

/-- A fresh compiler takes every call, and at the end it has the condition `c`. -/
def Accepts (calls : List Call) (c : Criteria) : Prop :=
  ∃ k, fresh.hearAll calls = .ok k ∧ k.finish = .ok c

theorem accepts_iff_reads {calls : List Call} {c : Criteria} :
    Accepts calls c ↔ Level.disjunction.Reads calls c := by
  refine ⟨fun ⟨k, hk, hf⟩ => (hears_fresh.hearAll hk).finish hf, fun h => ?_⟩
  obtain ⟨g, hg, hc⟩ := h.lowers .empty [] (Frame.awaits_empty _)
  exact ⟨_, hg, hc.finish⟩

theorem exists_accepts_iff {calls : List Call} :
    (∃ c, Accepts calls c) ↔ Phrase.chain.Derives calls := by
  simp only [accepts_iff_reads]
  exact ⟨fun ⟨_, h⟩ => h.derives, fun h => h.exists_reads⟩

end Compiler

-- ---- depth ---------------------------------------------------------------

/-- Groups that are open after a call. An end without a beginning ends nothing. -/
def Call.openAfter (groups : Nat) : Call → Nat
  | .enter => groups + 1
  | .exit => groups - 1
  | _ => groups

namespace Compiler

variable {k k' : Compiler} {calls : List Call} {call : Call}

theorem depth_hear (k : Compiler) (call : Call) :
    (k.hear call).1.depth = call.openAfter k.depth := by
  cases call with
  | comparison op l r =>
    simp only [hear]
    split <;> rfl
  | logical op =>
    simp only [hear]
    split <;> rfl
  | operand | enter => rfl
  | exit =>
    obtain ⟨f, _ | ⟨g, outer⟩⟩ := k
    · rfl
    · simp only [hear]
      split <;> rfl

theorem depth_foldl_hear (k : Compiler) (calls : List Call) :
    (calls.foldl (fun k call => (k.hear call).1) k).depth = calls.foldl Call.openAfter k.depth := by
  induction calls generalizing k with
  | nil => rfl
  | cons call calls ih => rw [List.foldl_cons, List.foldl_cons, ih, depth_hear]

/-- A call that is taken enters a group, exits one that is open, or does neither. -/
theorem count_hear (h : k.hear call = (k', none)) :
    k'.depth + [call].count .exit = k.depth + [call].count .enter := by
  have hk : k'.depth = call.openAfter k.depth := by simpa [h] using depth_hear k call
  cases call with
  | comparison | logical | operand | enter => simp [hk, Call.openAfter]
  | exit =>
    have hpos : k.depth ≠ 0 := by
      obtain ⟨f, _ | ⟨g, outer⟩⟩ := k
      · cases h
      · simp [depth]
    change k'.depth + 1 = k.depth + 0
    replace hk : k'.depth = k.depth - 1 := hk
    omega

theorem count_hearAll (h : k.hearAll calls = .ok k') :
    k'.depth + calls.count .exit = k.depth + calls.count .enter := by
  induction calls generalizing k with
  | nil =>
    cases h
    rfl
  | cons call calls ih =>
    rw [hearAll] at h
    split at h
    next k₁ hcall =>
      have hstep := count_hear hcall
      have hrest := ih h
      rw [← List.singleton_append, List.count_append, List.count_append]
      omega
    · cases h

/-- A compiler takes a sequence of calls and comes to a condition exactly if the sequence is a chain
of terms, and then to the one that it means with `and` before `or` and from the left. After any
calls, also those that are refused, its depth is the number of groups that are open. -/
theorem accepts_iff_derives (calls : List Call) :
    ((∃ c, Accepts calls c) ↔ Phrase.chain.Derives calls) ∧
    (∀ c, Accepts calls c ↔ Level.disjunction.Reads calls c) ∧
    (calls.foldl (fun k call => (k.hear call).1) fresh).depth = calls.foldl Call.openAfter 0 ∧
    ∀ k, fresh.hearAll calls = .ok k → k.depth + calls.count .exit = calls.count .enter :=
  ⟨exists_accepts_iff, fun _ => accepts_iff_reads, depth_foldl_hear fresh calls,
    fun k hk => by simpa [depth_fresh] using count_hearAll hk⟩

end Compiler

end EventStore.Query
