import EventStore.Bytes.LittleEndian

/-!
# Compressed blocks

Blocks in the LZ4 format: runs of literal bytes, each followed by a copy of bytes already produced, and at
the end a run without a copy. Any such block can be expanded; a block that is written here is one run of
literals. In front of a block stands the size that it expands to at most.
-/

namespace EventStore.Block

-- ---- lengths -------------------------------------------------------------

/-- What a length of 15 or more adds to the four bits in the block's token. -/
def lengthTail (n : Nat) : Bytes :=
  if n < 255 then [UInt8.ofNat n] else 255 :: lengthTail (n - 255)

/-- Why a block cannot be expanded. -/
inductive Problem
  | missingByte
  | missingLiterals
  /-- `needed` bytes, where `most` were said to be the most. -/
  | tooLarge (most needed : Nat)
  | zeroOffset
  /-- A copy from in front of the first byte. -/
  | farOffset
  deriving DecidableEq, Repr

def Problem.message : Problem → String
  | missingByte => "expected another byte, found none"
  | missingLiterals => "literal is out of bounds of the input"
  | tooLarge most needed => "provided output is too small for the decompressed data, " ++
      s!"actual {most}, expected {needed}"
  | zeroOffset => "0 is not a valid match offset"
  | farOffset => "the offset to copy is not contained in the decompressed buffer"

/-- Adds further bytes to a length, up to the first that is not 255. -/
def takeLength (n : Nat) : Bytes → Except Problem (Nat × Bytes)
  | [] => .error .missingByte
  | b :: rest => if b = 255 then takeLength (n + 255) rest else .ok (n + b.toNat, rest)

/-- The length that four bits of a token stand for, and what follows it. -/
def takeShortLength (bits : Nat) (s : Bytes) : Except Problem (Nat × Bytes) :=
  if bits = 15 then takeLength 15 s else .ok (bits, s)

-- ---- writing -------------------------------------------------------------

def literals (s : Bytes) : Bytes :=
  if s.length < 15 then UInt8.ofNat (s.length * 16) :: s
  else 240 :: lengthTail (s.length - 15) ++ s

/-- The block of `s` with the size of `s` in front. -/
def compress (s : Bytes) : Bytes := Bytes.littleEndian 4 s.length ++ literals s

-- ---- reading -------------------------------------------------------------

/-- Bytes produced so far, the latest first, with their count and the most there may be. -/
structure Output where
  bytes : Bytes
  count : Nat
  most : Nat

namespace Output

/-- Makes sure that there may be `n` bytes more. -/
def checkRoom (o : Output) (n : Nat) : Except Problem Unit :=
  if o.count + n ≤ o.most then .ok () else .error (.tooLarge o.most (o.count + n))

def push (o : Output) (s : Bytes) : Except Problem Output := do
  o.checkRoom s.length
  return { o with bytes := s.reverse ++ o.bytes, count := o.count + s.length }

def copyBytes (offset : Nat) : Nat → Bytes → Bytes
  | 0, bytes => bytes
  | n + 1, bytes => copyBytes offset n (bytes.getD (offset - 1) 0 :: bytes)

/-- Appends `n` bytes, each the one that stands `offset` before it. -/
def copy (o : Output) (offset n : Nat) : Except Problem Output := do
  o.checkRoom n
  if o.count < offset then .error .farOffset
  else return { o with bytes := copyBytes offset n o.bytes, count := o.count + n }

end Output

def takeLiterals (n : Nat) (s : Bytes) : Except Problem (Bytes × Bytes) :=
  match Bytes.split? n s with
  | some parts => .ok parts
  | none => .error .missingLiterals

def takeOffset (s : Bytes) : Except Problem (Nat × Bytes) :=
  match Bytes.takeNumber? 2 s with
  | some (0, _) => .error .zeroOffset
  | some parts => .ok parts
  | none => .error .missingByte

/-- A token, the literals after it and then, unless the block ends there, a copy. -/
def step (token : Nat) (s : Bytes) (o : Output) : Except Problem (Bytes × Output × Bool) := do
  let (n, s) ← takeShortLength (token / 16) s
  let (run, s) ← takeLiterals n s
  let o ← o.push run
  if s.isEmpty then return (s, o, true)
  else
    let (offset, s) ← takeOffset s
    let (n, s) ← takeShortLength (token % 16) s
    let o ← o.copy offset (n + 4)
    return (s, o, false)

/-- Expands with at most `fuel` steps; every step uses up a token. -/
def expand : (fuel : Nat) → Bytes → Output → Except Problem Bytes
  | 0, _, _ => .error .missingByte
  | _, [], _ => .error .missingByte
  | fuel + 1, token :: s, o =>
    match step token.toNat s o with
    | .error p => .error p
    | .ok (_, o, true) => .ok o.bytes.reverse
    | .ok (s, o, false) => expand fuel s o

/-- Inverts `compress`, and expands other blocks of the format too. The size in front may be too large. -/
def decompress (s : Bytes) : Except Problem Bytes :=
  match Bytes.takeNumber? 4 s with
  | some (most, block) => expand block.length block ⟨[], 0, most⟩
  | none => .error .missingByte

-- ---- a block written here is read back -----------------------------------

theorem takeLength_lengthTail (n k : Nat) (rest : Bytes) :
    takeLength k (lengthTail n ++ rest) = .ok (k + n, rest) := by
  induction n using Nat.strongRecOn generalizing k with
  | _ n ih =>
    rw [lengthTail]
    split
    · next h =>
      have hn : (UInt8.ofNat n).toNat = n := Bytes.toNat_ofNat (by omega)
      have hne : UInt8.ofNat n ≠ 255 := fun e => by
        rw [e] at hn
        exact absurd hn (by change 255 ≠ n; omega)
      rw [List.singleton_append, takeLength, if_neg hne, hn]
    · next h =>
      rw [List.cons_append, takeLength, if_pos rfl, ih (n - 255) (by omega),
        show k + 255 + (n - 255) = k + n by omega]

/-- A step over literals that end the block. -/
theorem step_last {token : Nat} {s run : Bytes} {most : Nat}
    (ht : takeShortLength (token / 16) s = .ok (run.length, run)) (h : run.length ≤ most) :
    step token s ⟨[], 0, most⟩ = .ok ([], ⟨run.reverse, run.length, most⟩, true) := by
  have hsplit : takeLiterals run.length run = .ok (run, []) := by
    have := Bytes.split?_append run []
    rw [List.append_nil] at this
    rw [takeLiterals, this]
  simp [step, ht, hsplit, Output.push, Output.checkRoom, h, bind, Except.bind, pure, Except.pure]

theorem expand_literals {s : Bytes} {most : Nat} (h : s.length ≤ most) (fuel : Nat) :
    expand (fuel + 1) (literals s) ⟨[], 0, most⟩ = .ok s := by
  unfold literals
  split
  · next hs =>
    have ht : takeShortLength ((UInt8.ofNat (s.length * 16)).toNat / 16) s = .ok (s.length, s) := by
      rw [Bytes.toNat_ofNat (by omega), Nat.mul_div_cancel _ (by decide), takeShortLength,
        if_neg (by omega)]
    rw [expand, step_last ht h]
    simp
  · next hs =>
    have ht : takeShortLength ((240 : UInt8).toNat / 16) (lengthTail (s.length - 15) ++ s) =
        .ok (s.length, s) := by
      rw [takeShortLength, if_pos (by decide), takeLength_lengthTail,
        show 15 + (s.length - 15) = s.length by omega]
    rw [List.cons_append, expand, step_last ht h]
    simp

theorem decompress_compress {s : Bytes} (h : s.length < Bytes.room 4) : decompress (compress s) = .ok s := by
  unfold decompress compress
  rw [Bytes.takeNumber?_littleEndian_append h]
  have hl : ∃ n, (literals s).length = n + 1 := by
    unfold literals
    split <;> exact ⟨_, rfl⟩
  obtain ⟨n, hn⟩ := hl
  simp only [hn]
  exact expand_literals (Nat.le_refl _) n

end EventStore.Block
