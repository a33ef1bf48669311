import EventStore.Bytes.Block
import EventStore.Bytes.Checksum
import EventStore.Event.Binary
import EventStore.Store.Transaction

/-!
# Frames

The unit in which a log grows: the length of a payload, the payload and a checksum of both. The payload
is the compressed binary form of the records of one transaction. A frame that is cut off or damaged is
not read as anything.
-/

namespace EventStore

namespace Binary

def record : Record → Bytes
  | .set k v => Bytes.littleEndian 4 0 ++ block k ++ block v
  | .remove k => Bytes.littleEndian 4 1 ++ block k

def records (rs : List Record) : Bytes := count rs.length ++ rs.flatMap record

def takeRecord : Decoder Record := do
  match ← takeNumber 4 with
  | 0 =>
    let k ← takeBlock
    let v ← takeBlock
    return .set k v
  | 1 => return .remove (← takeBlock)
  | _ => failure

def takeRecords : Decoder (List Record) := takeMany takeRecord

end Binary

namespace Frame

/-- The longest payload that is read. -/
def longest : Nat := 64 * 1024 * 1024

def sealed (length payload : Bytes) : Bytes :=
  Bytes.littleEndian 4 (Bytes.checksum (length ++ payload)).toNat

def encode (rs : List Record) : Bytes :=
  let payload := Block.compress (Binary.records rs)
  let length := Bytes.littleEndian 4 payload.length
  length ++ payload ++ sealed length payload

inductive Problem
  | cutOff
  | tooLong (length : Nat)
  | badChecksum
  | badBlock (p : Block.Problem)
  | badRecords
  deriving DecidableEq, Repr

/-- The payload of the frame in front, expanded, and the length of the frame. -/
def payload (s : Bytes) : Except Problem (Bytes × Nat) :=
  match Bytes.split? 4 s with
  | none => .error .cutOff
  | some (length, rest) =>
    let n := length.number
    if longest < n then .error (.tooLong n)
    else
      match Bytes.split? n rest with
      | none => .error .cutOff
      | some (payload, rest) =>
        match Bytes.split? 4 rest with
        | none => .error .cutOff
        | some (mark, _) =>
          if mark = sealed length payload then
            match Block.decompress payload with
            | .ok content => .ok (content, n + 8)
            | .error p => .error (.badBlock p)
          else .error .badChecksum

/-- The records of the frame in front, and the length of the frame. -/
def decode (s : Bytes) : Except Problem (List Record × Nat) :=
  match payload s with
  | .error p => .error p
  | .ok (content, n) =>
    match Binary.takeRecords.run content with
    | some (rs, _) => .ok (rs, n)
    | none => .error .badRecords

theorem length_of_split? {n : Nat} {s front rest : Bytes} (h : Bytes.split? n s = some (front, rest)) :
    front.length = n ∧ s.length = n + rest.length := by
  simp only [Bytes.split?, List.splitAt_eq, Option.ite_none_right_eq_some, Option.some.injEq,
    Prod.mk.injEq] at h
  obtain ⟨hn, rfl, rfl⟩ := h
  simp
  omega

theorem size_of_payload {s content : Bytes} {n : Nat} (h : payload s = .ok (content, n)) :
    8 ≤ n ∧ n ≤ s.length := by
  unfold payload at h
  split at h
  · cases h
  · next length rest h₁ =>
    have := length_of_split? h₁
    simp only at h
    split at h
    · cases h
    · split at h
      · cases h
      · next payload rest h₂ =>
        have := length_of_split? h₂
        split at h
        · cases h
        · next mark rest h₃ =>
          have := length_of_split? h₃
          split at h
          · split at h
            · cases h
              omega
            · cases h
          · cases h

/-- A frame that is read takes eight bytes at least, and no more than there are. -/
theorem size_of_decode {s : Bytes} {rs : List Record} {n : Nat} (h : decode s = .ok (rs, n)) :
    8 ≤ n ∧ n ≤ s.length := by
  unfold decode at h
  split at h
  · cases h
  · next content n h₁ =>
    split at h
    · cases h
      exact size_of_payload h₁
    · cases h

-- ---- logs ----------------------------------------------------------------

/-- Applies the frames in front of `s`, up to the first that cannot be read. The answer has the length of
what was read added to `offset`. -/
def replayFrom (offset : Nat) (entries : Entries) (s : Bytes) : Entries × Nat :=
  match h : decode s with
  | .error _ => (entries, offset)
  | .ok (rs, n) =>
    have := size_of_decode h
    replayFrom (offset + n) (Record.applyAll entries rs) (s.drop n)
termination_by s.length
decreasing_by
  simp only [List.length_drop]
  omega

/-- What is in the frames in front of `s`, whatever their checksums say, up to one that is cut off. -/
def salvage (s : Bytes) : Except Block.Problem (List Bytes) :=
  match h₁ : Bytes.split? 4 s with
  | none => .ok []
  | some (length, rest) =>
    match h₂ : Bytes.split? length.number rest with
    | none => .ok []
    | some (payload, rest) =>
      match h₃ : Bytes.split? 4 rest with
      | none => .ok []
      | some (_, rest) =>
        have := (length_of_split? h₁).2
        have := (length_of_split? h₂).2
        have := (length_of_split? h₃).2
        (Block.decompress payload).bind fun content => (salvage rest).map (content :: ·)
termination_by s.length

/-- What a log holds, and how much of it is readable. -/
def replay (s : Bytes) : Entries × Nat := replayFrom 0 ∅ s

end Frame

end EventStore
