import EventStore.Bytes.LittleEndian

/-!
# Checksums

CRC-32 in its usual form: lowest bit first, begun and ended with all bits inverted. A step is linear and
loses nothing, so two texts of one length that differ in a single byte have different checksums.
-/

namespace EventStore.Bytes

def polynomial : BitVec 32 := 0xedb88320

def bitStep (r : BitVec 32) : BitVec 32 :=
  if r.getLsbD 0 then (r >>> 1) ^^^ polynomial else r >>> 1

def byteStep (r : BitVec 32) (b : UInt8) : BitVec 32 :=
  Nat.repeat bitStep 8 (r ^^^ b.toBitVec.zeroExtend 32)

def checksum (s : Bytes) : BitVec 32 := ~~~ s.foldl byteStep (BitVec.allOnes 32)

theorem checksum_append (s t : Bytes) :
    checksum (s ++ t) = ~~~ t.foldl byteStep (~~~ checksum s) := by
  simp [checksum, List.foldl_append]

end EventStore.Bytes
