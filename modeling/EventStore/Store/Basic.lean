import EventStore.Store.Directory
import EventStore.Store.Memory

/-!
# Stores

A store in memory or in a directory, which may be told to refuse some of the calls to it. A call that is
refused does not reach what is stored.
-/

namespace EventStore

/-- A kind of call, to one map or to any. -/
structure Fault where
  kind : Request.Kind
  map : Option String
  deriving DecidableEq, Repr

inductive Backing
  | memory (m : Memory)
  | directory (s : Directory) (d : Disk)

structure Store where
  backing : Backing
  faults : List Fault

namespace Store

def inMemory : Store := ⟨.memory .empty, []⟩

def refuses (s : Store) (r : Request α) : Bool :=
  s.faults.any fun f => f.kind == r.kind && f.map.all (· == r.map)

/-- What a refused call answers. -/
def refusal (kind : Request.Kind) : StoreError := .unavailable ("injected " ++ kind.text)

def Backing.answer (r : Request α) : Backing → Except StoreError α × Backing
  | .memory m =>
    let (a, m) := m.answer r
    (a, .memory m)
  | .directory s d =>
    let (a, s, d) := s.answer (fun _ => .none) r d
    (a, .directory s d)

def answer (r : Request α) (s : Store) : Except StoreError α × Store :=
  if s.refuses r then (.error (refusal r.kind), s)
  else
    let (a, b) := Backing.answer r s.backing
    (a, { s with backing := b })

theorem answer_of_refuses {r : Request α} {s : Store} (h : s.refuses r = true) :
    s.answer r = (.error (refusal r.kind), s) := by
  simp [answer, h]

end Store

end EventStore
