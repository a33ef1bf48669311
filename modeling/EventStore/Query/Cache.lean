import EventStore.Query.Compiler

/-!
# Compiled queries kept for a while

The cache keeps the criteria of the queries used last, for a limited time. It is bounded, the query
unused for longest goes first, and failures are never kept.
-/

namespace EventStore.Query

structure CacheEntry where
  query : String
  criteria : Criteria
  /-- Milliseconds on the caller's clock. -/
  storedAt : Nat

/-- `entries` runs from the one used last to the one used longest ago. -/
structure Cache where
  /-- Milliseconds for which an entry holds. -/
  ttl : Nat
  capacity : Nat
  entries : List CacheEntry
  hits : Nat
  misses : Nat

structure CacheStats where
  hits : Nat
  misses : Nat
  entries : Nat
  deriving DecidableEq, Repr

namespace Cache

/-- At least one entry fits. -/
def new (ttl maxEntries : Nat) : Cache := ⟨ttl, max 1 maxEntries, [], 0, 0⟩

/-- Ten minutes and 1024 entries. -/
def standard : Cache := new 600000 1024

def isExpired (c : Cache) (now : Nat) (e : CacheEntry) : Bool := c.ttl ≤ now - e.storedAt

def find? (c : Cache) (query : String) : Option CacheEntry := c.entries.find? (·.query == query)

def without (query : String) (entries : List CacheEntry) : List CacheEntry :=
  entries.filter (·.query != query)

/-- Looks a query up. A hit makes it the one used last; an entry past its time is dropped and counts as
a miss. -/
def get (c : Cache) (now : Nat) (query : String) : Option Criteria × Cache :=
  match c.find? query with
  | some e =>
    if c.isExpired now e then
      (none, { c with entries := without query c.entries, misses := c.misses + 1 })
    else
      (some e.criteria, { c with entries := e :: without query c.entries, hits := c.hits + 1 })
  | none => (none, { c with misses := c.misses + 1 })

def insert (c : Cache) (now : Nat) (query : String) (criteria : Criteria) : Cache :=
  { c with entries := (⟨query, criteria, now⟩ :: without query c.entries).take c.capacity }

def getOrCompile (c : Cache) (now : Nat) (query : String) : Except QueryError Criteria × Cache :=
  match c.get now query with
  | (some criteria, c') => (.ok criteria, c')
  | (none, c') =>
    match compile query with
    | .ok criteria => (.ok criteria, c'.insert now query criteria)
    | .error e => (.error e, c')

/-- Drops what is past its time, and says how many that were. -/
def purgeExpired (c : Cache) (now : Nat) : Nat × Cache :=
  let (old, kept) := c.entries.partition (c.isExpired now)
  (old.length, { c with entries := kept })

def clear (c : Cache) : Cache := { c with entries := [] }

def size (c : Cache) : Nat := c.entries.length

def stats (c : Cache) : CacheStats := ⟨c.hits, c.misses, c.size⟩

theorem capacity_new_pos (ttl n : Nat) : 0 < (new ttl n).capacity := by
  show 0 < max 1 n
  omega

end Cache

end EventStore.Query
