import EventStore.Engine.EventSet

/-!
# Pages

A query answered page by page. A page comes with the token of the next one: the place after its last
event by bucket and id. Within a page events are ordered by time.
-/

namespace EventStore

open Operation

structure Page where
  events : List Event
  /-- The start token if there are no more pages. -/
  next : Token

namespace Page

/-- The page made of the first `size` of the events found. -/
def ofFound (size : Nat) (found : List Event) : Page where
  events := (found.take size).mergeSort Event.before
  next :=
    if size < found.length then ((found.take size).getLast?.map Event.token).getD .start else .start

def size : Activity Engine Nat := Activity.observe fun e => max 1 e.settings.pageSize

/-- The page after `token`. One event more than fit tells whether there is another page. -/
def query (text : String) (range : TimeRange) (token : Token) : Operation Page := do
  let n ← size
  return ofFound n (← EventSet.query text range (n + 1) token)

/-- Every event that satisfies a query, page after page. -/
def queryAll (text : String) (range : TimeRange) : Operation (List Event) :=
  ExceptT.mk (Activity.goRound (fun (token, found) => do
    match ← (query text range token).run with
    | .error p => return .inr (.error p)
    | .ok page =>
      let found := found ++ page.events
      if page.next.isStart then return .inr (.ok found) else return .inl (page.next, found))
    (Token.start, []))

end Page

/-- A page for a caller that is told of errors in the answer. -/
structure Answer where
  events : List Event
  /-- Zero on the last page. -/
  token : Nat
  error : Option String

namespace Answer

def query (text : String) (range : TimeRange) (token : Nat) : Activity Engine Answer := do
  match ← (Page.query text range (.ofValue token)).run with
  | .ok page => return ⟨page.events, page.next.value, none⟩
  | .error p => return ⟨[], 0, some p.message⟩

/-- How many events satisfy a query; none, if it fails. -/
def count (text : String) (range : TimeRange) : Activity Engine Nat := do
  match ← (EventSet.count text range).run with
  | .ok n => return n
  | .error _ => return 0

end Answer

end EventStore
