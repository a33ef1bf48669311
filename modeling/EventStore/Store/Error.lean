/-!
# Why a store refuses a call
-/

namespace EventStore

inductive StoreError
  | io (text : String)
  | serialization (text : String)
  | compression (text : String)
  | corruption (text : String)
  | mapNotFound (name : String)
  | invalidMapName (name : String)
  | unavailable (text : String)
  | lock (text : String)
  deriving DecidableEq, Repr

def StoreError.message : StoreError → String
  | .io s => s!"IO error: {s}"
  | .serialization s => s!"Serialization error: {s}"
  | .compression s => s!"Compression error: {s}"
  | .corruption s => s!"Corrupt data: {s}"
  | .mapNotFound s => s!"Map not found: {s}"
  | .invalidMapName s => s!"Invalid map name: {s}"
  | .unavailable s => s!"Store unavailable: {s}"
  | .lock s => s!"Lock error: {s}"

end EventStore
