import JsonQuery.Path.Grammar
import JsonQuery.Notice

/-!
A cache of parsed queries by their text. It never holds more queries than its capacity: a new one
that would exceed it drives all the others out.
-/

namespace JsonQuery

structure QueryCache where
  capacity : Nat
  entries : List (String × Query)

namespace QueryCache

def empty (capacity : Nat) : QueryCache := ⟨capacity, []⟩

def size (cache : QueryCache) : Nat :=
  cache.entries.length

def isEmpty (cache : QueryCache) : Bool :=
  cache.entries.isEmpty

def clear (cache : QueryCache) : QueryCache :=
  { cache with entries := [] }

def find? (cache : QueryCache) (path : String) : Option Query :=
  cache.entries.lookup path

def add (cache : QueryCache) (path : String) (query : Query) : QueryCache × List Notice :=
  if cache.capacity = 0 then (cache, [])
  else if cache.capacity ≤ cache.size then
    ({ cache with entries := [(path, query)] }, [.cacheMiss path, .cacheFull cache.size])
  else
    ({ cache with entries := (path, query) :: cache.entries }, [.cacheMiss path])

/-- The query that a path spells, from the cache if it is there. A path that is refused leaves
the cache as it is. -/
def get (cache : QueryCache) (path : String) :
    Except QueryError Query × QueryCache × List Notice :=
  match cache.find? path with
  | some query => (.ok query, cache, [])
  | none =>
    match Query.parse path with
    | .ok query => (.ok query, cache.add path query)
    | .error error => (.error error, cache, [])

end QueryCache

end JsonQuery
