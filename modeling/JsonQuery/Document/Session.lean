import JsonQuery.Document.Cache
import JsonQuery.Document.Limits

/-!
What documents share: settings, a cache of parsed queries, and the notices given so far.
-/

namespace JsonQuery

structure Settings where
  limits : Limits
  functions : Registry
  cache : QueryCache

namespace Settings

def standard : Settings where
  limits := Limits.standard
  functions := Registry.builtIn
  cache := QueryCache.empty Limits.standard.cacheCapacity

/-- Sets the limits. The cache begins anew with the capacity that they give. -/
def withLimits (settings : Settings) (limits : Limits) : Settings :=
  { settings with limits, cache := QueryCache.empty limits.cacheCapacity }

def withMaxDepth (settings : Settings) (maxDepth : Nat) : Settings :=
  { settings with limits := { settings.limits with maxDepth } }

def withFunctions (settings : Settings) (functions : Registry) : Settings :=
  { settings with functions }

def withCache (settings : Settings) (cache : QueryCache) : Settings :=
  { settings with cache }

def context (settings : Settings) : Context where
  functions := settings.functions
  maxDepth := settings.limits.maxDepth

end Settings

structure Session where
  settings : Settings
  notices : List Notice

abbrev Shared := StateM Session

namespace Session

def start (settings : Settings) : Session := ⟨settings, []⟩

def give (notices : List Notice) : Shared Unit :=
  modify fun session => { session with notices := session.notices ++ notices }

def context : Shared Context := do
  return (← get).settings.context

def answer (traced : Traced α) : Shared (Except QueryError α) := do
  give traced.notices
  return traced.outcome

def query (path : String) : Shared (Except QueryError Query) := do
  let session ← get
  let (query, cache, notices) := session.settings.cache.get path
  set { session with settings := session.settings.withCache cache }
  give notices
  return query

def clearCache : Shared Unit :=
  modify fun session =>
    { session with settings := session.settings.withCache session.settings.cache.clear }

end Session

end JsonQuery
