import JsonQuery.Proofs.Document.Answers

/-!
The cache of parsed queries does not show in answers: what it holds for a path is what the path
spells, however the cache came about.
-/

namespace JsonQuery

namespace QueryCache

/-- Every query in the cache is the one that its path spells. -/
def Faithful (cache : QueryCache) : Prop :=
  ∀ entry ∈ cache.entries, Query.parse entry.1 = .ok entry.2

theorem faithful_empty (capacity : Nat) : (empty capacity).Faithful := List.forall_mem_nil _

namespace Faithful

variable {cache : QueryCache} {path : String} {query : Query}

theorem find? (faithful : cache.Faithful) (found : cache.find? path = some query) :
    Query.parse path = .ok query := by
  rw [QueryCache.find?, List.lookup_eq_some_iff] at found
  rcases found with ⟨before, after, split, _⟩
  exact faithful (path, query) (split ▸ List.mem_append_right before List.mem_cons_self)

theorem add (faithful : cache.Faithful) (parsed : Query.parse path = .ok query) :
    (cache.add path query).1.Faithful := by
  unfold QueryCache.add
  split
  · exact faithful
  · split
    · exact List.forall_mem_singleton.mpr parsed
    · exact List.forall_mem_cons.mpr ⟨parsed, faithful⟩

/-- A look-up answers with what the path spells, and leaves a cache of the same kind. -/
theorem get (faithful : cache.Faithful) (path : String) :
    (cache.get path).1 = Query.parse path ∧ (cache.get path).2.1.Faithful := by
  unfold QueryCache.get
  split
  next query found => exact ⟨(faithful.find? found).symm, faithful⟩
  next =>
    split
    next query parsed => exact ⟨parsed.symm, faithful.add parsed⟩
    next error refused => exact ⟨refused.symm, faithful⟩

end Faithful

end QueryCache

namespace Settings

theorem query_eq_parse {settings : Settings} (faithful : settings.cache.Faithful) (path : String) :
    settings.query path = Query.parse path :=
  (faithful.get path).1

theorem faithful_looked {settings : Settings} (faithful : settings.cache.Faithful)
    (path : String) : (settings.looked path).cache.Faithful :=
  (faithful.get path).2

theorem way_eq_ok {settings : Settings} (faithful : settings.cache.Faithful) {path : String}
    {segments : List Segment} (spelled : settings.way path = .ok segments) :
    ∃ query, Query.parse path = .ok query ∧ query.directSegments? = some segments := by
  rw [way, query_eq_parse faithful] at spelled
  split at spelled
  next => cases spelled
  next query parsed =>
    split at spelled
    next found isDirect =>
      cases spelled
      exact ⟨query, parsed, isDirect⟩
    next => cases spelled

end Settings

end JsonQuery
