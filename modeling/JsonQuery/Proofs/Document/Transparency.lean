import JsonQuery.Proofs.Document.Caching
import JsonQuery.Proofs.Document.Workspace

/-!
The cache of parsed queries is bounded, and it does not show. Whatever capacity it has, whatever
others have left in it and whenever it is cleared, every command is answered alike.
-/

namespace JsonQuery

/-! ## What a cache holds -/

namespace QueryCache

/-- What is true of a cache after any uses: it has a query for each of its paths, for none of them
twice, and for no more than its capacity. -/
structure Sound (cache : QueryCache) : Prop where
  faithful : cache.Faithful
  distinct : (cache.entries.map Prod.fst).Nodup
  bounded : cache.size ≤ cache.capacity

theorem sound_empty (capacity : Nat) : (empty capacity).Sound :=
  ⟨faithful_empty capacity, List.nodup_nil, Nat.zero_le capacity⟩

namespace Sound

variable {cache : QueryCache}

theorem add (sound : cache.Sound) {path : String} {query : Query}
    (parsed : Query.parse path = .ok query) (missing : cache.find? path = none) :
    (cache.add path query).1.Sound := by
  refine ⟨sound.faithful.add parsed, ?_, ?_⟩
  · rw [QueryCache.add]
    split
    next => exact sound.distinct
    next =>
      split
      next => exact List.nodup_singleton path
      next =>
        refine List.nodup_cons.mpr ⟨?_, sound.distinct⟩
        intro there
        rcases List.mem_map.mp there with ⟨⟨other, held⟩, inCache, rfl⟩
        have different := List.lookup_eq_none_iff.mp missing _ inCache
        exact bne_iff_ne.mp different rfl
  · rw [QueryCache.add]
    split
    next => exact sound.bounded
    next positive =>
      split
      next => exact Nat.one_le_iff_ne_zero.mpr positive
      next room => exact Nat.lt_of_not_le room

theorem get (sound : cache.Sound) (path : String) : (cache.get path).2.1.Sound := by
  unfold QueryCache.get
  split
  next => exact sound
  next missing =>
    split
    next query parsed => exact sound.add parsed missing
    next => exact sound

theorem after (sound : cache.Sound) (use : Use) : (cache.after use).Sound := by
  cases use with
  | get path => exact sound.get path
  | clear => exact sound_empty cache.capacity

end Sound

theorem sound_afterAll {cache : QueryCache} (sound : cache.Sound) (uses : List Use) :
    (cache.afterAll uses).Sound := by
  induction uses generalizing cache with
  | nil => exact sound
  | cons use uses induction => exact induction (sound.after use)

theorem capacity_get (cache : QueryCache) (path : String) :
    (cache.get path).2.1.capacity = cache.capacity := by
  unfold get
  split
  next => rfl
  next =>
    split
    next =>
      rw [add]
      split
      next => rfl
      next => split <;> rfl
    next => rfl

theorem capacity_afterAll (cache : QueryCache) (uses : List Use) :
    (cache.afterAll uses).capacity = cache.capacity := by
  induction uses generalizing cache with
  | nil => rfl
  | cons use uses induction =>
      have first : (cache.after use).capacity = cache.capacity := by
        cases use with
        | get path => exact cache.capacity_get path
        | clear => rfl
      exact (induction (cache.after use)).trans first

/-- A path that is refused changes nothing. -/
theorem get_refused (cache : QueryCache) {path : String} {error : QueryError}
    (refused : Query.parse path = .error error) :
    (cache.get path).2.1 = cache := by
  unfold get
  split
  next => rfl
  next => rw [refused]

theorem Used.faithful {cache : QueryCache} (used : cache.Used) : cache.Faithful := by
  rcases used with ⟨capacity, uses, rfl⟩
  exact (sound_afterAll (sound_empty capacity) uses).faithful

end QueryCache

/-! ## Sessions with different caches -/

/-- Sessions that have nothing in common but what queries are run with. Their caches are faithful,
and may hold different queries for all that. -/
structure Session.Related (left right : Session) : Prop where
  context : left.settings.context = right.settings.context
  leftFaithful : left.settings.cache.Faithful
  rightFaithful : right.settings.cache.Faithful

/-- A computation that answers alike in related sessions, and leaves them related. -/
def Transparent {α : Type} (computation : Shared α) : Prop :=
  ∀ left right : Session, left.Related right →
    (computation.run left).1 = (computation.run right).1 ∧
      (computation.run left).2.Related (computation.run right).2

namespace Transparent

variable {α β : Type}

theorem pure (answer : α) : Transparent (Pure.pure answer) :=
  fun _ _ related => ⟨rfl, related⟩

theorem bind {first : Shared α} {next : α → Shared β} (transparent : Transparent first)
    (later : ∀ answer, Transparent (next answer)) : Transparent (first >>= next) := by
  intro left right related
  have here := transparent left right related
  rw [Session.run_bind, Session.run_bind, here.1]
  exact later _ _ _ here.2

theorem give (notices : List Notice) : Transparent (Session.give notices) :=
  fun _ _ related => ⟨rfl, related.context, related.leftFaithful, related.rightFaithful⟩

theorem context : Transparent Session.context :=
  fun _ _ related => ⟨related.context, related⟩

theorem answer (traced : Traced α) : Transparent (Session.answer traced) :=
  (give traced.notices).bind fun _ => .pure _

/-- Looking up a path gives the query that it spells, from any faithful cache. -/
theorem lookUp (path : String) : Transparent (Session.query path) := by
  intro left right related
  have leftFound := Session.query_answer path left
  have rightFound := Session.query_answer path right
  refine ⟨?_, ?_, ?_, ?_⟩
  · rw [leftFound.1, rightFound.1, Settings.query_eq_parse related.leftFaithful,
      Settings.query_eq_parse related.rightFaithful]
  · rw [leftFound.2, rightFound.2]
    exact related.context
  · rw [leftFound.2]
    exact Settings.faithful_looked related.leftFaithful path
  · rw [rightFound.2]
    exact Settings.faithful_looked related.rightFaithful path

/-! ## Operations -/

theorem materialize (document : Document) : Transparent document.materialize := by
  unfold Document.materialize
  split
  next => exact .pure _
  next source =>
    split
    next => exact (give _).bind fun _ => .pure _
    next => exact .pure _

theorem decoded (document : Document) : Transparent document.decoded := by
  unfold Document.decoded
  split
  next => exact .pure _
  next => exact (materialize document).bind fun _ => .pure _

theorem select (document : Document) (query : Query) : Transparent (document.select query) := by
  refine context.bind fun queryContext => ?_
  split
  next source =>
    split
    next => exact answer _
    next => exact .pure _
  next => exact answer _

theorem queryParsed (document : Document) (path : String) (query : Query) :
    Transparent (document.run path query) := by
  unfold Document.run
  split
  next => exact (select document query).bind fun _ => .pure _
  next =>
    refine (decoded document).bind fun outcome => ?_
    cases outcome with
    | error error => exact .pure _
    | ok form => exact (select form query).bind fun _ => .pure _

theorem query (document : Document) (path : String) : Transparent (document.query path) := by
  refine (lookUp path).bind fun outcome => ?_
  cases outcome with
  | error error => exact .pure _
  | ok query => exact queryParsed document path query

theorem directSegments (path : String) : Transparent (Document.directSegments path) := by
  refine (lookUp path).bind fun outcome => ?_
  cases outcome with
  | error error => exact .pure _
  | ok query =>
      dsimp only
      cases query.directSegments? with
      | none => exact .pure _
      | some segments => exact .pure _

theorem edit (document : Document) (path : String)
    (change : List Segment → Json → Except DocumentError Unit × Json) :
    Transparent (document.edit path change) := by
  unfold Document.edit
  split
  next => exact .pure _
  next =>
    refine (directSegments path).bind fun outcome => ?_
    cases outcome with
    | error error => exact .pure _
    | ok segments =>
        refine (materialize document).bind fun outcome => ?_
        cases outcome with
        | error error => exact .pure _
        | ok held => exact .pure _

theorem refine (result : QueryResult) (path : String) : Transparent (result.query path) := by
  unfold QueryResult.query
  split
  next => exact .pure _
  next values found =>
    refine (lookUp path).bind fun outcome => ?_
    cases outcome with
    | error error => exact .pure _
    | ok query =>
        exact context.bind fun queryContext => (answer _).bind fun _ => .pure _

/-! ## Commands -/

theorem perform (document : Document) (operation : Operation) :
    Transparent (document.perform operation) := by
  cases operation with
  | query path => exact (query document path).bind fun _ => .pure _
  | queryParsed parsed => exact (queryParsed document "" parsed).bind fun _ => .pure _
  | set path value => exact (edit document path _).bind fun _ => .pure _
  | delete path => exact (edit document path _).bind fun _ => .pure _
  | view path => exact ((query document path).bind fun _ => .pure _).bind fun _ => .pure _
  | value => exact .pure _

theorem respond (document : Document) (request : Request) :
    Transparent (document.respond request) := by
  cases request with
  | operation operation => exact (perform document operation).bind fun _ => .pure _
  | bytes | text | isMaterialized | isReadOnly => exact .pure _

theorem command (workspace : Workspace) (command : Command) :
    Transparent (workspace.perform command) := by
  cases command with
  | document position request =>
      rw [Workspace.perform]
      cases workspace.documents[position]? with
      | none => exact .pure _
      | some document => exact (respond document request).bind fun _ => .pure _
  | query position path =>
      rw [Workspace.perform]
      cases workspace.results[position]? with
      | none => exact .pure _
      | some result => exact (refine result path).bind fun _ => .pure _
  | view position =>
      rw [Workspace.perform]
      cases workspace.results[position]? <;> exact .pure _

end Transparent

/-! ## Runs -/

namespace Session.Related

variable {left right : Session}

/-- What others do to the cache of one session leaves it faithful. -/
theorem useCache (related : left.Related right) (use : QueryCache.Use) :
    ((Session.useCache use).run left).2.Related right := by
  cases use with
  | get path =>
      exact ⟨related.context, Settings.faithful_looked related.leftFaithful path,
        related.rightFaithful⟩
  | clear =>
      exact ⟨related.context, QueryCache.faithful_empty _, related.rightFaithful⟩

/-- A run is answered as its commands alone are in a related session. -/
theorem run (events : List Event) : ∀ {left right : Session} (workspace : Workspace),
    left.Related right →
      ((workspace.run events).run left).1 =
        ((workspace.run ((Event.commands events).map .command)).run right).1 := by
  induction events with
  | nil =>
      intro left right workspace related
      rfl
  | cons event events induction =>
      intro left right workspace related
      cases event with
      | command command =>
          have here := Transparent.command workspace command left right related
          have later := induction ((workspace.perform command).run left).1.2 here.2
          simp only [Event.commands, List.filterMap_cons, List.map_cons, Workspace.run,
            Session.run_bind, Session.run_pure, here.1] at later ⊢
          rw [later]
      | cacheUse use => exact induction workspace (related.useCache use)

end Session.Related

/-- After any uses a cache of any capacity gives for a path exactly what the path spells, it holds
what its paths spell, each of them once and no more of them than its capacity, and a path that is
refused leaves it as it is. So a run over documents, views and results is answered alike with
caches of any capacities that others have used before, and whatever is looked up or cleared in
between. -/
theorem cache_transparent :
    (∀ (capacity : Nat) (uses : List QueryCache.Use),
      let cache := (QueryCache.empty capacity).afterAll uses
      (∀ path, (cache.get path).1 = Query.parse path) ∧
        (∀ entry ∈ cache.entries, Query.parse entry.1 = .ok entry.2) ∧
        (cache.entries.map Prod.fst).Nodup ∧ cache.size ≤ capacity ∧
        ∀ path error, Query.parse path = .error error → (cache.get path).2.1 = cache) ∧
    ∀ (left right : Session), left.settings.context = right.settings.context →
      left.settings.cache.Used → right.settings.cache.Used →
        ∀ (workspace : Workspace) (events others : List Event),
          Event.commands events = Event.commands others →
            ((workspace.run events).run left).1 = ((workspace.run others).run right).1 := by
  constructor
  · intro capacity uses cache
    have sound : cache.Sound := QueryCache.sound_afterAll (QueryCache.sound_empty capacity) uses
    have same : cache.capacity = capacity := QueryCache.capacity_afterAll _ uses
    refine ⟨fun path => (sound.faithful.get path).1, sound.faithful, sound.distinct,
      same ▸ sound.bounded, ?_⟩
    intro path error refused
    exact cache.get_refused refused
  · intro left right context leftUsed rightUsed workspace events others sameCommands
    have related : left.Related right := ⟨context, leftUsed.faithful, rightUsed.faithful⟩
    have itself : right.Related right := ⟨rfl, rightUsed.faithful, rightUsed.faithful⟩
    rw [related.run events workspace, itself.run others workspace, sameCommands]

/-- The cache on the right holds a single query, which others have left there. On the left the
cache is cleared between a query and the one that goes on from its result. -/
theorem cache_transparent_cleared :
    let left := Session.start .standard
    let cache := (QueryCache.empty 1).afterAll [.get "/a", .get "["]
    let right := Session.start (Settings.standard.withCache cache)
    let workspace : Workspace := ⟨[.ofValue (.object [("a", .array [.null])])], []⟩
    let query : Event := .command (.document 0 (.operation (.query "/a")))
    let further : Event := .command (.query 0 "/*")
    (cache.get "[").2.1 = cache ∧
      ((workspace.run [query, .cacheUse .clear, further]).run left).1 =
        ((workspace.run [query, further]).run right).1 := by
  intro left cache right workspace query further
  have refused : Query.parse "[" = .error (.malformed "[" 1 "unmatched '['") := rfl
  have leftUsed : left.settings.cache.Used := ⟨256, [], rfl⟩
  have rightUsed : right.settings.cache.Used := ⟨1, [.get "/a", .get "["], rfl⟩
  have sameCommands : Event.commands [query, .cacheUse .clear, further] =
      Event.commands [query, further] := rfl
  refine ⟨?_, ?_⟩
  · exact (cache_transparent.1 1 [.get "/a", .get "["]).2.2.2.2 "[" _ refused
  · exact cache_transparent.2 left right rfl leftUsed rightUsed workspace _ _ sameCommands

end JsonQuery
