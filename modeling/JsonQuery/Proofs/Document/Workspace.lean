import JsonQuery.Proofs.Document.Materialization

/-!
Documents and results that are in use together. A result can be queried in turn, and the views of
documents and results are documents; all of them share the cache of parsed queries, which others
may use in between.
-/

namespace JsonQuery

/-! ## Uses of the cache -/

inductive QueryCache.Use where
  | get (path : String)
  | clear

def QueryCache.after (cache : QueryCache) : Use → QueryCache
  | .get path => (cache.get path).2.1
  | .clear => cache.clear

def QueryCache.afterAll (cache : QueryCache) (uses : List Use) : QueryCache :=
  uses.foldl after cache

/-- A cache that began without entries, whatever it has been used for since then. -/
def QueryCache.Used (cache : QueryCache) : Prop :=
  ∃ capacity uses, cache = (empty capacity).afterAll uses

def Session.useCache : QueryCache.Use → Shared Unit
  | .get path => do
    let _ ← Session.query path
    return ()
  | .clear => Session.clearCache

/-! ## Workspaces -/

structure Workspace where
  documents : List Document
  results : List QueryResult

inductive Command where
  | document (position : Nat) (request : Request)
  | query (position : Nat) (path : String)
  | view (position : Nat)

/-- A step of a run: a command, or a use of the cache by someone else. -/
inductive Event where
  | command (command : Command)
  | cacheUse (use : QueryCache.Use)

def Event.commands (events : List Event) : List Command :=
  events.filterMap fun
    | .command asked => some asked
    | .cacheUse _ => none

namespace Workspace

def keep (workspace : Workspace) : Reply → Workspace
  | .answer (.result result) => { workspace with results := workspace.results ++ [result] }
  | .answer (.view (.ok view)) => { workspace with documents := workspace.documents ++ [view] }
  | _ => workspace

/-- Performs a command. There is no reply where nothing stands at its position. -/
def perform (workspace : Workspace) : Command → Shared (Option Reply × Workspace)
  | .document position request =>
    match workspace.documents[position]? with
    | none => return (none, workspace)
    | some document => do
      let (reply, document) ← document.respond request
      let documents := workspace.documents.set position document
      return (some reply, { workspace with documents }.keep reply)
  | .query position path =>
    match workspace.results[position]? with
    | none => return (none, workspace)
    | some result => do
      let reply := Reply.answer (.result (← result.query path))
      return (some reply, workspace.keep reply)
  | .view position =>
    match workspace.results[position]? with
    | none => return (none, workspace)
    | some result =>
      let reply := Reply.answer (.view result.toDocument)
      return (some reply, workspace.keep reply)

def run (workspace : Workspace) : List Event → Shared (List (Option Reply) × Workspace)
  | [] => return ([], workspace)
  | .command command :: events => do
    let (reply, workspace) ← workspace.perform command
    let (replies, workspace) ← workspace.run events
    return (reply :: replies, workspace)
  | .cacheUse use :: events => do
    Session.useCache use
    workspace.run events

end Workspace

end JsonQuery
