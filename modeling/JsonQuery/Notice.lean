import JsonQuery.Path.Error

/-!
Notices: what a library call reports beside its answer, and computations that collect them. The
notices of a computation that fails are kept.
-/

namespace JsonQuery

inductive Notice where
  | unknownFunction (name : String)
  | descentTooDeep (name : String) (limit : Nat)
  | cacheMiss (path : String)
  | cacheFull (entries : Nat)
  | materializing (bytes : Nat)
  deriving DecidableEq

def Notice.line : Notice → String
  | .unknownFunction name => s!"WARN Unknown filter function '{name}'; treating it as absent"
  | .descentTooDeep name limit =>
    s!"WARN Recursive descent for '{name}' exceeded the depth limit of {limit}"
  | .cacheMiss path => s!"DEBUG Query cache miss for '{path}'"
  | .cacheFull entries => s!"DEBUG Query cache full ({entries} entries); clearing"
  | .materializing bytes => s!"DEBUG Materializing document ({bytes} bytes)"

/-- An answer or an error, and the notices on the way to it. -/
structure Traced (α : Type) where
  notices : List Notice
  outcome : Except QueryError α

namespace Traced

def ofExcept (outcome : Except QueryError α) : Traced α :=
  ⟨[], outcome⟩

def notice (notice : Notice) : Traced Unit :=
  ⟨[notice], .ok ()⟩

def andThen (first : Traced α) (next : α → Traced β) : Traced β :=
  match first.outcome with
  | .ok answer => ⟨first.notices ++ (next answer).notices, (next answer).outcome⟩
  | .error error => ⟨first.notices, .error error⟩

instance : Monad Traced where
  pure answer := ⟨[], .ok answer⟩
  bind := andThen

@[simp] theorem outcome_pure (answer : α) :
    (pure answer : Traced α).outcome = .ok answer := rfl

@[simp] theorem outcome_bind (first : Traced α) (next : α → Traced β) :
    (first >>= next).outcome = first.outcome >>= fun answer => (next answer).outcome := by
  show (andThen first next).outcome = _
  unfold andThen
  cases first.outcome <;> rfl

end Traced

end JsonQuery
