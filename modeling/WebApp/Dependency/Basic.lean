import WebApp.Http.Request
import WebApp.Task.Basic

/-!
# Dependencies

A dependency is a named provider of a value together with references to the dependencies that
the provider itself needs.  Its identity decides on caching and on overrides: a clone keeps
it, and a dependency that is given one more parameter is a new one.
-/

namespace WebApp

universe u

structure DependencyId where
  number : Nat
deriving DecidableEq, Inhabited, Repr

inductive DependencyError where
  | missing (name : String)
  | typeMismatch (name : String) (expected : Kind)
  | cycle (name : String)
deriving DecidableEq, Repr

namespace DependencyError

def message : DependencyError → String
  | .missing name => "dependency `" ++ name ++ "` was not resolved for this call"
  | .typeMismatch name expected =>
    "dependency `" ++ name ++ "` does not hold a value of type `" ++ expected.typeName ++ "`"
  | .cycle name => "dependency `" ++ name ++ "` depends on itself"

def shown : DependencyError → String
  | .missing name => "Missing \x7b name: " ++ Text.quoted name ++ " \x7d"
  | .typeMismatch name expected =>
    "TypeMismatch \x7b name: " ++ Text.quoted name ++ ", expected: " ++
      Text.quoted expected.typeName ++ " \x7d"
  | .cycle name => "Cycle \x7b name: " ++ Text.quoted name ++ " \x7d"

def toError (e : DependencyError) (trace : List String := []) : Error :=
  .unexpected {
    typeName := "blaze::dependency::DependencyError"
    text := e.message
    shown := e.shown } trace

end DependencyError

/-- The values of one call by the names of its parameters. -/
structure Resolved where
  entries : List (String × Datum) := []
deriving Inhabited

namespace Resolved

/-- Of several values with one name the last counts. -/
def ofList (entries : List (String × Datum)) : Resolved :=
  ⟨Assoc.ofList entries⟩

/-- The value of a parameter, which must be of the kind asked for. -/
def get (r : Resolved) (kind : Kind) (name : String) : Except DependencyError kind.Carrier :=
  match Assoc.get? name r.entries with
  | none => .error (.missing name)
  | some d =>
    match d.as? kind with
    | some value => .ok value
    | none => .error (.typeMismatch name kind)

def contains (r : Resolved) (name : String) : Bool :=
  Assoc.contains name r.entries

def size (r : Resolved) : Nat := r.entries.length

/-- The names of the parameters as they are shown inside a message about a program's data. -/
def shown (r : Resolved) : String :=
  "\x7b" ++ String.intercalate ", " (r.entries.map fun entry => Text.quoted entry.1) ++ "\x7d"

end Resolved

/-- What a provider is called with. -/
structure Call where
  request : Request
  resolved : Resolved

/-- What releases a value: a first part that runs where the value is released, and the
release itself, which runs in a task of its own. -/
structure Teardown (m : Type → Type u) where
  prepare : m Unit
  run : m Unit

/-- Provides a value.  A scoped provider also tells how a value of it is released. -/
structure Provider (m : Type → Type u) where
  provide : Call → m (Except Error Datum)
  release : Option (Datum → Teardown m) := none

/-- A parameter that is filled from something.  A cached one shares its value with all cached
references to the same thing. -/
structure Reference (δ : Type u) where
  name : String
  target : δ
  isCached : Bool := true

/-- A provider with an identity, a name and parameters. -/
inductive Dependency (m : Type → Type u) : Type u where
  | node (id : DependencyId) (name : String) (provider : Provider m)
      (params : List (Reference (Dependency m)))

namespace Dependency

variable {m : Type → Type u}

def id : Dependency m → DependencyId
  | .node id _ _ _ => id

def name : Dependency m → String
  | .node _ name _ _ => name

def provider : Dependency m → Provider m
  | .node _ _ provider _ => provider

def params : Dependency m → List (Reference (Dependency m))
  | .node _ _ _ params => params

/-- One more parameter.  The result is another dependency and has an identity of its own. -/
def param (d : Dependency m) (fresh : DependencyId) (reference : Reference (Dependency m)) :
    Dependency m :=
  .node fresh d.name d.provider (d.params ++ [reference])

/-- A dependency without parameters that never suspends and has nothing to release. -/
def ofFunction [Monad m] (fresh : DependencyId) (name : String)
    (provide : Call → Except Error Datum) : Dependency m :=
  .node fresh name { provide := fun call => pure (provide call) } []

/-- A dependency whose value is always the same. -/
def constant [Monad m] (fresh : DependencyId) (name : String) (value : Datum) : Dependency m :=
  ofFunction fresh name fun _ => .ok value

end Dependency

/-- Values that stand in for dependencies. -/
abbrev Overrides := List (DependencyId × Datum)

end WebApp
