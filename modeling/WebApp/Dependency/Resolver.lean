import WebApp.Dependency.Scope

/-!
# Resolving dependencies

The value of a reference is the override of its target, if there is one; for a cached
reference, the value that an earlier cached reference has got; else what the provider gives,
once its own parameters are resolved in order.  The ledger of a request keeps the cached
values and what the scoped providers want released.
-/

namespace WebApp

universe u

/-- A value that a scoped dependency has provided. -/
structure Holding where
  id : DependencyId
  value : Datum

/-- What has been resolved for a request. -/
structure Ledger where
  cache : List (DependencyId × Datum) := []
  scope : Scope Holding := {}

/-- Why a resolution stopped. -/
inductive Halt where
  | error (error : Error)
  | panic (text : String)

/-- Programs that resolve dependencies for a request. -/
abbrev Resolution (m : Type → Type u) : Type → Type u :=
  ExceptT Halt (StateT Ledger m)

namespace Resolver

variable {m : Type → Type u} [Monad m] [Tasks m]

/-- What all references of a request are resolved with. -/
structure Setting where
  request : Request
  overrides : Overrides

def callProvider (provider : Provider m) (call : Call) : Resolution m Datum := do
  let outcome ← (Tasks.attempt (provider.provide call) : m _)
  match outcome with
  | .finished (.ok value) => return value
  | .finished (.error e) => throw (.error e)
  | .panicked text => throw (.panic text)

/-- Notes what a provider has given. -/
def record (d : Dependency m) (isCached : Bool) (value : Datum) : Resolution m Unit :=
  modify fun ledger =>
    let ledger :=
      if d.provider.release.isSome then
        { ledger with scope := ledger.scope.push d.name ⟨d.id, value⟩ }
      else
        ledger
    if isCached then { ledger with cache := Assoc.insert d.id value ledger.cache } else ledger

/-- The value that stands for a dependency without a call of its provider. -/
def known? (setting : Setting) (id : DependencyId) (isCached : Bool) (ledger : Ledger) :
    Option Datum :=
  match Assoc.get? id setting.overrides with
  | some value => some value
  | none => if isCached then Assoc.get? id ledger.cache else none

mutual

/-- Resolves one reference.  `resolving` holds the dependencies whose parameters this one is
among. -/
def resolveOne (setting : Setting) (resolving : List DependencyId) (d : Dependency m)
    (isCached : Bool) : Resolution m Datum :=
  match d with
  | .node id name provider params => do
    match known? setting id isCached (← get) with
    | some value => return value
    | none =>
      -- No frames are read for this error: what has been made from parts that exist has no cycle.
      if resolving.contains id then
        throw (.error (DependencyError.cycle name).toError)
      else
        let entries ← resolveEach setting (id :: resolving) params
        let value ← callProvider provider ⟨setting.request, .ofList entries⟩
        record (.node id name provider params) isCached value
        return value

def resolveEach (setting : Setting) (resolving : List DependencyId)
    (references : List (Reference (Dependency m))) : Resolution m (List (String × Datum)) :=
  match references with
  | [] => return []
  | ⟨name, target, isCached⟩ :: rest => do
    let value ← resolveOne setting resolving target isCached
    let entries ← resolveEach setting resolving rest
    return (name, value) :: entries

end

def resolve (setting : Setting) (references : List (Reference (Dependency m))) :
    Resolution m Resolved := do
  return .ofList (← resolveEach setting [] references)

end Resolver

namespace Dependency

variable {m : Type → Type u}

mutual

/-- The dependency with this identity, among a dependency and those it needs. -/
def find? (wanted : DependencyId) (d : Dependency m) : Option (Dependency m) :=
  match d with
  | .node id name provider params =>
    if id = wanted then some (.node id name provider params)
    else findAmong? wanted params

/-- The dependency with this identity, among the targets of references and those they need. -/
def findAmong? (wanted : DependencyId) (references : List (Reference (Dependency m))) :
    Option (Dependency m) :=
  match references with
  | [] => none
  | ⟨_, target, _⟩ :: rest => (target.find? wanted).or (findAmong? wanted rest)

end

/-- How what a request holds is released, by the dependencies that it was resolved from. -/
def teardownAmong [Monad m] (references : List (Reference (Dependency m))) (holding : Holding) :
    Teardown m :=
  match (findAmong? holding.id references).bind fun d => d.provider.release with
  | some release => release holding.value
  | none => ⟨pure (), pure ()⟩

end Dependency

end WebApp
