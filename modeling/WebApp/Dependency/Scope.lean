import WebApp.Dependency.Basic

/-!
# Scopes

A scope holds what has to be released when a request is done.  Closing it releases the newest
entry first and waits for each; a scope that is dropped hands what is left to a task that does
the same.
-/

namespace WebApp

universe u v

/-- What has to be released, the newest first. -/
structure Scope (τ : Type v) where
  entries : List (String × τ) := []

namespace Scope

variable {m : Type → Type u} [Monad m] [Reports m] [Tasks m] {τ : Type v}

def push (s : Scope τ) (name : String) (entry : τ) : Scope τ :=
  ⟨(name, entry) :: s.entries⟩

def size (s : Scope τ) : Nat := s.entries.length

/-- Runs a teardown and waits for it.  A panic of the release is reported. -/
def runTeardown (name : String) (teardown : Teardown m) : m Unit := do
  report ⟨.debug, "running dependency teardown", [("dependency", name)]⟩
  teardown.prepare
  match ← Tasks.await teardown.run with
  | .finished _ => return
  | .panicked text =>
    report ⟨.error, "dependency teardown panicked",
      [("dependency", name), ("error", (Error.ofPanic text).text)]⟩

variable (teardown : τ → Teardown m)

/-- Releases entries one after another. -/
def runEach : List (String × τ) → m Unit
  | [] => return
  | (name, entry) :: rest => do
    runTeardown name (teardown entry)
    runEach rest

/-- Hands what has not been released to a task that nobody waits for. -/
def dropEntries (entries : List (String × τ)) : m Unit := do
  if entries.isEmpty then
    return
  else
    report ⟨.warn, "teardown scope dropped before close", [("pending", toString entries.length)]⟩
    Tasks.spawn (runEach teardown entries)

/-- Releases entries one after another.  If this is given up, or panics, the entries that are
left are dropped. -/
def closeEntries : List (String × τ) → m Unit
  | [] => return
  | (name, entry) :: rest => do
    match ← Tasks.guarded (runTeardown name (teardown entry)) (dropEntries teardown rest) with
    | .finished _ => closeEntries rest
    | .panicked text => do
      dropEntries teardown rest
      Tasks.panic text

def close (s : Scope τ) : m Unit :=
  closeEntries teardown s.entries

def drop (s : Scope τ) : m Unit :=
  dropEntries teardown s.entries

/-- Gives the scope up where no task can be begun. -/
def dropOutside (s : Scope τ) : m Unit := do
  if s.entries.isEmpty then
    return
  else
    report ⟨.error, "teardown scope dropped outside a runtime, teardowns skipped",
      [("pending", toString s.size)]⟩

end Scope

end WebApp
