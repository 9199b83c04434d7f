import WebApp.Task.Basic

/-!
# Background work

A request has a queue of work that is held back until its response is made.  Then the work is
done in order, one piece after another, each in a task of its own; a piece that fails or
panics is reported and the next one still runs.  A queue is released once: work that comes
later is dropped.
-/

namespace WebApp.Background

universe u

variable {m : Type → Type u} [Monad m] [Reports m] [Tasks m]

/-- Adds a piece of work to a queue; to a queue that was released nothing is added. -/
def add (queue : Queue) (work : m (Except Error Unit)) : m Unit := do
  let accepted ← Tasks.enqueue queue work
  if accepted then
    return
  else
    report ⟨.warn, "background task added after the queue was drained, dropping it", []⟩

/-- Adds a piece of blocking work to a queue.  When its turn comes, it runs on a thread of the
pool for such work, and a panic of it is an error of the piece. -/
def addBlocking (queue : Queue) (work : m (Except Error Unit)) : m Unit :=
  add queue do (← Tasks.offload work).join

/-- What is reported of the piece of work at a place among all. -/
def endReport (index total : Nat) : Outcome (Except Error Unit) → Event
  | .finished (.ok ()) =>
    ⟨.debug, "background task finished", [("task", toString index), ("total", toString total)]⟩
  | .finished (.error e) =>
    ⟨.error, "background task failed",
      [("task", toString index), ("error", e.message), ("type_name", e.typeName)]⟩
  | .panicked text =>
    ⟨.error, "background task panicked",
      [("task", toString index), ("error", (Error.ofPanic text).text)]⟩

/-- Does the work from a place on. -/
def runFrom (total : Nat) : Nat → List (m (Except Error Unit)) → m Unit
  | _, [] => return
  | index, work :: rest => do
    let outcome ← Tasks.await work
    report (endReport index total outcome)
    runFrom total (index + 1) rest

/-- Does all the work in order. -/
def runAll (works : List (m (Except Error Unit))) : m Unit :=
  runFrom works.length 0 works

/-- A queue as it is shown inside a message about a program's data. -/
def shown (queued : Nat) : String :=
  "BackgroundTasks \x7b queued: " ++ toString queued ++ " \x7d"

end WebApp.Background
