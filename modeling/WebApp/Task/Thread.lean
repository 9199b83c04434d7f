import WebApp.Background
import WebApp.Task.Routine

/-!
# Threads

A thread is a routine between two of its steps, together with the tasks that wait for one
another: of these only the innermost can go on.  `Thread.poll` lets it go on until it ends or
has to wait.
-/

namespace WebApp

variable {σ : Type}

/-- A routine that has begun, or the routine that waits for it and what it does then. -/
inductive Thread (σ : Type) : Type → Type 1 where
  | running {α : Type} (rest : Routine σ α) : Thread σ α
  /-- Waits for a task of its own. -/
  | waiting {α β : Type} (task : Thread σ β) (next : Outcome β → Routine σ α) : Thread σ α
  /-- Runs a part of the same task that keeps its panics. -/
  | guarding {α β : Type} (inner : Thread σ β) (dropped : Routine σ Unit)
      (next : Outcome β → Routine σ α) : Thread σ α

/-- A thread whose value nobody waits for. -/
structure Strand (σ : Type) : Type 1 where
  {result : Type}
  thread : Thread σ result

/-- Work that is held back. -/
structure Backlog (σ : Type) : Type 1 where
  works : List (Routine σ (Except Error Unit)) := []
  isClosed : Bool := false

/-- What a thread changes besides itself: the journal, the queues, and the tasks that it has
begun and does not wait for, the newest first. -/
structure Kernel (σ : Type) : Type 1 where
  now : Nat
  journal : Journal σ
  backlogs : List (Backlog σ) := []
  begun : List (Strand σ) := []

/-- Why a thread does not go on by itself. -/
inductive Pause where
  /-- It goes on when its turn comes. -/
  | turn
  /-- It goes on when a worker has run it. -/
  | worker
  /-- It goes on at an instant. -/
  | time (instant : Nat)

/-- Where a thread is after it has gone on. -/
inductive Progress (σ : Type) (α : Type) : Type 1 where
  | ended (outcome : Outcome α)
  | paused (thread : Thread σ α) (pause : Pause)

def millisecond : Nat := 1000000

namespace Kernel

/-- Begins a task that nobody waits for. -/
def begin (k : Kernel σ) (task : Routine σ Unit) : Kernel σ :=
  { k with begun := ⟨.running task⟩ :: k.begun }

def openQueue (k : Kernel σ) : Queue × Kernel σ :=
  (⟨k.backlogs.length⟩, { k with backlogs := k.backlogs ++ [{}] })

/-- The work of a queue.  A queue that was never opened is closed. -/
def backlog (k : Kernel σ) (queue : Queue) : Backlog σ :=
  k.backlogs[queue.number]?.getD { isClosed := true }

def setBacklog (k : Kernel σ) (queue : Queue) (b : Backlog σ) : Kernel σ :=
  { k with backlogs := k.backlogs.set queue.number b }

def enqueue (k : Kernel σ) (queue : Queue) (work : Routine σ (Except Error Unit)) :
    Bool × Kernel σ :=
  let b := k.backlog queue
  if b.isClosed then (false, k)
  else (true, k.setBacklog queue { b with works := b.works ++ [work] })

/-- Closes a queue and begins a task that does its work. -/
def release (k : Kernel σ) (queue : Queue) : Bool × Kernel σ :=
  let b := k.backlog queue
  let k := k.setBacklog queue { isClosed := true }
  if b.works.isEmpty then (false, k)
  else (true, k.begin (Background.runAll b.works))

end Kernel

namespace Routine

/-- Goes on until the routine ends or has to wait. -/
def advance {α : Type} : Routine σ α → Kernel σ → Progress σ α × Kernel σ
  | .done value, k => (.ended (.finished value), k)
  | .panic text, k => (.ended (.panicked text), k)
  | .act step next, k =>
    let (value, journal) := (step.run k.now).run k.journal
    (next value).advance { k with journal := journal }
  | .sleep duration next, k =>
    if duration = 0 then (next ()).advance k
    else (.paused (.running (next ())) (.time (k.now + duration * millisecond)), k)
  | .spawn task next, k => (next ()).advance (k.begin task)
  | .await .queue task next, k => (.paused (.waiting (.running task) next) .turn, k)
  | .await .worker task next, k => (.paused (.waiting (.running task) next) .worker, k)
  | .guarded inner dropped next, k =>
    match inner.advance k with
    | (.ended outcome, k) => (next outcome).advance k
    | (.paused thread pause, k) => (.paused (.guarding thread dropped next) pause, k)
  | .openQueue next, k =>
    let (queue, k) := k.openQueue
    (next queue).advance k
  | .enqueue queue work next, k =>
    let (accepted, k) := k.enqueue queue work
    (next accepted).advance k
  | .queued queue next, k => (next (k.backlog queue).works.length).advance k
  | .release queue next, k =>
    let (any, k) := k.release queue
    (next any).advance k

end Routine

namespace Thread

/-- Lets the innermost task go on.  One who waits for a task that ended goes on when its own
turn comes. -/
def poll {α : Type} : Thread σ α → Kernel σ → Progress σ α × Kernel σ
  | .running rest, k => rest.advance k
  | .waiting task next, k =>
    match task.poll k with
    | (.ended outcome, k) => (.paused (.running (next outcome)) .turn, k)
    | (.paused task pause, k) => (.paused (.waiting task next) pause, k)
  | .guarding inner dropped next, k =>
    match inner.poll k with
    | (.ended outcome, k) => (next outcome).advance k
    | (.paused inner pause, k) => (.paused (.guarding inner dropped next) pause, k)

/-- Whether the outermost task waits for another. -/
def waits {α : Type} : Thread σ α → Bool
  | .running _ => false
  | .waiting _ _ => true
  | .guarding inner _ _ => inner.waits

/-- Gives a thread up.  A task that it waits for goes on without it; the parts that it guards
run what they run when they are dropped, the innermost first. -/
def abandon {α : Type} : Thread σ α → Kernel σ → Option (Strand σ) × Kernel σ
  | .running _, k => (none, k)
  | .waiting task _, k => (some ⟨task⟩, k)
  | .guarding inner dropped _, k =>
    let (orphan, k) := inner.abandon k
    (orphan, (dropped.advance k).2)

end Thread

end WebApp
