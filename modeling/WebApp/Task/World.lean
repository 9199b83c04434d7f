import WebApp.Task.Thread

/-!
# Running threads

One thread at a time goes on.  Tasks take turns in the order in which they became ready.  The
main thread is looked at when it can go on and no task is ready, or after a number of turns.
Workers come after all ready tasks, and time passes only when nothing else is left to do: it
then jumps to the next instant that somebody waits for.
-/

namespace WebApp

variable {σ : Type}

/-- Who has a place among the tasks. -/
inductive Slot (σ : Type) : Type 1 where
  /-- The innermost task of the main thread. -/
  | main
  | strand (strand : Strand σ)

/-- What outlives the main thread: the clock, the journal, the queues, and the tasks that are
ready, that a worker has to run, and that wait for an instant. -/
structure World (σ : Type) : Type 1 where
  kernel : Kernel σ
  ready : List (Slot σ) := []
  offloaded : List (Slot σ) := []
  sleeping : List (Nat × Slot σ) := []

/-- Turns of tasks after which the main thread is looked at even though others are ready. -/
def turnsInRow : Nat := 61

/-- How the run of a main thread ended. -/
inductive Finish (α : Type) where
  | ended (outcome : Outcome α)
  /-- The deadline came first, and the thread was given up. -/
  | late
  /-- Nothing is left that could go on. -/
  | stuck
  /-- The run took more turns than allowed. -/
  | endless

namespace World

def new (state : σ) : World σ :=
  { kernel := { now := 0, journal := { state := state } } }

/-- The tasks that were begun join those that are ready. -/
def welcome (w : World σ) : World σ :=
  { w with
    kernel := { w.kernel with begun := [] }
    ready := w.ready ++ w.kernel.begun.reverse.map .strand }

/-- A place for one who has to wait. -/
def place (w : World σ) (slot : Slot σ) : Pause → World σ
  | .turn => { w with ready := w.ready ++ [slot] }
  | .worker => { w with offloaded := w.offloaded ++ [slot] }
  | .time instant => { w with sleeping := w.sleeping ++ [(instant, slot)] }

/-- The first instant that somebody waits for. -/
def nextInstant? (w : World σ) : Option Nat :=
  (w.sleeping.map Prod.fst).min?

/-- Lets a strand go on and gives it its next place. -/
def pollStrand (w : World σ) (strand : Strand σ) : World σ :=
  match strand.thread.poll w.kernel with
  | (.ended _, k) => { w with kernel := k }.welcome
  | (.paused thread pause, k) => { w with kernel := k }.welcome.place (.strand ⟨thread⟩) pause

/-- A main thread in its world.  `awake` tells that the outermost task can go on. -/
structure Run (σ : Type) (α : Type) : Type 1 where
  world : World σ
  thread : Thread σ α
  awake : Bool := true

namespace Run

variable {α : Type}

/-- A place for the main thread: its outermost task has none but is awake or not. -/
def settle (world : World σ) (thread : Thread σ α) (pause : Pause) : Run σ α :=
  match thread.waits, pause with
  | false, .turn => { world := world, thread := thread }
  | _, pause => { world := world.place .main pause, thread := thread, awake := false }

def pollMain (r : Run σ α) : Outcome α × World σ ⊕ Run σ α :=
  match r.thread.poll r.world.kernel with
  | (.ended outcome, k) => .inl (outcome, { r.world with kernel := k }.welcome)
  | (.paused thread pause, k) => .inr (settle { r.world with kernel := k }.welcome thread pause)

/-- Lets the one in a slot go on. -/
def pollSlot (r : Run σ α) : Slot σ → Outcome α × World σ ⊕ Run σ α
  | .main =>
    match r.pollMain with
    | .inl done => .inl done
    | .inr next => .inr { next with awake := next.awake || r.awake }
  | .strand s => .inr { r with world := r.world.pollStrand s }

/-- Wakes those who wait for an instant that has come. -/
def jump (r : Run σ α) (instant : Nat) : Run σ α :=
  let w := r.world
  let due := (w.sleeping.filter fun entry => entry.1 ≤ instant).map Prod.snd
  let w := { w with
    kernel := { w.kernel with now := instant }
    sleeping := w.sleeping.filter fun entry => instant < entry.1 }
  due.foldl (fun r slot =>
    match slot, r.thread.waits with
    | .main, false => { r with awake := true }
    | slot, _ => { r with world := r.world.place slot .turn }) { r with world := w }

/-- Gives the main thread up.  A task that it waits for keeps its place. -/
def abandon (r : Run σ α) : World σ :=
  let (orphan, k) := r.thread.abandon r.world.kernel
  let keep : Slot σ → List (Slot σ)
    | .main => (orphan.map Slot.strand).toList
    | slot => [slot]
  let w := r.world
  { kernel := k
    ready := w.ready.flatMap keep
    offloaded := w.offloaded.flatMap keep
    sleeping := w.sleeping.flatMap fun (instant, slot) =>
      (keep slot).map fun slot => (instant, slot) : World σ }.welcome

/-- Runs the main thread to its end or to a deadline.  `turns` counts down to the next look at
the main thread. -/
def loop (deadline : Option Nat) : Nat → Nat → Run σ α → Finish α × World σ
  | 0, _, r => (.endless, r.abandon)
  | fuel + 1, 0, r =>
    if r.awake then
      match { r with awake := false }.pollMain with
      | .inl (outcome, w) => (.ended outcome, w)
      | .inr r => loop deadline fuel turnsInRow r
    else
      loop deadline fuel turnsInRow r
  | fuel + 1, turns + 1, r =>
    match r.world.ready with
    | slot :: rest =>
      match { r with world := { r.world with ready := rest } }.pollSlot slot with
      | .inl (outcome, w) => (.ended outcome, w)
      | .inr r => loop deadline fuel turns r
    | [] =>
      if r.awake then loop deadline fuel 0 r
      else
        match r.world.offloaded with
        | slot :: rest =>
          match { r with world := { r.world with offloaded := rest } }.pollSlot slot with
          | .inl (outcome, w) => (.ended outcome, w)
          | .inr r => loop deadline fuel 0 r
        | [] =>
          match r.world.nextInstant?, deadline with
          | none, none => (.stuck, r.abandon)
          | some instant, none => loop deadline fuel 0 (r.jump instant)
          | none, some limit => (.late, (r.jump limit).abandon)
          | some instant, some limit =>
            if limit ≤ instant then (.late, (r.jump limit).abandon)
            else loop deadline fuel 0 (r.jump instant)

end Run

/-- The greatest number of turns in one run. -/
def turnLimit : Nat := 10000000

/-- Runs a routine as the main thread. -/
def run {α : Type} (w : World σ) (r : Routine σ α) : Finish α × World σ :=
  Run.loop none turnLimit 0 { world := w, thread := .running r }

/-- Runs a routine as the main thread for so many milliseconds at most.  Without any time it is
looked at once. -/
def runFor {α : Type} (w : World σ) (duration : Nat) (r : Routine σ α) : Finish α × World σ :=
  let start : Run σ α := { world := w, thread := .running r }
  if duration = 0 then
    match start.pollMain with
    | .inl (outcome, w) => (.ended outcome, w)
    | .inr r => (.late, r.abandon)
  else
    Run.loop (some (w.kernel.now + duration * millisecond)) turnLimit 0 start

/-- Runs a routine that has to end by itself; gives its value, unless it panics. -/
def perform {α : Type} (w : World σ) (r : Routine σ α) : Option α × World σ :=
  match w.run r with
  | (.ended (.finished value), w) => (some value, w)
  | (_, w) => (none, w)

/-- Lets all tasks come to their end. -/
def settle (w : World σ) : World σ :=
  (Run.loop none turnLimit 0 { world := w, thread := .running (.done ()), awake := false }).2

/-- Takes the reports made so far, the oldest first. -/
def takeEvents (w : World σ) : List Event × World σ :=
  let journal := w.kernel.journal
  (journal.events.reverse,
    { w with kernel := { w.kernel with journal := { journal with events := [] } } })

/-- Changes the application's own state while nothing runs. -/
def update {α : Type} (w : World σ) (change : σ → α × σ) : α × World σ :=
  let (value, state) := change w.kernel.journal.state
  (value, { w with kernel := { w.kernel with journal := { w.kernel.journal with state := state } } })

/-- So many seconds and nanoseconds, where the whole seconds have sixty-four bits. -/
def duration? (seconds nanoseconds : Nat) : Option Nat :=
  let all := seconds * 1000000000 + nanoseconds
  if all < Nat.pow 2 64 * 1000000000 then some all else none

/-- Where the clock ends.  It counts seconds in sixty-three bits, and had counted some before. -/
def lastInstant : Nat := (Nat.pow 2 63 - 1000) * 1000000000

/-- Lets the clock jump while nothing runs, unless it would come to its end. -/
def pass? (w : World σ) (nanoseconds : Nat) : Option (World σ) :=
  let instant := w.kernel.now + nanoseconds
  if instant < lastInstant then some { w with kernel := { w.kernel with now := instant } } else none

end World

end WebApp
