import Mathlib.Tactic
import WebApp.Proofs.Dispatch.Stages
import WebApp.Proofs.Dispatch.Teardowns
import WebApp.Proofs.Task.Queues

/-!
# Background work of a dispatch

A piece of work is added in one step, which asks whether the queue still takes it.  A dispatch
opens a queue, makes its response, and only then releases the queue.  The release begins one task,
which does all the work that was added up to then, one piece after another, each to its end,
however the pieces before it have ended.  Nothing that is added later is done.
-/

namespace WebApp

universe u

namespace Background

variable {σ : Type}

/-- The steps of adding a piece of work: it is enqueued, and there is a warning if the queue was
released before. -/
inductive Adds (queue : Queue) (work : Routine σ (Except Error Unit)) : List (Step σ) → Prop where
  | taken : Adds queue work [.enqueue queue work true]
  | dropped (now : Nat) (before : Journal σ) :
      Adds queue work [.enqueue queue work false, .act now before
        { before with events :=
          ⟨.warn, "background task added after the queue was drained, dropping it", []⟩ ::
            before.events }]

/-- Whoever adds work goes on at once, whether the work was taken or not. -/
theorem runs_add_iff (queue : Queue) (work : Routine σ (Except Error Unit))
    (steps : List (Step σ)) (outcome : Outcome Unit) :
    (add queue work : Routine σ Unit).Runs steps outcome ↔
      outcome = .finished () ∧ Adds queue work steps := by
  constructor
  · rintro ⟨accepted, _, rest, rfl, rfl, hrest⟩
    cases accepted with
    | true =>
        obtain ⟨rfl, rfl⟩ := hrest
        exact ⟨rfl, .taken⟩
    | false =>
        obtain ⟨⟨now, before, rfl⟩, rfl⟩ := (Routine.runs_report _ _ _).mp hrest
        exact ⟨rfl, .dropped now before⟩
  · rintro ⟨rfl, _ | ⟨now, before⟩⟩
    · exact ⟨true, _, [], rfl, rfl, rfl, rfl⟩
    · exact ⟨false, _, _, rfl, rfl, (Routine.runs_report _ _ _).mpr ⟨⟨now, before, rfl⟩, rfl⟩⟩

/-- Blocking work is added like any other.  What is enqueued does the work and comes to its
result; a panic of the work is an error of the piece, which itself never panics. -/
theorem runs_addBlocking_iff (queue : Queue) (work : Routine σ (Except Error Unit)) :
    ∃ piece : Routine σ (Except Error Unit),
      (∀ steps outcome, (addBlocking queue work : Routine σ Unit).Runs steps outcome ↔
        outcome = .finished () ∧ Adds queue piece steps) ∧
      ∀ steps outcome, piece.Runs steps outcome ↔
        ∃ working joining ended result, steps = working ++ joining ∧ work.Runs working ended ∧
          ended.Joins joining result ∧ outcome = .finished result :=
  ⟨do (← Tasks.offload work).join, runs_add_iff queue _, Routine.runs_offload_join work⟩

/-- Pieces of work are done in order from a place on: each comes to its end, and this is reported,
before the next one begins. -/
inductive Does (total : Nat) :
    Nat → List (Routine σ (Except Error Unit)) → List (Step σ) → Prop where
  | nothing (index : Nat) : Does total index [] []
  | next {index : Nat} {work : Routine σ (Except Error Unit)}
      {rest : List (Routine σ (Except Error Unit))} {steps later : List (Step σ)}
      {ended : Outcome (Except Error Unit)} (now : Nat) (before : Journal σ) :
      work.Runs steps ended → Does total (index + 1) rest later →
      Does total index (work :: rest) (steps ++ .act now before
        { before with events := endReport index total ended :: before.events } :: later)

theorem runFrom_cons (total index : Nat) (work : Routine σ (Except Error Unit))
    (rest : List (Routine σ (Except Error Unit))) :
    (runFrom total index (work :: rest) : Routine σ Unit) = (do
      let ended ← Tasks.await work
      report (endReport index total ended)
      runFrom total (index + 1) rest) :=
  rfl

/-- The work is done in order, whichever pieces fail or panic, and nothing else is. -/
theorem runs_runFrom_iff (total : Nat) (works : List (Routine σ (Except Error Unit)))
    (index : Nat) (steps : List (Step σ)) (outcome : Outcome Unit) :
    (runFrom total index works : Routine σ Unit).Runs steps outcome ↔
      outcome = .finished () ∧ Does total index works steps := by
  induction works generalizing index steps with
  | nil =>
      constructor
      · rintro ⟨rfl, rfl⟩
        exact ⟨rfl, .nothing index⟩
      · rintro ⟨rfl, ⟨⟩⟩
        exact ⟨rfl, rfl⟩
  | cons work rest ih =>
      rw [runFrom_cons, Routine.runs_await_bind]
      constructor
      · rintro ⟨ended, first, last, rfl, hwork, hlast⟩
        obtain ⟨now, before, later, rfl, hlater⟩ := (Routine.runs_report_bind _ _ _ _).mp hlast
        obtain ⟨hfinished, hdoes⟩ := (ih (index + 1) later).mp hlater
        exact ⟨hfinished, .next now before hwork hdoes⟩
      · rintro ⟨rfl, _ | ⟨now, before, hwork, hdoes⟩⟩
        refine ⟨_, _, _, rfl, hwork, (Routine.runs_report_bind _ _ _ _).mpr ?_⟩
        exact ⟨now, before, _, rfl, (ih (index + 1) _).mpr ⟨rfl, hdoes⟩⟩

end Background

namespace Core

section Programs

variable {m : Type → Type u} [Monad m] [Reports m] [Tasks m]

/-- All that a dispatch does up to its final response, the way out included.  It ends without one
when a layer has failed on the way in. -/
def makeResponse (core : Core m) (endpoint : Option (Endpoint m)) (request : Request)
    (background : Queue) : m (Option (Request × Response)) := do
  match ← core.chain.runBefore request with
  | (_, some (.fatal _)) => return none
  | (request, some (.rejected completed e)) => do
    report ⟨.debug, "request rejected by middleware", [("status", toString e.status.code)]⟩
    let response ← core.handlers.translate request e
    let response ← core.finish completed request (.ok response)
    return some (request, response)
  | (request, none) => do
    let outcome ← core.respond endpoint request background
    let response ← core.finish core.chain.length request outcome
    return some (request, response)

/-- A dispatch makes its response, and then releases the background work. -/
theorem dispatch_eq_makeResponse [LawfulMonad m] (core : Core m) (endpoint : Option (Endpoint m))
    (request : Request) :
    core.dispatch endpoint request = (do
      let background ← Tasks.openQueue
      match ← core.makeResponse endpoint request background with
      | none => return .internalError
      | some (request, response) => do
        release request background
        return response) := by
  unfold dispatch makeResponse
  congr 1
  funext background
  rw [bind_assoc]
  congr 1
  funext entered
  obtain ⟨request, _ | _ | _⟩ := entered <;> simp only [bind_assoc, pure_bind]

end Programs

variable {σ : Type}

/-- What becomes of the work that is added to the queue of a dispatch.  The history begins with
the dispatch and goes on as long as one likes behind its end.  As long as nobody else releases the
queue, all work that is added before the dispatch does is done, and no other. -/
inductive Schedules (core : Core (Routine σ)) (endpoint : Option (Endpoint (Routine σ)))
    (request : Request) : List (Moment σ) → Outcome Response → Kernel σ → Prop where
  /-- No response was made, or none by the way out: the work stays where it is. -/
  | withheld {idle rest : List (Moment σ)} {opening : Moment σ} {background : Queue}
      {made : Outcome (Option (Request × Response))} {last : Kernel σ} :
      ownSteps idle = [] → opening.own = true → opening.step = .openQueue background →
      (core.makeResponse endpoint request background).Runs (ownSteps rest) made →
      (∀ response, made ≠ .finished (some response)) →
      ((∀ moment ∈ rest, ¬ moment.Releases background) →
        last.backlog background = ⟨added background rest, false⟩) →
      Schedules core endpoint request (idle ++ opening :: rest)
        (made.map fun _ => .internalError) last
  /-- The response was made, and then the work was released. -/
  | scheduled {idle making later : List (Moment σ)} {opening release : Moment σ}
      {background : Queue} {entered : Request} {response : Response} {last : Kernel σ} :
      ownSteps idle = [] → opening.own = true → opening.step = .openQueue background →
      (core.makeResponse endpoint request background).Runs (ownSteps making)
        (.finished (some (entered, response))) →
      release.own = true → release.Releases background →
      ((∀ moment ∈ making, ¬ moment.Releases background) →
        Drains background making release later last) →
      (∀ steps ended,
        (Background.runAll (added background making) : Routine σ Unit).Runs steps ended ↔
          ended = .finished () ∧
            Background.Does (added background making).length 0 (added background making) steps) →
      Schedules core endpoint request (idle ++ opening :: (making ++ release :: later))
        (.finished response) last

/-- The first thing that releasing does is to close the queue. -/
theorem exists_of_release {request : Request} {background : Queue} {steps : List (Step σ)}
    {outcome : Outcome Unit}
    (hruns : (release request background : Routine σ Unit).Runs steps outcome) :
    ∃ any reported, steps = .release background any :: reported := by
  have hasked : (Tasks.release background : Routine σ Bool).Finishes := by
    rintro _ _ ⟨any, _, _, -, -, -, rfl⟩
    exact ⟨any, rfl⟩
  unfold release at hruns
  obtain ⟨_, _, last, rfl, ⟨any, _, _, rfl, rfl, rfl, -⟩, -⟩ := hasked.of_bind hruns
  exact ⟨any, last, rfl⟩

/-- Every dispatch makes its response first and then releases its background work once.  The task
that this begins does all that was added before, in order and to the end; what is added later is
refused, and the queue begins nothing more. -/
theorem dispatch_schedules (core : Core (Routine σ)) (endpoint : Option (Endpoint (Routine σ)))
    (request : Request) {k last : Kernel σ} {history : List (Moment σ)}
    {outcome : Outcome Response} (hleads : k.Leads history last)
    (hruns : (core.dispatch endpoint request).Runs (ownSteps history) outcome) :
    Schedules core endpoint request history outcome last := by
  rw [dispatch_eq_makeResponse] at hruns
  obtain ⟨background, first, rest, hsteps, ⟨_, _, _, rfl, rfl, rfl, hqueue⟩, hrest⟩ :=
    finishes_openQueue.of_bind hruns
  rw [Outcome.finished.injEq] at hqueue
  subst hqueue
  obtain ⟨idle, opening, behind, rfl, hidle, hown, hopening, rfl⟩ :=
    exists_of_ownSteps_eq_cons hsteps
  obtain ⟨middle, -, hlater⟩ := hleads.split
  rw [Routine.runs_bind] at hrest
  rcases hrest with ⟨text, hpanic, rfl⟩ | ⟨made, making, closing, hsplit, hmaking, hclosing⟩
  · exact .withheld hidle hown hopening hpanic (by simp) fun hheld =>
      (hlater.holds hopening hheld).2.2
  cases made with
  | none =>
      obtain ⟨rfl, rfl⟩ := hclosing
      rw [List.append_nil] at hsplit
      rw [← hsplit] at hmaking
      exact .withheld hidle hown hopening hmaking (by simp) fun hheld =>
        (hlater.holds hopening hheld).2.2
  | some made =>
      obtain ⟨entered, response⟩ := made
      obtain ⟨_, released, _, rfl, hrelease, rfl, rfl⟩ :=
        (finishes_release background).of_bind hclosing
      obtain ⟨any, reported, rfl⟩ := exists_of_release hrelease
      rw [List.append_nil] at hsplit
      obtain ⟨before, rest, rfl, rfl, hrest⟩ := exists_of_ownSteps_eq_append hsplit
      obtain ⟨quiet, release, later, rfl, hquiet, hown', hstep, -⟩ :=
        exists_of_ownSteps_eq_cons hrest
      have hmade : ownSteps (before ++ quiet) = ownSteps before := by
        rw [ownSteps_append, hquiet, List.append_nil]
      rw [← hmade] at hmaking
      rw [← List.append_assoc] at hlater ⊢
      exact .scheduled hidle hown hopening hmaking hown' ⟨any, hstep⟩
        (fun hheld => hlater.drains hopening ⟨any, hstep⟩ hheld)
        fun steps ended => Background.runs_runFrom_iff _ _ 0 steps ended

/-! ## Work that fails, panics, and adds to the queue -/

/-- An endpoint whose handler adds work that fails, work that panics, and work that adds more. -/
def deferringEndpoint : Endpoint (Routine (List String)) where
  name := "deferring"
  handler context := do
    Background.add context.background do
      note "failing"
      return .error (.ofMessage "failed")
    Background.add context.background do
      note "panicking"
      Tasks.panic "broken"
    Background.add context.background do
      note "adding"
      Background.add context.background do
        note "added too late"
        return .ok ()
      return .ok ()
    note "handled"
    return .ok (.new .ok)

/-- A dispatch with this endpoint, up to its response. -/
def deferred : Option Response × World (List String) :=
  (World.new []).perform (notingCore.dispatch (some deferringEndpoint)
    { method := .get, path := "/" })

example : deferred.2.kernel.journal.state = ["handled", "after"] ∧
    deferred.2.settle.kernel.journal.state =
      ["handled", "after", "failing", "panicking", "adding"] := by
  decide +kernel

theorem dispatch_schedules_deferring :
    ∃ history response last, (World.new ([] : List String)).kernel.Leads history last ∧
      (notingCore.dispatch (some deferringEndpoint) { method := .get, path := "/" }).Runs
        (ownSteps history) (.finished response) ∧
      Schedules notingCore (some deferringEndpoint) { method := .get, path := "/" } history
        (.finished response) last := by
  have hperformed : deferred.1.isSome := by decide +kernel
  have haccounted := World.run_accounted (World.new [])
    (notingCore.dispatch (some deferringEndpoint) { method := .get, path := "/" })
  unfold deferred World.perform at hperformed
  split at hperformed
  next response w hrun =>
    rw [hrun] at haccounted
    obtain ⟨history, hleads, hruns⟩ := haccounted
    exact ⟨history, response, w.kernel, hleads, hruns,
      dispatch_schedules notingCore (some deferringEndpoint) _ hleads hruns⟩
  next => exact absurd hperformed (by simp)

end Core
end WebApp
