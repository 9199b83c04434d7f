import Mathlib.Tactic
import WebApp.Proofs.Dispatch.Teardowns

/-!
# What teardowns can do to the outcome

A request is served in two parts: what resolves the dependencies and calls the handler, and what
winds up the scope with the outcome of the first part in its hands.  A teardown runs in a task of
its own, whose panic is reported and changes nothing.  But the teardown is called before that task
has begun, and a panic of the call takes the place of the outcome.
-/

namespace WebApp

universe u

/-- The teardown comes to its end, and so does what calls it. -/
structure Teardown.Succeeds {σ : Type} (teardown : Teardown (Routine σ)) : Prop where
  called : teardown.prepare.Finishes
  ended : teardown.run.Finishes

namespace Scope

variable {σ : Type}

/-- A release panics when the teardown is called, and not later. -/
theorem Release.exists_call_of_panicked (release : Release σ) {text : String}
    (hpanicked : release.outcome = .panicked text) :
    ∃ reported called, release.steps = reported ++ called ∧
      release.teardown.prepare.Runs called (.panicked text) := by
  have hruns := release.runs
  rw [hpanicked, runTeardown] at hruns
  obtain ⟨_, reported, called, hsteps, -, hcall⟩ := (Routine.finishes_report _).of_bind hruns
  rw [Routine.runs_bind] at hcall
  rcases hcall with ⟨_, hpanic, hsame⟩ | ⟨_, _, waited, -, -, hwait⟩
  · rw [Outcome.panicked.injEq] at hsame
    exact ⟨reported, called, hsteps, hsame ▸ hpanic⟩
  · -- What follows the call always ends.
    obtain ⟨ended, _, last, -, -, hlast⟩ := (Routine.runs_await_bind _ _ _ _).mp hwait
    cases ended with
    | finished value => exact absurd hlast.2 (by simp)
    | panicked _ =>
        obtain ⟨_, hnever⟩ := Routine.finishes_report _ _ _ hlast
        exact absurd hnever (by simp)

section Closing

variable {τ : Type} {teardown : τ → Teardown (Routine σ)} {entries : List (String × τ)}
variable {releases : List (Release σ)} {handed : List (Step σ)} {closed : Outcome Unit}

/-- Closing panics with what a release has panicked with, and with nothing else. -/
theorem Closes.eq_panicked_iff (hcloses : Closes teardown entries releases handed closed)
    (text : String) :
    closed = .panicked text ↔ ∃ release ∈ releases, release.outcome = .panicked text := by
  induction hcloses with
  | nil => simp
  | cons name entry release _ _ hfinished _ ih => simp [ih, hfinished]
  | panic name entry release _ _ hpanicked _ => simp [hpanicked]

/-- What is released are teardowns of entries. -/
theorem Closes.exists_entry (hcloses : Closes teardown entries releases handed closed)
    {release : Release σ} (hrelease : release ∈ releases) :
    ∃ entry ∈ entries, release.teardown = teardown entry.2 := by
  obtain ⟨rest, hentries, -⟩ := hcloses.exists_dropped
  have hmem : (release.name, release.teardown) ∈
      entries.map fun entry => (entry.1, teardown entry.2) := by
    rw [hentries]
    exact List.mem_append_left _ (List.mem_map_of_mem hrelease)
  obtain ⟨entry, hentry, hsame⟩ := List.mem_map.mp hmem
  exact ⟨entry, hentry, (Prod.ext_iff.mp hsame).2.symm⟩

end Closing

end Scope

namespace Core

section Parts

variable {m : Type → Type u} [Monad m] [Reports m] [Tasks m]

/-- Resolves the dependencies and calls the handler; gives what that came to, and what is held. -/
def work (core : Core m) (endpoint : Endpoint m) (request : Request) (arguments : Arguments)
    (background : Queue) : m (Outcome (Except Error Response) × Scope Holding) := do
  let setting : Resolver.Setting := ⟨request, core.overrides⟩
  match ← ((Resolver.resolve setting endpoint.dependencies).run.run {} : m _) with
  | (.error (.panic text), ledger) => return (.panicked text, ledger.scope)
  | (.error (.error e), ledger) => return (.finished (.error e), ledger.scope)
  | (.ok dependencies, ledger) => do
    let outcome ← callHandler endpoint
      ⟨request, arguments, dependencies, background, core.state⟩
    return (.finished outcome, ledger.scope)

/-- Releases what is held; a panic goes on, another outcome is given once all is released. -/
def windUp (teardown : Holding → Teardown m) (scope : Scope Holding) :
    Outcome (Except Error Response) → m (Except Error Response)
  | .panicked text => do
    scope.drop teardown
    Tasks.panic text
  | .finished outcome => do
    scope.close teardown
    return outcome

/-- The teardowns have no part in the first part of serving a request. -/
theorem serve_eq [LawfulMonad m] (core : Core m) (endpoint : Endpoint m) (request : Request)
    (arguments : Arguments) (background : Queue) :
    core.serve endpoint request arguments background = (do
      let (worked, scope) ← core.work endpoint request arguments background
      windUp (Dependency.teardownAmong endpoint.dependencies) scope worked) := by
  simp only [serve, work, bind_assoc]
  congr 1
  funext resolved
  obtain ⟨⟨_ | text⟩ | dependencies, ledger⟩ := resolved
  · simp [windUp]
  · simp [windUp]
  · simp only [bind_assoc, pure_bind, windUp]

end Parts

variable {σ : Type}

theorem finishes_work (core : Core (Routine σ)) (endpoint : Endpoint (Routine σ))
    (request : Request) (arguments : Arguments) (background : Queue) :
    (core.work endpoint request arguments background).Finishes := by
  intro steps outcome hruns
  obtain ⟨_, result, ledger, rest, -, -, hrest⟩ := Resolver.ComesTo.follow
    (Resolver.resolve_comesTo ⟨request, core.overrides⟩ endpoint.dependencies {}) hruns
  rcases result with ⟨_ | text⟩ | dependencies
  · exact ⟨_, hrest.2⟩
  · exact ⟨_, hrest.2⟩
  · obtain ⟨_, _, _, -, -, hlast⟩ := (finishes_callHandler _ _).of_bind hrest
    exact ⟨_, hlast.2⟩

/-! ## Winding up -/

/-- What winding up comes to: the teardowns that were begun, the steps that hand the others over,
and the end. -/
inductive WindsUp (teardown : Holding → Teardown (Routine σ)) (scope : Scope Holding) :
    Outcome (Except Error Response) → List (Scope.Release σ) → List (Step σ) →
    Outcome (Except Error Response) → Prop where
  | dropped {text : String} {handed : List (Step σ)} :
      (scope.drop teardown).Runs handed (.finished ()) →
      WindsUp teardown scope (.panicked text) [] handed (.panicked text)
  | closed {outcome : Except Error Response} {releases : List (Scope.Release σ)}
      {handed : List (Step σ)} {closed : Outcome Unit} :
      Scope.Closes teardown scope.entries releases handed closed →
      WindsUp teardown scope (.finished outcome) releases handed (afterwards outcome closed)

section WindingUp

variable {teardown : Holding → Teardown (Routine σ)} {scope : Scope Holding}
variable {worked served : Outcome (Except Error Response)}

theorem windUp_windsUp {steps : List (Step σ)}
    (hruns : (windUp teardown scope worked).Runs steps served) :
    ∃ releases handed, steps = releases.flatMap Scope.Release.steps ++ handed ∧
      WindsUp teardown scope worked releases handed served := by
  cases worked with
  | panicked text =>
      rw [windUp, Routine.runs_bind] at hruns
      rcases hruns with ⟨_, hpanic, -⟩ | ⟨_, handed, nothing, rfl, hdrop, rfl, rfl⟩
      · exact absurd (Scope.runs_dropEntries _ hpanic).1 (by simp)
      · exact ⟨[], handed, by simp, .dropped hdrop⟩
  | finished outcome =>
      obtain ⟨releases, handed, closed, rfl, hcloses, rfl⟩ :=
        close_then teardown scope outcome hruns
      exact ⟨releases, handed, rfl, .closed hcloses⟩

/-- The outcome is kept exactly when no call of a teardown panics with another one. -/
theorem WindsUp.result_eq_iff {releases : List (Scope.Release σ)} {handed : List (Step σ)}
    (hwinds : WindsUp teardown scope worked releases handed served) (frames : List String) :
    served.result frames = worked.result frames ↔
      ∀ release ∈ releases, ∀ text, release.outcome = .panicked text →
        worked.result frames = .error (.ofPanic text frames) := by
  cases hwinds with
  | dropped => simp
  | @closed outcome _ _ closed hcloses =>
      have hall : (∀ release ∈ releases, ∀ text, release.outcome = .panicked text →
            outcome = .error (.ofPanic text frames)) ↔
          ∀ text, closed = .panicked text → outcome = .error (.ofPanic text frames) := by
        simp only [hcloses.eq_panicked_iff, forall_exists_index, and_imp]
        exact ⟨fun h text release hmem => h release hmem text,
          fun h release hmem text => h text release hmem⟩
      change _ ↔ ∀ release ∈ releases, ∀ text, release.outcome = .panicked text →
        outcome = .error (.ofPanic text frames)
      rw [hall]
      cases closed with
      | finished value => simp [afterwards, Outcome.result]
      | panicked text => simp [afterwards, Outcome.result, eq_comm]

/-- Teardowns whose calls do not panic keep the outcome, however their own tasks end. -/
theorem result_eq_of_called (hcalled : ∀ holding, (teardown holding).prepare.Finishes)
    {steps : List (Step σ)} (hruns : (windUp teardown scope worked).Runs steps served)
    (frames : List String) : served.result frames = worked.result frames := by
  obtain ⟨releases, handed, -, hwinds⟩ := windUp_windsUp hruns
  rw [hwinds.result_eq_iff]
  intro release hrelease text hpanicked
  cases hwinds with
  | dropped => simp at hrelease
  | closed hcloses =>
      obtain ⟨entry, -, hteardown⟩ := hcloses.exists_entry hrelease
      obtain ⟨_, called, -, hcall⟩ := release.exists_call_of_panicked hpanicked
      rw [hteardown] at hcall
      obtain ⟨_, hnever⟩ := hcalled _ _ _ hcall
      exact absurd hnever (by simp)

end WindingUp

/-! ## Whole dispatches -/

/-- A dispatch that comes to its endpoint.  `worked` is what resolution and handler have come to,
and `served` what is left of that when the scope is wound up: from this the response is made, with
the frames of the moment at which a panic becomes an error. -/
structure Serving (core : Core (Routine σ)) (endpoint : Endpoint (Routine σ)) (request : Request)
    (steps : List (Step σ)) (outcome : Outcome Response) : Type 1 where
  background : Queue
  entered : Request
  arguments : Arguments
  scope : Scope Holding
  worked : Outcome (Except Error Response)
  served : Outcome (Except Error Response)
  releases : List (Scope.Release σ)
  opening : List (Step σ)
  working : List (Step σ)
  handed : List (Step σ)
  joining : List (Step σ)
  frames : List String
  closing : List (Step σ)
  steps_eq : steps =
    opening ++ working ++ releases.flatMap Scope.Release.steps ++ handed ++ joining ++ closing
  enters : (core.wayIn request).Runs opening (.finished (background, entered, none))
  binds : endpoint.bind entered = .ok arguments
  works : (core.work endpoint entered arguments background).Runs working
    (.finished (worked, scope))
  windsUp : WindsUp (Dependency.teardownAmong endpoint.dependencies) scope worked releases handed
    served
  joins : served.Joins joining (served.result frames)
  concludes : (core.conclude entered background (served.result frames)).Runs closing outcome

theorem dispatch_serving (core : Core (Routine σ)) (endpoint : Endpoint (Routine σ))
    (request : Request) {steps : List (Step σ)} {outcome : Outcome Response}
    (hruns : (core.dispatch (some endpoint) request).Runs steps outcome) :
    Unserved core endpoint request steps outcome ∨
      Nonempty (Serving core endpoint request steps outcome) := by
  rcases unserved_or_serves core endpoint request hruns with hunserved |
    ⟨background, entered, arguments, opening, serving, joining, closing, served, result, rfl,
      henters, hbinds, hserve, hjoins, hconcludes⟩
  · exact .inl hunserved
  · rw [serve_eq] at hserve
    obtain ⟨⟨worked, scope⟩, working, winding, rfl, hworks, hwind⟩ :=
      (finishes_work core endpoint entered arguments background).of_bind hserve
    obtain ⟨releases, handed, rfl, hwindsUp⟩ := windUp_windsUp hwind
    obtain ⟨frames, rfl⟩ := hjoins.exists_frames
    exact .inr ⟨{
      background, entered, arguments, scope, worked, served, releases, opening, working, handed,
      joining, frames, closing, steps_eq := by simp, enters := henters, binds := hbinds,
      works := hworks, windsUp := hwindsUp, joins := hjoins, concludes := hconcludes }⟩

/-- With teardowns that succeed, the response is made from what resolution and handler have come
to.  With others it is so exactly when none of them panics as it is called, unless the dispatch has
panicked in the same words before; how the tasks of the teardowns end makes no difference. -/
theorem dispatch_keeps_iff (core : Core (Routine σ)) (endpoint : Endpoint (Routine σ))
    (request : Request) {steps : List (Step σ)} {outcome : Outcome Response}
    (hruns : (core.dispatch (some endpoint) request).Runs steps outcome) :
    (Unserved core endpoint request steps outcome ∨
      Nonempty (Serving core endpoint request steps outcome)) ∧
    ∀ s : Serving core endpoint request steps outcome,
      (∀ teardown : Holding → Teardown (Routine σ), (∀ holding, (teardown holding).Succeeds) →
        ∀ winding served, (windUp teardown s.scope s.worked).Runs winding served →
          served.result s.frames = s.worked.result s.frames) ∧
      (∀ release ∈ s.releases, ∀ text, release.outcome = .panicked text →
        ∃ reported called, release.steps = reported ++ called ∧
          release.teardown.prepare.Runs called (.panicked text)) ∧
      (s.served.result s.frames = s.worked.result s.frames ↔
        ∀ release ∈ s.releases, ∀ text, release.outcome = .panicked text →
          s.worked.result s.frames = .error (.ofPanic text s.frames)) := by
  refine ⟨dispatch_serving core endpoint request hruns, fun s => ⟨?_, ?_, ?_⟩⟩
  · intro teardown hsucceeds winding served hwind
    exact result_eq_of_called (fun holding => (hsucceeds holding).called) hwind s.frames
  · intro release _ text hpanicked
    exact release.exists_call_of_panicked hpanicked
  · exact s.windsUp.result_eq_iff s.frames

/-! ## A teardown that panics -/

/-- A scoped dependency with this teardown. -/
def heldWith (teardown : Teardown (Routine (List String))) : Dependency (Routine (List String)) :=
  .node ⟨0⟩ "held" {
    provide := fun _ => pure (.ok (.text "held"))
    release := some fun _ => teardown } []

/-- An endpoint that needs the dependency, and whose handler succeeds. -/
def holdingEndpoint (teardown : Teardown (Routine (List String))) :
    Endpoint (Routine (List String)) :=
  notingEndpoint [⟨"held", heldWith teardown, true⟩]

/-- The status of the response, if there is one. -/
def status? (teardown : Teardown (Routine (List String))) : Option Nat :=
  match (World.new []).run (notingCore.dispatch (some (holdingEndpoint teardown))
    { method := .get, path := "/" }) with
  | (.ended (.finished response), _) => some response.status.code
  | _ => none

/-- A dispatch with a teardown whose task panics. -/
theorem dispatch_keeps_breaking :
    ∃ steps outcome, (notingCore.dispatch
        (some (holdingEndpoint ⟨pure (), Tasks.panic "broken"⟩))
        { method := .get, path := "/" }).Runs steps outcome ∧
      ∀ s : Serving notingCore (holdingEndpoint ⟨pure (), Tasks.panic "broken"⟩)
          { method := .get, path := "/" } steps outcome,
        (s.served.result s.frames = s.worked.result s.frames ↔
          ∀ release ∈ s.releases, ∀ text, release.outcome = .panicked text →
            s.worked.result s.frames = .error (.ofPanic text s.frames)) := by
  obtain ⟨steps, outcome, hruns⟩ := Routine.exists_runs { state := [] }
    (notingCore.dispatch (some (holdingEndpoint ⟨pure (), Tasks.panic "broken"⟩))
      { method := .get, path := "/" })
  exact ⟨steps, outcome, hruns, fun s => ((dispatch_keeps_iff notingCore _ _ hruns).2 s).2.2⟩

/-- A teardown that panics in its own task leaves the response of the handler alone, as one does
that succeeds.  When it panics as it is called, the client gets an error instead. -/
theorem status_of_panicking_call :
    (⟨pure (), pure ()⟩ : Teardown (Routine (List String))).Succeeds ∧
      status? ⟨pure (), pure ()⟩ = some 200 ∧
      status? ⟨pure (), Tasks.panic "broken"⟩ = some 200 ∧
      status? ⟨Tasks.panic "broken", pure ()⟩ = some 500 := by
  refine ⟨⟨?_, ?_⟩, by decide +kernel, by decide +kernel, by decide +kernel⟩
  · exact fun _ _ hruns => ⟨(), hruns.2⟩
  · exact fun _ _ hruns => ⟨(), hruns.2⟩

end Core
end WebApp
