import Mathlib.Tactic
import WebApp.Proofs.Dependency.CallOrder
import WebApp.Proofs.Dispatch.Teardowns

/-!
# What is raised while a request is served

An error can be raised by the inputs of an endpoint, by a provider anywhere in the graph of
dependencies, by the handler, or by a teardown that panics before its own task has begun.  A panic
is raised as the error of the task that has ended with it, with the frames of the place where that
error is made.
-/

namespace WebApp

variable {σ : Type}

namespace Halt

/-- The error itself, or the error of a task that has ended with the panic. -/
def toError (frames : List String) : Halt → Error
  | .error e => e
  | .panic text => .ofPanic text frames

/-- How a task ends that is halted. -/
def outcome {α : Type} : Halt → Outcome (Except Error α)
  | .error e => .finished (.error e)
  | .panic text => .panicked text

end Halt

/-- A task whose result is an error has been halted. -/
theorem Outcome.Joins.exists_halt {α : Type} {ended : Outcome (Except Error α)}
    {steps : List (Step σ)} {e : Error} (hjoins : ended.Joins steps (.error e)) :
    ∃ halt frames, ended = Halt.outcome halt ∧ e = halt.toError frames := by
  cases hjoins with
  | finished => exact ⟨.error e, [], rfl, rfl⟩
  | panicked text _ journal => exact ⟨.panic text, journal.frames, rfl, rfl⟩

namespace Resolver

/-- A resolution that has failed has failed with its last call. -/
theorem Follows.exists_last {ds : List (Dependency (Routine σ))} {calls : List (Provision σ)}
    {halt : Halt} (hfollows : Follows ds calls (some halt)) :
    ∃ earlier last, calls = earlier ++ [last] ∧ resultOf last.outcome = .error halt := by
  generalize hsome : some halt = ended at hfollows
  induction hfollows with
  | done => simp at hsome
  | call provision _ _ ih =>
      obtain ⟨earlier, last, rfl, hlast⟩ := ih hsome
      exact ⟨provision :: earlier, last, rfl, hlast⟩
  | fail ds provision hfail =>
      rw [Option.some.injEq] at hsome
      subst hsome
      exact ⟨[], provision, rfl, hfail⟩

theorem eq_of_resultOf_error {outcome : Outcome (Except Error Datum)} {halt : Halt}
    (hresult : resultOf outcome = .error halt) : outcome = halt.outcome := by
  rcases outcome with ⟨e | value⟩ | text <;> simp only [resultOf, Except.error.injEq] at hresult
  · subst hresult
    rfl
  · simp at hresult
  · subst hresult
    rfl

end Resolver

namespace Scope

variable {τ : Type} {teardown : τ → Teardown (Routine σ)} {entries : List (String × τ)}
variable {releases : List (Release σ)} {handed : List (Step σ)}

theorem Closes.finished_of_finished
    (hcloses : Closes teardown entries releases handed (.finished ())) :
    (∀ release ∈ releases, release.outcome = .finished ()) ∧ handed = [] := by
  generalize hended : (Outcome.finished () : Outcome Unit) = ended at hcloses
  induction hcloses with
  | nil => exact ⟨by simp, rfl⟩
  | cons name entry release _ _ hrelease _ ih =>
      obtain ⟨hfinished, hhanded⟩ := ih hended
      exact ⟨List.forall_mem_cons.mpr ⟨hended ▸ hrelease, hfinished⟩, hhanded⟩
  | panic => simp at hended

/-- Where closing panics the last release that was begun has. -/
theorem Closes.exists_last {text : String}
    (hcloses : Closes teardown entries releases handed (.panicked text)) :
    ∃ earlier last, releases = earlier ++ [last] ∧ last.outcome = .panicked text := by
  generalize hended : (Outcome.panicked text : Outcome Unit) = ended at hcloses
  induction hcloses with
  | nil => simp at hended
  | cons name entry release _ _ _ _ ih =>
      obtain ⟨earlier, last, rfl, hlast⟩ := ih hended
      exact ⟨release :: earlier, last, rfl, hlast⟩
  | panic name entry release _ _ hpanicked _ =>
      rw [Outcome.panicked.injEq] at hended
      subst hended
      exact ⟨[], release, rfl, hpanicked⟩

end Scope

namespace Core

/-! ## What is raised -/

/-- With these steps an error or a panic is raised while a request is served; the frames are those
of the error that is made of a panic. -/
inductive Raises (core : Core (Routine σ)) (endpoint : Endpoint (Routine σ)) (request : Request)
    (background : Queue) : List (Step σ) → Halt → List String → Prop where
  | binding {e : HttpError} (frames : List String) :
      endpoint.bind request = .error e →
      Raises core endpoint request background [] (.error (.declared e)) frames
  | provider {arguments : Arguments} {earlier : List (Resolver.Provision σ)}
      {last : Resolver.Provision σ} {releases : List (Scope.Release σ)}
      {handed joining : List (Step σ)} {halt : Halt} {frames : List String} :
      endpoint.bind request = .ok arguments →
      Served core endpoint request arguments background (earlier ++ [last]) [] releases handed
        halt.outcome →
      (∃ reference ∈ endpoint.dependencies,
        Dependency.Needs reference.target last.dependency) →
      last.outcome = halt.outcome →
      (halt.outcome : Outcome (Except Error Response)).Joins joining
        (.error (halt.toError frames)) →
      (∀ release ∈ releases, release.outcome = .finished ()) →
      Raises core endpoint request background
        ((earlier ++ [last]).flatMap Resolver.Provision.steps ++
          releases.flatMap Scope.Release.steps ++ handed ++ joining) halt frames
  | handler {arguments : Arguments} {calls : List (Resolver.Provision σ)}
      {handling joining : List (Step σ)} {dependencies : Resolved}
      {releases : List (Scope.Release σ)} {halt : Halt} {frames : List String} :
      endpoint.bind request = .ok arguments →
      Served core endpoint request arguments background calls (handling ++ joining) releases []
        (.finished (.error (halt.toError frames))) →
      (endpoint.handler ⟨request, arguments, dependencies, background, core.state⟩).Runs handling
        halt.outcome →
      (halt.outcome : Outcome (Except Error Response)).Joins joining
        (.error (halt.toError frames)) →
      (∀ release ∈ releases, release.outcome = .finished ()) →
      Raises core endpoint request background
        (calls.flatMap Resolver.Provision.steps ++ (handling ++ joining) ++
          releases.flatMap Scope.Release.steps) halt frames
  | teardown {arguments : Arguments} {calls : List (Resolver.Provision σ)}
      {handling : List (Step σ)} {earlier : List (Scope.Release σ)} {last : Scope.Release σ}
      {handed joining : List (Step σ)} {text : String} {frames : List String} :
      endpoint.bind request = .ok arguments →
      Served core endpoint request arguments background calls handling (earlier ++ [last]) handed
        (.panicked text) →
      last.outcome = .panicked text →
      (Outcome.panicked text : Outcome (Except Error Response)).Joins joining
        (.error (.ofPanic text frames)) →
      Raises core endpoint request background
        (calls.flatMap Resolver.Provision.steps ++ handling ++
          (earlier ++ [last]).flatMap Scope.Release.steps ++ handed ++ joining) (.panic text) frames

section Classification

variable {core : Core (Routine σ)} {endpoint : Endpoint (Routine σ)} {request : Request}
variable {arguments : Arguments} {background : Queue} {taken : Nat}
variable {ds : List (Dependency (Routine σ))}

/-- Whatever a resolution of an endpoint fails with is the error of a provider. -/
theorem exists_provider (sound : Dependency.Sound taken ds)
    (hdependencies : ∀ reference ∈ endpoint.dependencies, reference.target ∈ ds)
    {calls : List (Resolver.Provision σ)} {halt : Halt} {ledger : Ledger}
    (hresolves : Resolver.ResolvesEach ⟨request, core.overrides⟩ [] endpoint.dependencies {} calls
      (.error halt) ledger) :
    ∃ earlier last, calls = earlier ++ [last] ∧
      (∃ reference ∈ endpoint.dependencies,
        Dependency.Needs reference.target last.dependency) ∧
      last.outcome = halt.outcome := by
  have hwalks := hresolves.walks sound hdependencies (fun _ _ id hid => absurd hid (by simp))
    (Resolver.settles_cache {})
  obtain ⟨earlier, last, hcalls, hlast⟩ := hwalks.1.exists_last
  have hneeded := hresolves.accounts.needed last (by simp [hcalls])
  exact ⟨earlier, last, hcalls, hneeded, Resolver.eq_of_resultOf_error hlast⟩

/-- Closing that panics is the panic of a teardown. -/
theorem raises_of_closes (hbind : endpoint.bind request = .ok arguments)
    {calls : List (Resolver.Provision σ)} {handling handed joining : List (Step σ)}
    {releases : List (Scope.Release σ)} {text : String} {frames : List String}
    {teardown : Holding → Teardown (Routine σ)} {entries : List (String × Holding)}
    (hserved : Served core endpoint request arguments background calls handling releases handed
      (.panicked text))
    (hcloses : Scope.Closes teardown entries releases handed (.panicked text))
    (hjoins : (Outcome.panicked text : Outcome (Except Error Response)).Joins joining
      (.error (.ofPanic text frames))) :
    Raises core endpoint request background
      (calls.flatMap Resolver.Provision.steps ++ handling ++
        releases.flatMap Scope.Release.steps ++ handed ++ joining) (.panic text) frames := by
  obtain ⟨before, last, rfl, hlast⟩ := hcloses.exists_last
  exact .teardown hbind hserved hlast hjoins

theorem Served.raises (sound : Dependency.Sound taken ds)
    (hdependencies : ∀ reference ∈ endpoint.dependencies, reference.target ∈ ds)
    (hbind : endpoint.bind request = .ok arguments) {calls : List (Resolver.Provision σ)}
    {handling handed joining : List (Step σ)} {releases : List (Scope.Release σ)}
    {ended : Outcome (Except Error Response)} {e : Error}
    (hserved : Served core endpoint request arguments background calls handling releases handed
      ended) (hjoins : ended.Joins joining (.error e)) :
    ∃ halt frames, e = halt.toError frames ∧
      Raises core endpoint request background
        (calls.flatMap Resolver.Provision.steps ++ handling ++
          releases.flatMap Scope.Release.steps ++ handed ++ joining) halt frames := by
  have hwhole := hserved
  cases hserved with
  | panicked hresolves _ =>
      obtain ⟨earlier, last, rfl, hneeded, hlast⟩ := exists_provider sound hdependencies hresolves
      cases hjoins with
      | panicked _ now journal =>
          refine ⟨.panic _, journal.frames, rfl, ?_⟩
          rw [List.append_nil]
          exact .provider hbind hwhole hneeded hlast (.panicked _ now journal) (by simp)
  | failed hresolves hcloses =>
      rename_i closed
      cases closed with
      | panicked text =>
          cases hjoins with
          | panicked _ now journal =>
              exact ⟨.panic text, journal.frames, rfl,
                raises_of_closes hbind hwhole hcloses (.panicked text now journal)⟩
      | finished =>
          obtain ⟨earlier, last, rfl, hneeded, hlast⟩ :=
            exists_provider sound hdependencies hresolves
          cases hjoins with
          | finished =>
              have hraises : Raises core endpoint request background _ (.error e) [] :=
                .provider hbind hwhole hneeded hlast (.finished (.error e))
                  hcloses.finished_of_finished.1
              exact ⟨.error e, [], rfl, by simpa using hraises⟩
  | handled hresolves hhandler hjoined hcloses =>
      rename_i closed
      cases closed with
      | panicked text =>
          cases hjoins with
          | panicked _ now journal =>
              exact ⟨.panic text, journal.frames, rfl,
                raises_of_closes hbind hwhole hcloses (.panicked text now journal)⟩
      | finished =>
          obtain ⟨hfinished, rfl⟩ := hcloses.finished_of_finished
          cases hjoins with
          | finished =>
              obtain ⟨halt, frames, rfl, rfl⟩ := hjoined.exists_halt
              refine ⟨halt, frames, rfl, ?_⟩
              rw [List.append_nil, List.append_nil]
              exact .handler hbind hwhole hhandler hjoined hfinished

/-- Serving a request comes to a response, or to an error that something has raised. -/
theorem invoke_raises (sound : Dependency.Sound taken ds)
    (hdependencies : ∀ reference ∈ endpoint.dependencies, reference.target ∈ ds)
    {steps : List (Step σ)} {e : Error}
    (hruns : (core.invoke endpoint request background).Runs steps (.finished (.error e))) :
    ∃ halt frames, e = halt.toError frames ∧
      Raises core endpoint request background steps halt frames := by
  unfold invoke at hruns
  cases hbind : endpoint.bind request with
  | error declared =>
      rw [hbind] at hruns
      obtain ⟨rfl, hended⟩ := hruns
      rw [Outcome.finished.injEq, Except.error.injEq] at hended
      subst hended
      exact ⟨.error (.declared declared), [], rfl, .binding [] hbind⟩
  | ok arguments =>
      rw [hbind] at hruns
      obtain ⟨serving, joining, ended, result, rfl, hserve, hjoins, hresult⟩ :=
        (Routine.runs_await_join _ _ _).mp hruns
      rw [Outcome.finished.injEq] at hresult
      subst hresult
      obtain ⟨calls, handling, releases, handed, rfl, hserved⟩ :=
        serve_served core endpoint request arguments background hserve
      exact hserved.raises sound hdependencies hbind hjoins

end Classification

end Core
end WebApp
