import Mathlib.Tactic
import WebApp.Dispatch
import WebApp.Proofs.Dependency.ResolverRuns
import WebApp.Proofs.Dependency.ScopeRuns
import WebApp.Task.World

/-!
# Teardowns of a dispatch

A dispatch runs its phases one after another: the way in, the calls of providers, the handler,
the teardowns, and then what makes the response, the way out included.  The teardowns are those
of the scoped calls that succeeded, the last one first, and each is waited for.  Only a panic of
a provider, or of a teardown before its own task has begun, breaks this: what is left is then
handed to a task that the dispatch does not wait for.
-/

namespace WebApp
namespace Core

universe u

section Phases

variable {m : Type → Type u} [Monad m] [Reports m] [Tasks m]

/-- The way in, with the queue for background work. -/
def wayIn (core : Core m) (request : Request) : m (Queue × Request × Option Refusal) := do
  let background ← Tasks.openQueue
  let (request, refusal) ← core.chain.runBefore request
  return (background, request, refusal)

/-- The answer to a request that a layer did not let pass. -/
def turnAway (core : Core m) (request : Request) (background : Queue) : Refusal → m Response
  | .fatal _ => return .internalError
  | .rejected completed e => do
    report ⟨.debug, "request rejected by middleware", [("status", toString e.status.code)]⟩
    let response ← core.handlers.translate request e
    let response ← core.finish completed request (.ok response)
    release request background
    return response

/-- The response that an endpoint gave, or the answer to its error. -/
def answered (core : Core m) (request : Request) :
    Except Error Response → m (Except HookFailure Response)
  | .ok response => do return .ok (← core.answerStatus request response)
  | .error e => core.answerError request e e.defaultResponse

/-- What makes the response out of what serving a request came to: errors are answered, and the
response takes the way out. -/
def conclude (core : Core m) (request : Request) (background : Queue)
    (served : Except Error Response) : m Response := do
  let answered ← core.answered request served
  let response ← core.finish core.chain.length request answered
  release request background
  return response

theorem dispatch_eq [LawfulMonad m] (core : Core m) (endpoint : Endpoint m) (request : Request) :
    core.dispatch (some endpoint) request = (do
      let (background, request, refusal) ← core.wayIn request
      match refusal with
      | some refusal => core.turnAway request background refusal
      | none =>
        match endpoint.bind request with
        | .error e => core.conclude request background (.error (.declared e))
        | .ok arguments =>
          let served ← Tasks.await (core.serve endpoint request arguments background)
          core.conclude request background (← served.join)) := by
  simp only [dispatch, wayIn, bind_assoc, pure_bind]
  congr 1
  funext background
  congr 1
  funext entered
  obtain ⟨request, refusal⟩ := entered
  cases refusal with
  | some refusal => cases refusal <;> rfl
  | none =>
      simp only [respond, invoke, conclude]
      cases endpoint.bind request with
      | error e => simp [answered]
      | ok arguments =>
          simp only [bind_assoc]
          congr 1

end Phases

variable {σ : Type}

/-- The end of one thing, with what it comes to for another. -/
def afterwards {α : Type} (value : α) : Outcome Unit → Outcome α
  | .finished () => .finished value
  | .panicked text => .panicked text

/-- What serving a request comes to: the calls of providers, the steps of the handler with those
that tell how it has ended, the teardowns that were begun, the steps that hand the others over, and
the end. -/
inductive Served (core : Core (Routine σ)) (endpoint : Endpoint (Routine σ)) (request : Request)
    (arguments : Arguments) (background : Queue) :
    List (Resolver.Provision σ) → List (Step σ) → List (Scope.Release σ) → List (Step σ) →
    Outcome (Except Error Response) → Prop where
  | panicked {calls : List (Resolver.Provision σ)} {ledger : Ledger} {text : String}
      {handed : List (Step σ)} :
      Resolver.ResolvesEach ⟨request, core.overrides⟩ [] endpoint.dependencies {} calls
        (.error (.panic text)) ledger →
      (ledger.scope.drop (Dependency.teardownAmong endpoint.dependencies)).Runs handed
        (.finished ()) →
      Served core endpoint request arguments background calls [] [] handed (.panicked text)
  | failed {calls : List (Resolver.Provision σ)} {ledger : Ledger} {e : Error}
      {releases : List (Scope.Release σ)} {handed : List (Step σ)} {closed : Outcome Unit} :
      Resolver.ResolvesEach ⟨request, core.overrides⟩ [] endpoint.dependencies {} calls
        (.error (.error e)) ledger →
      Scope.Closes (Dependency.teardownAmong endpoint.dependencies) ledger.scope.entries releases
        handed closed →
      Served core endpoint request arguments background calls [] releases handed
        (afterwards (.error e) closed)
  | handled {calls : List (Resolver.Provision σ)} {ledger : Ledger}
      {entries : List (String × Datum)} {handling joining : List (Step σ)}
      {ended : Outcome (Except Error Response)} {result : Except Error Response}
      {releases : List (Scope.Release σ)} {handed : List (Step σ)} {closed : Outcome Unit} :
      Resolver.ResolvesEach ⟨request, core.overrides⟩ [] endpoint.dependencies {} calls
        (.ok entries) ledger →
      (endpoint.handler ⟨request, arguments, .ofList entries, background, core.state⟩).Runs
        handling ended →
      ended.Joins joining result →
      Scope.Closes (Dependency.teardownAmong endpoint.dependencies) ledger.scope.entries releases
        handed closed →
      Served core endpoint request arguments background calls (handling ++ joining) releases handed
        (afterwards result closed)

/-- Closing a scope and then giving a value. -/
theorem close_then {α : Type} (teardown : Holding → Teardown (Routine σ)) (scope : Scope Holding)
    (value : α) {steps : List (Step σ)} {outcome : Outcome α}
    (hruns : (scope.close teardown >>= fun _ => (pure value : Routine σ α)).Runs steps outcome) :
    ∃ releases handed closed, steps = releases.flatMap Scope.Release.steps ++ handed ∧
      Scope.Closes teardown scope.entries releases handed closed ∧
      outcome = afterwards value closed := by
  rw [Routine.runs_bind] at hruns
  rcases hruns with ⟨text, hpanic, rfl⟩ | ⟨_, first, nothing, rfl, hclose, rfl, rfl⟩
  · obtain ⟨releases, handed, rfl, hcloses⟩ := Scope.closeEntries_closes teardown _ hpanic
    exact ⟨releases, handed, _, rfl, hcloses, rfl⟩
  · obtain ⟨releases, handed, rfl, hcloses⟩ := Scope.closeEntries_closes teardown _ hclose
    exact ⟨releases, handed, _, by simp, hcloses, rfl⟩

/-- The handler runs in a task of its own, whose panic is an error. -/
theorem runs_callHandler (endpoint : Endpoint (Routine σ)) (context : Context)
    {steps : List (Step σ)} {outcome : Outcome (Except Error Response)}
    (hruns : (callHandler endpoint context).Runs steps outcome) :
    ∃ handling joining ended result, steps = handling ++ joining ∧
      (endpoint.handler context).Runs handling ended ∧ ended.Joins joining result ∧
      outcome = .finished result :=
  (Routine.runs_await_join _ _ _).mp hruns

theorem finishes_callHandler (endpoint : Endpoint (Routine σ)) (context : Context) :
    (callHandler endpoint context).Finishes := by
  intro steps outcome hruns
  obtain ⟨_, _, _, result, -, -, -, houtcome⟩ := runs_callHandler endpoint context hruns
  exact ⟨result, houtcome⟩

theorem serve_served (core : Core (Routine σ)) (endpoint : Endpoint (Routine σ))
    (request : Request) (arguments : Arguments) (background : Queue) {steps : List (Step σ)}
    {outcome : Outcome (Except Error Response)}
    (hruns : (core.serve endpoint request arguments background).Runs steps outcome) :
    ∃ calls handling releases handed,
      steps = calls.flatMap Resolver.Provision.steps ++ handling ++
        releases.flatMap Scope.Release.steps ++ handed ∧
      Served core endpoint request arguments background calls handling releases handed outcome := by
  obtain ⟨calls, _, ledger, rest, ⟨entries, hresolves, rfl⟩, rfl, hrest⟩ :=
    Resolver.ComesTo.follow
      (Resolver.resolve_comesTo ⟨request, core.overrides⟩ endpoint.dependencies {}) hruns
  cases entries with
  | error halt =>
      cases halt with
      | panic text =>
          dsimp only [Except.map] at hrest
          rw [Routine.runs_bind] at hrest
          rcases hrest with ⟨_, hpanic, -⟩ | ⟨_, handed, nothing, rfl, hdrop, rfl, rfl⟩
          · exact absurd (Scope.runs_dropEntries _ hpanic).1 (by simp)
          · exact ⟨calls, [], [], handed, by simp, .panicked hresolves hdrop⟩
      | error e =>
          obtain ⟨releases, handed, closed, rfl, hcloses, rfl⟩ := close_then _ _ _ hrest
          exact ⟨calls, [], releases, handed, by simp, .failed hresolves hcloses⟩
  | ok entries =>
      dsimp only [Except.map] at hrest
      obtain ⟨_, called, last, rfl, hhandler, hlast⟩ :=
        (finishes_callHandler _ _).of_bind hrest
      obtain ⟨handling, joining, ended, result, rfl, hended, hjoins, hsame⟩ :=
        runs_callHandler _ _ hhandler
      rw [Outcome.finished.injEq] at hsame
      subst hsame
      obtain ⟨releases, handed, closed, rfl, hcloses, rfl⟩ := close_then _ _ _ hlast
      exact ⟨calls, handling ++ joining, releases, handed, by simp,
        .handled hresolves hended hjoins hcloses⟩

/-! ## Which teardowns are waited for -/

/-- The teardowns of all scoped calls that succeeded have come to their end, the last call's
first, and nothing was handed over. -/
def Released (calls : List (Resolver.Provision σ)) (releases : List (Scope.Release σ))
    (handed : List (Step σ)) : Prop :=
  releases.map (fun release => (release.name, release.teardown)) =
      (calls.filterMap Resolver.Provision.teardown?).reverse ∧
    (∀ release ∈ releases, release.outcome = .finished ()) ∧ handed = []

section Ends

variable {taken : Nat} {ds : List (Dependency (Routine σ))}
variable {references : List (Reference (Dependency (Routine σ)))}
variable {setting : Resolver.Setting} {calls : List (Resolver.Provision σ)}
variable {result : Except Halt (List (String × Datum))} {ledger : Ledger}
variable {handed : List (Step σ)}

/-- After a resolution the scope holds the teardowns of its calls, the last one first. -/
theorem teardowns_of_resolves (sound : Dependency.Sound taken ds)
    (hreferences : ∀ reference ∈ references, reference.target ∈ ds)
    (hresolves : Resolver.ResolvesEach setting [] references {} calls result ledger) :
    ledger.scope.entries.map
        (fun entry => (entry.1, Dependency.teardownAmong references entry.2)) =
      (calls.filterMap Resolver.Provision.teardown?).reverse := by
  have haccounts := hresolves.accounts
  rw [haccounts.entries, List.append_nil, List.map_reverse,
    Resolver.teardowns_of_entries sound hreferences haccounts.needed]

/-- Where no call has panicked the scope is closed. -/
theorem released_iff_of_closes (sound : Dependency.Sound taken ds)
    (hreferences : ∀ reference ∈ references, reference.target ∈ ds)
    (hresolves : Resolver.ResolvesEach setting [] references {} calls result ledger)
    (hresult : ∀ text, result ≠ .error (.panic text)) {releases : List (Scope.Release σ)}
    {closed : Outcome Unit}
    (hcloses : Scope.Closes (Dependency.teardownAmong references) ledger.scope.entries releases
      handed closed) :
    Released calls releases handed ↔
      ((∀ call ∈ calls, call.teardown? = none) ∨ ∀ call ∈ calls, ¬ call.Panicked) ∧
        ∀ release ∈ releases, release.outcome = .finished () := by
  have hquiet : ∀ call ∈ calls, ¬ call.Panicked := by
    intro call hcall hpanicked
    obtain ⟨text, htext⟩ := hresolves.accounts.panics.mpr ⟨call, hcall, hpanicked⟩
    exact hresult text htext
  rw [Released, ← teardowns_of_resolves sound hreferences hresolves, hcloses.released_iff]
  constructor
  · exact fun hfinished => ⟨.inr hquiet, hfinished⟩
  · exact fun h => h.2

/-- Where a call has panicked the scope is given up, and what it holds is handed over. -/
theorem released_iff_of_drop (sound : Dependency.Sound taken ds)
    (hreferences : ∀ reference ∈ references, reference.target ∈ ds) {text : String}
    (hresolves : Resolver.ResolvesEach setting [] references {} calls (.error (.panic text)) ledger)
    (hdrop : (ledger.scope.drop (Dependency.teardownAmong references)).Runs handed
      (.finished ())) :
    Released calls [] handed ↔
      ((∀ call ∈ calls, call.teardown? = none) ∨ ∀ call ∈ calls, ¬ call.Panicked) ∧
        ∀ release ∈ ([] : List (Scope.Release σ)), release.outcome = .finished () := by
  obtain ⟨call, hcall, hpanicked⟩ := hresolves.accounts.panics.mp ⟨_, rfl⟩
  have hnoisy : ¬ ∀ call ∈ calls, ¬ call.Panicked := fun h => h call hcall hpanicked
  have hnone : (∀ call ∈ calls, call.teardown? = none) ↔
      calls.filterMap Resolver.Provision.teardown? = [] := by
    rw [List.filterMap_eq_nil_iff]
  have hheld := teardowns_of_resolves sound hreferences hresolves
  rw [hnone, Released]
  rcases (Scope.runs_dropEntries _ hdrop).2 with ⟨hempty, rfl⟩ | ⟨hpending, _, _, _, rfl⟩
  · rw [hempty, List.map_nil, eq_comm, List.reverse_eq_nil_iff] at hheld
    simp [hheld]
  · have hteardowns : calls.filterMap Resolver.Provision.teardown? ≠ [] := by
      intro hteardowns
      rw [hteardowns, List.reverse_nil, List.map_eq_nil_iff] at hheld
      exact hpending hheld
    simp [hteardowns, hnoisy]

theorem Served.released_iff (sound : Dependency.Sound taken ds) {core : Core (Routine σ)}
    {endpoint : Endpoint (Routine σ)}
    (hdependencies : ∀ reference ∈ endpoint.dependencies, reference.target ∈ ds)
    {request : Request} {arguments : Arguments} {background : Queue} {handling : List (Step σ)}
    {releases : List (Scope.Release σ)} {outcome : Outcome (Except Error Response)}
    (hserved : Served core endpoint request arguments background calls handling releases handed
      outcome) :
    Released calls releases handed ↔
      ((∀ call ∈ calls, call.teardown? = none) ∨ ∀ call ∈ calls, ¬ call.Panicked) ∧
        ∀ release ∈ releases, release.outcome = .finished () := by
  cases hserved with
  | panicked hresolves hdrop => exact released_iff_of_drop sound hdependencies hresolves hdrop
  | failed hresolves hcloses =>
      exact released_iff_of_closes sound hdependencies hresolves (by simp) hcloses
  | handled hresolves _ _ hcloses =>
      exact released_iff_of_closes sound hdependencies hresolves (by simp) hcloses

end Ends

/-! ## Whole dispatches -/

/-- A dispatch that does not come to its endpoint, so that nothing is held. -/
inductive Unserved (core : Core (Routine σ)) (endpoint : Endpoint (Routine σ))
    (request : Request) : List (Step σ) → Outcome Response → Prop where
  | broken {opening : List (Step σ)} {text : String} :
      (core.wayIn request).Runs opening (.panicked text) →
      Unserved core endpoint request opening (.panicked text)
  | turnedAway {opening closing : List (Step σ)} {background : Queue} {entered : Request}
      {refusal : Refusal} {outcome : Outcome Response} :
      (core.wayIn request).Runs opening (.finished (background, entered, some refusal)) →
      (core.turnAway entered background refusal).Runs closing outcome →
      Unserved core endpoint request (opening ++ closing) outcome
  | unbound {opening closing : List (Step σ)} {background : Queue} {entered : Request}
      {e : HttpError} {outcome : Outcome Response} :
      (core.wayIn request).Runs opening (.finished (background, entered, none)) →
      endpoint.bind entered = .error e →
      (core.conclude entered background (.error (.declared e))).Runs closing outcome →
      Unserved core endpoint request (opening ++ closing) outcome

/-- A dispatch that comes to its endpoint is the way in, the serving of the request, and what makes
the response. -/
theorem unserved_or_serves (core : Core (Routine σ)) (endpoint : Endpoint (Routine σ))
    (request : Request) {steps : List (Step σ)} {outcome : Outcome Response}
    (hruns : (core.dispatch (some endpoint) request).Runs steps outcome) :
    Unserved core endpoint request steps outcome ∨
      ∃ background entered arguments opening serving joining closing served result,
        steps = opening ++ serving ++ (joining ++ closing) ∧
        (core.wayIn request).Runs opening (.finished (background, entered, none)) ∧
        endpoint.bind entered = .ok arguments ∧
        (core.serve endpoint entered arguments background).Runs serving served ∧
        served.Joins joining result ∧
        (core.conclude entered background result).Runs closing outcome := by
  rw [dispatch_eq, Routine.runs_bind] at hruns
  rcases hruns with ⟨text, hpanic, rfl⟩ |
    ⟨⟨background, entered, refusal⟩, opening, rest, rfl, hin, hrest⟩
  · exact .inl (.broken hpanic)
  cases refusal with
  | some refusal => exact .inl (.turnedAway hin hrest)
  | none =>
      dsimp only at hrest
      cases hbind : endpoint.bind entered with
      | error e =>
          rw [hbind] at hrest
          exact .inl (.unbound hin hbind hrest)
      | ok arguments =>
          rw [hbind] at hrest
          dsimp only at hrest
          obtain ⟨served, serving, last, rfl, hserve, hlast⟩ :=
            (Routine.runs_await_bind _ _ _ _).mp hrest
          obtain ⟨_, joining, closing, rfl, hjoin, hclosing⟩ :=
            (Routine.finishes_join served).of_bind hlast
          obtain ⟨result, hjoins, hsame⟩ := (Routine.runs_join _ _ _).mp hjoin
          rw [Outcome.finished.injEq] at hsame
          subst hsame
          exact .inr ⟨background, entered, arguments, opening, serving, joining, closing, served, _,
            by simp, hin, hbind, hserve, hjoins, hclosing⟩

/-- The phases of a dispatch: the steps up to the first call, the calls, the steps of the
handler, the teardowns that were begun, the steps that hand the others over, and the steps that
make the response, with the way out among them. -/
inductive Dispatched (core : Core (Routine σ)) (endpoint : Endpoint (Routine σ))
    (request : Request) : List (Step σ) → List (Resolver.Provision σ) → List (Step σ) →
    List (Scope.Release σ) → List (Step σ) → List (Step σ) → Outcome Response → Prop where
  | broken {opening : List (Step σ)} {text : String} :
      (core.wayIn request).Runs opening (.panicked text) →
      Dispatched core endpoint request opening [] [] [] [] [] (.panicked text)
  | turnedAway {opening closing : List (Step σ)} {background : Queue} {entered : Request}
      {refusal : Refusal} {outcome : Outcome Response} :
      (core.wayIn request).Runs opening (.finished (background, entered, some refusal)) →
      (core.turnAway entered background refusal).Runs closing outcome →
      Dispatched core endpoint request opening [] [] [] [] closing outcome
  | unbound {opening closing : List (Step σ)} {background : Queue} {entered : Request}
      {e : HttpError} {outcome : Outcome Response} :
      (core.wayIn request).Runs opening (.finished (background, entered, none)) →
      endpoint.bind entered = .error e →
      (core.conclude entered background (.error (.declared e))).Runs closing outcome →
      Dispatched core endpoint request opening [] [] [] [] closing outcome
  | served {opening handling handed joining closing : List (Step σ)} {background : Queue}
      {entered : Request} {arguments : Arguments} {calls : List (Resolver.Provision σ)}
      {releases : List (Scope.Release σ)} {ended : Outcome (Except Error Response)}
      {result : Except Error Response} {outcome : Outcome Response} :
      (core.wayIn request).Runs opening (.finished (background, entered, none)) →
      endpoint.bind entered = .ok arguments →
      Served core endpoint entered arguments background calls handling releases handed ended →
      ended.Joins joining result →
      (core.conclude entered background result).Runs closing outcome →
      Dispatched core endpoint request opening calls handling releases handed (joining ++ closing)
        outcome

theorem dispatch_dispatched (core : Core (Routine σ)) (endpoint : Endpoint (Routine σ))
    (request : Request) {steps : List (Step σ)} {outcome : Outcome Response}
    (hruns : (core.dispatch (some endpoint) request).Runs steps outcome) :
    ∃ opening calls handling releases handed closing,
      steps = opening ++ calls.flatMap Resolver.Provision.steps ++ handling ++
        releases.flatMap Scope.Release.steps ++ handed ++ closing ∧
      Dispatched core endpoint request opening calls handling releases handed closing outcome := by
  rcases unserved_or_serves core endpoint request hruns with hunserved |
    ⟨background, entered, arguments, opening, serving, joining, closing, served, result, rfl, hin,
      hbind, hserve, hjoins, hclosing⟩
  · cases hunserved with
    | broken hpanic => exact ⟨steps, [], [], [], [], [], by simp, .broken hpanic⟩
    | @turnedAway opening closing _ _ _ _ hin hrest =>
        exact ⟨opening, [], [], [], [], closing, by simp, .turnedAway hin hrest⟩
    | @unbound opening closing _ _ _ _ hin hbind hrest =>
        exact ⟨opening, [], [], [], [], closing, by simp, .unbound hin hbind hrest⟩
  · obtain ⟨calls, handling, releases, handed, rfl, hserved⟩ :=
      serve_served core endpoint entered arguments background hserve
    exact ⟨opening, calls, handling, releases, handed, joining ++ closing, by simp,
      .served hin hbind hserved hjoins hclosing⟩

/-- The teardowns of all scoped calls that succeeded come to their end between the handler and
the making of the response, the last call's first, exactly when no provider panics with one of
them held, and no teardown panics before its own task has begun. -/
theorem dispatch_released_iff {taken : Nat} {ds : List (Dependency (Routine σ))}
    (built : Dependency.Built taken ds) (core : Core (Routine σ)) (endpoint : Endpoint (Routine σ))
    (hdependencies : ∀ reference ∈ endpoint.dependencies, reference.target ∈ ds)
    (request : Request) {steps : List (Step σ)} {outcome : Outcome Response}
    (hruns : (core.dispatch (some endpoint) request).Runs steps outcome) :
    ∃ opening calls handling releases handed closing,
      steps = opening ++ calls.flatMap Resolver.Provision.steps ++ handling ++
        releases.flatMap Scope.Release.steps ++ handed ++ closing ∧
      Dispatched core endpoint request opening calls handling releases handed closing outcome ∧
      (∀ release ∈ releases, release.outcome = .finished () →
        ∃ first inner last ended, release.steps = first ++ inner ++ last ∧
          release.teardown.run.Runs inner ended) ∧
      (Released calls releases handed ↔
        ((∀ call ∈ calls, call.teardown? = none) ∨ ∀ call ∈ calls, ¬ call.Panicked) ∧
          ∀ release ∈ releases, release.outcome = .finished ()) := by
  obtain ⟨opening, calls, handling, releases, handed, closing, hsteps, hdispatched⟩ :=
    dispatch_dispatched core endpoint request hruns
  refine ⟨opening, calls, handling, releases, handed, closing, hsteps, hdispatched, ?_, ?_⟩
  · intro release _ hfinished
    exact release.exists_run_of_finished hfinished
  · cases hdispatched with
    | broken => simp [Released]
    | turnedAway => simp [Released]
    | unbound => simp [Released]
    | served _ _ hserved => exact hserved.released_iff built.sound hdependencies

/-! ## A slow teardown -/

/-- Notes a text in the application's own state. -/
def note (text : String) : Routine (List String) Unit :=
  .act (Act.update fun notes => ((), notes ++ [text])) .done

/-- A scoped dependency whose teardown takes some time. -/
def slowlyReleased : Dependency (Routine (List String)) :=
  .node ⟨0⟩ "slow" {
    provide := fun _ => pure (.ok (.text "slow"))
    release := some fun _ => ⟨pure (), do Routine.wait 50; note "released"⟩ } []

/-- A dependency whose provider panics. -/
def panicking : Dependency (Routine (List String)) :=
  .node ⟨1⟩ "panicking" { provide := fun _ => Tasks.panic "no value" } []

theorem built_panicking : Dependency.Built 2 [panicking, slowlyReleased] :=
  .make "panicking" _ (.make "slow" _ .none le_rfl) le_rfl

/-- An endpoint with these dependencies whose handler only notes that it runs. -/
def notingEndpoint (dependencies : List (Reference (Dependency (Routine (List String))))) :
    Endpoint (Routine (List String)) where
  name := "noting"
  handler _ := do note "handled"; return .ok (.new .ok)
  dependencies := dependencies

/-- A core with one layer, which notes that a response passes on the way out. -/
def notingCore : Core (Routine (List String)) :=
  { chain := [{ Layer.idle _ "noting" with
      after := fun _ response => do note "after"; return (response, none) }] }

/-- What is noted up to the end of a dispatch, when it ends with a response. -/
def notes? (dependencies : List (Reference (Dependency (Routine (List String))))) :
    Option (List String) :=
  match (World.new []).run (notingCore.dispatch (some (notingEndpoint dependencies))
    { method := .get, path := "/" }) with
  | (.ended (.finished _), w) => some w.kernel.journal.state
  | _ => none

example : notes? [⟨"slow", slowlyReleased, true⟩] = some ["handled", "released", "after"] := by
  decide +kernel

/-- A dispatch with the slow dependency alone. -/
theorem dispatch_released_slow :
    Dependency.Built 2 [panicking, slowlyReleased] ∧
    (∀ reference ∈ (notingEndpoint [⟨"slow", slowlyReleased, true⟩]).dependencies,
      reference.target ∈ [panicking, slowlyReleased]) ∧
    ∃ steps outcome, (notingCore.dispatch (some (notingEndpoint [⟨"slow", slowlyReleased, true⟩]))
        { method := .get, path := "/" }).Runs steps outcome ∧
      ∃ opening calls handling releases handed closing,
        steps = opening ++ calls.flatMap Resolver.Provision.steps ++ handling ++
          releases.flatMap Scope.Release.steps ++ handed ++ closing ∧
        (Released calls releases handed ↔
          ((∀ call ∈ calls, call.teardown? = none) ∨ ∀ call ∈ calls, ¬ call.Panicked) ∧
            ∀ release ∈ releases, release.outcome = .finished ()) := by
  have hdependencies : ∀ reference ∈
      (notingEndpoint [⟨"slow", slowlyReleased, true⟩]).dependencies,
      reference.target ∈ [panicking, slowlyReleased] := by
    simp [notingEndpoint]
  obtain ⟨steps, outcome, hruns⟩ := Routine.exists_runs { state := [] }
    (notingCore.dispatch (some (notingEndpoint [⟨"slow", slowlyReleased, true⟩]))
      { method := .get, path := "/" })
  obtain ⟨opening, calls, handling, releases, handed, closing, hsteps, -, -, hreleased⟩ :=
    dispatch_released_iff built_panicking notingCore _ hdependencies _ hruns
  exact ⟨built_panicking, hdependencies, steps, outcome, hruns, opening, calls, handling,
    releases, handed, closing, hsteps, hreleased⟩

/-- When the next provider panics, the response takes the way out and is returned while the
teardown of the slow dependency has not come to its end. -/
theorem notes_of_panicking_provider :
    ∃ noted, notes? [⟨"slow", slowlyReleased, true⟩, ⟨"panicking", panicking, true⟩] = some noted ∧
      "after" ∈ noted ∧ "released" ∉ noted :=
  ⟨["after"], by decide +kernel, by decide, by decide⟩

end Core
end WebApp
