import Mathlib.Tactic
import WebApp.App
import WebApp.Proofs.Dispatch.Discretion
import WebApp.Proofs.Dispatch.Failures

/-!
# Where an error comes from

What the client is told depends on the error and on nothing else.  So where nobody looks at the
frames of an error, or there are none, a panic is answered alike wherever it happens; the page of a
debugged application shows them.  A path that no route matches raises an error, too; it is answered
like the error of a handler as soon as somebody answers it.
-/

namespace WebApp

variable {σ : Type}

/-! ## Layers and handlers that are functions of their arguments -/

/-- What the hooks of a layer come to depends on their arguments alone. -/
structure Layer.Functional (layer : Layer (Routine σ)) : Prop where
  before : ∀ request, (layer.before request).Settled
  after : ∀ request response, (layer.after request response).Settled
  onError : ∀ request e, (layer.onError request e).Settled

theorem Layer.settled_failure (layer : Layer (Routine σ)) (hook : Hook) (e : Error) :
    (layer.failure hook e).Settled :=
  (Routine.settled_report _).bind fun _ => Routine.settled_pure _

theorem Layer.functional_errorPage (debug : Bool) :
    (ErrorPage.layer (Routine σ) debug).Functional where
  before _ := Routine.settled_pure _
  after _ _ := Routine.settled_pure _
  onError request e := by
    unfold ErrorPage.layer
    dsimp only
    split
    · exact Routine.settled_pure _
    · exact (Routine.settled_report _).bind fun _ => Routine.settled_pure _

namespace Chain

variable {chain : Chain (Routine σ)}

theorem settled_beforeFrom (hchain : ∀ layer ∈ chain, layer.Functional) (completed : Nat)
    (request : Request) : (chain.beforeFrom completed request).Settled := by
  induction chain generalizing completed request with
  | nil => exact Routine.settled_pure _
  | cons layer rest ih =>
      rw [List.forall_mem_cons] at hchain
      rw [beforeFrom]
      apply (hchain.1.before request).bind
      rintro ⟨request, _ | e⟩
      · exact ih hchain.2 (completed + 1) request
      · dsimp only
        split
        · exact Routine.settled_pure _
        · exact (layer.settled_failure _ e).bind fun _ => Routine.settled_pure _

theorem settled_afterEach (hchain : ∀ layer ∈ chain, layer.Functional) (request : Request)
    (response : Response) : (Chain.afterEach request chain response).Settled := by
  induction chain generalizing response with
  | nil => exact Routine.settled_pure _
  | cons layer rest ih =>
      rw [List.forall_mem_cons] at hchain
      rw [afterEach]
      apply (hchain.1.after request response).bind
      rintro ⟨response, _ | e⟩
      · exact ih hchain.2 response
      · exact (layer.settled_failure _ e).bind fun _ => Routine.settled_pure _

theorem settled_runOnError (hchain : ∀ layer ∈ chain, layer.Functional) (request : Request)
    (e : Error) : (chain.runOnError request e).Settled := by
  induction chain with
  | nil => exact Routine.settled_pure _
  | cons layer rest ih =>
      rw [List.forall_mem_cons] at hchain
      rw [runOnError]
      apply (hchain.1.onError request e).bind
      rintro (failed | _ | response)
      · exact (layer.settled_failure _ failed).bind fun _ => Routine.settled_pure _
      · exact ih hchain.2
      · exact Routine.settled_pure _

/-- Layers that do not look at frames offer the same, whatever the frames are. -/
theorem agree_runOnError {request : Request} {e : Unexpected} {frames frames' : List String}
    (hchain : ∀ layer ∈ chain, (layer.onError request (.unexpected e frames)).Agree
      (layer.onError request (.unexpected e frames'))) :
    (chain.runOnError request (.unexpected e frames)).Agree
      (chain.runOnError request (.unexpected e frames')) := by
  induction chain with
  | nil => exact (Routine.settled_pure _).agree
  | cons layer rest ih =>
      rw [List.forall_mem_cons] at hchain
      rw [runOnError, runOnError]
      apply hchain.1.bind
      rintro (failed | _ | response)
      · exact ((layer.settled_failure _ failed).bind fun _ => Routine.settled_pure _).agree
      · exact ih hchain.2
      · exact (Routine.settled_pure _).agree

/-- When nobody has offered a response each layer has been asked for one. -/
theorem onError_of_runOnError {request : Request} {e : Error} {steps : List (Step σ)}
    (hruns : (chain.runOnError request e).Runs steps (.finished (.ok none))) :
    ∀ layer ∈ chain, ∃ asked, (layer.onError request e).Runs asked (.finished (.ok none)) := by
  induction chain generalizing steps with
  | nil => simp
  | cons first rest ih =>
      rw [runOnError] at hruns
      obtain ⟨answer, asked, last, rfl, hasked, hlast⟩ := Routine.follow_of_finished hruns
      rcases answer with failed | _ | response
      · obtain ⟨failure, _, _, rfl, -, -, hnever⟩ := Routine.follow_of_finished hlast
        exact absurd hnever (by simp)
      · exact List.forall_mem_cons.mpr ⟨⟨asked, hasked⟩, ih hlast⟩
      · exact absurd hlast.2 (by simp)

end Chain

namespace Core

/-- The layers and the handlers of errors are functions of their arguments. -/
structure Functional (core : Core (Routine σ)) : Prop where
  layers : ∀ layer ∈ core.chain, layer.Functional
  handlers : ∀ e handler, core.handlers.Handles e handler →
    ∀ request, (handler request e).Settled

/-- What the layers and the handlers of errors come to does not depend on the frames of an error. -/
structure IgnoresFrames (core : Core (Routine σ)) : Prop where
  layers : ∀ layer ∈ core.chain, ∀ request e frames frames',
    (layer.onError request (.unexpected e frames)).Agree
      (layer.onError request (.unexpected e frames'))
  handlers : ∀ e frames frames' handler,
    core.handlers.Handles (.unexpected e frames) handler → ∀ request,
      (handler request (.unexpected e frames)).Agree (handler request (.unexpected e frames'))

section Functional

variable {core : Core (Routine σ)}

theorem Functional.settled_answerError (hcore : core.Functional) (request : Request) (e : Error)
    (fallback : Response) : (core.answerError request e fallback).Settled := by
  unfold answerError
  cases hfind : core.handlers.find? e with
  | some handler =>
      have hhandles := (core.handlers.find?_eq_some_iff e handler).mp hfind
      exact (hcore.handlers e handler hhandles request).bind fun _ => Routine.settled_pure _
  | none =>
      apply (Chain.settled_runOnError hcore.layers request e).bind
      rintro (failed | _ | response) <;> exact Routine.settled_pure _

theorem Functional.settled_finish (hcore : core.Functional) (depth : Nat) (request : Request)
    (decided : Except HookFailure Response) : (core.finish depth request decided).Settled := by
  cases decided with
  | error failure => exact Routine.settled_pure _
  | ok response =>
      have hlayers : ∀ layer ∈ (core.chain.take depth).reverse, layer.Functional := by
        intro layer hlayer
        exact hcore.layers layer (List.mem_of_mem_take (List.mem_reverse.mp hlayer))
      apply (Chain.settled_afterEach hlayers request response).bind
      rintro ⟨last, _ | failure⟩ <;> exact Routine.settled_pure _

/-- The answer to an error when it has come back through all layers. -/
def answerThrough (core : Core (Routine σ)) (request : Request) (e : Error)
    (fallback : Response) : Routine σ Response := do
  core.finish core.chain.length request (← core.answerError request e fallback)

theorem Functional.settled_answerThrough (hcore : core.Functional) (request : Request) (e : Error)
    (fallback : Response) : (core.answerThrough request e fallback).Settled :=
  (hcore.settled_answerError request e fallback).bind fun decided =>
    hcore.settled_finish core.chain.length request decided

theorem IgnoresFrames.agree_answerThrough (hframes : core.IgnoresFrames)
    (hcore : core.Functional) (request : Request) (e : Unexpected) (frames frames' : List String)
    (fallback : Response) :
    (core.answerThrough request (.unexpected e frames) fallback).Agree
      (core.answerThrough request (.unexpected e frames') fallback) := by
  have hanswer : (core.answerError request (.unexpected e frames) fallback).Agree
      (core.answerError request (.unexpected e frames') fallback) := by
    -- The handler is found by the type and the status, which both errors have in common.
    have hsame : core.handlers.find? (.unexpected e frames') =
        core.handlers.find? (.unexpected e frames) := rfl
    unfold answerError
    rw [hsame]
    cases hfind : core.handlers.find? (.unexpected e frames) with
    | some handler =>
        have hhandles := (core.handlers.find?_eq_some_iff _ handler).mp hfind
        exact (hframes.handlers e frames frames' handler hhandles request).bind
          fun _ => (Routine.settled_pure _).agree
    | none =>
        have hlayers : ∀ layer ∈ core.chain,
            (layer.onError request (.unexpected e frames)).Agree
              (layer.onError request (.unexpected e frames')) :=
          fun layer hlayer => hframes.layers layer hlayer request e frames frames'
        refine (Chain.agree_runOnError hlayers).bind ?_
        rintro (failed | _ | response) <;> exact (Routine.settled_pure _).agree
  exact hanswer.bind fun decided =>
    (hcore.settled_finish core.chain.length request decided).agree

/-- Some handler or layer answers the error. -/
def Claims (core : Core (Routine σ)) (request : Request) (e : Error) : Prop :=
  (∃ handler, core.handlers.Handles e handler) ∨
    ∃ layer ∈ core.chain, ∃ steps response,
      (layer.onError request e).Runs steps (.finished (.ok (some response)))

theorem Functional.answerError_of_claims (hcore : core.Functional) {request : Request} {e : Error}
    (hclaims : core.Claims request e) {fallback : Response} (other : Response)
    {steps : List (Step σ)} {ended : Outcome (Except HookFailure Response)}
    (hruns : (core.answerError request e fallback).Runs steps ended) :
    (core.answerError request e other).Runs steps ended := by
  unfold answerError at hruns ⊢
  cases hfind : core.handlers.find? e with
  | some handler =>
      rw [hfind] at hruns
      exact hruns
  | none =>
      rw [hfind] at hruns
      dsimp only at hruns ⊢
      rw [Routine.runs_bind] at hruns ⊢
      rcases hruns with hpanic | ⟨answer, asked, last, rfl, hasked, hlast⟩
      · exact .inl hpanic
      · refine .inr ⟨answer, asked, last, rfl, hasked, ?_⟩
        rcases answer with failed | _ | response
        · exact hlast
        · -- Nobody has offered a response, so nobody claims the error.
          have hunhandled := (core.handlers.find?_eq_none_iff e).mp hfind
          rcases hclaims with ⟨handler, hhandles⟩ | ⟨layer, hlayer, _, response, hoffers⟩
          · rw [← core.handlers.find?_eq_some_iff, hfind] at hhandles
            exact absurd hhandles (by simp)
          · obtain ⟨_, hnothing⟩ := Chain.onError_of_runOnError hasked layer hlayer
            have hsame := ((hcore.layers layer hlayer).onError request e).eq hoffers hnothing
            exact absurd hsame (by simp)
        · exact hlast

theorem Functional.answerThrough_of_claims (hcore : core.Functional) {request : Request}
    {e : Error} (hclaims : core.Claims request e) {fallback : Response} (other : Response)
    {steps : List (Step σ)} {outcome : Outcome Response}
    (hruns : (core.answerThrough request e fallback).Runs steps outcome) :
    (core.answerThrough request e other).Runs steps outcome := by
  unfold answerThrough at hruns ⊢
  rw [Routine.runs_bind] at hruns ⊢
  rcases hruns with ⟨text, hpanic, rfl⟩ | ⟨decided, first, last, rfl, hanswer, hlast⟩
  · exact .inl ⟨text, hcore.answerError_of_claims hclaims other hpanic, rfl⟩
  · exact .inr ⟨decided, first, last, rfl, hcore.answerError_of_claims hclaims other hanswer,
      hlast⟩

end Functional

section Endings

variable {core : Core (Routine σ)} {request : Request} {background : Queue}
variable {steps : List (Step σ)} {outcome : Outcome Response}

theorem finish_of_wayOut {depth : Nat} {decided : Except HookFailure Response}
    (hruns : (core.wayOut depth request background decided).Runs steps outcome) :
    ∃ first, (core.finish depth request decided).Runs first outcome := by
  unfold wayOut at hruns
  rw [Routine.runs_bind] at hruns
  rcases hruns with ⟨text, hpanic, rfl⟩ | ⟨response, first, last, rfl, hfinish, hlast⟩
  · exact ⟨steps, hpanic⟩
  · obtain ⟨_, released, _, rfl, -, rfl, rfl⟩ := (finishes_release _).of_bind hlast
    exact ⟨first, hfinish⟩

/-- Minding the background work does not change the answer to an error. -/
theorem answerThrough_of_wayOut {e : Error} {fallback : Response}
    (hruns : (do
      let decided ← core.answerError request e fallback
      core.wayOut core.chain.length request background decided).Runs steps outcome) :
    ∃ first, (core.answerThrough request e fallback).Runs first outcome := by
  unfold answerThrough
  rw [Routine.runs_bind] at hruns ⊢
  rcases hruns with ⟨text, hpanic, rfl⟩ | ⟨decided, first, last, rfl, hanswer, hlast⟩
  · exact ⟨steps, .inl ⟨text, hpanic, rfl⟩⟩
  · obtain ⟨finishing, hfinish⟩ := finish_of_wayOut hlast
    exact ⟨first ++ finishing, .inr ⟨decided, first, finishing, rfl, hanswer, hfinish⟩⟩

theorem dispatch_unmatched (core : Core (Routine σ)) (request : Request) :
    core.dispatch none request = (do
      let (background, request, refusal) ← core.wayIn request
      match refusal with
      | some refusal => core.turnAway request background refusal
      | none => do
        let decided ← core.answerError request ExceptionHandlers.noRouteError
          ExceptionHandlers.notFound
        core.wayOut core.chain.length request background decided) := by
  simp only [dispatch, wayIn, bind_assoc, pure_bind]
  congr 1
  funext background
  congr 1
  funext entered
  obtain ⟨request, refusal⟩ := entered
  cases refusal with
  | some refusal => cases refusal <;> rfl
  | none => rfl

theorem exists_runBefore {entered : Request} {refusal : Option Refusal}
    (hruns : (core.wayIn request).Runs steps (.finished (background, entered, refusal))) :
    ∃ before, (core.chain.runBefore request).Runs before (.finished (entered, refusal)) := by
  unfold wayIn at hruns
  obtain ⟨_, _, last, rfl, -, hlast⟩ := Routine.follow_of_finished hruns
  obtain ⟨way, before, _, rfl, hbefore, -, hsame⟩ := Routine.follow_of_finished hlast
  obtain ⟨entered, refusal⟩ := way
  simp only [Outcome.finished.injEq, Prod.mk.injEq] at hsame
  rw [hsame.2.1, hsame.2.2]
  exact ⟨before, hbefore⟩

theorem exists_runBefore_of_panicked {text : String}
    (hruns : (core.wayIn request).Runs steps (.panicked text)) :
    ∃ before, (core.chain.runBefore request).Runs before (.panicked text) := by
  unfold wayIn at hruns
  obtain ⟨_, _, rest, rfl, -, hrest⟩ := finishes_openQueue.of_bind hruns
  rw [Routine.runs_bind] at hrest
  rcases hrest with ⟨_, hpanic, hsame⟩ | ⟨_, _, _, rfl, -, hlast⟩
  · rw [Outcome.panicked.injEq] at hsame
    exact ⟨rest, hsame ▸ hpanic⟩
  · exact absurd hlast.2 (by simp)

end Endings

/-! ## The property -/

/-- A run of a dispatch in which an error or a panic is raised while the request is served. -/
structure Failure (core : Core (Routine σ)) (request : Request) where
  endpoint : Endpoint (Routine σ)
  background : Queue
  entered : Request
  raised : Halt
  frames : List String
  opening : List (Step σ)
  serving : List (Step σ)
  closing : List (Step σ)
  outcome : Outcome Response
  enters : (core.wayIn request).Runs opening (.finished (background, entered, none))
  invokes : (core.invoke endpoint entered background).Runs serving
    (.finished (.error (raised.toError frames)))
  raises : Raises core endpoint entered background serving raised frames
  concludes : (core.conclude entered background (.error (raised.toError frames))).Runs closing
    outcome

namespace Failure

variable {core : Core (Routine σ)} {request : Request}

/-- What was raised, as an error. -/
def error (f : Failure core request) : Error :=
  f.raised.toError f.frames

theorem runs (f : Failure core request) :
    (core.dispatch (some f.endpoint) request).Runs (f.opening ++ (f.serving ++ f.closing))
      f.outcome := by
  rw [dispatch_eq_invoke, Routine.runs_bind]
  refine .inr ⟨_, _, _, rfl, f.enters, ?_⟩
  dsimp only
  rw [Routine.runs_bind]
  exact .inr ⟨_, _, _, rfl, f.invokes, f.concludes⟩

theorem exists_answerThrough (f : Failure core request) :
    ∃ steps, (core.answerThrough f.entered f.error f.error.defaultResponse).Runs steps f.outcome :=
  answerThrough_of_wayOut f.concludes

theorem entered_eq (hcore : core.Functional) (f : Failure core request) {steps : List (Step σ)}
    {background : Queue} {entered : Request} {refusal : Option Refusal}
    (hruns : (core.wayIn request).Runs steps (.finished (background, entered, refusal))) :
    f.entered = entered ∧ refusal = none := by
  obtain ⟨_, hown⟩ := exists_runBefore f.enters
  obtain ⟨_, hother⟩ := exists_runBefore hruns
  have hsame := (Chain.settled_beforeFrom hcore.layers 0 request).eq hown hother
  simp only [Outcome.finished.injEq, Prod.mk.injEq] at hsame
  exact ⟨hsame.1, hsame.2.symm⟩

/-- The same error leads to the same end, wherever it was raised. -/
theorem outcome_eq (hcore : core.Functional) (f f' : Failure core request)
    (herror : f.error = f'.error) : f.outcome = f'.outcome := by
  obtain ⟨_, hown⟩ := f.exists_answerThrough
  obtain ⟨_, hother⟩ := f'.exists_answerThrough
  rw [← (f.entered_eq hcore f'.enters).1, ← herror] at hother
  exact (hcore.settled_answerThrough _ _ _).eq hown hother

/-- Where nobody looks at frames, the same panic leads to the same end, wherever it was raised. -/
theorem outcome_eq_of_raised (hcore : core.Functional) (hframes : core.IgnoresFrames)
    (f f' : Failure core request) (hraised : f.raised = f'.raised) : f.outcome = f'.outcome := by
  cases hhalt : f.raised with
  | error e =>
      apply f.outcome_eq hcore f'
      rw [error, error, ← hraised, hhalt]
      rfl
  | panic text =>
      obtain ⟨_, hown⟩ := f.exists_answerThrough
      obtain ⟨_, hother⟩ := f'.exists_answerThrough
      rw [← (f.entered_eq hcore f'.enters).1, error, ← hraised, hhalt] at hother
      rw [error, hhalt] at hown
      exact hframes.agree_answerThrough hcore _ _ _ _ _ _ _ _ _ hown hother

/-- What the client is told of a panic: in an application that is debugged its text, and the frames
of the place where it became an error. -/
def page (debug : Bool) (text : String) (frames : List String) : Response :=
  .ofJson .internalServerError (
    if debug then
      .ofMembers [("error", .string "tokio::runtime::task::error::JoinError"),
        ("detail", .string ("task N panicked with message " ++ Text.quoted text)),
        ("traceback", .ofStrings frames)]
    else
      .ofTexts [("error", "Internal Server Error"), ("detail", "An unexpected error occurred")])

/-- A panic that no handler is registered for is answered with its page, which takes the way out. -/
theorem exists_finish_page {layers : List (Layer (Routine σ))} {debug : Bool}
    (hchain : core.chain = ErrorPage.layer _ debug :: layers) (f : Failure core request)
    {text : String} (hraised : f.raised = .panic text)
    (hunhandled : core.handlers.Unhandled (.ofPanic text f.frames)) :
    ∃ steps, (core.finish core.chain.length f.entered (.ok (page debug text f.frames))).Runs steps
      f.outcome := by
  have hconcludes := f.concludes
  rw [hraised, Halt.toError, Error.ofPanic, conclude_unexpected hchain hunhandled,
    Routine.runs_report_bind] at hconcludes
  obtain ⟨_, _, _, -, hrest⟩ := hconcludes
  exact finish_of_wayOut hrest

/-- A path that no route matches is answered like the same error of a handler. -/
theorem outcome_eq_unmatched (hcore : core.Functional) (f : Failure core request)
    (herror : f.error = ExceptionHandlers.noRouteError)
    (hclaims : core.Claims f.entered ExceptionHandlers.noRouteError) {steps : List (Step σ)}
    {outcome : Outcome Response} (hruns : (core.dispatch none request).Runs steps outcome) :
    outcome = f.outcome := by
  rw [dispatch_unmatched, Routine.runs_bind] at hruns
  rcases hruns with ⟨text, hpanic, rfl⟩ |
    ⟨⟨background, entered, refusal⟩, opening, closing, rfl, hin, hclosing⟩
  · obtain ⟨_, hown⟩ := exists_runBefore f.enters
    obtain ⟨_, hother⟩ := exists_runBefore_of_panicked hpanic
    exact absurd ((Chain.settled_beforeFrom hcore.layers 0 request).eq hown hother) (by simp)
  · obtain ⟨rfl, rfl⟩ := f.entered_eq hcore hin
    dsimp only at hclosing
    obtain ⟨_, hunmatched⟩ := answerThrough_of_wayOut hclosing
    obtain ⟨_, hown⟩ := f.exists_answerThrough
    rw [herror] at hown
    exact (hcore.settled_answerThrough _ _ _).eq
      (hcore.answerThrough_of_claims hclaims _ hunmatched) hown

/-- A request that is not ended on the way in gets a response from its endpoint, or fails. -/
theorem exists_failure {taken : Nat} {ds : List (Dependency (Routine σ))}
    (hbuilt : Dependency.Built taken ds) {endpoint : Endpoint (Routine σ)}
    (hdependencies : ∀ reference ∈ endpoint.dependencies, reference.target ∈ ds)
    {steps : List (Step σ)} {outcome : Outcome Response}
    (hruns : (core.dispatch (some endpoint) request).Runs steps outcome) :
    (∃ text, (core.wayIn request).Runs steps (.panicked text)) ∨
    (∃ opening background entered refusal,
      (core.wayIn request).Runs opening (.finished (background, entered, some refusal))) ∨
    (∃ opening background entered serving response,
      (core.wayIn request).Runs opening (.finished (background, entered, none)) ∧
      (core.invoke endpoint entered background).Runs serving (.finished (.ok response))) ∨
    ∃ f : Failure core request, f.endpoint = endpoint ∧
      f.opening ++ (f.serving ++ f.closing) = steps ∧ f.outcome = outcome := by
  rw [dispatch_eq_invoke, Routine.runs_bind] at hruns
  rcases hruns with ⟨text, hpanic, rfl⟩ |
    ⟨⟨background, entered, refusal⟩, opening, rest, rfl, hin, hrest⟩
  · exact .inl ⟨text, hpanic⟩
  · cases refusal with
    | some refusal => exact .inr (.inl ⟨opening, background, entered, refusal, hin⟩)
    | none =>
        obtain ⟨ended, serving, closing, rfl, hinvokes, hconcludes⟩ :=
          (finishes_invoke endpoint background).of_bind hrest
        cases ended with
        | ok response =>
            exact .inr (.inr (.inl
              ⟨opening, background, entered, serving, response, hin, hinvokes⟩))
        | error e =>
            obtain ⟨halt, frames, rfl, hraises⟩ :=
              invoke_raises hbuilt.sound hdependencies hinvokes
            let f : Failure core request := {
              endpoint := endpoint
              background := background
              entered := entered
              raised := halt
              frames := frames
              opening := opening
              serving := serving
              closing := closing
              outcome := outcome
              enters := hin
              invokes := hinvokes
              raises := hraises
              concludes := hconcludes }
            exact .inr (.inr (.inr ⟨f, rfl, rfl, rfl⟩))

end Failure

/-- The answer to an error does not depend on where it was raised.  All runs of a request in which
the same error is raised, whatever raises it, end alike.  So do all in which the same panic is
raised, if nobody looks at the frames of an error; and what takes the way out for a panic that no
handler is registered for is the same page, up to the frames that the page of a debugged
application shows.  A run is one of these unless the request is ended on the way in or gets a
response; and where somebody answers the error of a path without a route, such a path is answered as
if a handler had raised it. -/
theorem dispatch_translates_alike {app : App (Routine σ)} (hcore : app.core.Functional)
    (request : Request) :
    (∀ f f' : Failure app.core request, f.error = f'.error → f.outcome = f'.outcome) ∧
    (app.core.IgnoresFrames → ∀ f f' : Failure app.core request,
      f.raised = f'.raised → f.outcome = f'.outcome) ∧
    (∀ config, App.Made config app → ∀ (f : Failure app.core request) text,
      f.raised = .panic text → app.core.handlers.Unhandled (.ofPanic text f.frames) →
      ∃ steps, (app.core.finish app.core.chain.length f.entered
        (.ok (Failure.page config.debug text f.frames))).Runs steps f.outcome) ∧
    (∀ f : Failure app.core request,
      (app.core.dispatch (some f.endpoint) request).Runs (f.opening ++ (f.serving ++ f.closing))
        f.outcome) ∧
    (∀ taken ds endpoint steps outcome, Dependency.Built taken ds →
      (∀ reference ∈ endpoint.dependencies, reference.target ∈ ds) →
      (app.core.dispatch (some endpoint) request).Runs steps outcome →
      (∃ text, (app.core.wayIn request).Runs steps (.panicked text)) ∨
      (∃ opening background entered refusal,
        (app.core.wayIn request).Runs opening (.finished (background, entered, some refusal))) ∨
      (∃ opening background entered serving response,
        (app.core.wayIn request).Runs opening (.finished (background, entered, none)) ∧
        (app.core.invoke endpoint entered background).Runs serving (.finished (.ok response))) ∨
      ∃ f : Failure app.core request, f.endpoint = endpoint ∧
        f.opening ++ (f.serving ++ f.closing) = steps ∧ f.outcome = outcome) ∧
    (request.pathParams = [] → app.table.lookup request.method request.path = none →
      ∀ f : Failure app.core (request.withPathParams []),
        f.error = ExceptionHandlers.noRouteError →
        app.core.Claims f.entered ExceptionHandlers.noRouteError →
        ∀ steps outcome, (app.handle request).Runs steps outcome → outcome = f.outcome) := by
  refine ⟨?_, ?_, ?_, ?_, ?_, ?_⟩
  · intro f f' herror
    exact f.outcome_eq hcore f' herror
  · intro hframes f f' hraised
    exact f.outcome_eq_of_raised hcore hframes f' hraised
  · intro config hmade f text hraised hunhandled
    obtain ⟨layers, hchain⟩ := hmade.chain_eq
    exact f.exists_finish_page hchain hraised hunhandled
  · intro f
    exact f.runs
  · intro taken ds endpoint steps outcome hbuilt hdependencies hruns
    exact Failure.exists_failure hbuilt hdependencies hruns
  · intro hparams hlookup f herror hclaims steps outcome hruns
    have hrequest : request.withPathParams [] = request := by
      rw [Request.withPathParams, ← hparams]
    have hhandle : app.handle request = app.core.dispatch none (request.withPathParams []) := by
      rw [App.handle, hlookup, App.notFound, hrequest]
    rw [hhandle] at hruns
    exact f.outcome_eq_unmatched hcore herror hclaims hruns

/-! ## A provider and a handler -/

end Core

namespace Halt

/-- A task that is halted at once. -/
def task {α : Type} : Halt → Routine String (Except Error α)
  | .error e => pure (.error e)
  | .panic text => Tasks.panic text

theorem runs_task {α : Type} (halt : Halt) :
    (halt.task : Routine String (Except Error α)).Runs [] halt.outcome := by
  cases halt <;> exact ⟨rfl, rfl⟩

/-- What it takes to see how a halted task has ended. -/
def joining (frames : List String) : Halt → List (Step String)
  | .error _ => []
  | .panic _ => [.act 0 { state := "", frames := frames } { state := "", frames := frames }]

theorem joins {α : Type} (halt : Halt) (frames : List String) :
    (halt.outcome : Outcome (Except Error α)).Joins (halt.joining frames)
      (.error (halt.toError frames)) := by
  cases halt with
  | error e => exact .finished (.error e)
  | panic text => exact .panicked text 0 _

end Halt

namespace Core

/-- An endpoint with a dependency whose provider is halted. -/
def needing (halt : Halt) : Endpoint (Routine String) where
  name := "needing"
  handler _ := pure (.ok (.new .ok))
  dependencies := [⟨"needed", .node ⟨0⟩ "needed" { provide := fun _ => halt.task } [], true⟩]

/-- An endpoint whose handler is halted. -/
def breaking (halt : Halt) : Endpoint (Routine String) where
  name := "breaking"
  handler _ := halt.task

section Halted

variable {core : Core (Routine String)} {request : Request} {background : Queue}

theorem invokes_of_serves {endpoint : Endpoint (Routine String)} (hparams : endpoint.params = [])
    {serving joining : List (Step String)} {ended : Outcome (Except Error Response)}
    {result : Except Error Response}
    (hserves : (core.serve endpoint request {} background).Runs serving ended)
    (hjoins : ended.Joins joining result) :
    (core.invoke endpoint request background).Runs (serving ++ joining) (.finished result) := by
  have hbind : endpoint.bind request = .ok {} := by
    rw [Endpoint.bind, hparams]
    rfl
  rw [invoke, hbind]
  exact ⟨ended, serving, joining, rfl, hserves, (Routine.runs_join _ _ _).mpr ⟨result, hjoins, rfl⟩⟩

theorem runs_resolve_needing (request : Request) (halt : Halt) :
    ((Resolver.resolve (⟨request, []⟩ : Resolver.Setting)
      (needing halt).dependencies).run.run {}).Runs [] (.finished (.error halt, {})) := by
  have hknown : Resolver.known? ⟨request, []⟩ ⟨0⟩ true {} = none := rfl
  rw [needing, Resolver.run_resolve, Resolver.run_resolveEach_cons, Resolver.run_resolveOne, hknown]
  simp only [List.contains_nil, Bool.false_eq_true, if_false, Resolver.run_resolveEach_nil,
    pure_bind, bind_assoc]
  rw [Tasks.attempt, Routine.runs_guarded_bind]
  refine ⟨halt.outcome, [], [], rfl, halt.runs_task, ?_⟩
  cases halt <;> exact ⟨rfl, rfl⟩

theorem raises_needing (hoverrides : core.overrides = []) (halt : Halt) (frames : List String) :
    (core.invoke (needing halt) request background).Runs (halt.joining frames)
        (.finished (.error (halt.toError frames))) ∧
      Raises core (needing halt) request background (halt.joining frames) halt frames := by
  obtain ⟨chain, handlers, overrides, state⟩ := core
  obtain rfl : overrides = [] := hoverrides
  let call : Resolver.Provision String :=
    ⟨.node ⟨0⟩ "needed" { provide := fun _ => halt.task } [], ⟨request, .ofList []⟩, [],
      halt.outcome, halt.runs_task⟩
  have hneeded : ∃ reference ∈ (needing halt).dependencies,
      Dependency.Needs reference.target call.dependency :=
    ⟨_, List.mem_singleton_self _, .self _⟩
  have hresolves : Resolver.ResolvesEach ⟨request, []⟩ [] (needing halt).dependencies {}
      ([] ++ [call]) (.error halt) {} := by
    cases halt <;>
      exact .stop [] (.called call rfl List.not_mem_nil (.nil _ _) rfl rfl)
  have hserves : (serve ⟨chain, handlers, [], state⟩ (needing halt) request {} background).Runs []
      halt.outcome := by
    rw [serve, Routine.runs_bind]
    refine .inr ⟨(.error halt, {}), [], [], rfl, runs_resolve_needing request halt, ?_⟩
    cases halt with
    | error e => exact ⟨rfl, rfl⟩
    | panic text =>
        rw [Routine.runs_bind]
        exact .inr ⟨(), [], [], rfl, ⟨rfl, rfl⟩, rfl, rfl⟩
  have hserved : Served ⟨chain, handlers, [], state⟩ (needing halt) request {} background
      ([] ++ [call]) [] [] [] halt.outcome := by
    cases halt with
    | error e =>
        have hcloses : Scope.Closes (Dependency.teardownAmong (needing (.error e)).dependencies)
            ({} : Ledger).scope.entries [] [] (.finished ()) := .nil
        exact .failed hresolves hcloses
    | panic text => exact .panicked hresolves ⟨rfl, rfl⟩
  exact ⟨invokes_of_serves rfl hserves (halt.joins frames),
    .provider rfl hserved hneeded rfl (halt.joins frames) (by simp)⟩

theorem raises_breaking (halt : Halt) (frames : List String) :
    (core.invoke (breaking halt) request background).Runs (halt.joining frames)
        (.finished (.error (halt.toError frames))) ∧
      Raises core (breaking halt) request background (halt.joining frames) halt frames := by
  have hhandler : ((breaking halt).handler
      ⟨request, {}, .ofList [], background, core.state⟩).Runs [] halt.outcome := halt.runs_task
  have hserved : Served core (breaking halt) request {} background [] ([] ++ halt.joining frames) []
      [] (afterwards (.error (halt.toError frames)) (.finished ())) :=
    .handled (.nil _ _) hhandler (halt.joins frames) .nil
  have hserves : (core.serve (breaking halt) request {} background).Runs (halt.joining frames)
      (.finished (.error (halt.toError frames))) := by
    cases halt with
    | error e => exact ⟨.finished (.error e), [], [], rfl, ⟨rfl, rfl⟩, rfl, rfl⟩
    | panic text =>
        exact ⟨.panicked text, [], _, rfl, ⟨rfl, rfl⟩, frames, _, [], rfl,
          ⟨0, { state := "", frames := frames }, rfl, rfl⟩, rfl, rfl⟩
  have hinvokes := invokes_of_serves rfl hserves (.finished _)
  rw [List.append_nil] at hinvokes
  have hraises : Raises core (breaking halt) request background _ halt frames :=
    .handler rfl hserved hhandler (halt.joins frames) (by simp)
  exact ⟨hinvokes, by simpa using hraises⟩

/-- A failure of a request that is let pass as it is. -/
theorem Failure.exists_of_raises
    (henters : (core.wayIn request).Runs [.openQueue background]
      (.finished (background, request, none)))
    {endpoint : Endpoint (Routine String)} {serving : List (Step String)} {halt : Halt}
    {frames : List String}
    (hraises : (core.invoke endpoint request background).Runs serving
        (.finished (.error (halt.toError frames))) ∧
      Raises core endpoint request background serving halt frames) :
    ∃ f : Failure core request, f.endpoint = endpoint ∧ f.entered = request ∧ f.raised = halt ∧
      f.frames = frames := by
  obtain ⟨closing, outcome, hconcludes⟩ := Routine.exists_runs { state := "" }
    (core.conclude request background (.error (halt.toError frames)))
  let f : Failure core request := {
    endpoint := endpoint
    background := background
    entered := request
    raised := halt
    frames := frames
    opening := [.openQueue background]
    serving := serving
    closing := closing
    outcome := outcome
    enters := henters
    invokes := hraises.1
    raises := hraises.2
    concludes := hconcludes }
  exact ⟨f, rfl, rfl, rfl, rfl⟩

end Halted

/-- A request for a path. -/
def visit : Request where
  method := .get
  path := "/"

/-- An application without routes that is debugged. -/
def debuggedApp : App (Routine String) :=
  .new { debug := true }

theorem enters_debuggedApp : (debuggedApp.core.wayIn visit).Runs [.openQueue ⟨0⟩]
    (.finished (⟨0⟩, visit, none)) :=
  ⟨⟨0⟩, [.openQueue ⟨0⟩], [], rfl, rfl, rfl, rfl⟩

/-- In an application that is debugged a client can tell the panic of a provider from that of a
handler, if the frames are captured. -/
theorem dispatch_tells_apart :
    debuggedApp.core.Functional ∧
    ∃ f f' : Failure debuggedApp.core visit,
      f.endpoint = needing (.panic "") ∧ f.raised = .panic "" ∧
      f'.endpoint = breaking (.panic "") ∧ f'.raised = .panic "" ∧
      ∃ response response', f.outcome = .finished response ∧ f'.outcome = .finished response' ∧
        response.body ≠ response'.body := by
  have hcore : debuggedApp.core.Functional := {
    layers := by
      change ∀ layer ∈ [ErrorPage.layer (Routine String) true], layer.Functional
      rw [List.forall_mem_singleton]
      exact Layer.functional_errorPage true
    handlers := by
      intro e handler hhandles
      exact absurd ((ExceptionHandlers.find?_eq_some_iff _ _ _).mpr hhandles) (by
        change (none : Option (ExceptionHandler (Routine String))) ≠ some handler
        simp) }
  -- Where no layer follows on the error page, its page is the response.
  have hpage : ∀ f : Failure debuggedApp.core visit, f.raised = .panic "" →
      f.outcome = .finished (Failure.page true "" f.frames) := by
    intro f hraised
    obtain ⟨_, hfinish⟩ := f.exists_finish_page rfl hraised ⟨rfl, rfl⟩
    exact hfinish.2
  obtain ⟨f, hendpoint, -, hraised, hframes⟩ := Failure.exists_of_raises enters_debuggedApp
    (raises_needing rfl (.panic "") ["dispatch::invoke"])
  obtain ⟨f', hendpoint', -, hraised', hframes'⟩ := Failure.exists_of_raises enters_debuggedApp
    (raises_breaking (.panic "") ["dispatch::invoke", "dispatch::serve"])
  refine ⟨hcore, f, f', hendpoint, hraised, hendpoint', hraised', _, _, hpage f hraised,
    hpage f' hraised', ?_⟩
  rw [hframes, hframes']
  decide +kernel

/-- An application without routes that answers what is not found in its own way. -/
def consolingApp : App (Routine String) :=
  (App.new {}).onStatus .notFound fun request _ => pure (.ofJson .notFound (.string request.path))

theorem enters_consolingApp : (consolingApp.core.wayIn visit).Runs [.openQueue ⟨0⟩]
    (.finished (⟨0⟩, visit, none)) :=
  ⟨⟨0⟩, [.openQueue ⟨0⟩], [], rfl, rfl, rfl, rfl⟩

theorem layers_consolingApp : consolingApp.core.chain = [ErrorPage.layer (Routine String) false] :=
  rfl

theorem settled_of_handles_consolingApp {e : Error} {handler : ExceptionHandler (Routine String)}
    (hhandles : consolingApp.core.handlers.Handles e handler) :
    handler = fun request _ => pure (.ofJson .notFound (.string request.path)) := by
  rw [← ExceptionHandlers.find?_eq_some_iff] at hhandles
  have hfind : consolingApp.core.handlers.find? e =
      if Status.notFound = e.status then
        some fun request _ => pure (.ofJson .notFound (.string request.path))
      else none := rfl
  rw [hfind, Option.ite_none_right_eq_some, Option.some.injEq] at hhandles
  exact hhandles.2.symm

theorem functional_consolingApp : consolingApp.core.Functional where
  layers := by
    rw [layers_consolingApp, List.forall_mem_singleton]
    exact Layer.functional_errorPage false
  handlers e handler hhandles request := by
    rw [settled_of_handles_consolingApp hhandles]
    exact Routine.settled_pure _

theorem ignoresFrames_consolingApp : consolingApp.core.IgnoresFrames where
  layers := by
    rw [layers_consolingApp, List.forall_mem_singleton]
    intro request e frames frames'
    exact ((Layer.functional_errorPage false).onError request (.unexpected e frames)).agree
  handlers e frames frames' handler hhandles request := by
    rw [settled_of_handles_consolingApp hhandles]
    exact (Routine.settled_pure _).agree

/-- An error of a provider and of a handler, on a path that no route matches; and a panic of a
provider and of a handler, each with frames of its own. -/
theorem dispatch_translates_alike_consoling :
    consolingApp.core.Functional ∧ consolingApp.core.IgnoresFrames ∧
    consolingApp.table.lookup visit.method visit.path = none ∧
    consolingApp.core.Claims visit ExceptionHandlers.noRouteError ∧
    (∃ f f' : Failure consolingApp.core visit,
      f.endpoint = needing (.error ExceptionHandlers.noRouteError) ∧
      f'.endpoint = breaking (.error ExceptionHandlers.noRouteError) ∧ f.outcome = f'.outcome ∧
      ∀ steps outcome, (consolingApp.handle visit).Runs steps outcome → outcome = f.outcome) ∧
    ∃ f f' : Failure consolingApp.core visit,
      f.endpoint = needing (.panic "") ∧ f'.endpoint = breaking (.panic "") ∧
      f.frames ≠ f'.frames ∧ f.outcome = f'.outcome := by
  have hcore := functional_consolingApp
  have hclaims : consolingApp.core.Claims visit ExceptionHandlers.noRouteError :=
    .inl ⟨_, .byStatus rfl rfl⟩
  obtain ⟨halike, hpanics, -, -, -, hunmatched⟩ := dispatch_translates_alike hcore visit
  refine ⟨hcore, ignoresFrames_consolingApp, rfl, hclaims, ?_, ?_⟩
  · obtain ⟨f, hendpoint, hentered, hraised, -⟩ := Failure.exists_of_raises enters_consolingApp
      (raises_needing rfl (.error ExceptionHandlers.noRouteError) [])
    obtain ⟨f', hendpoint', -, hraised', -⟩ := Failure.exists_of_raises enters_consolingApp
      (raises_breaking (.error ExceptionHandlers.noRouteError) [])
    have herror : ∀ f : Failure consolingApp.core visit,
        f.raised = .error ExceptionHandlers.noRouteError →
          f.error = ExceptionHandlers.noRouteError := by
      intro f hraised
      rw [Failure.error, hraised]
      rfl
    have hsame : f.error = f'.error := (herror f hraised).trans (herror f' hraised').symm
    rw [← hentered] at hclaims
    exact ⟨f, f', hendpoint, hendpoint', halike f f' hsame,
      hunmatched rfl rfl f (herror f hraised) hclaims⟩
  · obtain ⟨f, hendpoint, -, hraised, hframes⟩ := Failure.exists_of_raises enters_consolingApp
      (raises_needing rfl (.panic "") ["dispatch::invoke"])
    obtain ⟨f', hendpoint', -, hraised', hframes'⟩ := Failure.exists_of_raises enters_consolingApp
      (raises_breaking (.panic "") ["dispatch::invoke", "dispatch::serve"])
    refine ⟨f, f', hendpoint, hendpoint', ?_, hpanics ignoresFrames_consolingApp f f'
      (hraised.trans hraised'.symm)⟩
    rw [hframes, hframes']
    simp

end Core
end WebApp
