import Mathlib.Tactic
import WebApp.Proofs.Dispatch.Rounds

/-!
# The stages of a dispatch

A request goes through the layers; a response arises, or an error does; it is decided what the
client is told; and the response goes back through the layers that the request has passed.
What is decided follows one precedence: a handler for the type of the error, a handler for its
status, the first layer that offers a response, and last the answer that the error has by
itself.  Every run of a dispatch makes these stages, with deeds that account for all its steps.
-/

namespace WebApp

universe u

/-- What the response of a request is made from. -/
inductive Cause where
  /-- A layer has rejected the request on its way in. -/
  | rejected (e : Error)
  | raised (e : Error)
  | notFound
  | returned (response : Response)

namespace Cause

def error? : Cause → Option Error
  | .rejected e => some e
  | .raised e => some e
  | .notFound => some ExceptionHandlers.noRouteError
  | .returned _ => none

/-- Whether the layers are asked for a response. -/
def asksLayers : Cause → Bool
  | .raised _ => true
  | .notFound => true
  | _ => false

/-- The response when nothing else decides. -/
def fallback : Cause → Response
  | .rejected e => e.defaultResponse
  | .raised e => e.defaultResponse
  | .notFound => ExceptionHandlers.notFound
  | .returned response => response

end Cause

namespace ExceptionHandlers

variable {m : Type → Type u}

/-- The handler of an error: the one for its very type, else the one for its status. -/
inductive Handles (h : ExceptionHandlers m) (e : Error) : ExceptionHandler m → Prop where
  | byType {handler : ExceptionHandler m} :
      Assoc.get? e.typeName h.byType = some handler → Handles h e handler
  | byStatus {handler : ExceptionHandler m} :
      Assoc.get? e.typeName h.byType = none → Assoc.get? e.status h.byStatus = some handler →
      Handles h e handler

def Unhandled (h : ExceptionHandlers m) (e : Error) : Prop :=
  Assoc.get? e.typeName h.byType = none ∧ Assoc.get? e.status h.byStatus = none

theorem find?_eq_some_iff (h : ExceptionHandlers m) (e : Error) (handler : ExceptionHandler m) :
    h.find? e = some handler ↔ h.Handles e handler := by
  unfold find? forStatus?
  cases htype : Assoc.get? e.typeName h.byType with
  | some other =>
      rw [Option.some_or]
      constructor
      · rintro ⟨⟩
        exact .byType htype
      · rintro (hother | hnone)
        · rw [← hother, htype]
        · simp [htype] at hnone
  | none =>
      rw [Option.none_or]
      constructor
      · exact .byStatus htype
      · rintro (hother | ⟨-, hstatus⟩)
        · simp [htype] at hother
        · assumption

theorem find?_eq_none_iff (h : ExceptionHandlers m) (e : Error) :
    h.find? e = none ↔ h.Unhandled e := by
  simp [find?, forStatus?, Unhandled, Option.or_eq_none_iff]

end ExceptionHandlers

variable {σ : Type}

/-- A step that only makes a report, or minds a queue of background work. -/
def Step.IsOwn : Step σ → Prop
  | .act _ before after => ∃ event, after = { before with events := event :: before.events }
  | .openQueue _ => True
  | .release _ _ => True
  | _ => False

def Outcome.map {α β : Type} (f : α → β) : Outcome α → Outcome β
  | .finished value => .finished (f value)
  | .panicked text => .panicked text

namespace Core

/-- What a dispatch does itself. -/
def Own (deed : Deed σ) : Prop :=
  deed.label = .own ∧ ∀ step ∈ deed.steps, step.IsOwn

/-- With these deeds it comes up what the response is made from: `entered` has come through the
layers up to `depth`. -/
inductive Arises (core : Core (Routine σ)) (endpoint : Option (Endpoint (Routine σ)))
    (request : Request) (background : Queue) :
    List (Deed σ) → Request → Nat → Cause → Prop where
  | rejected {deeds : List (Deed σ)} {reported : Deed σ} {layer : String} {place : Nat}
      {entered : Request} {e : Error} :
      (Round.entering _).Went core.chain.zipIdx request deeds
        (.finished (.inr (layer, place, entered, e))) →
      e.isDeclared → Own reported →
      Arises core endpoint request background (deeds ++ [reported]) entered place (.rejected e)
  | notFound {deeds : List (Deed σ)} {entered : Request} :
      endpoint = none →
      (Round.entering _).Went core.chain.zipIdx request deeds (.finished (.inl entered)) →
      Arises core endpoint request background deeds entered core.chain.length .notFound
  | raised {deeds : List (Deed σ)} {entered : Request} {served : Endpoint (Routine σ)}
      {steps : List (Step σ)} {e : Error} :
      endpoint = some served →
      (Round.entering _).Went core.chain.zipIdx request deeds (.finished (.inl entered)) →
      (core.invoke served entered background).Runs steps (.finished (.error e)) →
      Arises core endpoint request background (deeds ++ [⟨.endpoint, steps⟩]) entered
        core.chain.length (.raised e)
  | returned {deeds : List (Deed σ)} {entered : Request} {served : Endpoint (Routine σ)}
      {steps : List (Step σ)} {response : Response} :
      endpoint = some served →
      (Round.entering _).Went core.chain.zipIdx request deeds (.finished (.inl entered)) →
      (core.invoke served entered background).Runs steps (.finished (.ok response)) →
      Arises core endpoint request background (deeds ++ [⟨.endpoint, steps⟩]) entered
        core.chain.length (.returned response)

/-- With these deeds it is decided what the client is told. -/
inductive Decides (core : Core (Routine σ)) (request : Request) :
    Cause → List (Deed σ) → Outcome (Except HookFailure Response) → Prop where
  | handled {cause : Cause} {e : Error} {handler : ExceptionHandler (Routine σ)}
      {steps : List (Step σ)} {ended : Outcome Response} :
      cause.error? = some e → core.handlers.Handles e handler →
      (handler request e).Runs steps ended →
      Decides core request cause [⟨.errorHandler, steps⟩] (ended.map .ok)
  | itself {e : Error} :
      core.handlers.Unhandled e →
      Decides core request (.rejected e) [] (.finished (.ok (Cause.rejected e).fallback))
  | offered {cause : Cause} {e : Error} {deeds : List (Deed σ)} {layer : String} {place : Nat}
      {response : Response} :
      cause.asksLayers → cause.error? = some e → core.handlers.Unhandled e →
      (Round.offering _ request e).Went core.chain.zipIdx () deeds
        (.finished (.inr (layer, place, .ok response))) →
      Decides core request cause deeds (.finished (.ok response))
  | unanswered {cause : Cause} {e : Error} {deeds : List (Deed σ)} :
      cause.asksLayers → cause.error? = some e → core.handlers.Unhandled e →
      (Round.offering _ request e).Went core.chain.zipIdx () deeds (.finished (.inl ())) →
      Decides core request cause deeds (.finished (.ok cause.fallback))
  | failed {cause : Cause} {e other : Error} {deeds : List (Deed σ)} {reported : Deed σ}
      {layer : String} {place : Nat} :
      cause.asksLayers → cause.error? = some e → core.handlers.Unhandled e →
      (Round.offering _ request e).Went core.chain.zipIdx () deeds
        (.finished (.inr (layer, place, .error other))) →
      Own reported →
      Decides core request cause (deeds ++ [reported])
        (.finished (.error ⟨layer, .onError, other.message⟩))
  | broken {cause : Cause} {e : Error} {deeds : List (Deed σ)} {text : String} :
      cause.asksLayers → cause.error? = some e → core.handlers.Unhandled e →
      (Round.offering _ request e).Went core.chain.zipIdx () deeds (.panicked text) →
      Decides core request cause deeds (.panicked text)
  | replaced {response : Response} {handler : ExceptionHandler (Routine σ)} {steps : List (Step σ)}
      {ended : Outcome Response} :
      400 ≤ response.status.code →
      Assoc.get? response.status core.handlers.byStatus = some handler →
      (handler request (.declared (.ofStatus response.status))).Runs steps ended →
      Decides core request (.returned response) [⟨.errorHandler, steps⟩] (ended.map .ok)
  | kept {response : Response} :
      (400 ≤ response.status.code → Assoc.get? response.status core.handlers.byStatus = none) →
      Decides core request (.returned response) []
        (.finished (.ok (Cause.returned response).fallback))

/-- With these deeds what was decided goes back through the outermost `depth` layers. -/
inductive Leaves (core : Core (Routine σ)) (depth : Nat) (request : Request) :
    Except HookFailure Response → List (Deed σ) → Outcome Response → Prop where
  | failed (failure : HookFailure) :
      Leaves core depth request (.error failure) [] (.finished .internalError)
  | through {response last : Response} {deeds : List (Deed σ)} :
      (Round.leaving _ request).Went (core.chain.zipIdx.take depth).reverse response deeds
        (.finished (.inl last)) →
      Leaves core depth request (.ok response) deeds (.finished last)
  | stopped {response last : Response} {deeds : List (Deed σ)} {reported : Deed σ} {layer : String}
      {place : Nat} {e : Error} :
      (Round.leaving _ request).Went (core.chain.zipIdx.take depth).reverse response deeds
        (.finished (.inr (layer, place, last, e))) →
      Own reported →
      Leaves core depth request (.ok response) (deeds ++ [reported]) (.finished .internalError)
  | broken {response : Response} {deeds : List (Deed σ)} {text : String} :
      (Round.leaving _ request).Went (core.chain.zipIdx.take depth).reverse response deeds
        (.panicked text) →
      Leaves core depth request (.ok response) deeds (.panicked text)

/-- The stages of a dispatch, with all their deeds. -/
inductive Dispatches (core : Core (Routine σ)) (endpoint : Option (Endpoint (Routine σ)))
    (request : Request) : List (Deed σ) → Outcome Response → Prop where
  | broken {opened : Deed σ} {deeds : List (Deed σ)} {text : String} :
      Own opened →
      (Round.entering _).Went core.chain.zipIdx request deeds (.panicked text) →
      Dispatches core endpoint request (opened :: deeds) (.panicked text)
  | fatal {opened reported : Deed σ} {deeds : List (Deed σ)} {layer : String} {place : Nat}
      {entered : Request} {e : Error} :
      Own opened →
      (Round.entering _).Went core.chain.zipIdx request deeds
        (.finished (.inr (layer, place, entered, e))) →
      e.isDeclared = false → Own reported →
      Dispatches core endpoint request (opened :: (deeds ++ [reported])) (.finished .internalError)
  | undecided {opened : Deed σ} {background : Queue} {arising deciding : List (Deed σ)}
      {entered : Request} {depth : Nat} {cause : Cause} {text : String} :
      Own opened →
      Arises core endpoint request background arising entered depth cause →
      Decides core entered cause deciding (.panicked text) →
      Dispatches core endpoint request (opened :: (arising ++ deciding)) (.panicked text)
  | decided {opened : Deed σ} {background : Queue} {arising deciding leaving : List (Deed σ)}
      {released : List (Deed σ)} {entered : Request} {depth : Nat} {cause : Cause}
      {decided : Except HookFailure Response} {outcome : Outcome Response} :
      Own opened →
      Arises core endpoint request background arising entered depth cause →
      Decides core entered cause deciding (.finished decided) →
      Leaves core depth entered decided leaving outcome →
      (∀ deed ∈ released, Own deed) →
      Dispatches core endpoint request (opened :: (arising ++ deciding ++ leaving ++ released))
        outcome

/-! ## Every dispatch makes these stages -/

section Sound

variable {core : Core (Routine σ)} {request : Request} {steps : List (Step σ)}

theorem own_of_report {event : Event} {outcome : Outcome Unit}
    (hruns : (report event : Routine σ Unit).Runs steps outcome) :
    Own ⟨.own, steps⟩ ∧ outcome = .finished () := by
  obtain ⟨⟨now, before, rfl⟩, rfl⟩ := (Routine.runs_report event steps outcome).mp hruns
  have hown : Step.IsOwn (.act now before { before with events := event :: before.events }) :=
    ⟨event, rfl⟩
  exact ⟨⟨rfl, by simpa using hown⟩, rfl⟩

theorem own_of_failure {name : String} {hook : Hook} {e : Error} {outcome : Outcome HookFailure}
    (hruns : (Round.failure name hook e : Routine σ HookFailure).Runs steps outcome) :
    Own ⟨.own, steps⟩ ∧ outcome = .finished ⟨name, hook, e.message⟩ := by
  unfold Round.failure Layer.failure at hruns
  obtain ⟨_, first, _, rfl, hreport, rfl, rfl⟩ := (Routine.finishes_report _).of_bind hruns
  rw [List.append_nil]
  exact ⟨(own_of_report hreport).1, rfl⟩

theorem finishes_failure (name : String) (hook : Hook) (e : Error) :
    (Round.failure name hook e : Routine σ HookFailure).Finishes :=
  fun _ _ hruns => ⟨_, (own_of_failure hruns).2⟩

theorem own_of_release {background : Queue} {outcome : Outcome Unit}
    (hruns : (release request background : Routine σ Unit).Runs steps outcome) :
    Own ⟨.own, steps⟩ ∧ outcome = .finished () := by
  unfold release at hruns
  have hasked : (Tasks.release background : Routine σ Bool).Finishes := by
    rintro _ _ ⟨any, _, _, -, -, -, rfl⟩
    exact ⟨any, rfl⟩
  obtain ⟨any, _, last, rfl, ⟨_, _, _, rfl, rfl, rfl, hany⟩, hlast⟩ := hasked.of_bind hruns
  rw [Outcome.finished.injEq] at hany
  subst hany
  cases any with
  | true =>
      obtain ⟨hown, rfl⟩ := own_of_report hlast
      exact ⟨⟨rfl, by simpa [Step.IsOwn] using hown.2⟩, rfl⟩
  | false =>
      obtain ⟨rfl, rfl⟩ := hlast
      exact ⟨⟨rfl, by simp [Step.IsOwn]⟩, rfl⟩

theorem finishes_release (background : Queue) :
    (release request background : Routine σ Unit).Finishes :=
  fun _ _ hruns => ⟨_, (own_of_release hruns).2⟩

theorem finishes_openQueue : (Tasks.openQueue : Routine σ Queue).Finishes := by
  rintro _ _ ⟨background, _, _, -, -, -, rfl⟩
  exact ⟨background, rfl⟩

theorem own_of_openQueue {outcome : Outcome Queue}
    (hruns : (Tasks.openQueue : Routine σ Queue).Runs steps outcome) : Own ⟨.own, steps⟩ := by
  obtain ⟨background, _, _, rfl, rfl, rfl, rfl⟩ := hruns
  exact ⟨rfl, by simp [Step.IsOwn]⟩

theorem finishes_invoke (endpoint : Endpoint (Routine σ)) (background : Queue) :
    (core.invoke endpoint request background).Finishes := by
  intro steps outcome hruns
  unfold invoke at hruns
  cases hbind : endpoint.bind request with
  | error e =>
      rw [hbind] at hruns
      exact ⟨_, hruns.2⟩
  | ok arguments =>
      rw [hbind] at hruns
      dsimp only at hruns
      obtain ⟨ended, _, _, -, -, hjoin⟩ := (Routine.runs_await_bind _ _ _ _).mp hruns
      exact Routine.finishes_join ended _ _ hjoin

theorem runs_handler {handler : ExceptionHandler (Routine σ)} {e : Error}
    {ended : Outcome (Except HookFailure Response)}
    (hruns : (do return .ok (← handler request e) :
      Routine σ (Except HookFailure Response)).Runs steps ended) :
    ∃ answer, (handler request e).Runs steps answer ∧ ended = answer.map .ok := by
  rw [Routine.runs_bind] at hruns
  rcases hruns with ⟨text, hpanic, rfl⟩ | ⟨response, first, last, rfl, hfirst, rfl, rfl⟩
  · exact ⟨_, hpanic, rfl⟩
  · rw [List.append_nil]
    exact ⟨_, hfirst, rfl⟩

theorem answerError_decides (cause : Cause) {e : Error} (hasks : cause.asksLayers)
    (herror : cause.error? = some e) {ended : Outcome (Except HookFailure Response)}
    (hruns : (core.answerError request e cause.fallback).Runs steps ended) :
    ∃ deeds, steps = deeds.flatMap Deed.steps ∧ Decides core request cause deeds ended := by
  unfold answerError at hruns
  cases hfind : core.handlers.find? e with
  | some handler =>
      rw [hfind] at hruns
      obtain ⟨answer, hanswer, rfl⟩ := runs_handler hruns
      have hhandles := (core.handlers.find?_eq_some_iff e handler).mp hfind
      exact ⟨[⟨.errorHandler, steps⟩], by simp, .handled herror hhandles hanswer⟩
  | none =>
      have hunhandled := (core.handlers.find?_eq_none_iff e).mp hfind
      rw [hfind] at hruns
      dsimp only at hruns
      rw [Round.runOnError_eq core.chain request e 0, bind_assoc, Routine.runs_bind] at hruns
      rcases hruns with ⟨text, hpanic, rfl⟩ | ⟨asked, first, last, rfl, hround, hlast⟩
      · obtain ⟨deeds, rfl, hwent⟩ := Round.exists_went hpanic
        exact ⟨deeds, rfl, .broken hasks herror hunhandled hwent⟩
      obtain ⟨deeds, rfl, hwent⟩ := Round.exists_went hround
      rcases asked with ⟨⟩ | ⟨layer, place, other | response⟩
      · obtain ⟨rfl, rfl⟩ := hlast
        exact ⟨deeds, List.append_nil _, .unanswered hasks herror hunhandled hwent⟩
      · dsimp only at hlast
        rw [bind_assoc] at hlast
        obtain ⟨failure, reported, _, rfl, hfailure, rfl, rfl⟩ :=
          (finishes_failure _ _ _).of_bind hlast
        obtain ⟨hown, hsame⟩ := own_of_failure hfailure
        rw [Outcome.finished.injEq] at hsame
        subst hsame
        exact ⟨deeds ++ [⟨.own, reported⟩], by simp,
          .failed hasks herror hunhandled hwent hown⟩
      · obtain ⟨rfl, rfl⟩ := hlast
        exact ⟨deeds, List.append_nil _, .offered hasks herror hunhandled hwent⟩

theorem translate_decides {e : Error} {ended : Outcome Response}
    (hruns : (core.handlers.translate request e).Runs steps ended) :
    ∃ deeds, steps = deeds.flatMap Deed.steps ∧
      Decides core request (.rejected e) deeds (ended.map .ok) := by
  unfold ExceptionHandlers.translate at hruns
  cases hfind : core.handlers.find? e with
  | some handler =>
      rw [hfind] at hruns
      have hhandles := (core.handlers.find?_eq_some_iff e handler).mp hfind
      exact ⟨[⟨.errorHandler, steps⟩], by simp, .handled rfl hhandles hruns⟩
  | none =>
      rw [hfind] at hruns
      obtain ⟨rfl, rfl⟩ := hruns
      exact ⟨[], rfl, .itself ((core.handlers.find?_eq_none_iff e).mp hfind)⟩

theorem answerStatus_decides {response : Response} {ended : Outcome (Except HookFailure Response)}
    (hruns : (do return .ok (← core.answerStatus request response) :
      Routine σ (Except HookFailure Response)).Runs steps ended) :
    ∃ deeds, steps = deeds.flatMap Deed.steps ∧
      Decides core request (.returned response) deeds ended := by
  have hstatus : response.status.isError = true ↔ 400 ≤ response.status.code := by
    simp [Status.isError]
  by_cases hkept : 400 ≤ response.status.code →
      Assoc.get? response.status core.handlers.byStatus = none
  · have hpure : core.answerStatus request response = pure response := by
      unfold answerStatus ExceptionHandlers.forStatus?
      split
      · rw [hkept (hstatus.mp ‹_›)]
      · rfl
    rw [hpure, pure_bind] at hruns
    obtain ⟨rfl, rfl⟩ := hruns
    exact ⟨[], rfl, .kept hkept⟩
  · rw [Classical.not_imp] at hkept
    obtain ⟨herror, hsome⟩ := hkept
    obtain ⟨handler, hhandler⟩ := Option.ne_none_iff_exists'.mp hsome
    unfold answerStatus ExceptionHandlers.forStatus? at hruns
    rw [if_pos (hstatus.mpr herror), hhandler] at hruns
    obtain ⟨answer, hanswer, rfl⟩ := runs_handler hruns
    exact ⟨[⟨.errorHandler, steps⟩], by simp, .replaced herror hhandler hanswer⟩

theorem finish_leaves {depth : Nat} {decided : Except HookFailure Response}
    {outcome : Outcome Response} (hruns : (core.finish depth request decided).Runs steps outcome) :
    ∃ deeds, steps = deeds.flatMap Deed.steps ∧
      Leaves core depth request decided deeds outcome := by
  cases decided with
  | error failure =>
      obtain ⟨rfl, rfl⟩ := hruns
      exact ⟨[], rfl, .failed failure⟩
  | ok response =>
      unfold finish at hruns
      dsimp only at hruns
      rw [Round.runAfter_eq, bind_assoc, Routine.runs_bind] at hruns
      rcases hruns with ⟨text, hpanic, rfl⟩ | ⟨asked, first, last, rfl, hround, hlast⟩
      · obtain ⟨deeds, rfl, hwent⟩ := Round.exists_went hpanic
        exact ⟨deeds, rfl, .broken hwent⟩
      obtain ⟨deeds, rfl, hwent⟩ := Round.exists_went hround
      rcases asked with response | ⟨layer, place, response, e⟩
      · obtain ⟨rfl, rfl⟩ := hlast
        exact ⟨deeds, List.append_nil _, .through hwent⟩
      · dsimp only at hlast
        rw [bind_assoc] at hlast
        obtain ⟨failure, reported, _, rfl, hfailure, rfl, rfl⟩ :=
          (finishes_failure _ _ _).of_bind hlast
        exact ⟨deeds ++ [⟨.own, reported⟩], by simp, .stopped hwent (own_of_failure hfailure).1⟩

/-- What was decided takes the way out, and the background work is released. -/
def wayOut (core : Core (Routine σ)) (depth : Nat) (request : Request) (background : Queue)
    (decided : Except HookFailure Response) : Routine σ Response := do
  let response ← core.finish depth request decided
  release request background
  return response

theorem wayOut_leaves {depth : Nat} {background : Queue} {decided : Except HookFailure Response}
    {outcome : Outcome Response}
    (hruns : (core.wayOut depth request background decided).Runs steps outcome) :
    ∃ leaving released, steps = (leaving ++ released).flatMap Deed.steps ∧
      Leaves core depth request decided leaving outcome ∧ ∀ deed ∈ released, Own deed := by
  unfold wayOut at hruns
  rw [Routine.runs_bind] at hruns
  rcases hruns with ⟨text, hpanic, rfl⟩ | ⟨response, first, last, rfl, hfinish, hlast⟩
  · obtain ⟨leaving, rfl, hleaves⟩ := finish_leaves hpanic
    exact ⟨leaving, [], by simp, hleaves, by simp⟩
  obtain ⟨leaving, rfl, hleaves⟩ := finish_leaves hfinish
  obtain ⟨_, released, _, rfl, hrelease, rfl, rfl⟩ := (finishes_release _).of_bind hlast
  have hown := (own_of_release hrelease).1
  exact ⟨leaving, [⟨.own, released⟩], by simp, hleaves, by simpa using hown⟩

theorem respond_decides {endpoint : Option (Endpoint (Routine σ))} {entered : Request}
    {entering : List (Deed σ)} {background : Queue}
    (hentered : (Round.entering _).Went core.chain.zipIdx request entering
      (.finished (.inl entered)))
    {ended : Outcome (Except HookFailure Response)}
    (hruns : (core.respond endpoint entered background).Runs steps ended) :
    ∃ serving deciding cause, steps = (serving ++ deciding).flatMap Deed.steps ∧
      Arises core endpoint request background (entering ++ serving) entered core.chain.length
        cause ∧
      Decides core entered cause deciding ended := by
  cases endpoint with
  | none =>
      obtain ⟨deciding, rfl, hdecides⟩ := answerError_decides .notFound rfl rfl hruns
      have harises : Arises core none request background (entering ++ []) entered
          core.chain.length .notFound := by
        rw [List.append_nil]
        exact .notFound rfl hentered
      exact ⟨[], deciding, .notFound, rfl, harises, hdecides⟩
  | some endpoint =>
      unfold respond at hruns
      dsimp only at hruns
      obtain ⟨served, serving, last, rfl, hinvoke, hlast⟩ :=
        (finishes_invoke _ _).of_bind hruns
      cases served with
      | ok response =>
          obtain ⟨deciding, rfl, hdecides⟩ := answerStatus_decides hlast
          exact ⟨[⟨.endpoint, serving⟩], deciding, .returned response, by simp,
            .returned rfl hentered hinvoke, hdecides⟩
      | error e =>
          obtain ⟨deciding, rfl, hdecides⟩ := answerError_decides (.raised e) rfl rfl hlast
          exact ⟨[⟨.endpoint, serving⟩], deciding, .raised e, by simp,
            .raised rfl hentered hinvoke, hdecides⟩

theorem dispatch_eq_rounds (core : Core (Routine σ)) (endpoint : Option (Endpoint (Routine σ)))
    (request : Request) :
    core.dispatch endpoint request = (do
      let background ← Tasks.openQueue
      match ← (Round.entering _).run core.chain.zipIdx request with
      | .inl request => do
        let decided ← core.respond endpoint request background
        core.wayOut core.chain.length request background decided
      | .inr (name, completed, request, e) =>
        if e.isDeclared then do
          report ⟨.debug, "request rejected by middleware", [("status", toString e.status.code)]⟩
          let response ← core.handlers.translate request e
          core.wayOut completed request background (.ok response)
        else do
          let _ ← Round.failure name .beforeRequest e
          return .internalError) := by
  unfold dispatch Chain.runBefore
  congr 1
  funext background
  rw [Round.beforeFrom_eq, bind_assoc]
  congr 1
  funext entered
  rcases entered with request | ⟨name, completed, request, e⟩
  · rfl
  · dsimp only
    split
    · rfl
    · rw [bind_assoc]
      rfl

/-- Every dispatch makes the stages, with deeds that account for all its steps. -/
theorem dispatch_dispatches {endpoint : Option (Endpoint (Routine σ))} {outcome : Outcome Response}
    (hruns : (core.dispatch endpoint request).Runs steps outcome) :
    ∃ trace, steps = trace.flatMap Deed.steps ∧
      Dispatches core endpoint request trace outcome := by
  rw [dispatch_eq_rounds] at hruns
  obtain ⟨background, opened, rest, rfl, hopen, hrest⟩ := finishes_openQueue.of_bind hruns
  have hopened := own_of_openQueue hopen
  rw [Routine.runs_bind] at hrest
  rcases hrest with ⟨text, hpanic, rfl⟩ | ⟨asked, first, last, rfl, hround, hlast⟩
  · obtain ⟨deeds, rfl, hwent⟩ := Round.exists_went hpanic
    exact ⟨⟨.own, opened⟩ :: deeds, by simp, .broken hopened hwent⟩
  obtain ⟨deeds, rfl, hwent⟩ := Round.exists_went hround
  rcases asked with entered | ⟨layer, place, entered, e⟩
  · dsimp only at hlast
    rw [Routine.runs_bind] at hlast
    rcases hlast with ⟨text, hpanic, rfl⟩ | ⟨decided, responding, closing, rfl, hrespond, hclose⟩
    · obtain ⟨serving, deciding, cause, rfl, harises, hdecides⟩ := respond_decides hwent hpanic
      exact ⟨⟨.own, opened⟩ :: (deeds ++ serving ++ deciding), by simp,
        .undecided hopened harises hdecides⟩
    · obtain ⟨serving, deciding, cause, rfl, harises, hdecides⟩ := respond_decides hwent hrespond
      obtain ⟨leaving, released, rfl, hleaves, hreleased⟩ := wayOut_leaves hclose
      exact ⟨⟨.own, opened⟩ :: (deeds ++ serving ++ deciding ++ leaving ++ released), by simp,
        .decided hopened harises hdecides hleaves hreleased⟩
  dsimp only at hlast
  cases hdeclared : e.isDeclared with
  | false =>
      rw [hdeclared, if_neg Bool.false_ne_true] at hlast
      obtain ⟨_, reported, _, rfl, hfailure, rfl, rfl⟩ := (finishes_failure _ _ _).of_bind hlast
      exact ⟨⟨.own, opened⟩ :: (deeds ++ [⟨.own, reported⟩]), by simp,
        .fatal hopened hwent hdeclared (own_of_failure hfailure).1⟩
  | true =>
      rw [hdeclared, if_pos rfl] at hlast
      obtain ⟨_, reported, rest, rfl, hreport, hrest⟩ :=
        (Routine.finishes_report _).of_bind hlast
      have harises : Arises core endpoint request background (deeds ++ [⟨.own, reported⟩]) entered
          place (.rejected e) :=
        .rejected hwent hdeclared (own_of_report hreport).1
      rw [Routine.runs_bind] at hrest
      rcases hrest with ⟨text, hpanic, rfl⟩ | ⟨response, answering, closing, rfl, hanswer, hclose⟩
      · obtain ⟨deciding, rfl, hdecides⟩ := translate_decides hpanic
        exact ⟨⟨.own, opened⟩ :: (deeds ++ [⟨.own, reported⟩] ++ deciding), by simp,
          .undecided hopened harises hdecides⟩
      · obtain ⟨deciding, rfl, hdecides⟩ := translate_decides hanswer
        obtain ⟨leaving, released, rfl, hleaves, hreleased⟩ := wayOut_leaves hclose
        exact ⟨⟨.own, opened⟩ :: (deeds ++ [⟨.own, reported⟩] ++ deciding ++ leaving ++ released),
          by simp, .decided hopened harises hdecides hleaves hreleased⟩

end Sound

end Core
end WebApp
