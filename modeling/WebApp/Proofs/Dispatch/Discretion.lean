import Mathlib.Tactic
import WebApp.Proofs.App.Made
import WebApp.Proofs.Dispatch.Brackets
import WebApp.Proofs.Dispatch.Teardowns
import WebApp.Proofs.Task.Given

/-!
# What a client can learn of an unexpected error

Unless it is debugged, an application says of an unexpected error only that there was one.  The
outermost layer answers every such error that no handler is registered for, always with one page,
and no other layer is asked.  So two dispatches that differ in nothing but the error that
is raised while the request is served end with the same response.  An error of a hook
leaves the bare answer.
-/

namespace WebApp

variable {σ τ : Type}

/-- What the client is told of any unexpected error. -/
def ErrorPage.generic : Response :=
  .ofJson .internalServerError
    (.ofTexts [("error", "Internal Server Error"), ("detail", "An unexpected error occurred")])

/-- What is reported of an unexpected error that nobody handles; the frames are not. -/
def ErrorPage.unhandled (request : Request) (e : Unexpected) : Event :=
  ⟨.error, "unhandled error", [("method", request.method.name), ("path", request.path),
    ("error", (Error.unexpected e).message), ("type_name", e.typeName)]⟩

namespace Core

/-! ## The answer to an error that nobody handles -/

theorem dispatch_eq_invoke (core : Core (Routine σ)) (endpoint : Endpoint (Routine σ))
    (request : Request) :
    core.dispatch (some endpoint) request = (do
      let (background, request, refusal) ← core.wayIn request
      match refusal with
      | some refusal => core.turnAway request background refusal
      | none => do
        let served ← core.invoke endpoint request background
        core.conclude request background served) := by
  rw [dispatch_eq]
  congr 1
  funext entered
  obtain ⟨background, request, _ | refusal⟩ := entered
  · simp only [invoke]
    cases endpoint.bind request with
    | error e => rfl
    | ok arguments => simp only [bind_assoc]
  · rfl

/-- Behind the report of an unexpected error its page takes the way out.  Nothing of the error is
left in the page of an application that is not debugged. -/
theorem conclude_unexpected {core : Core (Routine σ)} {layers : List (Layer (Routine σ))}
    {debug : Bool} (hchain : core.chain = ErrorPage.layer _ debug :: layers) {e : Unexpected}
    {trace : List String} (hunhandled : core.handlers.Unhandled (.unexpected e trace))
    (request : Request) (background : Queue) :
    core.conclude request background (.error (.unexpected e trace)) = (do
      report (ErrorPage.unhandled request e)
      core.wayOut core.chain.length request background
        (.ok (.ofJson .internalServerError (ErrorPage.body debug (.unexpected e trace))))) := by
  have hfind : core.handlers.find? (.unexpected e trace) = none :=
    (core.handlers.find?_eq_none_iff _).mpr hunhandled
  have hround : core.chain.runOnError request (.unexpected e trace) = (do
      report (ErrorPage.unhandled request e)
      return .ok (some
        (.ofJson .internalServerError (ErrorPage.body debug (.unexpected e trace))))) := by
    rw [hchain, Chain.runOnError]
    rfl
  have hanswer : core.answered request (.error (.unexpected e trace)) = (do
      report (ErrorPage.unhandled request e)
      return .ok
        (.ofJson .internalServerError (ErrorPage.body debug (.unexpected e trace)))) := by
    change core.answerError request (.unexpected e trace) _ = _
    unfold answerError
    rw [hfind]
    dsimp only
    rw [hround]
    rfl
  unfold conclude
  rw [hanswer]
  rfl

/-- A run of a dispatch in which an unexpected error is raised while the request is served: by a
provider, by the handler, or as a panic of either. -/
structure Raising (core : Core (Routine σ)) where
  endpoint : Endpoint (Routine σ)
  request : Request
  error : Unexpected
  trace : List String
  background : Queue
  entered : Request
  opening : List (Step σ)
  serving : List (Step σ)
  closing : List (Step σ)
  outcome : Outcome Response
  enters : (core.wayIn request).Runs opening (.finished (background, entered, none))
  raises : (core.invoke endpoint entered background).Runs serving
    (.finished (.error (.unexpected error trace)))
  concludes : (core.conclude entered background (.error (.unexpected error trace))).Runs closing
    outcome

namespace Raising

variable {core : Core (Routine σ)}

theorem runs (r : Raising core) :
    (core.dispatch (some r.endpoint) r.request).Runs (r.opening ++ (r.serving ++ r.closing))
      r.outcome := by
  rw [dispatch_eq_invoke, Routine.runs_bind]
  refine .inr ⟨_, _, _, rfl, r.enters, ?_⟩
  dsimp only
  rw [Routine.runs_bind]
  exact .inr ⟨_, _, _, rfl, r.raises, r.concludes⟩

/-- The two runs are given the same request, and the same on the way in and after the error. -/
structure Twin (view : Journal σ → τ) (r r' : Raising core) : Prop where
  request : r.request = r'.request
  opening : AllAlike id r.opening r'.opening
  closing : AllAlike view r.closing r'.closing

variable {layers : List (Layer (Routine σ))} {view : Journal σ → τ}

theorem Twin.entered_eq {r r' : Raising core} (htwin : Twin view r r') :
    r.entered = r'.entered ∧ r.background = r'.background := by
  have henters := r'.enters
  rw [← htwin.request] at henters
  have hsame := (Routine.sees_id _).outcome_eq r.enters henters htwin.opening
  simp only [Outcome.finished.injEq, Prod.mk.injEq, and_true] at hsame
  exact ⟨hsame.2, hsame.1⟩

theorem sees_afterEach (request : Request) {chain : Chain (Routine σ)}
    (hview : ∀ layer ∈ chain, ∀ request response, (layer.after request response).Sees view)
    (response : Response) : (Chain.afterEach request chain response).Sees view := by
  induction chain generalizing response with
  | nil => trivial
  | cons layer rest ih =>
      rw [List.forall_mem_cons] at hview
      refine (hview.1 request response).bind ?_
      rintro ⟨response, _ | e⟩
      · exact ih hview.2 response
      · have hfailure : (layer.failure .afterRequest e).Sees view :=
          (Routine.sees_report _).bind fun _ => Routine.sees_pure _
        exact hfailure.bind fun _ => Routine.sees_pure _

theorem sees_release (request : Request) (background : Queue) :
    (release request background : Routine σ Unit).Sees view := by
  have hasked : (Tasks.release background : Routine σ Bool).Sees view := fun _ => trivial
  refine hasked.bind ?_
  rintro (_ | _)
  · trivial
  · exact Routine.sees_report _

theorem sees_wayOut
    (hview : ∀ layer ∈ core.chain, ∀ request response, (layer.after request response).Sees view)
    (depth : Nat) (request : Request) (background : Queue)
    (decided : Except HookFailure Response) :
    (core.wayOut depth request background decided).Sees view := by
  have hfinish : (core.finish depth request decided).Sees view := by
    cases decided with
    | error => trivial
    | ok response =>
        refine (sees_afterEach request ?_ response).bind ?_
        · intro layer hlayer
          exact hview layer (List.mem_of_mem_take (List.mem_reverse.mp hlayer))
        · rintro ⟨_, _ | _⟩ <;> trivial
  exact hfinish.bind fun _ => (sees_release request background).bind fun _ => trivial

/-- After the report of the error the generic page takes the way out. -/
theorem exists_report (hchain : core.chain = ErrorPage.layer _ false :: layers) (r : Raising core)
    (hunhandled : core.handlers.Unhandled (.unexpected r.error r.trace)) :
    ∃ now before rest,
      r.closing = .act now before
        { before with events := ErrorPage.unhandled r.entered r.error :: before.events } :: rest ∧
      (core.wayOut core.chain.length r.entered r.background (.ok ErrorPage.generic)).Runs rest
        r.outcome := by
  have hconcludes := r.concludes
  rw [conclude_unexpected hchain hunhandled, Routine.runs_report_bind] at hconcludes
  exact hconcludes

theorem decides_generic (hchain : core.chain = ErrorPage.layer _ false :: layers) {e : Unexpected}
    {trace : List String} (hunhandled : core.handlers.Unhandled (.unexpected e trace))
    (request : Request) (now : Nat) (before : Journal σ) :
    Decides core request (.raised (.unexpected e trace))
      [⟨.hook .onError 0 .answered, [.act now before
        { before with events := ErrorPage.unhandled request e :: before.events }]⟩]
      (.finished (.ok ErrorPage.generic)) := by
  have hasked : ((Round.offering (Routine σ) request (.unexpected e trace)).ask
      (ErrorPage.layer _ false) ()).Runs
      [.act now before { before with events := ErrorPage.unhandled request e :: before.events }]
      (.finished (.ok (some ErrorPage.generic))) :=
    ⟨(), _, [], rfl, ⟨now, before, rfl, rfl⟩, rfl, rfl⟩
  have hwent : (Round.offering _ request (.unexpected e trace)).Went core.chain.zipIdx ()
      [⟨.hook .onError 0 .answered, [.act now before
        { before with events := ErrorPage.unhandled request e :: before.events }]⟩]
      (.finished (.inr ("error_handler", 0, .ok ErrorPage.generic))) := by
    rw [hchain, List.zipIdx_cons]
    exact Round.Went.stop (layers.zipIdx 1) hasked rfl
  exact .offered rfl rfl hunhandled hwent

theorem Twin.outcome_eq (hchain : core.chain = ErrorPage.layer _ false :: layers)
    (hview : ∀ layer ∈ core.chain, ∀ request response, (layer.after request response).Sees view)
    {r r' : Raising core} (htwin : Twin view r r')
    (hunhandled : core.handlers.Unhandled (.unexpected r.error r.trace))
    (hunhandled' : core.handlers.Unhandled (.unexpected r'.error r'.trace)) :
    r.outcome = r'.outcome := by
  obtain ⟨_, _, rest, hclosing, hrest⟩ := r.exists_report hchain hunhandled
  obtain ⟨_, _, rest', hclosing', hrest'⟩ := r'.exists_report hchain hunhandled'
  have hentered := htwin.entered_eq
  rw [← hentered.1, ← hentered.2] at hrest'
  have halike := htwin.closing
  rw [hclosing, hclosing'] at halike
  exact (sees_wayOut hview _ _ _ _).outcome_eq hrest hrest' (List.forall₂_cons.mp halike).2

theorem exists_twin (hchain : core.chain = ErrorPage.layer _ false :: layers)
    (view : Journal σ → τ) (r : Raising core)
    (hunhandled : core.handlers.Unhandled (.unexpected r.error r.trace))
    {endpoint : Endpoint (Routine σ)} {e : Unexpected} {trace : List String}
    {serving : List (Step σ)}
    (hraises : (core.invoke endpoint r.entered r.background).Runs serving
      (.finished (.error (.unexpected e trace))))
    (hunhandled' : core.handlers.Unhandled (.unexpected e trace)) :
    ∃ r' : Raising core, r'.endpoint = endpoint ∧ r'.error = e ∧ r'.trace = trace ∧
      r'.serving = serving ∧ Twin view r r' := by
  obtain ⟨now, before, rest, hclosing, hrest⟩ := r.exists_report hchain hunhandled
  let reported : Step σ := .act now before
    { before with events := ErrorPage.unhandled r.entered e :: before.events }
  have hconcludes : (core.conclude r.entered r.background (.error (.unexpected e trace))).Runs
      (reported :: rest) r.outcome := by
    rw [conclude_unexpected hchain hunhandled', Routine.runs_report_bind]
    exact ⟨now, before, rest, rfl, hrest⟩
  refine ⟨⟨endpoint, r.request, e, trace, r.background, r.entered, r.opening, serving,
    reported :: rest, r.outcome, r.enters, hraises, hconcludes⟩, rfl, rfl, rfl, rfl, rfl,
    .refl _ _, ?_⟩
  rw [hclosing]
  exact .cons (.act rfl) (AllAlike.refl _ _)

end Raising

/-! ## The property -/

/-- An application that is not debugged does not tell its errors.  Two dispatches that are given
the same, but for an unexpected error that is raised while the request is served and that no
handler is registered for, end with the same response, whatever layers there are; a view of the
journal stands for what the hooks on the way out can see.  For every dispatch and every other
such error, with any frames, there is one that differs in it alone.  The outermost layer decides
alone, and what takes the way out is the generic page.  An unexpected error of a hook leaves the
bare answer, which is a 500 that tells nothing of it. -/
theorem dispatch_discreet {config : Config} {app : App (Routine σ)} (hmade : App.Made config app)
    (hdebug : config.debug = false) (view : Journal σ → τ)
    (hview : ∀ layer ∈ app.core.chain, ∀ request response,
      (layer.after request response).Sees view) :
    (∀ r r' : Raising app.core, r.Twin view r' →
      app.core.handlers.Unhandled (.unexpected r.error r.trace) →
      app.core.handlers.Unhandled (.unexpected r'.error r'.trace) → r.outcome = r'.outcome) ∧
    (∀ r : Raising app.core, app.core.handlers.Unhandled (.unexpected r.error r.trace) →
      (∀ endpoint e trace serving,
        (app.core.invoke endpoint r.entered r.background).Runs serving
          (.finished (.error (.unexpected e trace))) →
        app.core.handlers.Unhandled (.unexpected e trace) →
        ∃ r' : Raising app.core, r'.endpoint = endpoint ∧ r'.error = e ∧ r'.trace = trace ∧
          r'.serving = serving ∧ r.Twin view r') ∧
      ∃ reported leaving released,
        r.closing = (⟨.hook .onError 0 .answered, [reported]⟩ ::
          (leaving ++ released)).flatMap Deed.steps ∧
        Decides app.core r.entered (.raised (.unexpected r.error r.trace))
          [⟨.hook .onError 0 .answered, [reported]⟩] (.finished (.ok ErrorPage.generic)) ∧
        Leaves app.core app.core.chain.length r.entered (.ok ErrorPage.generic) leaving r.outcome ∧
        ∀ deed ∈ released, Own deed) ∧
    (∀ endpoint request steps outcome, (app.core.dispatch endpoint request).Runs steps outcome →
      ∃ deeds, steps = deeds.flatMap Deed.steps ∧
        (∀ deed ∈ deeds, Genuine app.core endpoint deed) ∧
        ∀ hook place e trace, .hook hook place (.failed (.unexpected e trace)) ∈ Deed.calls deeds →
          outcome = .finished .internalError) ∧
    Response.internalError.IsBare := by
  obtain ⟨layers, hchain⟩ := hmade.chain_eq
  rw [hdebug] at hchain
  refine ⟨?_, ?_, ?_, Response.isBare_internalError⟩
  · intro r r' htwin hunhandled hunhandled'
    exact htwin.outcome_eq hchain hview hunhandled hunhandled'
  · intro r hunhandled
    refine ⟨?_, ?_⟩
    · intro endpoint e trace serving hraises hunhandled'
      exact r.exists_twin hchain view hunhandled hraises hunhandled'
    · obtain ⟨now, before, rest, hclosing, hrest⟩ := r.exists_report hchain hunhandled
      obtain ⟨leaving, released, rfl, hleaves, hreleased⟩ := wayOut_leaves hrest
      exact ⟨_, leaving, released, hclosing, Raising.decides_generic hchain hunhandled _ _ _,
        hleaves, hreleased⟩
  · intro endpoint request steps outcome hruns
    obtain ⟨deeds, hsteps, hdispatches⟩ := dispatch_dispatches hruns
    refine ⟨deeds, hsteps, hdispatches.genuine, ?_⟩
    intro hook place e trace hmem
    exact hdispatches.bracketed.internalError_of_failed (hook_notMem_served endpoint) hmem
      fun _ => rfl

/-! ## Two messages -/

def failing (message : String) : Endpoint (Routine String) where
  name := "failing"
  handler _ := pure (.error (.ofMessage message))

/-- A layer that signs every response with the application's own state. -/
def signing : Layer (Routine String) :=
  { Layer.idle _ "signing" with
    after := fun _ response => do
      let text ← (Act.state : Act String String)
      return (response.withHeader "Signed-By" text, none) }

def signingApp : App (Routine String) :=
  ((App.new {}).addLayer signing).1

theorem raises_failing (core : Core (Routine String)) (message : String) (request : Request)
    (background : Queue) :
    (core.invoke (failing message) request background).Runs []
      (.finished (.error (.ofMessage message))) :=
  ⟨.finished (.error (.ofMessage message)), [], [], rfl,
    ⟨.finished (.error (.ofMessage message)), [], [], rfl, ⟨rfl, rfl⟩, ⟨rfl, rfl⟩⟩, ⟨rfl, rfl⟩⟩

theorem dispatch_discreet_signing :
    App.Made {} signingApp ∧ ({} : Config).debug = false ∧
    (∀ layer ∈ signingApp.core.chain, ∀ request response,
      (layer.after request response).Sees Journal.state) ∧
    ∃ r r' : Raising signingApp.core, r.error.text = "no such table" ∧
      r'.error.text = "out of memory" ∧ r.Twin Journal.state r' ∧ r.outcome = r'.outcome := by
  have hmade : App.Made {} signingApp := .addLayer signing .new
  have hview : ∀ layer ∈ signingApp.core.chain, ∀ request response,
      (layer.after request response).Sees Journal.state := by
    simp only [signingApp, App.addLayer, App.new, Core.new, List.cons_append, List.nil_append,
      List.forall_mem_cons, List.not_mem_nil, false_implies, implies_true, and_true]
    refine ⟨fun _ _ => trivial, fun _ _ => ⟨?_, fun _ => trivial⟩⟩
    exact fun _ _ _ hsame => hsame
  have hunhandled : ∀ e, signingApp.core.handlers.Unhandled e := fun _ => ⟨rfl, rfl⟩
  obtain ⟨hequal, hrest, -⟩ := dispatch_discreet hmade rfl Journal.state hview
  obtain ⟨closing, outcome, hconcludes⟩ := Routine.exists_runs { state := "" }
    (signingApp.core.conclude { method := .get, path := "/" } ⟨0⟩
      (.error (.ofMessage "no such table")))
  let r : Raising signingApp.core := {
    endpoint := failing "no such table"
    request := { method := .get, path := "/" }
    error := _
    trace := _
    background := ⟨0⟩
    entered := { method := .get, path := "/" }
    opening := [.openQueue ⟨0⟩]
    serving := []
    closing := closing
    outcome := outcome
    enters := ⟨⟨0⟩, [.openQueue ⟨0⟩], [], rfl, rfl, rfl, rfl⟩
    raises := raises_failing _ _ _ _
    concludes := hconcludes }
  obtain ⟨r', -, herror, -, -, htwin⟩ := (hrest r (hunhandled _)).1 (failing "out of memory") _ _ []
    (raises_failing _ _ _ _) (hunhandled _)
  refine ⟨hmade, rfl, hview, r, r', rfl, ?_, htwin, hequal r r' htwin (hunhandled _) (hunhandled _)⟩
  rw [herror]

end Core
end WebApp
