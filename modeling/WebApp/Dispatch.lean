import WebApp.Background
import WebApp.Dependency.Resolver
import WebApp.Endpoint.Basic
import WebApp.Exceptions
import WebApp.Middleware.ErrorPage

/-!
# From a request to its response

A request passes the layers on the way in, has its inputs and dependencies resolved, and is
given to the handler; an error is answered by a handler of errors, a layer, or by itself; the
response passes the layers on the way out; then the background work is released.
-/

namespace WebApp

universe u

/-- What all endpoints of an application share. -/
structure Core (m : Type → Type u) where
  chain : Chain m := []
  handlers : ExceptionHandlers m := {}
  overrides : Overrides := []
  state : TypeMap := {}

namespace Core

variable {m : Type → Type u} [Monad m] [Reports m]

/-- What a new application has: the layer that answers unexpected errors. -/
def new (debug : Bool) : Core m :=
  { chain := [ErrorPage.layer m debug] }

/-- Answers an error: by its handler, by the first layer that offers a response, or by the
fallback. -/
def answerError (core : Core m) (request : Request) (e : Error) (fallback : Response) :
    m (Except HookFailure Response) := do
  match core.handlers.find? e with
  | some handler => return .ok (← handler request e)
  | none =>
    match ← core.chain.runOnError request e with
    | .error failure => return .error failure
    | .ok (some response) => return .ok response
    | .ok none => return .ok fallback

/-- A response with the status of an error may be replaced by the handler of that status. -/
def answerStatus (core : Core m) (request : Request) (response : Response) : m Response :=
  if response.status.isError then
    match core.handlers.forStatus? response.status with
    | some handler => handler request (.declared (.ofStatus response.status))
    | none => pure response
  else
    pure response

variable [Tasks m]

/-- Calls a handler in a task of its own. -/
def callHandler (endpoint : Endpoint m) (context : Context) : m (Except Error Response) := do
  (← Tasks.await (endpoint.handler context)).join

/-- Resolves the dependencies, calls the handler, and releases what was acquired. -/
def serve (core : Core m) (endpoint : Endpoint m) (request : Request) (arguments : Arguments)
    (background : Queue) : m (Except Error Response) := do
  let teardown := Dependency.teardownAmong endpoint.dependencies
  let setting : Resolver.Setting := ⟨request, core.overrides⟩
  match ← ((Resolver.resolve setting endpoint.dependencies).run.run {} : m _) with
  | (.error (.panic text), ledger) => do
    ledger.scope.drop teardown
    Tasks.panic text
  | (.error (.error e), ledger) => do
    ledger.scope.close teardown
    return .error e
  | (.ok dependencies, ledger) => do
    let outcome ← callHandler endpoint
      ⟨request, arguments, dependencies, background, core.state⟩
    ledger.scope.close teardown
    return outcome

/-- Takes the inputs of the endpoint and serves the request in a task of its own. -/
def invoke (core : Core m) (endpoint : Endpoint m) (request : Request) (background : Queue) :
    m (Except Error Response) := do
  match endpoint.bind request with
  | .error e => return .error (.declared e)
  | .ok arguments =>
    (← Tasks.await (core.serve endpoint request arguments background)).join

/-- The response of an endpoint, or of none when no route matched, with errors answered. -/
def respond (core : Core m) (endpoint : Option (Endpoint m)) (request : Request)
    (background : Queue) : m (Except HookFailure Response) := do
  match endpoint with
  | none =>
    core.answerError request ExceptionHandlers.noRouteError ExceptionHandlers.notFound
  | some endpoint =>
    match ← core.invoke endpoint request background with
    | .ok response => return .ok (← core.answerStatus request response)
    | .error e => core.answerError request e e.defaultResponse

/-- The way out: a failure on it, or before it, leaves a bare answer. -/
def finish (core : Core m) (depth : Nat) (request : Request)
    (outcome : Except HookFailure Response) : m Response := do
  match outcome with
  | .error _ => return .internalError
  | .ok response =>
    match ← core.chain.runAfter depth request response with
    | (response, none) => return response
    | (_, some _) => return .internalError

/-- Releases the background work of a request. -/
def release (request : Request) (background : Queue) : m Unit := do
  if ← Tasks.release background then
    report ⟨.debug, "background tasks scheduled", [("path", request.path)]⟩

/-- Runs a request through the layers to an endpoint, or to none when no route matched. -/
def dispatch (core : Core m) (endpoint : Option (Endpoint m)) (request : Request) :
    m Response := do
  let background ← Tasks.openQueue
  match ← core.chain.runBefore request with
  | (_, some (.fatal _)) => return .internalError
  | (request, some (.rejected completed e)) => do
    report ⟨.debug, "request rejected by middleware", [("status", toString e.status.code)]⟩
    let response ← core.handlers.translate request e
    let response ← core.finish completed request (.ok response)
    release request background
    return response
  | (request, none) => do
    let outcome ← core.respond endpoint request background
    let response ← core.finish core.chain.length request outcome
    release request background
    return response

end Core

end WebApp
