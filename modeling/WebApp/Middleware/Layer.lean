import WebApp.Http.Request
import WebApp.Task.Basic

/-!
# Layers

A layer sees every request before the handler and every response after it, and may offer a
response for an error.  A chain of layers calls them from the outermost to the innermost, and
on the way out from the innermost to the outermost.  A declared error on the way in rejects
the request; any other failure of a layer ends the request with a bare answer.
-/

namespace WebApp

universe u

/-- A layer.  A hook that fails may have changed the request or response before. -/
structure Layer (m : Type → Type u) where
  name : String
  before : Request → m (Request × Option Error)
  after : Request → Response → m (Response × Option Error)
  onError : Request → Error → m (Except Error (Option Response))

inductive Hook where
  | beforeRequest
  | afterRequest
  | onError
deriving DecidableEq, Repr

def Hook.name : Hook → String
  | .beforeRequest => "before_request"
  | .afterRequest => "after_request"
  | .onError => "on_error"

structure HookFailure where
  layer : String
  hook : Hook
  message : String
deriving DecidableEq, Repr

def HookFailure.text (f : HookFailure) : String :=
  "middleware `" ++ f.layer ++ "` failed in " ++ f.hook.name ++ ": " ++ f.message

/-- How the way in ended early. -/
inductive Refusal where
  /-- A layer rejected the request; so many layers outside of it had let it pass. -/
  | rejected (completed : Nat) (error : Error)
  | fatal (failure : HookFailure)

namespace Layer

variable {m : Type → Type u} [Monad m] [Reports m]

/-- The layer that does nothing. -/
def idle (m : Type → Type u) [Monad m] (name : String) : Layer m where
  name := name
  before request := pure (request, none)
  after _ response := pure (response, none)
  onError _ _ := pure (.ok none)

def failure (layer : Layer m) (hook : Hook) (e : Error) : m HookFailure := do
  report ⟨.error, "middleware hook failed",
    [("middleware", layer.name), ("hook", hook.name), ("error", e.message),
      ("type_name", e.typeName)]⟩
  return ⟨layer.name, hook, e.message⟩

end Layer

/-- Layers, the outermost first. -/
abbrev Chain (m : Type → Type u) := List (Layer m)

namespace Chain

variable {m : Type → Type u} [Monad m] [Reports m]

def names (chain : Chain m) : List String :=
  chain.map Layer.name

/-- The chain as it is shown inside a message about a program's data. -/
def shown (chain : Chain m) : String :=
  "[" ++ String.intercalate ", " (chain.names.map Text.quoted) ++ "]"

/-- The way in through the layers behind `completed` others. -/
def beforeFrom : Nat → Chain m → Request → m (Request × Option Refusal)
  | _, [], request => return (request, none)
  | completed, layer :: rest, request => do
    match ← layer.before request with
    | (request, none) => beforeFrom (completed + 1) rest request
    | (request, some e) =>
      if e.isDeclared then
        return (request, some (.rejected completed e))
      else
        return (request, some (.fatal (← layer.failure .beforeRequest e)))

/-- The way in. -/
def runBefore (chain : Chain m) (request : Request) : m (Request × Option Refusal) :=
  beforeFrom 0 chain request

/-- The way out through layers given from the innermost on. -/
def afterEach (request : Request) : Chain m → Response → m (Response × Option HookFailure)
  | [], response => return (response, none)
  | layer :: rest, response => do
    match ← layer.after request response with
    | (response, none) => afterEach request rest response
    | (response, some e) => return (response, some (← layer.failure .afterRequest e))

/-- The way out through the outermost `depth` layers. -/
def runAfter (chain : Chain m) (depth : Nat) (request : Request) (response : Response) :
    m (Response × Option HookFailure) :=
  afterEach request (chain.take depth).reverse response

/-- The response of the first layer that offers one for an error. -/
def runOnError : Chain m → Request → Error → m (Except HookFailure (Option Response))
  | [], _, _ => return .ok none
  | layer :: rest, request, e => do
    match ← layer.onError request e with
    | .error failed => return .error (← layer.failure .onError failed)
    | .ok (some response) => return .ok (some response)
    | .ok none => runOnError rest request e

end Chain

end WebApp
