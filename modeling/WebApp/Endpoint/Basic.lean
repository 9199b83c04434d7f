import WebApp.Endpoint.Context
import WebApp.Http.Reply

/-!
# Endpoints

An endpoint is a handler with the declaration of what it is called with.
-/

namespace WebApp

universe u

/-- A handler, the inputs that it takes from the request, and its dependencies. -/
structure Endpoint (m : Type → Type u) where
  name : String
  handler : Context → m (Except Error Response)
  params : List Param := []
  dependencies : List (Reference (Dependency m)) := []

namespace Endpoint

variable {m : Type → Type u} [Monad m]

/-- The endpoint of a function whose result is turned into a response. -/
def ofFunction [Reports m] (name : String) (function : Context → m (Except Error Reply)) :
    Endpoint m where
  name := name
  handler context := do
    match ← function context with
    | .ok reply => return .ok (← reply.respond)
    | .error e => return .error e

/-- The endpoint that tells that a path can be asked for. -/
def options : Endpoint m where
  name := "options"
  handler _ := pure (.ok (.new .ok))

def withPath (e : Endpoint m) (name : String) (coercion : Coercion) : Endpoint m :=
  { e with params := e.params ++ [⟨name, .path coercion⟩] }

def withQuery (e : Endpoint m) (name : String) (coercion : Coercion)
    (absent : Option Json) : Endpoint m :=
  { e with params := e.params ++ [⟨name, .query coercion absent⟩] }

def withBody (e : Endpoint m) (name : String) : Endpoint m :=
  { e with params := e.params ++ [⟨name, .body⟩] }

def withDependency (e : Endpoint m) (reference : Reference (Dependency m)) : Endpoint m :=
  { e with dependencies := e.dependencies ++ [reference] }

def withName (e : Endpoint m) (name : String) : Endpoint m :=
  { e with name := name }

/-- The inputs that the endpoint takes from a request. -/
def bind (e : Endpoint m) (r : Request) : Except HttpError Arguments :=
  Arguments.bind e.params r

/-- The endpoint as it is shown inside a message about a program's data. -/
def shown (e : Endpoint m) : String :=
  let names := e.dependencies.map fun reference => Text.quoted reference.name
  "Endpoint \x7b name: " ++ Text.quoted e.name ++ ", params: [" ++
    String.intercalate ", " (e.params.map Param.shown) ++ "], dependencies: [" ++
    String.intercalate ", " names ++ "] \x7d"

end Endpoint

end WebApp
