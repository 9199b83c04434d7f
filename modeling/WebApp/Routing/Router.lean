import WebApp.Http.Method
import WebApp.Text.Basic

/-!
# Routers

A router collects routes under a shared beginning of their paths and with shared tags.
-/

namespace WebApp

universe u

/-- A route: what it answers, by which endpoint, and its tags. -/
structure Route (ε : Type u) where
  method : Method
  path : String
  endpoint : ε
  tags : List String := []

/-- Routes under one base path, each with the tags that the router had when the route was
added. -/
structure Router (ε : Type u) where
  base : String := ""
  tags : List String := []
  routes : List (Route ε) := []

namespace Router

variable {ε : Type u}

/-- The text without the slashes at its end. -/
def trimSlashes (s : String) : String :=
  String.ofList (s.toList.reverse.dropWhile (· == '/')).reverse

def new (base : String) : Router ε :=
  { base := trimSlashes base }

/-- One more tag for the routes that are added from now on. -/
def tag (r : Router ε) (tag : String) : Router ε :=
  { r with tags := r.tags ++ [tag] }

/-- A path below a base. -/
def join (base path : String) : String :=
  if base.isEmpty then path
  else if path.isEmpty || path == "/" then base
  else if path.toList.head? = some '/' then base ++ path
  else base ++ "/" ++ path

def add (r : Router ε) (route : Route ε) : Router ε :=
  { r with routes := r.routes ++
      [{ route with path := join r.base route.path, tags := r.tags ++ route.tags }] }

/-- Adds a route with tags of its own. -/
def route (r : Router ε) (method : Method) (path : String) (endpoint : ε)
    (tags : List String) : Router ε :=
  r.add { method := method, path := path, endpoint := endpoint, tags := tags }

/-- Adds the routes of another router below the base. -/
def nest (r other : Router ε) : Router ε :=
  other.routes.foldl add r

def size (r : Router ε) : Nat := r.routes.length

end Router

end WebApp
