import WebApp.Middleware.Layer

/-!
# Sharing across origins

A layer that tells browsers which other sites may read the responses.
-/

namespace WebApp

universe u

/-- What other sites are allowed.  A list that was given no entry has its default. -/
structure Cors where
  origins : List String := []
  methods : List String := []
  headers : List String := []
  credentials : Bool := false
  maxAge : Nat := 86400
deriving DecidableEq, Inhabited, Repr

namespace Cors

def allowOrigin (c : Cors) (origin : String) : Cors :=
  { c with origins := c.origins ++ [origin] }

def allowMethod (c : Cors) (method : String) : Cors :=
  { c with methods := c.methods ++ [method] }

def allowHeader (c : Cors) (header : String) : Cors :=
  { c with headers := c.headers ++ [header] }

/-- The entries of a list, or its default when none were given. -/
def effective (given default : List String) : List String :=
  if given.isEmpty then default else given

def effectiveOrigins (c : Cors) : List String :=
  effective c.origins ["*"]

def effectiveMethods (c : Cors) : List String :=
  effective c.methods ["GET", "POST", "PUT", "DELETE", "OPTIONS"]

def effectiveHeaders (c : Cors) : List String :=
  effective c.headers ["*"]

/-- The origin that the response names, and whether it is the one of the request. -/
def grant (c : Cors) (origin : Option String) : String × Bool :=
  let origins := c.effectiveOrigins
  let wildcard := origins.contains "*"
  match origin with
  | some o =>
    if wildcard && c.credentials then (o, true)
    else if wildcard then ("*", false)
    else if origins.contains o then (o, true)
    else (String.intercalate ", " origins, false)
  | none => if wildcard then ("*", false) else (String.intercalate ", " origins, false)

/-- Tells caches that the response depends on the origin, unless a list already does. -/
def varyByOrigin (h : Headers) : Headers :=
  match h.get? "vary" with
  | some existing =>
    if Text.contains (Text.fold existing) "origin" then h
    else h.set "vary" (existing ++ ", Origin")
  | none => h.set "vary" "Origin"

/-- The header fields of a response to a request from an origin. -/
def decorate (c : Cors) (origin : Option String) (h : Headers) : Headers :=
  let (allowed, echoed) := c.grant origin
  let h := h.set "access-control-allow-origin" allowed
  let h := h.set "access-control-allow-methods" (String.intercalate ", " c.effectiveMethods)
  let h := h.set "access-control-allow-headers" (String.intercalate ", " c.effectiveHeaders)
  let h := if c.credentials then h.set "access-control-allow-credentials" "true" else h
  let h := h.set "access-control-max-age" (toString c.maxAge)
  if echoed then varyByOrigin h else h

/-- The response to a request. -/
def after (c : Cors) (request : Request) (response : Response) : Response :=
  { response with headers := c.decorate (request.headers.get? "origin") response.headers }

/-- Decorates every response on its way out. -/
def layer (m : Type → Type u) [Monad m] (c : Cors) : Layer m :=
  { Layer.idle m "cors" with
    after := fun request response => pure (c.after request response, none) }

end Cors

end WebApp
