import WebApp.Config
import WebApp.Dispatch
import WebApp.Routing.Router
import WebApp.Routing.Table

/-!
# Applications

An application keeps its routes in the order of their registration, finds them by method and
path, and runs requests through them.  Next to a route it adds one for the method that asks
what a path allows, unless the application has its own; such a route gives way to the
application's own.
-/

namespace WebApp

universe u

/-- Why a route cannot be registered. -/
inductive RegistryError where
  | duplicate (method : Method) (path : String)
  | invalidPath (method : Method) (path : String) (reason : InsertError)
deriving DecidableEq, Repr

def RegistryError.message : RegistryError → String
  | .duplicate method path => "route " ++ method.name ++ " " ++ path ++ " is already registered"
  | .invalidPath method path reason =>
    "invalid route " ++ method.name ++ " " ++ path ++ ": " ++ reason.message

/-- Whether the call that registers the route cannot go on after the error. -/
def RegistryError.isFatal : RegistryError → Bool
  | .duplicate _ _ => false
  | .invalidPath _ _ reason => reason.isFatal

/-- A registered route.  An implicit one was added next to another. -/
structure RouteEntry (m : Type → Type u) where
  method : Method
  path : String
  endpoint : Endpoint m
  tags : List String := []
  isImplicit : Bool := false

/-- What is run when an application starts or stops. -/
abbrev LifecycleHook (m : Type → Type u) := m (Except Error Unit)

structure App (m : Type → Type u) where
  config : Config := {}
  core : Core m
  table : RouteTable := {}
  routes : List (RouteEntry m) := []
  /-- The places of the routes by method and path. -/
  index : List ((Method × String) × Nat) := []
  startupHooks : List (LifecycleHook m) := []
  shutdownHooks : List (LifecycleHook m) := []

namespace App

variable {m : Type → Type u} [Monad m] [Reports m]

def new (config : Config) : App m :=
  { config := config, core := .new config.debug }

section Registration

variable (app : App m)

def place? (method : Method) (path : String) : Option Nat :=
  Assoc.get? (method, path) app.index

def find? (method : Method) (path : String) : Option (RouteEntry m) :=
  (app.place? method path).bind fun place => app.routes[place]?

/-- Adds a route.  An application's own route takes the place of an implicit one.  An attempt
that fails may leave its traces in the tree of patterns. -/
def insert (entry : RouteEntry m) : Option RegistryError × App m :=
  match app.place? entry.method entry.path with
  | some place =>
    if entry.isImplicit || !(app.routes[place]?.any RouteEntry.isImplicit) then
      (some (.duplicate entry.method entry.path), app)
    else
      (none, { app with routes := app.routes.set place entry })
  | none =>
    let place := app.routes.length
    match app.table.insert entry.method entry.path place with
    | (some reason, table) =>
      (some (.invalidPath entry.method entry.path reason), { app with table := table })
    | (none, table) =>
      (none, { app with
        table := table
        routes := app.routes ++ [entry]
        index := Assoc.insert (entry.method, entry.path) place app.index })

/-- Adds the implicit route next to a route, where there is none. -/
def insertOptions (method : Method) (path : String) : Option RegistryError × App m :=
  if method ≠ .options ∧ (app.place? .options path).isNone then
    app.insert { method := .options, path := path, endpoint := .options, isImplicit := true }
  else
    (none, app)

/-- What is reported of the registration of a route, and of the implicit one next to it. -/
def registrationReports (method : Method) (path : String) (skipped : Option RegistryError) :
    List Event :=
  ⟨.info, "route registered", [("method", method.name), ("path", path)]⟩ ::
    (skipped.map fun e =>
      ⟨.debug, "implicit OPTIONS route skipped", [("path", path), ("error", e.message)]⟩).toList

/-- Registers a route.  Also gives what is to be reported.  That the implicit route cannot be added
is no error, unless the call cannot go on. -/
def register (route : Route (Endpoint m)) : Option RegistryError × App m × List Event :=
  let entry : RouteEntry m :=
    { method := route.method, path := route.path, endpoint := route.endpoint, tags := route.tags }
  match app.insert entry with
  | (some e, app) => (some e, app, [])
  | (none, app) =>
    let (skipped, app) := app.insertOptions route.method route.path
    match skipped.filter RegistryError.isFatal with
    | some e => (some e, app, [])
    | none => (none, app, registrationReports route.method route.path skipped)

/-- Registers routes in order, up to the first that cannot be. -/
def registerAll : App m → List (Route (Endpoint m)) → Option RegistryError × App m × List Event
  | app, [] => (none, app, [])
  | app, route :: rest =>
    match app.register route with
    | (some e, app, events) => (some e, app, events)
    | (none, app, events) =>
      let (e, app, more) := app.registerAll rest
      (e, app, events ++ more)

end Registration

section Settings

variable (app : App m)

/-- Adds a layer inside of all others.  Also gives what is to be reported. -/
def addLayer (layer : Layer m) : App m × Event :=
  ({ app with core := { app.core with chain := app.core.chain ++ [layer] } },
    ⟨.info, "middleware added", [("middleware", layer.name)]⟩)

def onStatus (status : Status) (handler : ExceptionHandler m) : App m :=
  { app with core := { app.core with handlers := app.core.handlers.onStatus status handler } }

def onType (typeName : String) (handler : ExceptionHandler m) : App m :=
  { app with core := { app.core with handlers := app.core.handlers.onType typeName handler } }

/-- Lets a value stand in for a dependency from now on. -/
def override (id : DependencyId) (value : Datum) : App m :=
  { app with core := { app.core with overrides := Assoc.insert id value app.core.overrides } }

def removeOverride (id : DependencyId) : App m :=
  { app with core := { app.core with overrides := Assoc.erase id app.core.overrides } }

def clearOverrides : App m :=
  { app with core := { app.core with overrides := [] } }

/-- Shares a value with all handlers. -/
def withState (value : Datum) : App m :=
  { app with core := { app.core with state := app.core.state.insert value } }

def onStartup (hook : LifecycleHook m) : App m :=
  { app with startupHooks := app.startupHooks ++ [hook] }

def onShutdown (hook : LifecycleHook m) : App m :=
  { app with shutdownHooks := app.shutdownHooks ++ [hook] }

/-- The application as it is shown inside a message about a program's data. -/
def shown : String :=
  "App \x7b config: " ++ app.config.shown ++ ", routes: " ++ toString app.routes.length ++
    ", middleware: " ++ app.core.chain.shown ++ " \x7d"

end Settings

def reportHook (message : String) (place : Nat) (e : Error) : m Unit :=
  report ⟨.error, message, [("hook", toString place), ("error", e.message)]⟩

/-- Runs hooks in order up to the first that fails. -/
def startEach : Nat → List (LifecycleHook m) → m (Except Error Unit)
  | _, [] => return .ok ()
  | place, hook :: rest => do
    match ← hook with
    | .ok () => startEach (place + 1) rest
    | .error e =>
      reportHook "startup hook failed" place e
      return .error e

/-- Runs all hooks in order. -/
def stopEach : Nat → List (LifecycleHook m) → m Unit
  | _, [] => return
  | place, hook :: rest => do
    match ← hook with
    | .ok () => pure ()
    | .error e => reportHook "shutdown hook failed" place e
    stopEach (place + 1) rest

def startup (app : App m) : m (Except Error Unit) := do
  match ← startEach 0 app.startupHooks with
  | .error e => return .error e
  | .ok () =>
    report ⟨.info, "application started", [("hooks", toString app.startupHooks.length)]⟩
    return .ok ()

def shutdown (app : App m) : m Unit := do
  stopEach 0 app.shutdownHooks
  report ⟨.info, "application stopped", [("hooks", toString app.shutdownHooks.length)]⟩

variable [Tasks m]

/-- Runs a request to the endpoint of a registered route. -/
def dispatcher? (app : App m) (method : Method) (path : String) :
    Option (Request → m Response) :=
  (app.find? method path).map fun entry => app.core.dispatch (some entry.endpoint)

/-- Answers a request that no route matches. -/
def notFound (app : App m) (request : Request) : m Response :=
  app.core.dispatch none request

/-- Matches a request against the routes and runs it. -/
def handle (app : App m) (request : Request) : m Response :=
  match app.table.lookup request.method request.path with
  | none => app.notFound request
  | some (place, captures) =>
    app.core.dispatch (app.routes[place]?.map RouteEntry.endpoint) (request.withPathParams captures)

end App

end WebApp
