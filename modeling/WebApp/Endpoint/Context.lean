import WebApp.Dependency.Basic
import WebApp.Endpoint.Param

/-!
# What a handler is called with
-/

namespace WebApp

/-- Misuse of what a handler is called with. -/
inductive ContextError where
  | unknownArgument (name : String)
  | argumentType (name : String) (expected : Json.Shape) (cause : Json.Cause)
  | missingState (kind : Kind)

namespace ContextError

def message : ContextError → String
  | .unknownArgument name => "handler argument `" ++ name ++ "` was not declared on its endpoint"
  | .argumentType name expected cause =>
    "handler argument `" ++ name ++ "` cannot be read as `" ++ expected.typeName ++ "`: " ++
      cause.message
  | .missingState kind => "no application state of type `" ++ kind.typeName ++ "` was registered"

def causes : ContextError → List String
  | .argumentType _ _ cause => [cause.message]
  | _ => []

def shown : ContextError → String
  | .unknownArgument name => "UnknownArgument(" ++ Text.quoted name ++ ")"
  | .argumentType name expected cause =>
    "ArgumentType \x7b name: " ++ Text.quoted name ++ ", expected: " ++
      Text.quoted expected.typeName ++ ", source: Error(" ++ Text.quoted cause.message ++
      ", line: 0, column: 0) \x7d"
  | .missingState kind => "MissingState(" ++ Text.quoted kind.typeName ++ ")"

def toError (e : ContextError) (trace : List String := []) : Error :=
  .unexpected {
    typeName := "blaze::context::ContextError"
    text := e.message
    causes := e.causes
    shown := e.shown } trace

end ContextError

/-- An argument as a value of a shape. -/
def Arguments.parse (a : Arguments) (name : String) (shape : Json.Shape) :
    Except ContextError Json :=
  match a.get? name with
  | none => .error (.unknownArgument name)
  | some value =>
    match shape.decode value with
    | .ok taken => .ok taken
    | .error cause => .error (.argumentType name shape cause)

/-- What a handler is called with. -/
structure Context where
  request : Request
  arguments : Arguments
  dependencies : Resolved
  background : Queue
  state : TypeMap

namespace Context

/-- An argument as a value of a shape. -/
def arg (c : Context) (name : String) (shape : Json.Shape) (trace : List String := []) :
    Except Error Json :=
  (c.arguments.parse name shape).mapError (·.toError trace)

def dep (c : Context) (kind : Kind) (name : String) (trace : List String := []) :
    Except Error kind.Carrier :=
  (c.dependencies.get kind name).mapError (·.toError trace)

def stateOf (c : Context) (kind : Kind) (trace : List String := []) : Except Error kind.Carrier :=
  match c.state.get? kind with
  | some value => .ok value
  | none => .error ((ContextError.missingState kind).toError trace)

/-- The body as a value of a shape. -/
def json (c : Context) (shape : Json.Shape) : Except HttpError Json :=
  match c.request.json shape with
  | .ok value => .ok value
  | .error fault =>
    .error (.new .unprocessableEntity ("invalid JSON body: " ++ fault.message c.request.body))

/-- The context as it is shown inside a message about a program's data. -/
def shown (c : Context) : String :=
  "Context \x7b method: " ++ c.request.method.shown ++ ", path: " ++ Text.quoted c.request.path ++
    ", arguments: " ++ c.arguments.shown ++ ", dependencies: " ++ c.dependencies.shown ++ " \x7d"

end Context

end WebApp
