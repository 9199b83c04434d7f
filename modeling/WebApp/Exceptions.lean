import WebApp.Http.Request
import WebApp.Task.Basic

/-!
# Handlers of errors

An application may answer errors of a type, or of a status, in its own way.  A handler for the
type of an error comes before one for its status.
-/

namespace WebApp

universe u

/-- Answers an error of a request. -/
abbrev ExceptionHandler (m : Type → Type u) := Request → Error → m Response

/-- Handlers by the name of the type of an error, and by status. -/
structure ExceptionHandlers (m : Type → Type u) where
  byType : List (String × ExceptionHandler m) := []
  byStatus : List (Status × ExceptionHandler m) := []

namespace ExceptionHandlers

/-- The detail of the error for a path that no route matches. -/
def noRoute : String := "No route found"

/-- The error for a path that no route matches. -/
def noRouteError : Error :=
  .declared (.new .notFound noRoute)

/-- The answer to a path that no route matches. -/
def notFound : Response :=
  .ofJson .notFound (.ofTexts [("error", "Not Found"), ("detail", noRoute)])

variable {m : Type → Type u}

def onType (h : ExceptionHandlers m) (typeName : String) (handler : ExceptionHandler m) :
    ExceptionHandlers m :=
  { h with byType := Assoc.insert typeName handler h.byType }

def onStatus (h : ExceptionHandlers m) (status : Status) (handler : ExceptionHandler m) :
    ExceptionHandlers m :=
  { h with byStatus := Assoc.insert status handler h.byStatus }

def forStatus? (h : ExceptionHandlers m) (status : Status) : Option (ExceptionHandler m) :=
  Assoc.get? status h.byStatus

def find? (h : ExceptionHandlers m) (e : Error) : Option (ExceptionHandler m) :=
  (Assoc.get? e.typeName h.byType).or (h.forStatus? e.status)

/-- The answer to an error by its handler, or else the one that it has by itself. -/
def translate [Monad m] (h : ExceptionHandlers m) (request : Request) (e : Error) : m Response :=
  match h.find? e with
  | some handler => handler request e
  | none => pure e.defaultResponse

def size (h : ExceptionHandlers m) : Nat :=
  h.byType.length + h.byStatus.length

/-- The handlers as they are shown inside a message about a program's data. -/
def shown (h : ExceptionHandlers m) : String :=
  let types := h.byType.map fun entry => Text.quoted entry.1
  let statuses := h.byStatus.map fun entry => toString entry.1.code
  "ExceptionHandlers \x7b types: [" ++ String.intercalate ", " types ++ "], statuses: [" ++
    String.intercalate ", " statuses ++ "] \x7d"

end ExceptionHandlers

end WebApp
