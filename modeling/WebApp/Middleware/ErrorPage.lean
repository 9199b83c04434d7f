import WebApp.Middleware.Layer

/-!
# The answer to unexpected errors

The outermost layer of every application answers unexpected errors: with all that is known of
the error while the application is debugged, and else with nothing of it.
-/

namespace WebApp.ErrorPage

universe u

/-- What the client is told of an unexpected error. -/
def body (debug : Bool) (e : Error) : Json :=
  if debug then
    .ofMembers [("error", .string e.typeName), ("detail", .string e.message),
      ("traceback", .ofStrings e.trace)]
  else
    .ofTexts [("error", "Internal Server Error"), ("detail", "An unexpected error occurred")]

/-- Answers unexpected errors and leaves declared ones to others. -/
def layer (m : Type → Type u) [Monad m] [Reports m] (debug : Bool) : Layer m :=
  { Layer.idle m "error_handler" with
    onError := fun request e => do
      if e.isDeclared then
        return .ok none
      else
        report ⟨.error, "unhandled error",
          [("method", request.method.name), ("path", request.path), ("error", e.message),
            ("type_name", e.typeName)]⟩
        return .ok (some (.ofJson .internalServerError (body debug e))) }

end WebApp.ErrorPage
