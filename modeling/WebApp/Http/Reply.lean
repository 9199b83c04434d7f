import WebApp.Event
import WebApp.Http.Response

/-!
# What a handler returns

A handler returns a value of some type, alone or with a status and header fields.  The type of
the value decides on the content type of the response.
-/

namespace WebApp

universe u

/-- The values that a handler can return. -/
inductive Payload where
  /-- A value for a JSON body, or the reason why it has no JSON form. -/
  | json (value : Except String Json)
  | text (value : String)
  | html (value : String)
  | bytes (value : Bytes)
  | redirect (location : String)
  | permanentRedirect (location : String)
  | response (value : Response)
  | nothing

/-- A returned value, with the status and header fields that go on top of its own. -/
structure Reply where
  payload : Payload
  status : Option Status := none
  headers : Headers := {}

namespace Reply

/-- A text body of a content type. -/
def textBody (contentType body : String) : Response :=
  ((Response.new .ok).withHeader "Content-Type" contentType).withText body

variable {m : Type → Type u} [Monad m] [Reports m]

/-- The response for a returned value alone. -/
def ofPayload : Payload → m Response
  | .json (.ok value) => return .ofJson .ok value
  | .json (.error reason) => do
    report ⟨.error, "failed to serialize response body", [("error", reason)]⟩
    return .internalError
  | .text value => return textBody "text/plain; charset=utf-8" value
  | .html value => return textBody "text/html; charset=utf-8" value
  | .bytes value =>
    return ((Response.new .ok).withHeader "Content-Type" "application/octet-stream").withBody value
  | .redirect location => return (Response.new .found).withHeader "Location" location
  | .permanentRedirect location =>
    return (Response.new .permanentRedirect).withHeader "Location" location
  | .response value => return value
  | .nothing => return Response.new .ok

/-- The response for what a handler returned. -/
def respond (reply : Reply) : m Response := do
  let response ← ofPayload reply.payload
  return { response with
    status := reply.status.getD response.status
    headers := response.headers.merge reply.headers }

end Reply

end WebApp
