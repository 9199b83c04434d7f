import WebApp.Http.Headers
import WebApp.Http.Status
import WebApp.Json.Shape

/-!
# Responses

A response is a status, header fields and a body.  On the wire it also says how long its body
is and whether the connection stays open.
-/

namespace WebApp

structure Response where
  status : Status
  headers : Headers := {}
  body : Bytes := []
  keepAlive : Bool := true
deriving DecidableEq, Inhabited, Repr

namespace Response

def new (status : Status) : Response := { status := status }

def withHeader (r : Response) (name value : String) : Response :=
  { r with headers := r.headers.insert name value }

def withHeaders (r : Response) (entries : List (String × String)) : Response :=
  entries.foldl (fun r (name, value) => r.withHeader name value) r

def withBody (r : Response) (body : Bytes) : Response :=
  { r with body := body }

def withText (r : Response) (body : String) : Response :=
  r.withBody (Utf8.encode body)

/-- A JSON value as the body, with its content type. -/
def ofJson (status : Status) (value : Json) : Response :=
  ((new status).withHeader "Content-Type" "application/json").withText value.render

/-- The answer of a program that failed: it tells nothing of the failure. -/
def internalError : Response :=
  ofJson .internalServerError (.ofTexts [("detail", "Internal Server Error")])

def text (r : Response) : String :=
  Utf8.decodeLenient r.body

/-- The body as a value of a shape. -/
def json (r : Response) (shape : Json.Shape) : Except Json.Fault Json :=
  shape.parse r.body

/-- The header fields on the wire, but for the length.  A body without a content type is plain
text, and the connection field tells whether the connection stays open. -/
def wireHeaders (r : Response) : Headers :=
  let typed :=
    if !r.body.isEmpty && !r.headers.contains "content-type" then
      r.headers.insert "Content-Type" "text/plain; charset=utf-8"
    else
      r.headers
  let connection := if r.keepAlive then "keep-alive" else "close"
  (typed.set "Connection" connection).remove "content-length"

/-- The bytes on the wire: the status line, the header fields with the length of the body as
the last, an empty line, and the body. -/
def wire (r : Response) : Bytes :=
  Utf8.encode ("HTTP/1.1 " ++ r.status.text ++ "\r\n" ++ r.wireHeaders.text ++
    "Content-Length: " ++ toString r.body.length ++ "\r\n\r\n") ++ r.body

end Response

end WebApp
