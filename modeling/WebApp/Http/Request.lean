import WebApp.Assoc
import WebApp.Datum
import WebApp.Encoding.Form
import WebApp.Http.Headers
import WebApp.Http.Method
import WebApp.Json.Shape
import WebApp.Text.Basic

/-!
# Requests

A request as the application sees it: its target split into path and query, its header
fields, its body, and what layers and the router have added on the way.
-/

namespace WebApp

structure Request where
  method : Method
  path : String
  /-- The minor number of the protocol version. -/
  version : Nat := 1
  headers : Headers := {}
  query : Option String := none
  queryParams : List (String × String) := []
  pathParams : List (String × String) := []
  body : Bytes := []
  extensions : TypeMap := {}
deriving Inhabited

namespace Request

/-- A request for a target, which may carry a query behind its first `?`. -/
def new (method : Method) (target : String) : Request :=
  match Text.splitOnce '?' target with
  | some (path, query) =>
    { method := method, path := path, query := some query,
      queryParams := Assoc.ofList (Form.fields query) }
  | none => { method := method, path := target }

def withHeader (r : Request) (name value : String) : Request :=
  { r with headers := r.headers.insert name value }

def withHeaders (r : Request) (entries : List (String × String)) : Request :=
  entries.foldl (fun r (name, value) => r.withHeader name value) r

def withBody (r : Request) (body : Bytes) : Request :=
  { r with body := body }

/-- A JSON value as the body, with its content type. -/
def withJson (r : Request) (value : Json) : Request :=
  { r with
    body := Utf8.encode value.render
    headers := r.headers.set "Content-Type" "application/json" }

def withPathParams (r : Request) (params : List (String × String)) : Request :=
  { r with pathParams := params }

def truncateBody (r : Request) (length : Nat) : Request :=
  { r with body := r.body.take length }

def queryParam? (r : Request) (key : String) : Option String :=
  Assoc.get? key r.queryParams

def pathParam? (r : Request) (key : String) : Option String :=
  Assoc.get? key r.pathParams

def text (r : Request) : String :=
  Utf8.decodeLenient r.body

/-- The body as a value of a shape. -/
def json (r : Request) (shape : Json.Shape) : Except Json.Fault Json :=
  shape.parse r.body

/-- Whether the first content type names JSON. -/
def isJson (r : Request) : Bool :=
  match r.headers.get? "content-type" with
  | some value => Text.contains (Text.fold value) "application/json"
  | none => false

/-- A cookie, name and value without the blanks around them. -/
def cookie? (segment : String) : Option (String × String) :=
  (Text.splitOnce '=' (Text.trim segment)).map fun (name, value) =>
    (Text.trim name, Text.trim value)

/-- The cookies of all cookie fields; of several with one name the last counts. -/
def cookies (r : Request) : List (String × String) :=
  Assoc.ofList ((r.headers.getAll "cookie").flatMap fun field =>
    (Text.pieces ';' field).filterMap cookie?)

/-- Whether the connection stays open for another request. -/
def isKeepAlive (r : Request) : Bool :=
  match r.headers.get? "connection" with
  | some value => Text.sameFolded value "keep-alive"
  | none => r.version == 1

/-- The length of the body that the head announces. -/
def contentLength? (r : Request) : Option Nat :=
  (r.headers.get? "content-length").bind Integer.readCount?

end Request

end WebApp
