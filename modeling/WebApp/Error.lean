import WebApp.Http.Response

/-!
# Errors

A declared error says which response it wants: a status, a detail for the client, and header
fields.  Any other error is unexpected; all that is known of it is the name of its type, what
it says of itself and of its causes, and a backtrace of where it was made.
-/

namespace WebApp

/-- An error that says which response it wants. -/
structure HttpError where
  status : Status
  detail : String
  headers : Headers := {}
deriving DecidableEq, Inhabited, Repr

namespace HttpError

def new (status : Status) (detail : String) : HttpError :=
  { status := status, detail := detail }

/-- The error that says no more than its status. -/
def ofStatus (status : Status) : HttpError :=
  new status status.reason

/-- A header field for the response; a field of that name is replaced. -/
def withHeader (e : HttpError) (name value : String) : HttpError :=
  { e with headers := e.headers.set name value }

/-- More header fields for the response, one after another. -/
def withHeaders (e : HttpError) (entries : List (String × String)) : HttpError :=
  entries.foldl (fun e (name, value) => e.withHeader name value) e

def text (e : HttpError) : String :=
  e.status.text ++ ": " ++ e.detail

def shown (e : HttpError) : String :=
  "HttpError \x7b status: " ++ e.status.shown ++ ", detail: " ++ Text.quoted e.detail ++
    ", headers: " ++ e.headers.shown ++ " \x7d"

def typeName : String := "blaze::error::HttpError"

end HttpError

/-- What is known of an unexpected error: its type, its text, the texts of its causes, and how
it is shown inside a message about a program's data. -/
structure Unexpected where
  typeName : String
  text : String
  causes : List String := []
  shown : String
deriving DecidableEq, Inhabited, Repr

/-- An error of a handler, provider, layer or task.  An unexpected one has the frames that were
captured where it was made, one text for each; there are none unless the environment of the
program asks for backtraces.  Whatever makes an error takes the frames as its last argument. -/
inductive Error where
  | declared (error : HttpError)
  | unexpected (error : Unexpected) (trace : List String := [])
deriving DecidableEq, Inhabited, Repr

namespace Error

/-- An unexpected error that is no more than its message. -/
def ofMessage (message : String) (trace : List String := []) : Error :=
  .unexpected {
    typeName := "blaze::error::Message"
    text := message
    shown := "Message(" ++ Text.quoted message ++ ")" } trace

/-- The error of a task that ended with a panic.  The panic is past when the error is made, and
the frames are not those of the panic. -/
def ofPanic (panic : String) (trace : List String := []) : Error :=
  let text := "task N panicked with message " ++ Text.quoted panic
  .unexpected {
    typeName := "tokio::runtime::task::error::JoinError"
    text := text
    shown := "JoinError::Panic(Id(N), " ++ Text.quoted panic ++ ", ...)" } trace

/-- The error of a text that is no integer. -/
def ofMisread (cause : Misread) (trace : List String := []) : Error :=
  .unexpected {
    typeName := "core::num::error::ParseIntError"
    text := cause.message
    shown := "ParseIntError \x7b kind: " ++ cause.shown ++ " \x7d" } trace

/-- The error of reading or writing that failed for a reason of its own. -/
def ofInputOutput (reason : String) (trace : List String := []) : Error :=
  .unexpected {
    typeName := "core::io::error::Error"
    text := reason
    shown := "Custom \x7b kind: Other, error: " ++ Text.quoted reason ++ " \x7d" } trace

def isDeclared : Error → Bool
  | .declared _ => true
  | .unexpected _ _ => false

/-- The status that the error asks for; an unexpected one asks for 500. -/
def status : Error → Status
  | .declared e => e.status
  | .unexpected _ _ => .internalServerError

def typeName : Error → String
  | .declared _ => HttpError.typeName
  | .unexpected e _ => e.typeName

/-- The detail of a declared error; the texts of an unexpected one and its causes. -/
def message : Error → String
  | .declared e => e.detail
  | .unexpected e _ => String.intercalate ": " (e.text :: e.causes)

/-- The frames that were captured where the error was made. -/
def trace : Error → List String
  | .declared _ => []
  | .unexpected _ trace => trace

def text : Error → String
  | .declared e => e.text
  | .unexpected e _ => e.text

def shown : Error → String
  | .declared e => "Declared(" ++ e.shown ++ ")"
  | .unexpected e _ =>
    "Unexpected \x7b type_name: " ++ Text.quoted e.typeName ++ ", source: " ++ e.shown ++ " \x7d"

/-- The response for an error that nobody handles. -/
def defaultResponse : Error → Response
  | .declared e =>
    let response := Response.ofJson e.status (.ofTexts [("detail", e.detail)])
    { response with headers := response.headers.merge e.headers }
  | .unexpected _ _ => .internalError

end Error

end WebApp
