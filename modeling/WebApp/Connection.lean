import WebApp.Address
import WebApp.App
import WebApp.Http.Head

/-!
# Connections

A connection takes in bytes as they come.  Once a request is complete it is answered, and the
bytes behind it are kept; the connection goes on as long as the request wants it to.
-/

namespace WebApp.Connection

universe u

/-- The greatest number of bytes that are kept before a request is complete. -/
def sizeLimit : Nat := 8 * 1024 * 1024

/-- What the bytes at hand call for. -/
inductive Demand where
  /-- More bytes. -/
  | wait
  /-- A last answer. -/
  | refuse (response : Response)
  /-- The answer to a request, and the number of bytes that are done with. -/
  | answer (request : Request) (length : Nat)

/-- The last answer to bytes that are no request. -/
def refusal (status : Status) (text : String) : Response :=
  { (Response.new status).withText text with keepAlive := false }

/-- The number of bytes up to the end of a body of this length that starts here, in sixty-four
bits.  The sum wraps, as it does in the release profile; the development profile panics where it
overflows. -/
def extent (start length : Nat) : Nat :=
  (start + length) % Nat.pow 2 64

/-- What the bytes at hand call for. -/
def demand (buffer : Bytes) : Demand :=
  if sizeLimit < buffer.length then
    .refuse (refusal .payloadTooLarge "Request entity too large")
  else
    match Head.read buffer with
    | .error .incomplete => .wait
    | .error fault => .refuse (refusal .badRequest ("Bad Request: " ++ fault.message))
    | .ok (request, start) =>
      let length := request.contentLength?.getD 0
      let total := extent start length
      if buffer.length < total then .wait
      else .answer (request.truncateBody length) total

/-- A connection: the bytes that are not answered yet, or none when it is closed. -/
structure State where
  buffer : Option Bytes := some []
deriving DecidableEq, Inhabited, Repr

variable {m : Type → Type u} [Monad m] [Reports m]

/-- Takes in the bytes of one read; gives the bytes to write.  A read of no bytes is the end of
the stream, and closes the connection. -/
def receive (handle : Request → m Response) (state : State) (bytes : Bytes) :
    m (State × Bytes) := do
  match state.buffer with
  | none => return (state, [])
  | some kept =>
    if bytes.isEmpty then return (⟨none⟩, [])
    let buffer := kept ++ bytes
    match demand buffer with
    | .wait => return (⟨some buffer⟩, [])
    | .refuse response => return (⟨none⟩, response.wire)
    | .answer request length =>
      let keepAlive := request.isKeepAlive
      let response ← handle request
      let written := { response with keepAlive := keepAlive }.wire
      return (⟨if keepAlive then some (buffer.drop length) else none⟩, written)

/-- Takes in the bytes of reads up to the end of the stream; gives all bytes written. -/
def run (handle : Request → m Response) : State → List Bytes → m Bytes
  | _, [] => return []
  | state, bytes :: reads => do
    let (state, written) ← receive handle state bytes
    return written ++ (← run handle state reads)

/-- Why nothing is served. -/
inductive ServerError where
  | bind (address : String) (fault : BindFault)
  | startup (message : String)
deriving DecidableEq, Repr

def ServerError.message : ServerError → String
  | .bind address fault => "failed to bind to " ++ address ++ ": " ++ fault.message
  | .startup message => "startup hook failed: " ++ message

/-- The host that a server is bound to at an address. -/
def bind (address : String) : Except ServerError Host :=
  (Address.bind address).mapError (.bind address)

end WebApp.Connection
