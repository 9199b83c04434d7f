import WebApp.Middleware.Layer

/-!
# Limits on the rate of requests

A limiter keeps, for each client, the instants of its admitted requests inside a sliding
window.  A request over the limit is refused and not kept.  Clients whose last instant has left
the window are dropped, at most once in a window.
-/

namespace WebApp

universe u

/-- The admitted requests of the clients in a window of so many nanoseconds.  The instants of a
client are in order, the oldest first. -/
structure Limiter where
  limit : Nat
  window : Nat
  clients : List (String × List Nat) := []
  lastSweep : Nat := 0
deriving DecidableEq, Inhabited, Repr

namespace Limiter

/-- A limiter that begins at an instant. -/
def new (limit window now : Nat) : Limiter :=
  { limit := limit, window := window, lastSweep := now }

/-- Whether an instant is inside the window that ends now. -/
def isLive (l : Limiter) (now seen : Nat) : Bool :=
  now - seen < l.window

/-- Whether the last instant of a client is inside the window. -/
def isActive (l : Limiter) (now : Nat) (bucket : List Nat) : Bool :=
  match bucket.getLast? with
  | some seen => l.isLive now seen
  | none => false

/-- Drops the clients that are not active; the number tells how many. -/
def sweep (l : Limiter) (now : Nat) : Limiter × Nat :=
  let kept := l.clients.filter fun entry => l.isActive now entry.2
  ({ l with clients := kept, lastSweep := now }, l.clients.length - kept.length)

/-- The window in seconds, rounded up, in sixty-four bits.  The sum wraps, as it does in the
release profile; the development profile panics where it overflows. -/
def retryAfter (l : Limiter) : Nat :=
  (l.window / 1000000000 + (if l.window % 1000000000 > 0 then 1 else 0)) % Nat.pow 2 64

/-- The refusal of a request over the limit. -/
def rejection (l : Limiter) : HttpError :=
  (HttpError.new .tooManyRequests "Too Many Requests").withHeader "Retry-After"
    (toString l.retryAfter)

def bucket (l : Limiter) (client : String) (now : Nat) : List Nat :=
  ((Assoc.get? client l.clients).getD []).dropWhile fun seen => !l.isLive now seen

/-- Admits a request of a client or refuses it. -/
def count (l : Limiter) (client : String) (now : Nat) : Limiter × Except HttpError Unit :=
  let bucket := l.bucket client now
  if l.limit ≤ bucket.length then
    ({ l with clients := Assoc.insert client bucket l.clients }, .error l.rejection)
  else
    ({ l with clients := Assoc.insert client (bucket ++ [now]) l.clients }, .ok ())

/-- Whether a window has passed since clients were last dropped. -/
def isDue (l : Limiter) (now : Nat) : Bool :=
  !l.isLive now l.lastSweep

/-- Admits a request of a client or refuses it, after a sweep where one is due.  The number
tells how many clients the sweep dropped. -/
def check (l : Limiter) (client : String) (now : Nat) :
    Limiter × Nat × Except HttpError Unit :=
  let (l, dropped) := if l.isDue now then l.sweep now else (l, 0)
  let (l, answer) := l.count client now
  (l, dropped, answer)

/-- The number of clients that are kept. -/
def size (l : Limiter) : Nat := l.clients.length

/-- The client that a request is counted for: the first one that it was forwarded for, or the
real address that it names, or one that all others share. -/
def clientKey (r : Request) : String :=
  let forwarded := (r.headers.get? "x-forwarded-for").bind fun value =>
    (Text.pieces ',' value).head?
  let named (value : Option String) : Option String :=
    (value.map Text.trim).filter fun name => !name.isEmpty
  ((named forwarded).or (named (r.headers.get? "x-real-ip"))).getD "unknown"

/-- Where a limiter is kept. -/
structure Cell (m : Type → Type u) where
  read : m Limiter
  write : Limiter → m Unit

variable {m : Type → Type u} [Monad m] [Reports m] [Clock m]

/-- Checks a client against the limiter in a cell. -/
def Cell.check (cell : Cell m) (client : String) : m (Except HttpError Unit) := do
  let (l, dropped, answer) := (← cell.read).check client (← now)
  cell.write l
  if dropped > 0 then
    report ⟨.debug, "idle rate limit buckets swept", [("dropped", toString dropped)]⟩
  return answer

/-- Drops the clients that are not active from the limiter in a cell; tells how many. -/
def Cell.purge (cell : Cell m) : m Nat := do
  let (l, dropped) := (← cell.read).sweep (← now)
  cell.write l
  return dropped

/-- Refuses requests of clients over the limit. -/
def layer (cell : Cell m) : Layer m :=
  { Layer.idle m "rate_limit" with
    before := fun request => do
      let client := clientKey request
      match ← cell.check client with
      | .ok () =>
        report ⟨.debug, "rate limit check passed", [("client", client)]⟩
        return (request, none)
      | .error rejection =>
        report ⟨.warn, "rate limit exceeded", [("client", client), ("path", request.path)]⟩
        return (request, some (.declared rejection)) }

end Limiter

end WebApp
