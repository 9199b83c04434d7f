import WebApp.Middleware.Layer

/-!
# The access log

One report for each request that came to an answer, with the time it took.
-/

namespace WebApp.AccessLog

universe u

/-- The time since the start in milliseconds.  Seconds are made from the two parts of a time
span before they become thousands of milliseconds, each step with its rounding. -/
def milliseconds (start now : Nat) : Binary64 :=
  let span := now - start
  let seconds := Float.ofNat (span / 1000000000) + Float.ofNat (span % 1000000000) / 1000000000
  Binary64.ofFloat (seconds * 1000)

/-- The report for a request, its response, and the time it took. -/
def entry (request : Request) (response : Response) (duration : Binary64) : Event :=
  ⟨.info, "request completed", [
    ("method", request.method.name),
    ("path", request.path),
    ("status", toString response.status.code),
    ("duration_ms", Shortest.render .plain duration)]⟩

/-- Notes the start on the way in and reports on the way out. -/
def layer (m : Type → Type u) [Monad m] [Reports m] [Clock m] : Layer m :=
  { Layer.idle m "access_log" with
    before := fun request => do
      let start ← now
      return ({ request with extensions := request.extensions.insert ⟨.instant, start⟩ }, none)
    after := fun request response => do
      let duration ← match request.extensions.get? .instant with
        | some start => pure (milliseconds start (← now))
        | none => pure Binary64.zero
      report (entry request response duration)
      return (response, none) }

end WebApp.AccessLog
