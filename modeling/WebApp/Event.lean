/-!
# What a program reports about itself

Reports go to whoever watches the program; nothing in it depends on them.
-/

namespace WebApp

universe u

/-- How much a report matters. -/
inductive Level where
  | error
  | warn
  | info
  | debug
deriving DecidableEq, Inhabited, Repr

def Level.name : Level → String
  | .error => "ERROR"
  | .warn => "WARN"
  | .info => "INFO"
  | .debug => "DEBUG"

/-- A report: a fixed message, and named details as text. -/
structure Event where
  level : Level
  message : String
  fields : List (String × String) := []
deriving DecidableEq, Inhabited, Repr

/-- Programs that can report. -/
class Reports (m : Type → Type u) where
  report : Event → m Unit

export Reports (report)

/-- A pure program that nobody watches: its reports are lost. -/
instance : Reports Id where
  report _ := ()

end WebApp
