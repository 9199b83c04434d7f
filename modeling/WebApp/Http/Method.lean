import WebApp.Text.Basic

/-!
# Request methods
-/

namespace WebApp

/-- What a request asks to be done.  A method without a constructor of its own is kept by its
name. -/
inductive Method where
  | get
  | post
  | put
  | delete
  | head
  | options
  | patch
  | connect
  | trace
  | custom (name : String)
deriving DecidableEq, Inhabited, Repr

namespace Method

/-- The nine methods with a constructor: name in a request, name as shown, method. -/
def known : List (String × String × Method) := [
  ("GET", "Get", .get), ("POST", "Post", .post), ("PUT", "Put", .put),
  ("DELETE", "Delete", .delete), ("HEAD", "Head", .head), ("OPTIONS", "Options", .options),
  ("PATCH", "Patch", .patch), ("CONNECT", "Connect", .connect), ("TRACE", "Trace", .trace)]

/-- The method with this name; names are exact. -/
def ofName (name : String) : Method :=
  match known.find? (·.1 == name) with
  | some (_, _, m) => m
  | none => .custom name

/-- The name in a request. -/
def name : Method → String
  | .get => "GET"
  | .post => "POST"
  | .put => "PUT"
  | .delete => "DELETE"
  | .head => "HEAD"
  | .options => "OPTIONS"
  | .patch => "PATCH"
  | .connect => "CONNECT"
  | .trace => "TRACE"
  | .custom name => name

/-- The method as it is shown inside a message about a program's data. -/
def shown (m : Method) : String :=
  match m with
  | .custom name => "Custom(" ++ Text.quoted name ++ ")"
  | m => ((known.find? (·.2.2 == m)).map fun entry => entry.2.1).getD ""

end Method

end WebApp
