import WebApp.Assoc
import WebApp.Http.Method
import WebApp.Routing.Tree

/-!
# Route tables

For each method a tree of patterns, which lead to the places of routes.
-/

namespace WebApp

/-- The trees of the methods. -/
structure RouteTable where
  trees : List (Method × Node Nat) := []
deriving Inhabited

namespace RouteTable

/-- Adds a pattern that leads to a place. -/
def insert (t : RouteTable) (method : Method) (pattern : String) (place : Nat) :
    Option InsertError × RouteTable :=
  let (e, tree) := ((Assoc.get? method t.trees).getD .empty).insert pattern place
  (e, ⟨Assoc.insert method tree t.trees⟩)

/-- The place that a path leads to, and what its parameters have taken. -/
def lookup (t : RouteTable) (method : Method) (path : String) :
    Option (Nat × List (String × String)) :=
  ((Assoc.get? method t.trees).bind fun tree => tree.lookup path).map fun (place, captures) =>
    (place, Assoc.ofList captures)

/-- The table as it is shown inside a message about a program's data. -/
def shown (t : RouteTable) : String :=
  "RouteTable \x7b methods: [" ++
    String.intercalate ", " (t.trees.map fun entry => entry.1.shown) ++ "] \x7d"

end RouteTable

end WebApp
