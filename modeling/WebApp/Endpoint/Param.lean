import WebApp.Http.Request
import WebApp.Error

/-!
# Parameters of handlers

A handler declares which inputs it takes from the path, the query and the body of a request.
Binding takes them all, or fails with the reasons of all that cannot be taken.
-/

namespace WebApp

/-- What the text of a path or query parameter stands for. -/
inductive Coercion where
  | text
  | integer
  | number
  | flag
  | json
deriving DecidableEq, Inhabited, Repr

namespace Coercion

/-- The coercion as it is shown inside a message about a program's data. -/
def shown : Coercion → String
  | .text => "Str"
  | .integer => "Int"
  | .number => "Float"
  | .flag => "Bool"
  | .json => "Json"

/-- The coercion of a short name; any other name takes the text as it is. -/
def ofName : String → Coercion
  | "int" => .integer
  | "float" => .number
  | "bool" => .flag
  | "json" => .json
  | _ => .text

/-- The flag that a text stands for, in any case of its letters. -/
def flag? (raw : String) : Option Bool :=
  let folded := Text.fold raw
  if ["true", "1", "yes", "on"].contains folded then some true
  else if ["false", "0", "no", "off"].contains folded then some false
  else none

/-- The value that a text stands for, or the reason why there is none. -/
def coerce (c : Coercion) (raw : String) : Except String Json :=
  match c with
  | .text => .ok (.string raw)
  | .integer =>
    match Integer.read64 raw with
    | .ok n => .ok (.ofInt n)
    | .error _ => .error ("expected an integer, got " ++ Text.quoted raw)
  | .number =>
    match Binary64.readFinite? raw with
    | some x => .ok (.number (.float x))
    | none => .error ("expected a number, got " ++ Text.quoted raw)
  | .flag =>
    match flag? raw with
    | some b => .ok (.bool b)
    | none => .error ("expected a boolean, got " ++ Text.quoted raw)
  | .json =>
    let bytes := Utf8.encode raw
    match Json.read bytes with
    | .ok value => .ok value
    | .error fault => .error ("invalid JSON: " ++ fault.message bytes)

end Coercion

/-- Where an input comes from. -/
inductive Source where
  | path (coercion : Coercion)
  /-- A query parameter, with what stands for it when it is absent. -/
  | query (coercion : Coercion) (absent : Option Json)
  /-- The whole body as JSON. -/
  | body
deriving Inhabited, Repr

/-- The source as it is shown inside a message about a program's data. -/
def Source.shown : Source → String
  | .path c => "Path(" ++ c.shown ++ ")"
  | .query c none => "Query \x7b kind: " ++ c.shown ++ ", default: None \x7d"
  | .query c (some value) =>
    "Query \x7b kind: " ++ c.shown ++ ", default: Some(" ++ value.shown ++ ") \x7d"
  | .body => "Body"

structure Param where
  name : String
  source : Source
deriving Inhabited, Repr

namespace Param

/-- The parameter as it is shown inside a message about a program's data. -/
def shown (p : Param) : String :=
  "Param \x7b name: " ++ Text.quoted p.name ++ ", source: " ++ p.source.shown ++ " \x7d"

def bind (p : Param) (r : Request) : Except String Json :=
  match p.source with
  | .path c =>
    match r.pathParam? p.name with
    | some raw => c.coerce raw
    | none => .error "missing path parameter"
  | .query c absent =>
    match r.queryParam? p.name, absent with
    | some raw, _ => c.coerce raw
    | none, some value => .ok value
    | none, none => .error "missing query parameter"
  | .body =>
    if r.body.isEmpty then
      .error "missing request body"
    else
      match r.json .any with
      | .ok value => .ok value
      | .error fault => .error ("invalid JSON body: " ++ fault.message r.body)

end Param

/-- The inputs of a call by their names. -/
structure Arguments where
  entries : List (String × Json) := []
deriving Inhabited, Repr

namespace Arguments

/-- One more argument; one with the same name is replaced. -/
def insert (a : Arguments) (name : String) (value : Json) : Arguments :=
  ⟨Assoc.insert name value a.entries⟩

def get? (a : Arguments) (name : String) : Option Json :=
  Assoc.get? name a.entries

def size (a : Arguments) : Nat := a.entries.length

/-- The arguments as they are shown inside a message about a program's data. -/
def shown (a : Arguments) : String :=
  let entries := a.entries.map fun (name, value) => Text.quoted name ++ ": " ++ value.shown
  "Arguments \x7b values: \x7b" ++ String.intercalate ", " entries ++ "\x7d \x7d"

/-- Takes inputs from a request: what could be taken, and why others could not. -/
def collect (r : Request) : List Param → Arguments → List String → Arguments × List String
  | [], taken, failures => (taken, failures)
  | p :: rest, taken, failures =>
    match p.bind r with
    | .ok value => collect r rest (taken.insert p.name value) failures
    | .error reason => collect r rest taken (failures ++ [p.name ++ ": " ++ reason])

def bind (params : List Param) (r : Request) : Except HttpError Arguments :=
  match collect r params {} [] with
  | (taken, []) => .ok taken
  | (_, failures) =>
    .error (.new .unprocessableEntity
      ("validation failed: " ++ String.intercalate "; " failures))

end Arguments

end WebApp
