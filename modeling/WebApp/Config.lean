import WebApp.Json.Shape
import WebApp.Text.Basic

/-!
# Configuration of an application
-/

namespace WebApp

/-- What an application says of itself, and whether it is debugged. -/
structure Config where
  title : String := "Blaze"
  version : String := "0.1.0"
  description : String := ""
  debug : Bool := false
deriving DecidableEq, Inhabited, Repr

/-- Why there is no configuration. -/
inductive ConfigError where
  | unreadable (reason : String)
  | badJson (fault : String)
  | badVariable (name : String) (value : String)
deriving DecidableEq, Repr

def ConfigError.message : ConfigError → String
  | .unreadable reason => "failed to read config file: " ++ reason
  | .badJson fault => "invalid config JSON: " ++ fault
  | .badVariable name value =>
    "environment variable " ++ name ++ " has invalid value " ++ Text.quoted value

namespace Config

/-- The members of a configuration text; one that is absent has its default. -/
def shape : Json.Shape :=
  let default : Config := {}
  .record "AppConfig" "blaze::config::AppConfig" [
    ("title", .text, some (.string default.title)),
    ("version", .text, some (.string default.version)),
    ("description", .text, some (.string default.description)),
    ("debug", .flag, some (.bool default.debug))]

def ofMembers (value : Json) : Config :=
  let text (key : String) : String :=
    match value.member? key with
    | some (.string s) => s
    | _ => ""
  { title := text "title"
    version := text "version"
    description := text "description"
    debug := (value.member? "debug").any (· == .bool true) }

def ofBytes (bytes : Bytes) : Except ConfigError Config :=
  match shape.parse bytes with
  | .ok value => .ok (ofMembers value)
  | .error fault => .error (.badJson (fault.message bytes))

/-- The configuration that a JSON value describes; the default if it describes none. -/
def ofValue (value : Json) : Config :=
  match shape.decode value with
  | .ok value => ofMembers value
  | .error _ => {}

/-- Reads the content of a file, if there is one. -/
def ofFile (content : Option Bytes) : Except ConfigError Config :=
  match content with
  | none => .error (.unreadable "No such file or directory (os error 2)")
  | some bytes =>
    if (Utf8.decode? bytes).isSome then ofBytes bytes
    else .error (.unreadable "stream did not contain valid UTF-8")

/-- The flag that the value of a variable stands for, in any case of its letters. -/
def flag? (value : String) : Option Bool :=
  let folded := Text.fold (Text.trim value)
  if ["1", "true", "yes", "on"].contains folded then some true
  else if ["0", "false", "no", "off", ""].contains folded then some false
  else none

/-- The configuration with what variables of the environment say. -/
def withVariables (c : Config) (lookup : String → Option String) : Except ConfigError Config := do
  let c ← match lookup "BLAZE_DEBUG" with
    | none => pure c
    | some value =>
      match flag? value with
      | some debug => pure { c with debug := debug }
      | none => throw (.badVariable "BLAZE_DEBUG" value)
  match lookup "BLAZE_TITLE" with
  | none => return c
  | some title => return { c with title := title }

def render (c : Config) : String :=
  let member (key : String) (value : Json) : String :=
    String.ofList (Json.stringChars key) ++ ":" ++ value.render
  "\x7b" ++ String.intercalate "," [
    member "title" (.string c.title),
    member "version" (.string c.version),
    member "description" (.string c.description),
    member "debug" (.bool c.debug)] ++ "\x7d"

/-- The configuration as it is shown inside a message about a program's data. -/
def shown (c : Config) : String :=
  "AppConfig \x7b title: " ++ Text.quoted c.title ++ ", version: " ++ Text.quoted c.version ++
    ", description: " ++ Text.quoted c.description ++ ", debug: " ++ toString c.debug ++ " \x7d"

end Config

end WebApp
