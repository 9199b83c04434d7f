import WebApp.App
import WebApp.Http.Head
import WebApp.Json.Access
import WebApp.Security.Limiter

/-!
# Values as JSON

How the values of an application are laid open to tools that look at them from outside.
-/

namespace WebApp

universe u

/-- A text with a letter in place of the number of a task that it ends with. -/
def withoutTaskNumber (s : String) : String :=
  let backwards := s.toList.reverse
  let behind := backwards.dropWhile Char.isDigit
  if behind.length < backwards.length && "task ".toList.reverse.isPrefixOf behind then
    String.ofList (behind.reverse ++ ['N'])
  else
    s

/-- A text without the numbers of the tasks that it says have panicked: they count the tasks of the
whole process. -/
def withoutTaskNumbers (s : String) : String :=
  let mark := " panicked"
  match (s.splitOn mark).reverse with
  | [] => s
  | last :: before => mark.intercalate ((before.map withoutTaskNumber).reverse ++ [last])

/-- Bytes are a text where they are UTF-8, and hexadecimal digits elsewhere. -/
def Bytes.toJson (bytes : Bytes) : Json :=
  match Utf8.decode? bytes with
  | some s => .string s
  | none => .ofTexts [("hex", Bytes.toHex bytes)]

namespace Json

/-- A value that may be absent. -/
def ofOption {α : Type u} (view : α → Json) : Option α → Json
  | some value => view value
  | none => .null

/-- The text of a value, or the wording of the fault that there is instead. -/
def ofReading (input : Bytes) : Except Fault Json → Json
  | .ok value => .ofTexts [("ok", value.render)]
  | .error fault => .ofTexts [("error", fault.message input)]

end Json

def Status.toJson (s : Status) : Json :=
  .ofMembers [
    ("code", .ofNat s.code),
    ("reason", .string s.reason),
    ("display", .string s.text),
    ("success", .bool s.isSuccess),
    ("error", .bool s.isError),
    ("name", .string s.shown),
    ("http_error", .string (HttpError.ofStatus s).text)]

def Method.toJson (m : Method) : Json :=
  .ofTexts [("name", m.name), ("display", m.name), ("debug", m.shown)]

def Headers.toJson (h : Headers) : Json :=
  .array (h.entries.map fun (name, value) => .ofStrings [name, value])

def Request.toJson (r : Request) : Json :=
  .ofMembers [
    ("method", .string r.method.name),
    ("path", .string r.path),
    ("version", .ofNat r.version),
    ("headers", r.headers.toJson),
    ("query", .ofOption .string r.query),
    ("query_params", .ofTexts r.queryParams),
    ("path_params", .ofTexts r.pathParams),
    ("body", Bytes.toJson r.body),
    ("text", .string r.text),
    ("is_json", .bool r.isJson),
    ("cookies", .ofTexts r.cookies),
    ("keep_alive", .bool r.isKeepAlive),
    ("content_length", .ofOption .ofNat r.contentLength?),
    ("json", .ofReading r.body (r.json .any))]

def HeadFault.toJson (fault : HeadFault) : Json :=
  let kind :=
    match fault with
    | .incomplete => "Incomplete"
    | _ => "Parse"
  .ofTexts [("error", kind), ("message", fault.message)]

/-- A request that was read, with the place where its body begins. -/
def Head.toJson : Except HeadFault (Request × Nat) → Json
  | .ok (request, start) => .ofMembers [("offset", .ofNat start), ("request", request.toJson)]
  | .error fault => fault.toJson

def Response.toJson (r : Response) : Json :=
  .ofMembers [
    ("status", .ofNat r.status.code),
    ("headers", r.headers.toJson),
    ("body", Bytes.toJson r.body)]

def HttpError.toJson (e : HttpError) : Json :=
  .ofMembers [
    ("status", .ofNat e.status.code),
    ("detail", .string e.detail),
    ("headers", e.headers.toJson)]

def Error.toJson (e : Error) : Json :=
  let headers : Json :=
    match e with
    | .declared d => d.headers.toJson
    | .unexpected _ _ => .null
  .ofMembers [
    ("declared", .bool e.isDeclared),
    ("status", .ofNat e.status.code),
    ("type", .string e.typeName),
    ("message", .string e.message),
    ("headers", headers)]

/-- What an error is, and the request that met it. -/
def Error.inContext (e : Error) (r : Request) : Json :=
  .ofMembers [
    ("declared", .bool e.isDeclared),
    ("message", .string e.message),
    ("method", .string r.method.name),
    ("path", .string r.path),
    ("status", .ofNat e.status.code),
    ("type", .string e.typeName)]

def Event.toJson (e : Event) : Json :=
  .ofMembers [
    ("level", .string e.level.name),
    ("message", .string e.message),
    ("fields", .ofTexts e.fields)]

def Config.toJson (c : Config) : Json :=
  .ofMembers [
    ("title", .string c.title),
    ("version", .string c.version),
    ("description", .string c.description),
    ("debug", .bool c.debug)]

def ConfigError.toJson (e : ConfigError) : Json :=
  let kind :=
    match e with
    | .unreadable _ => "Io"
    | .badJson _ => "Json"
    | .badVariable _ _ => "InvalidEnv"
  .ofTexts [("error", kind), ("message", e.message)]

/-- The value of a kind that a JSON value stands for.  One that stands for none is taken for zero,
false or nothing at all. -/
def Datum.ofJson (j : Json) : Kind → Datum
  | .int64 => .int64 (j.int?.getD 0)
  | .word32 => ⟨.word32, j.word32?.getD 0⟩
  | .word64 => ⟨.word64, j.nat⟩
  | .flag => ⟨.flag, j.flag⟩
  | .words => ⟨.words, (j.items.mapM Json.word32?).getD []⟩
  | _ => .text j.text

/-- The value of a kind in a map, if there is one. -/
def TypeMap.valueToJson (m : TypeMap) : Kind → Json
  | .int64 => .ofOption .ofInt (m.get? .int64)
  | .word32 => .ofOption .ofNat (m.get? .word32)
  | .word64 => .ofOption .ofNat (m.get? .word64)
  | .flag => .ofOption .bool (m.get? .flag)
  | .words => .ofOption (fun ns => .array (ns.map .ofNat)) (m.get? .words)
  | .text => .ofOption .string (m.get? .text)
  | _ => .null

namespace Arguments

/-- The arguments with their texts, by the order of their names. -/
def sorted (a : Arguments) : List (String × Json) :=
  match Json.ofMembers a.entries with
  | .object members => members
  | _ => []

def toJson (a : Arguments) : Json :=
  .ofTexts (a.entries.map fun (name, value) => (name, value.render))

/-- The texts of the arguments in a list, by the order of their names. -/
def toList (a : Arguments) : Json :=
  .array (a.sorted.map fun (name, value) => .ofStrings [name, value.render])

end Arguments

/-- What has become of an argument that was taken as a value of a shape. -/
def ContextError.toJson (e : ContextError) : Json :=
  let kind :=
    match e with
    | .unknownArgument _ => "UnknownArgument"
    | .argumentType _ _ _ => "ArgumentType"
    | .missingState _ => "MissingState"
  .ofTexts [("error", kind), ("display", e.message), ("message", e.toError.message)]

/-- An argument as a value of a shape. -/
def Arguments.parseToJson (a : Arguments) (name : String) (shape : Json.Shape) : Json :=
  match a.parse name shape with
  | .ok value => .ofTexts [("ok", value.render)]
  | .error e => e.toJson

def DependencyError.toJson (e : DependencyError) : Json :=
  let kind :=
    match e with
    | .missing _ => "Missing"
    | .typeMismatch _ _ => "TypeMismatch"
    | .cycle _ => "Cycle"
  .ofTexts [("error", kind), ("message", e.message)]

def Param.toJson (p : Param) : Json :=
  match p.source with
  | .path c => .ofStrings [p.name, "path", c.shown]
  | .query c absent =>
    .array [.string p.name, .string "query", .string c.shown,
      .ofOption (fun value => .string value.render) absent]
  | .body => .ofStrings [p.name, "body"]

def Limiter.toJson (l : Limiter) : Json :=
  .ofMembers [("max", .ofNat l.limit), ("window_ns", .string (toString l.window))]

/-- A binding, as its status and detail where it failed. -/
def HttpError.briefly (e : HttpError) : Json :=
  .ofMembers [("error", .ofNat e.status.code), ("message", .string e.detail)]

def Chain.toJson {m : Type → Type u} (chain : Chain m) : Json :=
  .ofMembers [
    ("len", .ofNat chain.length),
    ("empty", .bool chain.isEmpty),
    ("names", .ofStrings chain.names),
    ("debug", .string chain.shown)]

def HookFailure.toJson (f : HookFailure) : Json :=
  .ofTexts [("fatal", f.text)]

/-- How the way in ended. -/
def Refusal.toJson : Option Refusal → Json
  | none => .string "ok"
  | some (.rejected completed e) =>
    .ofMembers [("rejected", .ofNat completed), ("error", e.toJson)]
  | some (.fatal f) => f.toJson

/-- A dependency, and whether a value of it is kept and whether another stands in for it. -/
def Dependency.toJson {m : Type → Type u} (d : Dependency m) (isKept isReplaced : Bool) : Json :=
  let params := d.params.map fun p =>
    Json.array [.string p.name, .string p.target.name, .bool p.isCached]
  .ofMembers [
    ("cache", .bool isKept),
    ("override", .bool isReplaced),
    ("name", .string d.name),
    ("params", .array params)]

def InsertError.toJson (e : InsertError) : Json :=
  .ofTexts [("error", "InsertError"), ("message", e.message)]

def Router.toJson {ε : Type u} (r : Router ε) : Json :=
  let route (d : Route ε) : Json :=
    .ofMembers [
      ("method", .string d.method.name),
      ("path", .string d.path),
      ("tags", .ofStrings d.tags)]
  .ofMembers [
    ("prefix", .string r.base),
    ("len", .ofNat r.size),
    ("empty", .bool (r.size == 0)),
    ("routes", .array (r.routes.map route))]

def RegistryError.toJson (e : RegistryError) : Json :=
  let kind :=
    match e with
    | .duplicate _ _ => "Duplicate"
    | .invalidPath _ _ _ => "InvalidPath"
  .ofTexts [("error", kind), ("message", e.message)]

def RouteEntry.toJson {m : Type → Type u} (r : RouteEntry m) : Json :=
  .ofMembers [
    ("method", .string r.method.name),
    ("path", .string r.path),
    ("name", .string r.endpoint.name),
    ("tags", .ofStrings r.tags),
    ("implicit", .bool r.isImplicit)]

/-- A captured place by its number. -/
def RouteTable.foundToJson (found : Option (Nat × List (String × String))) : Json :=
  .ofOption (fun (place, captures) =>
    .ofMembers [("route", .ofNat place), ("params", .ofTexts captures)]) found

end WebApp
