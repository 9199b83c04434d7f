import WebApp.Dependency.Basic
import WebApp.Encoding.Base64

/-!
# Credentials of clients

Dependencies that read what a client has sent to identify itself, and refuse the request
where it is missing or cannot be read.
-/

namespace WebApp.Security

universe u

/-- What follows the scheme in the authorization field, without the blanks around it. -/
def authorization? (r : Request) (scheme : String) : Option String :=
  ((r.headers.get? "authorization").bind (Text.splitOnce ' ')).bind fun (found, credentials) =>
    if Text.sameFolded found scheme then some (Text.trim credentials) else none

/-- The error that asks the client for credentials of a scheme. -/
def notAuthenticated (scheme : String) : Error :=
  .declared ((HttpError.new .unauthorized "Not authenticated").withHeader "WWW-Authenticate" scheme)

def bearer (r : Request) : Except Error String :=
  match authorization? r "Bearer" with
  | some token => if token.isEmpty then .error (notAuthenticated "Bearer") else .ok token
  | none => .error (notAuthenticated "Bearer")

/-- The name and the password in credentials of the basic scheme. -/
def decodeBasic? (encoded : String) : Option Credentials := do
  let bytes ← Base64.decode? encoded.toList
  let decoded ← Utf8.decode? bytes
  match Text.splitOnce ':' decoded with
  | some (username, password) => return ⟨username, password⟩
  | none => return ⟨decoded, ""⟩

def basic (r : Request) : Except Error Credentials :=
  match authorization? r "Basic" with
  | none => .error (notAuthenticated "Basic")
  | some encoded =>
    match decodeBasic? encoded with
    | some credentials => .ok credentials
    | none => .error (.declared (.new .unauthorized "Invalid authentication credentials"))

/-- Reads a key from a header field, which must not be empty. -/
def apiKey (name : String) (r : Request) : Except Error String :=
  let refused : Except Error String := .error (.declared (.new .forbidden "API key required"))
  match r.headers.get? name with
  | some key => if key.isEmpty then refused else .ok key
  | none => refused

section Dependencies

variable {m : Type → Type u} [Monad m]

def bearerToken (fresh : DependencyId) : Dependency m :=
  .ofFunction fresh "bearer_token" fun call => (bearer call.request).map Datum.text

def httpBasic (fresh : DependencyId) : Dependency m :=
  .ofFunction fresh "http_basic" fun call => (basic call.request).map Datum.credentials

/-- The key in a header field of the request. -/
def apiKeyHeader (fresh : DependencyId) (name : String) : Dependency m :=
  .ofFunction fresh ("api_key:" ++ name) fun call => (apiKey name call.request).map Datum.text

/-- The key in a header field of the request, if there is one. -/
def optionalApiKeyHeader (fresh : DependencyId) (name : String) : Dependency m :=
  .ofFunction fresh ("optional_api_key:" ++ name) fun call =>
    .ok (.optionalText (call.request.headers.get? name))

end Dependencies

end WebApp.Security
