import WebApp.Http.Request

/-!
# Reading a message head

A head is a request line and header fields up to an empty line.  The reader goes over the
bytes once; it ends with the request, with a fault at the first byte that cannot stand where
it stands, or undecided when the bytes end too early.
-/

namespace WebApp

/-- Why bytes are no head. -/
inductive HeadFault where
  | incomplete
  | newLine
  | token
  | version
  | headerName
  | headerValue
  | tooManyHeaders
deriving DecidableEq, Repr

namespace HeadFault

/-- The wording of the fault in the bytes. -/
def cause : HeadFault → String
  | .incomplete => "partial"
  | .newLine => "invalid new line"
  | .token => "invalid token"
  | .version => "invalid HTTP version"
  | .headerName => "invalid header name"
  | .headerValue => "invalid header value"
  | .tooManyHeaders => "too many headers"

def message : HeadFault → String
  | .incomplete => "request is incomplete, more data needed"
  | fault => "HTTP parse error: " ++ fault.cause

end HeadFault

namespace Head

def headerLimit : Nat := 64

/-- A byte of a method or of a field name. -/
def isToken (b : UInt8) : Bool :=
  (48 ≤ b && b ≤ 57) || (65 ≤ b && b ≤ 90) || (97 ≤ b && b ≤ 122) ||
    (Utf8.encode "!#$%&'*+-.^_`|~").contains b

def isTarget (b : UInt8) : Bool :=
  (0x21 ≤ b && b ≤ 0x7E) || 0x80 ≤ b

def isValue (b : UInt8) : Bool :=
  b == 9 || (0x20 ≤ b && b ≤ 0x7E) || 0x80 ≤ b

/-- The text that bytes below 128 write. -/
def asciiText (bytes : Bytes) : String :=
  String.ofList (bytes.map fun b => Char.ofNat b.toNat)

/-- Passes the empty lines before a request. -/
def skipEmptyLines : Bytes → Except HeadFault (Unit × Bytes)
  | [] => .error .incomplete
  | 13 :: 10 :: rest => skipEmptyLines rest
  | [13] => .error .incomplete
  | 13 :: _ => .error .newLine
  | 10 :: rest => skipEmptyLines rest
  | bytes => .ok ((), bytes)

/-- The bytes that `p` holds of, at least one, up to a blank. -/
def wordBefore (p : UInt8 → Bool) (bytes : Bytes) : Except HeadFault (Bytes × Bytes) :=
  let word := bytes.takeWhile p
  match bytes.dropWhile p with
  | [] => .error .incomplete
  | b :: rest => if b = 32 ∧ word ≠ [] then .ok (word, rest) else .error .token

def method (bytes : Bytes) : Except HeadFault (Method × Bytes) := do
  let (word, rest) ← wordBefore isToken bytes
  return (Method.ofName (asciiText word), rest)

/-- The target, which has to be UTF-8. -/
def target (bytes : Bytes) : Except HeadFault (String × Bytes) := do
  let (word, rest) ← wordBefore isTarget bytes
  match Utf8.decode? word with
  | some s => return (s, rest)
  | none => throw .token

/-- The last digit of a version. -/
def minorVersion : Bytes → Except HeadFault (Nat × Bytes)
  | [] => .error .incomplete
  | 48 :: rest => .ok (0, rest)
  | 49 :: rest => .ok (1, rest)
  | _ => .error .version

/-- The version, by its minor number.  Too few bytes are compared as far as they go. -/
def version (bytes : Bytes) : Except HeadFault (Nat × Bytes) :=
  let common := Utf8.encode "HTTP/1."
  if bytes.length < 8 then
    if (bytes.take 7).isPrefixOf common then .error .incomplete else .error .version
  else if bytes.take 7 = common then
    minorVersion (bytes.drop 7)
  else
    .error .version

/-- The end of a line, and the fault of another byte in its place. -/
def lineEnd (fault : HeadFault) : Bytes → Except HeadFault (Unit × Bytes)
  | [] => .error .incomplete
  | 13 :: 10 :: rest => .ok ((), rest)
  | [13] => .error .incomplete
  | 10 :: rest => .ok ((), rest)
  | _ => .error fault

/-- A blank or tab. -/
def isBlank (b : UInt8) : Bool :=
  b == 32 || b == 9

/-- The bytes without blanks and tabs at their end. -/
def trimEnd (bytes : Bytes) : Bytes :=
  (bytes.reverse.dropWhile isBlank).reverse

/-- The bytes of a field's value, up to the end of its line. -/
def fieldValue (bytes : Bytes) : Except HeadFault (Bytes × Bytes) := do
  let bytes := bytes.dropWhile isBlank
  let (_, rest) ← lineEnd .headerValue (bytes.dropWhile isValue)
  return (trimEnd (bytes.takeWhile isValue), rest)

/-- One field: its name and the bytes of its value. -/
def field (bytes : Bytes) : Except HeadFault ((String × Bytes) × Bytes) :=
  let name := bytes.takeWhile isToken
  match bytes.dropWhile isToken with
  | [] => .error .incomplete
  | b :: rest =>
    if b ≠ 58 ∨ name = [] then .error .headerName
    else do
      let (value, rest) ← fieldValue rest
      return ((asciiText name, value), rest)

/-- The fields up to the empty line, at most so many. -/
def fields (limit : Nat) (bytes : Bytes) : Except HeadFault (List (String × Bytes) × Bytes) :=
  match bytes with
  | [] => .error .incomplete
  | b :: _ =>
    if b = 13 ∨ b = 10 then do
      let (_, rest) ← lineEnd .newLine bytes
      return ([], rest)
    else do
      let (entry, rest) ← field bytes
      match limit with
      | 0 => throw .tooManyHeaders
      | limit + 1 =>
        let (entries, rest) ← fields limit rest
        return (entry :: entries, rest)

/-- A field whose value is UTF-8. -/
def textField? (entry : String × Bytes) : Option (String × String) :=
  (Utf8.decode? entry.2).map fun value => (entry.1, value)

/-- The request that a head describes, still without its body, and the bytes behind the head.
Fields whose value is no text are left out. -/
def request (bytes : Bytes) : Except HeadFault (Request × Bytes) := do
  let (_, rest) ← skipEmptyLines bytes
  let (m, rest) ← method rest
  let (t, rest) ← target rest
  let (v, rest) ← version rest
  let (_, rest) ← lineEnd .newLine rest
  let (entries, rest) ← fields headerLimit rest
  return ({ Request.new m t with
    version := v
    headers := ⟨entries.filterMap textField?⟩ }, rest)

/-- Reads a request: the head, and all further bytes as its body.  The number tells where the
body begins. -/
def read (bytes : Bytes) : Except HeadFault (Request × Nat) := do
  let (found, body) ← request bytes
  return (found.withBody body, bytes.length - body.length)

end Head

end WebApp
