import WebApp.Bytes
import WebApp.Json.Printer

/-!
# What is wrong with a JSON text or value

A fault of the text has a place: the number of bytes read when it was noticed.  A value that
is not of the wanted shape has a fault without a place, until the reader of the text that it
came from adds one.
-/

namespace WebApp.Json

/-- What stands where a value of another shape is wanted. -/
inductive Found where
  | unit
  | bool (value : Bool)
  | number (value : JsonNumber)
  | string (value : String)
  | sequence
  | map

def Found.text : Found → String
  | .unit => "null"
  | .bool b => s!"boolean `{b}`"
  | .number (.whole n) => s!"integer `{n}`"
  | .number (.float x) => s!"floating point `{Shortest.render .data x}`"
  | .string s => s!"string {Text.quoted s}"
  | .sequence => "sequence"
  | .map => "map"

/-- What a value of another shape is to the one who wants one. -/
def Found.of : Json → Found
  | .null => .unit
  | .bool b => .bool b
  | .number n => .number n
  | .string s => .string s
  | .array _ => .sequence
  | .object _ => .map

inductive Cause where
  | endInValue
  | endInString
  | endInList
  | endInObject
  | colonExpected
  | listCommaOrEndExpected
  | objectCommaOrEndExpected
  | wordExpected
  | valueExpected
  | badEscape
  | badNumber
  | numberOutOfRange
  | badCodePoint
  | controlCharacter
  | keyNotString
  | loneSurrogate
  | trailingComma
  | trailingCharacters
  | hexEscapeEnded
  | tooDeep
  | wrongType (found : Found) (expected : String)
  | wrongValue (found : Found) (expected : String)
  | wrongLength (length : Nat) (expected : String)
  | missingField (name : String)
  | duplicateField (name : String)

def Cause.message : Cause → String
  | .endInValue => "EOF while parsing a value"
  | .endInString => "EOF while parsing a string"
  | .endInList => "EOF while parsing a list"
  | .endInObject => "EOF while parsing an object"
  | .colonExpected => "expected `:`"
  | .listCommaOrEndExpected => "expected `,` or `]`"
  | .objectCommaOrEndExpected => "expected `,` or `\x7d`"
  | .wordExpected => "expected ident"
  | .valueExpected => "expected value"
  | .badEscape => "invalid escape"
  | .badNumber => "invalid number"
  | .numberOutOfRange => "number out of range"
  | .badCodePoint => "invalid unicode code point"
  | .controlCharacter => "control character (\\u0000-\\u001F) found while parsing a string"
  | .keyNotString => "key must be a string"
  | .loneSurrogate => "lone leading surrogate in hex escape"
  | .trailingComma => "trailing comma"
  | .trailingCharacters => "trailing characters"
  | .hexEscapeEnded => "unexpected end of hex escape"
  | .tooDeep => "recursion limit exceeded"
  | .wrongType found expected => s!"invalid type: {found.text}, expected {expected}"
  | .wrongValue found expected => s!"invalid value: {found.text}, expected {expected}"
  | .wrongLength length expected => s!"invalid length {length}, expected {expected}"
  | .missingField name => s!"missing field `{name}`"
  | .duplicateField name => s!"duplicate field `{name}`"

/-- A cause, and the number of bytes read when it was noticed. -/
structure Fault where
  cause : Cause
  place : Option Nat

/-- The line and the column of a place, in bytes, lines counted from one. -/
def lineAndColumn (input : Bytes) (place : Nat) : Nat × Nat :=
  let before := input.take place
  let lines := before.count 10
  let column := (before.reverse.takeWhile (· != 10)).length
  (lines + 1, column)

/-- The wording of a fault, with its line and column in the text. -/
def Fault.message (input : Bytes) (fault : Fault) : String :=
  match fault.place with
  | none => fault.cause.message
  | some place =>
    let (line, column) := lineAndColumn input place
    s!"{fault.cause.message} at line {line} column {column}"

end WebApp.Json
