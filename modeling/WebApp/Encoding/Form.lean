import WebApp.Text.Utf8

/-!
# Form fields in a query string

Fields are separated by `&`, a name from its value by the first `=`.  A plus sign stands for
a blank and `%` with two hexadecimal digits for a byte; a `%` without them stands for itself.
-/

namespace WebApp.Form

/-- The value of a hexadecimal digit. -/
def hexDigit? (b : UInt8) : Option UInt8 :=
  if 48 ≤ b && b ≤ 57 then some (b - 48)
  else if 97 ≤ b && b ≤ 102 then some (b - 87)
  else if 65 ≤ b && b ≤ 70 then some (b - 55)
  else none

/-- The bytes that a name or value stands for. -/
def unescape : Bytes → Bytes
  | [] => []
  | 37 :: high :: low :: rest =>
    match hexDigit? high, hexDigit? low with
    | some h, some l => (h * 16 + l) :: unescape rest
    | _, _ => 37 :: unescape (high :: low :: rest)
  | b :: rest => (if b = 43 then 32 else b) :: unescape rest

/-- A name or value as text. -/
def component (bytes : Bytes) : String :=
  Utf8.decodeLenient (unescape bytes)

/-- The bytes before and after the first `=`. -/
def splitField (field : Bytes) : Bytes × Bytes :=
  (field.takeWhile (· != 61), (field.dropWhile (· != 61)).drop 1)

/-- The fields of a query string in order; empty pieces hold none. -/
def fields (query : String) : List (String × String) :=
  ((Utf8.encode query).splitOn 38).filterMap fun piece =>
    if piece.isEmpty then none
    else
      let (name, value) := splitField piece
      some (component name, component value)

end WebApp.Form
