/-!
# Decimal integers inside bounds

Digits are taken from the left.  The first character that is no digit, or the first digit
that leaves the bounds, ends the reading with the cause.
-/

namespace WebApp

/-- Why a text is no integer inside the bounds. -/
inductive Misread where
  | empty
  | badDigit
  | tooLarge
  | tooSmall
deriving DecidableEq, Repr

def Misread.message : Misread → String
  | .empty => "cannot parse integer from empty string"
  | .badDigit => "invalid digit found in string"
  | .tooLarge => "number too large to fit in target type"
  | .tooSmall => "number too small to fit in target type"

/-- The cause as it is shown inside a message about a program's data. -/
def Misread.shown : Misread → String
  | .empty => "Empty"
  | .badDigit => "InvalidDigit"
  | .tooLarge => "PosOverflow"
  | .tooSmall => "NegOverflow"

namespace Integer

def digit? (c : Char) : Option Nat :=
  if c.isDigit then some (c.toNat - '0'.toNat) else none

/-- Reads the digits of a number that may not exceed `high`. -/
def readUp (high : Int) (value : Int) : List Char → Except Misread Int
  | [] => .ok value
  | c :: rest =>
    match digit? c with
    | none => .error .badDigit
    | some d =>
      let next := value * 10 + d
      if next > high then .error .tooLarge else readUp high next rest

/-- Reads the digits behind a minus sign; the number may not fall below `low`. -/
def readDown (low : Int) (value : Int) : List Char → Except Misread Int
  | [] => .ok value
  | c :: rest =>
    match digit? c with
    | none => .error .badDigit
    | some d =>
      let next := value * 10 - d
      if next < low then .error .tooSmall else readDown low next rest

/-- Reads an integer between `low` and `high`.  A plus sign is allowed, a minus sign where
negative numbers are. -/
def read (low high : Int) (s : String) : Except Misread Int :=
  match s.toList with
  | [] => .error .empty
  | ['+'] => .error .badDigit
  | ['-'] => .error .badDigit
  | '+' :: digits => readUp high 0 digits
  | '-' :: digits => if low < 0 then readDown low 0 digits else .error .badDigit
  | digits => readUp high 0 digits

/-- The least and greatest integer of 64 bits with a sign. -/
def least64 : Int := -9223372036854775808
def greatest64 : Int := 9223372036854775807

/-- The greatest integer of 64 bits without a sign. -/
def greatestWord64 : Int := 18446744073709551615

/-- Reads a 64-bit integer with a sign. -/
def read64 (s : String) : Except Misread Int :=
  read least64 greatest64 s

/-- Reads a count that fits 64 bits. -/
def readCount? (s : String) : Option Nat :=
  (read 0 greatestWord64 s).toOption.map Int.toNat

end Integer

end WebApp
