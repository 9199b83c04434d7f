import WebApp.Json.Fault
import WebApp.Text.Utf8

/-!
# Scanning JSON texts

The steps of a reader: looking at the next byte, taking it, and reading words, strings and
numbers.  A reader that fails keeps its place, so that what encloses it can go on from there.
-/

namespace WebApp.Json

/-- What is left of a text, how many bytes were read, and how many the text has. -/
structure Scan where
  rest : Bytes
  place : Nat
  size : Nat

/-- A text that nothing was read of. -/
def Scan.start (input : Bytes) : Scan :=
  ⟨input, 0, input.length⟩

/-- A step over a text that gives a result or a fault. -/
abbrev Reader := ExceptT Fault (StateM Scan)

namespace Reader

/-- A fault behind the bytes read. -/
def failHere {α : Type} (cause : Cause) : Reader α := do
  throw ⟨cause, some (← get).place⟩

/-- A fault at the next byte, or at the end of the text. -/
def failNext {α : Type} (cause : Cause) : Reader α := do
  let scan ← get
  throw ⟨cause, some (if scan.rest.isEmpty then scan.place else scan.place + 1)⟩

/-- A fault of the value, its place still open. -/
def failOpen {α : Type} (cause : Cause) : Reader α :=
  throw ⟨cause, none⟩

def peek : Reader (Option UInt8) := do
  return (← get).rest.head?

def skip : Reader Unit :=
  modify fun scan =>
    match scan.rest with
    | [] => scan
    | _ :: rest => { scan with rest := rest, place := scan.place + 1 }

def next : Reader (Option UInt8) := do
  let byte ← peek
  skip
  return byte

/-- Passes the bytes that `p` holds of, and gives them. -/
def takeWhile (p : UInt8 → Bool) : Reader Bytes := do
  let scan ← get
  let taken := scan.rest.takeWhile p
  let count := taken.length
  set { scan with rest := scan.rest.drop count, place := scan.place + count }
  return taken

/-- As many rounds as the bytes left can ask for, and one more. -/
def rounds : Reader Nat := do
  let scan ← get
  return scan.size - scan.place + 1

def isSpace (b : UInt8) : Bool :=
  b == 32 || b == 10 || b == 9 || b == 13

/-- The next byte that is no blank. -/
def peekToken : Reader (Option UInt8) := do
  let _ ← takeWhile isSpace
  peek

/-- The result of a step, or its fault. -/
def attempt {α : Type} (step : Reader α) : Reader (Except Fault α) :=
  ExceptT.mk do return .ok (← step.run)

/-- A step whose faults without a place get the place that it ends at. -/
def placed {α : Type} (step : Reader α) : Reader α := do
  match ← attempt step with
  | .ok a => return a
  | .error fault =>
    match fault.place with
    | some _ => throw fault
    | none => failHere fault.cause

/-- The rest of a word. -/
def word : List UInt8 → Reader Unit
  | [] => return ()
  | expected :: more => do
    match ← next with
    | none => failHere .endInValue
    | some b => if b == expected then word more else failHere .wordExpected

def isDigit (b : UInt8) : Bool :=
  48 ≤ b && b ≤ 57

def digitOf (b : UInt8) : Nat :=
  b.toNat - 48

/-- The value of four hexadecimal digits. -/
def hexValue? (digits : Bytes) : Option Nat :=
  digits.foldlM (fun n b =>
    let c := Char.ofNat b.toNat
    if c.isDigit then some (n * 16 + (c.toNat - 48))
    else if 'a' ≤ c && c ≤ 'f' then some (n * 16 + (c.toNat - 87))
    else if 'A' ≤ c && c ≤ 'F' then some (n * 16 + (c.toNat - 55))
    else none) 0

def hexEscape : Reader Nat := do
  let scan ← get
  let digits := scan.rest.take 4
  set { scan with rest := scan.rest.drop 4, place := scan.place + digits.length }
  if digits.length < 4 then
    failHere .endInString
  else
    match hexValue? digits with
    | some n => return n
    | none => failHere .badEscape

/-- What follows `\u`.  A code point outside the base plane is written as two halves. -/
def codePointEscape : Reader Char := do
  let high ← hexEscape
  if 0xDC00 ≤ high && high ≤ 0xDFFF then
    failHere .loneSurrogate
  else if high < 0xD800 || 0xDBFF < high then
    return Char.ofNat high
  else
    for expected in [(92 : UInt8), 117] do
      match ← peek with
      | none => failHere .endInString
      | some b =>
        skip
        if b != expected then
          failHere .hexEscapeEnded
    let low ← hexEscape
    if low < 0xDC00 || 0xDFFF < low then
      failHere .loneSurrogate
    else
      return Char.ofNat ((high - 0xD800) * 1024 + (low - 0xDC00) + 0x10000)

/-- What follows a backslash, as the bytes that it stands for. -/
def escape : Reader Bytes := do
  match ← next with
  | none => failHere .endInString
  | some b =>
    match Char.ofNat b.toNat with
    | '"' => return [34]
    | '\\' => return [92]
    | '/' => return [47]
    | 'b' => return [8]
    | 'f' => return [12]
    | 'n' => return [10]
    | 'r' => return [13]
    | 't' => return [9]
    | 'u' => return String.utf8EncodeChar (← codePointEscape)
    | _ => failHere .badEscape

/-- A byte of a string that stands for itself. -/
def isPlain (b : UInt8) : Bool :=
  32 ≤ b && b != 34 && b != 92

/-- The bytes of a string up to its closing quote.  Those that were read stand in reverse. -/
def stringBytes : Nat → Bytes → Reader Bytes
  | 0, _ => failHere .endInString
  | fuel + 1, done => do
    let done := (← takeWhile isPlain).reverseAux done
    match ← next with
    | none => failHere .endInString
    | some 34 => return done.reverse
    | some 92 => stringBytes fuel ((← escape).reverseAux done)
    | some _ => failHere .controlCharacter

/-- A string behind its opening quote.  The fault of one that is no UTF-8 stands as many bytes
before the end of the string as are left of its contents behind the last sound character. -/
def string : Reader String := do
  let bytes ← stringBytes (← rounds) []
  match Utf8.decode? bytes with
  | some s => return s
  | none =>
    let unsound := bytes.length - Utf8.soundLength bytes
    throw ⟨.badCodePoint, some ((← get).place - unsound)⟩

/-- The powers of ten that a floating point number is multiplied with in one step. -/
def powerOfTen (n : Nat) : Float :=
  Float.ofScientific 1 false n

/-- `f * 10 ^ power`, in steps of at most 308 decimal places. -/
def scaleByTen (fuel : Nat) (f : Float) (power : Int) : Option Float :=
  if power.natAbs ≤ 308 then
    if power ≥ 0 then
      let scaled := f * powerOfTen power.natAbs
      if scaled.isInf then none else some scaled
    else
      some (f / powerOfTen power.natAbs)
  else if f == 0 then some f
  else if power ≥ 0 then none
  else
    match fuel with
    | 0 => some f
    | fuel + 1 => scaleByTen fuel (f / powerOfTen 308) (power + 308)

/-- The floating point number with these digits and this power of ten. -/
def floatOf (positive : Bool) (digits : Nat) (power : Int) : Reader JsonNumber := do
  match scaleByTen 8 digits.toUInt64.toFloat power with
  | none => failHere .numberOutOfRange
  | some f => return .float (.ofFloat (if positive then f else -f))

/-- As many digits as 64 bits hold, and how many were taken. -/
def boundedDigits : Nat → Nat → Bytes → Nat × Nat
  | value, taken, [] => (value, taken)
  | value, taken, b :: rest =>
    let longer := value * 10 + digitOf b
    if longer < Nat.pow 2 64 then boundedDigits longer (taken + 1) rest else (value, taken)

/-- The value of more digits, if 31 bits hold it. -/
def boundedPower : Nat → Bytes → Option Nat
  | value, [] => some value
  | value, b :: rest =>
    let longer := value * 10 + digitOf b
    if longer ≤ 2147483647 then boundedPower longer rest else none

/-- A power of ten, behind its mark. -/
def exponentPart (positive : Bool) (digits : Nat) (start : Int) : Reader JsonNumber := do
  skip
  let positivePower ←
    match ← peek with
    | some 43 => do skip; pure true
    | some 45 => do skip; pure false
    | _ => pure true
  match ← next with
  | none => failHere .endInValue
  | some b =>
    if !isDigit b then
      failHere .badNumber
    else
      let more := (← get).rest.takeWhile isDigit
      match boundedPower (digitOf b) more with
      | some value =>
        let _ ← takeWhile isDigit
        floatOf positive digits (if positivePower then start + value else start - value)
      | none =>
        if digits != 0 && positivePower then
          overflowAt more (digitOf b)
        else
          let _ ← takeWhile isDigit
          return .float (if positive then .zero else Binary64.zero.negate)
where
  /-- The fault stands behind the digit that made the power too large. -/
  overflowAt (more : Bytes) (value : Nat) : Reader JsonNumber :=
    match more with
    | [] => failHere .numberOutOfRange
    | d :: rest => do
      skip
      let longer := value * 10 + digitOf d
      if longer > 2147483647 then failHere .numberOutOfRange else overflowAt rest longer

/-- The digits behind a point. -/
def decimalPart (positive : Bool) (digits : Nat) (start : Int) : Reader JsonNumber := do
  skip
  let places := (← get).rest.takeWhile isDigit
  if places.isEmpty then
    match ← peek with
    | some _ => failNext .badNumber
    | none => failNext .endInValue
  else
    let _ ← takeWhile isDigit
    let (value, taken) := boundedDigits digits 0 places
    let power := start - taken
    match ← peek with
    | some 101 | some 69 => exponentPart positive value power
    | _ => floatOf positive value power

/-- A number behind its sign. -/
def number (positive : Bool) : Reader JsonNumber := do
  match ← next with
  | none => failHere .endInValue
  | some 48 => do
    match ← peek with
    | some b => if isDigit b then failNext .badNumber else finish 0 0
    | none => finish 0 0
  | some b =>
    if !isDigit b then
      failHere .badNumber
    else
      let more ← takeWhile isDigit
      let (value, taken) := boundedDigits (digitOf b) 0 more
      finish value (more.length - taken)
where
  /-- `dropped` digits of the whole part did not fit. -/
  finish (value dropped : Nat) : Reader JsonNumber := do
    match ← peek with
    | some 46 => decimalPart positive value dropped
    | some 101 | some 69 => exponentPart positive value dropped
    | _ =>
      if dropped > 0 then floatOf positive value dropped
      else if positive then return .whole value
      else if value = 0 then return .float Binary64.zero.negate
      else if value ≤ Nat.pow 2 63 then return .whole (-value)
      else return .float (Binary64.ofFloat value.toUInt64.toFloat).negate

end Reader

end WebApp.Json
