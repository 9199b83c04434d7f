/-!
# Binary floating point numbers of 64 bits

A number is its bit pattern.  A finite one has the value `significand * 2 ^ exponent`, with
the sign apart; `nearest` finds the number closest to a quotient, a tie going to the even
significand.
-/

namespace WebApp

/-- A floating point number, as its 64 bits. -/
structure Binary64 where
  bits : UInt64
deriving DecidableEq, Inhabited, Repr

namespace Binary64

def ofFloat (x : Float) : Binary64 :=
  ⟨x.toBits⟩

def toFloat (x : Binary64) : Float :=
  Float.ofBits x.bits

def isNegative (x : Binary64) : Bool :=
  x.bits.toNat / Nat.pow 2 63 == 1

/-- The field of 11 bits below the sign. -/
def exponentField (x : Binary64) : Nat :=
  x.bits.toNat / Nat.pow 2 52 % 2048

/-- The field of the 52 lowest bits. -/
def fractionField (x : Binary64) : Nat :=
  x.bits.toNat % Nat.pow 2 52

def isFinite (x : Binary64) : Bool :=
  x.exponentField != 2047

/-- The whole number that the power of two multiplies. -/
def significand (x : Binary64) : Nat :=
  if x.exponentField = 0 then x.fractionField else Nat.pow 2 52 + x.fractionField

def exponent (x : Binary64) : Int :=
  if x.exponentField = 0 then -1074 else (x.exponentField : Int) - 1075

def negate (x : Binary64) : Binary64 :=
  ⟨x.bits ^^^ 0x8000000000000000⟩

def zero : Binary64 := ⟨0⟩

def infinity : Binary64 := ⟨0x7FF0000000000000⟩

/-- The quotient rounded to a whole number, a tie to the even one. -/
def roundDiv (num den : Nat) : Nat :=
  let q := num / den
  let twice := 2 * (num % den)
  if twice > den || (twice == den && q % 2 == 1) then q + 1 else q

/-- `num / den` in units of `2 ^ q`, rounded. -/
def inUnits (num den : Nat) (q : Int) : Nat :=
  if q ≥ 0 then roundDiv num (den * Nat.pow 2 q.toNat) else roundDiv (num * Nat.pow 2 (-q).toNat) den

/-- The pattern of `m * 2 ^ q`, for `m` up to `2 ^ 53`. -/
def assemble (m : Nat) (q : Int) : Binary64 :=
  let (m, q) := if m = Nat.pow 2 53 then (Nat.pow 2 52, q + 1) else (m, q)
  if m < Nat.pow 2 52 then ⟨m.toUInt64⟩
  else if q > 971 then infinity
  else ⟨((q + 1075).toNat * Nat.pow 2 52 + (m - Nat.pow 2 52)).toUInt64⟩

/-- The number nearest to `num / den`. -/
def nearest (num den : Nat) : Binary64 :=
  if num = 0 then zero
  else
    let guess : Int := (num.log2 : Int) - (den.log2 : Int) - 52
    let low := max (guess - 1) (-1074)
    if inUnits num den low ≤ Nat.pow 2 53 then assemble (inUnits num den low) low
    else
      let high := max guess (-1074)
      assemble (inUnits num den high) high

/-- The number nearest to `digits * 10 ^ power`. -/
def ofDecimal (digits : Nat) (power : Int) : Binary64 :=
  let length := (Nat.toDigits 10 digits).length
  if digits = 0 || (length : Int) + power < -330 then zero
  else if (length : Int) + power > 310 then infinity
  else if power ≥ 0 then nearest (digits * Nat.pow 10 power.toNat) 1
  else nearest digits (Nat.pow 10 (-power).toNat)

/-- The digits at the front, and what follows them. -/
def spanDigits (cs : List Char) : List Char × List Char :=
  cs.span Char.isDigit

def digitsValue (cs : List Char) : Nat :=
  cs.foldl (fun n c => n * 10 + (c.toNat - '0'.toNat)) 0

/-- Reads what may follow the digits of a number: nothing, or a power of ten. -/
def readPower? : List Char → Option Int
  | [] => some 0
  | e :: rest =>
    if e == 'e' || e == 'E' then
      let (negative, digits) :=
        match rest with
        | '-' :: ds => (true, ds)
        | '+' :: ds => (false, ds)
        | ds => (false, ds)
      if digits.isEmpty || !digits.all Char.isDigit then none
      else
        let value : Int := digitsValue digits
        some (if negative then -value else value)
    else none

/-- Reads a number without its sign. -/
def readUnsigned? (cs : List Char) : Option Binary64 :=
  let (whole, rest) := spanDigits cs
  let (part, rest) :=
    match rest with
    | '.' :: tail => spanDigits tail
    | _ => ([], rest)
  if whole.isEmpty && part.isEmpty then none
  else
    (readPower? rest).map fun power =>
      ofDecimal (digitsValue (whole ++ part)) (power - part.length)

/-- Reads a finite number: a sign, digits with or without a point, and a power of ten. -/
def readFinite? (s : String) : Option Binary64 :=
  let value :=
    match s.toList with
    | '-' :: cs => (readUnsigned? cs).map negate
    | '+' :: cs => readUnsigned? cs
    | cs => readUnsigned? cs
  value.filter isFinite

end Binary64

end WebApp
