import WebApp.Number.Binary64

/-!
# The shortest decimal that reads back

Among the decimals that round to a number, those with the fewest digits are written, and of
these the one nearest to the number; a style says which way ties go.  The decimals that round
to it lie between the middles to its two neighbours, the middles included when the significand
is even.
-/

namespace WebApp.Shortest

/-- A quotient of whole numbers. -/
structure Ratio where
  num : Nat
  den : Nat

/-- `m * 2 ^ q`. -/
def Ratio.ofBinary (m : Nat) (q : Int) : Ratio :=
  if q ≥ 0 then ⟨m * Nat.pow 2 q.toNat, 1⟩ else ⟨m, Nat.pow 2 (-q).toNat⟩

/-- `m * 10 ^ k`. -/
def Ratio.ofDecimal (m : Nat) (k : Int) : Ratio :=
  if k ≥ 0 then ⟨m * Nat.pow 10 k.toNat, 1⟩ else ⟨m, Nat.pow 10 (-k).toNat⟩

def Ratio.lt (a b : Ratio) : Bool :=
  a.num * b.den < b.num * a.den

def Ratio.le (a b : Ratio) : Bool :=
  a.num * b.den ≤ b.num * a.den

/-- The decimals that round to a number. -/
structure Interval where
  low : Ratio
  high : Ratio
  closed : Bool

def Interval.holds (i : Interval) (x : Ratio) : Bool :=
  if i.closed then i.low.le x && x.le i.high else i.low.lt x && x.lt i.high

/-- The interval of a positive number.  Below a power of two the neighbours are half as far. -/
def interval (x : Binary64) : Interval where
  low :=
    if x.fractionField = 0 ∧ x.exponentField > 1 then
      .ofBinary (4 * x.significand - 1) (x.exponent - 2)
    else
      .ofBinary (2 * x.significand - 1) (x.exponent - 1)
  high := .ofBinary (2 * x.significand + 1) (x.exponent - 1)
  closed := decide (x.significand % 2 = 0)

def digitCount (n : Nat) : Nat :=
  (Nat.toDigits 10 n).length

/-- The power of ten of the leading digit. -/
def leading (v : Ratio) : Int :=
  if v.num ≥ v.den then
    (digitCount (v.num / v.den) : Int) - 1
  else
    let zeros := (List.range 400).find? fun j => decide (v.num * Nat.pow 10 (j + 1) ≥ v.den)
    Int.negSucc (zeros.getD 400)

/-- Which of two decimals counts as the nearer one when they are equally near. -/
inductive Tie where
  | even
  | up
deriving DecidableEq, Repr

/-- Of the two decimals `m * 10 ^ k` around `v`, the nearer one that the interval holds. -/
def onGrid (tie : Tie) (i : Interval) (v : Ratio) (k : Int) : Option Nat :=
  let scaled : Ratio :=
    if k ≥ 0 then ⟨v.num, v.den * Nat.pow 10 k.toNat⟩ else ⟨v.num * Nat.pow 10 (-k).toNat, v.den⟩
  let below := scaled.num / scaled.den
  let twice := 2 * (scaled.num % scaled.den)
  let holdsBelow := i.holds (.ofDecimal below k)
  let holdsAbove := i.holds (.ofDecimal (below + 1) k)
  if holdsBelow && holdsAbove then
    let staysBelow :=
      twice < scaled.den || (twice == scaled.den && tie == .even && below % 2 == 0)
    some (if staysBelow then below else below + 1)
  else if holdsBelow then some below
  else if holdsAbove then some (below + 1)
  else none

/-- A whole number without its trailing zeros, and how many it had. -/
def stripZeros (fuel : Nat) (m : Nat) (k : Int) : Nat × Int :=
  match fuel with
  | 0 => (m, k)
  | fuel + 1 => if m % 10 = 0 ∧ m ≠ 0 then stripZeros fuel (m / 10) (k + 1) else (m, k)

/-- The digits and the power of ten of a positive number. -/
def decimal (tie : Tie) (x : Binary64) : Nat × Int :=
  let v := Ratio.ofBinary x.significand x.exponent
  let i := interval x
  let top := leading v
  let found := (List.range 17).findSome? fun (n : Nat) =>
    (onGrid tie i v (top - n)).map fun m => stripZeros 20 m (top - n)
  found.getD (0, 0)

/-- Where a number is written with a point alone, how its power of ten is marked, and which way
ties go. -/
structure Style where
  leastPower : Int
  greatestPower : Int
  plusSign : Bool
  tie : Tie

/-- Between a hundred thousandth and ten to the sixteenth a point suffices; a positive power
has its sign; ties go to the even digit. -/
def Style.data : Style := ⟨-5, 15, true, .even⟩

/-- Between a ten thousandth and ten to the sixteenth a point suffices; a positive power has
no sign; ties go up. -/
def Style.plain : Style := ⟨-4, 15, false, .up⟩

/-- Digits with a point, at least one digit on each side of it. -/
def positional (digits : List Char) (power : Int) : List Char :=
  if power ≥ 0 then
    digits ++ List.replicate power.toNat '0' ++ ['.', '0']
  else
    let places := (-power).toNat
    if digits.length > places then
      digits.take (digits.length - places) ++ '.' :: digits.drop (digits.length - places)
    else
      '0' :: '.' :: List.replicate (places - digits.length) '0' ++ digits

/-- One digit before the point, and the power of ten behind a mark. -/
def scientific (style : Style) (digits : List Char) (top : Int) : List Char :=
  let mantissa :=
    match digits with
    | [] => ['0']
    | [d] => [d]
    | d :: rest => d :: '.' :: rest
  let sign := if top < 0 then ['-'] else if style.plusSign then ['+'] else []
  mantissa ++ 'e' :: sign ++ Nat.toDigits 10 top.natAbs

def render (style : Style) (x : Binary64) : String :=
  let body :=
    if x.significand = 0 then
      ['0', '.', '0']
    else
      let (m, k) := decimal style.tie x
      let digits := Nat.toDigits 10 m
      let top := k + digits.length - 1
      if style.leastPower ≤ top ∧ top ≤ style.greatestPower then positional digits k
      else scientific style digits top
  String.ofList (if x.isNegative then '-' :: body else body)

end WebApp.Shortest
