import WebApp.Text.Utf8

/-!
# Path patterns

A pattern is a path in which a brace opens and closes the name of a parameter.  A parameter
takes one segment of a path or a part of it; one whose name begins with a star takes all that
is left.  A brace that is written twice stands for itself.
-/

namespace WebApp

/-- One byte of a pattern.  A literal brace does not open or close a name. -/
structure Mark where
  byte : UInt8
  isLiteral : Bool := false
deriving DecidableEq, Inhabited, Repr

namespace Mark

def bytes (marks : List Mark) : Bytes := marks.map Mark.byte

/-- Whether a mark opens the name of a parameter. -/
def opens (m : Mark) : Bool := m.byte == 123 && !m.isLiteral

/-- Whether a mark closes the name of a parameter. -/
def closes (m : Mark) : Bool := m.byte == 125 && !m.isLiteral

end Mark

inductive InsertError where
  | badParam
  | severalParams
  | catchAllInside
  | conflict (route : String)
  /-- The pattern in conflict cannot be told.  It ends inside a character where an attempt that
  failed left it behind, or a literal brace of it counts as one that opens or closes a name. -/
  | conflictUntold
  /-- There are no more short names for the parameters. -/
  | tooManyParams
deriving DecidableEq, Repr

def InsertError.message : InsertError → String
  | .badParam => "Parameters must be registered with a valid name"
  | .severalParams => "Only one parameter is allowed per path segment"
  | .catchAllInside => "Catch-all parameters are only allowed at the end of a route"
  | .conflict route =>
    "Insertion failed due to conflict with previously registered route: " ++ route
  | .conflictUntold => "Insertion failed due to conflict with a route that cannot be told"
  | .tooManyParams => "Too many route parameters."

/-- Whether the call that adds the pattern cannot go on after the error. -/
def InsertError.isFatal : InsertError → Bool
  | .conflictUntold => true
  | .tooManyParams => true
  | _ => false

/-- The number of marks up to the end of a parameter, given how many lie before and the marks
behind the first byte of its name. -/
def paramEnd (last : UInt8) : Nat → List Mark → Except InsertError Nat
  | _, [] => .error .badParam
  | count, m :: rest =>
    if m.byte = 125 then
      if m.isLiteral then paramEnd m.byte (count + 1) rest
      else if last = 42 then .error .badParam
      else .ok (count + 1)
    else if m.byte = 42 ∨ m.byte = 47 then .error .badParam
    else paramEnd m.byte (count + 1) rest

/-- The first parameter: the marks before it, and those up to its end. -/
def findParam (start : Nat) : List Mark → Except InsertError (Option (Nat × Nat))
  | [] => .ok none
  | m :: rest =>
    if m.closes then .error .badParam
    else if m.opens then
      match rest with
      | [] => .error .badParam
      | first :: behind =>
        if first.byte = 125 then .error .badParam
        else (paramEnd first.byte (start + 2) behind).map fun stop => some (start, stop)
    else findParam (start + 1) rest

/-- A pattern: its bytes, and the places of the literal braces. -/
structure Pattern where
  bytes : Bytes
  literals : List Nat
deriving DecidableEq, Inhabited, Repr

namespace Pattern

/-- Makes one brace of each pair. -/
def unescape (place : Nat) : Bytes → Bytes × List Nat
  | 123 :: 123 :: rest =>
    let (bytes, places) := unescape (place + 1) rest
    (123 :: bytes, place :: places)
  | 125 :: 125 :: rest =>
    let (bytes, places) := unescape (place + 1) rest
    (125 :: bytes, place :: places)
  | b :: rest =>
    let (bytes, places) := unescape (place + 1) rest
    (b :: bytes, places)
  | [] => ([], [])

def ofString (s : String) : Pattern :=
  let (bytes, literals) := unescape 0 (Utf8.encode s)
  ⟨bytes, literals⟩

def marks (p : Pattern) : List Mark :=
  p.bytes.zipIdx.map fun (b, place) => ⟨b, p.literals.contains place⟩

def ofMarks (marks : List Mark) : Pattern where
  bytes := Mark.bytes marks
  literals := (marks.zipIdx.filter fun entry => entry.1.isLiteral).map Prod.snd

/-- Puts other bytes in the place of some.  Literal braces move along, but for one that
follows at once. -/
def replace (p : Pattern) (start stop : Nat) (other : Bytes) : Pattern where
  bytes := p.bytes.take start ++ other ++ p.bytes.drop stop
  literals := (p.literals.filter fun place => !(start ≤ place && place < stop)).map fun place =>
    if place > stop then place + other.length - (stop - start) else place

/-- The first parameter that begins at a place or later. -/
def paramFrom (p : Pattern) (place : Nat) : Except InsertError (Option (Nat × Nat)) :=
  findParam place (p.marks.drop place)

/-- The letters that stand for the names of parameters. -/
def letters : List UInt8 := Utf8.encode "abcdefghijklmnopqrstuvwxy"

/-- Gives the parameters from a place on short names in the order of letters.  Also gives
their own names. -/
def shorten : Nat → List UInt8 → Nat → Pattern → Except InsertError (Pattern × List Bytes)
  | 0, _, _, p => .ok (p, [])
  | fuel + 1, letters, place, p => do
    match ← p.paramFrom place with
    | none => return (p, [])
    | some (start, stop) =>
      if p.bytes[start + 1]? = some 42 then
        shorten fuel letters stop p
      else
        match letters with
        | [] => throw .tooManyParams
        | letter :: letters =>
          let name := (p.bytes.take (stop - 1)).drop (start + 1)
          let (short, names) ← shorten fuel letters (start + 3) (p.replace start stop [123, letter, 125])
          return (short, name :: names)

/-- The pattern with short names for its parameters, and their own names. -/
def normalize (p : Pattern) : Except InsertError (Pattern × List Bytes) :=
  p.shorten (p.bytes.length + 1) letters 0

/-- Gives the parameters from a place on these names, unless a brace behind them is on its own. -/
def rename? (place : Nat) (p : Pattern) : List Bytes → Option Pattern
  | [] => (p.paramFrom place).toOption.map fun _ => p
  | name :: names =>
    match p.paramFrom place with
    | .error _ => none
    | .ok none => some p
    | .ok (some (start, stop)) =>
      let braced := 123 :: name ++ [125]
      rename? (start + braced.length) (p.replace start stop braced) names

/-- The error of a conflict with the pattern, where its parameters have these names. -/
def conflict (p : Pattern) (names : List Bytes) : InsertError :=
  match (p.rename? 0 names).bind fun named => Utf8.decode? named.bytes with
  | some route => .conflict route
  | none => .conflictUntold

end Pattern

end WebApp
