import WebApp.Json.Scan

/-!
# Reading JSON values

Arrays and objects nest to a fixed depth; the depth left bounds the recursion of `value`.
Values that nobody wants are passed over by `ignored`, to any depth.
-/

namespace WebApp.Json.Reader

/-- How deep arrays and objects may nest. -/
def depthLimit : Nat := 128

/-- Whether another item of an array follows. -/
def itemFollows (first : Bool) : Reader Bool := do
  match ← peekToken with
  | none => failNext .endInList
  | some 93 => return false
  | some b =>
    if first then
      return true
    else if b == 44 then
      skip
      match ← peekToken with
      | none => failNext .endInValue
      | some 93 => failNext .trailingComma
      | some _ => return true
    else
      failNext .listCommaOrEndExpected

/-- Whether another member of an object follows; its key is then the next token. -/
def memberFollows (first : Bool) : Reader Bool := do
  match ← peekToken with
  | none => failNext .endInObject
  | some 125 => return false
  | some b =>
    if first then
      if b == 34 then return true else failNext .keyNotString
    else if b == 44 then
      skip
      match ← peekToken with
      | none => failNext .endInValue
      | some 34 => return true
      | some 125 => failNext .trailingComma
      | some _ => failNext .keyNotString
    else
      failNext .objectCommaOrEndExpected

def endOfArray : Reader Unit := do
  match ← peekToken with
  | none => failNext .endInList
  | some 93 => skip
  | some 44 => do
    skip
    match ← attempt peekToken with
    | .ok (some 93) => failNext .trailingComma
    | _ => failNext .trailingCharacters
  | some _ => failNext .trailingCharacters

def endOfObject : Reader Unit := do
  match ← peekToken with
  | none => failNext .endInObject
  | some 125 => skip
  | some 44 => failNext .trailingComma
  | some _ => failNext .trailingCharacters

/-- A key, with its opening quote. -/
def key : Reader String := do
  skip
  string

def colon : Reader Unit := do
  match ← peekToken with
  | none => failNext .endInObject
  | some 58 => skip
  | some _ => failNext .colonExpected

/-- The inside of an array or object between its brackets.  When the inside fails, the end is
still looked for, and the fault of the inside counts. -/
def enclosed {α : Type} (depth : Nat) (inside : Reader α) (finish : Reader Unit) : Reader α := do
  if depth ≤ 1 then
    failNext .tooDeep
  else
    skip
    let result ← attempt inside
    let closing ← attempt finish
    match result, closing with
    | .ok a, .ok () => return a
    | .error fault, _ => throw fault
    | .ok _, .error fault => throw fault

/-- The items of an array. -/
def readItems {α : Type} (item : Reader α) : Nat → Bool → Reader (List α)
  | 0, _ => return []
  | fuel + 1, first => do
    if ← itemFollows first then
      let a ← item
      return a :: (← readItems item fuel false)
    else
      return []

/-- The members of an object. -/
def readMembers {α : Type} (value : Reader α) : Nat → Bool → Reader (List (String × α))
  | 0, _ => return []
  | fuel + 1, first => do
    if ← memberFollows first then
      let k ← key
      colon
      let a ← value
      return (k, a) :: (← readMembers value fuel false)
    else
      return []

/-- A value that is neither array nor object, by its first byte. -/
def scalar (b : UInt8) : Reader Json := do
  match Char.ofNat b.toNat with
  | 'n' => do skip; word [117, 108, 108]; return .null
  | 't' => do skip; word [114, 117, 101]; return .bool true
  | 'f' => do skip; word [97, 108, 115, 101]; return .bool false
  | '-' => do skip; return .number (← number false)
  | '"' => do skip; return .string (← string)
  | _ => if isDigit b then return .number (← number true) else failNext .valueExpected

/-- A value of any kind, with so much depth left. -/
def value : Nat → Reader Json
  | 0 => failNext .tooDeep
  | depth + 1 => placed do
    match ← peekToken with
    | none => failNext .endInValue
    | some 91 =>
      return .array (← enclosed (depth + 1) (do readItems (value depth) (← rounds) true) endOfArray)
    | some 123 =>
      let entries ←
        enclosed (depth + 1) (do readMembers (value depth) (← rounds) true) endOfObject
      return ofMembers entries
    | some b => scalar b

/-- The digits of a number that is passed over. -/
def ignoredNumber : Reader Unit := do
  match ← next with
  | some 48 =>
    if ((← peek).any isDigit) then
      failNext .badNumber
  | some b => if isDigit b then let _ ← takeWhile isDigit else failHere .badNumber
  | none => failHere .badNumber
  if (← peek) == some 46 then
    skip
    if (← takeWhile isDigit).isEmpty then
      failNext .badNumber
  if (← peek) == some 101 || (← peek) == some 69 then
    skip
    if (← peek) == some 43 || (← peek) == some 45 then
      skip
    if (← next).any isDigit then
      let _ ← takeWhile isDigit
    else
      failHere .badNumber

/-- A string that is passed over, behind its opening quote. -/
def ignoredString : Nat → Reader Unit
  | 0 => failHere .endInString
  | fuel + 1 => do
    let _ ← takeWhile isPlain
    match ← peek with
    | none => failHere .endInString
    | some 34 => skip
    | some 92 => do
      skip
      match ← next with
      | none => failHere .endInString
      | some b =>
        if b == 117 then
          let _ ← hexEscape
        else if b ∉ [34, 92, 47, 98, 102, 110, 114, 116] then
          failHere .badEscape
      ignoredString fuel
    | some _ => failHere .controlCharacter

/-- A key that is passed over, and its colon. -/
def ignoredKey : Reader Unit := do
  match ← peekToken with
  | some 34 => skip
  | some _ => failNext .keyNotString
  | none => failNext .endInObject
  ignoredString (← rounds)
  colon

/-- Passes over a value and what encloses it.  The list holds the opening brackets that are
not closed yet, the innermost first; the flag says that a value has just ended. -/
def ignoredFrom : Nat → List UInt8 → Bool → Reader Unit
  | 0, _, _ => return ()
  | fuel + 1, opened, true => do
    match opened with
    | [] => return ()
    | bracket :: outer =>
      match ← peekToken with
      | some 44 => do
        skip
        if bracket == 123 then
          ignoredKey
        ignoredFrom fuel opened false
      | some b =>
        if (b == 93 && bracket == 91) || (b == 125 && bracket == 123) then
          skip
          ignoredFrom fuel outer true
        else
          failNext (if bracket == 91 then .listCommaOrEndExpected else .objectCommaOrEndExpected)
      | none => failNext (if bracket == 91 then .endInList else .endInObject)
  | fuel + 1, opened, false => do
    match ← peekToken with
    | none => failNext .endInValue
    | some b =>
      match Char.ofNat b.toNat with
      | 'n' => do skip; word [117, 108, 108]; ignoredFrom fuel opened true
      | 't' => do skip; word [114, 117, 101]; ignoredFrom fuel opened true
      | 'f' => do skip; word [97, 108, 115, 101]; ignoredFrom fuel opened true
      | '-' => do skip; ignoredNumber; ignoredFrom fuel opened true
      | '"' => do skip; ignoredString (← rounds); ignoredFrom fuel opened true
      | '[' => do
        skip
        match ← peekToken with
        | none => failNext .endInList
        | some 93 => do skip; ignoredFrom fuel opened true
        | some _ => ignoredFrom fuel (91 :: opened) false
      | '\x7b' => do
        skip
        match ← peekToken with
        | none => failNext .endInObject
        | some 125 => do skip; ignoredFrom fuel opened true
        | some _ => do
          ignoredKey
          ignoredFrom fuel (123 :: opened) false
      | _ =>
        if isDigit b then do
          ignoredNumber
          ignoredFrom fuel opened true
        else
          failNext .valueExpected

/-- A value that is passed over. -/
def ignored : Reader Unit := do
  ignoredFrom (2 * (← rounds)) [] false

def endOfText : Reader Unit := do
  match ← peekToken with
  | none => return ()
  | some _ => failNext .trailingCharacters

/-- Reads a whole text. -/
def readAll {α : Type} (reader : Reader α) (input : Bytes) : Except Fault α :=
  let whole : Reader α := do
    let a ← reader
    endOfText
    return a
  (StateT.run (ExceptT.run whole) (Scan.start input)).1

end WebApp.Json.Reader

namespace WebApp.Json

/-- Reads a text that holds one value. -/
def read (input : Bytes) : Except Fault Json :=
  Reader.readAll (Reader.value Reader.depthLimit) input

end WebApp.Json
