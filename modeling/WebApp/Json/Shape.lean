import WebApp.Json.Reader

/-!
# Shapes of JSON values

What a value has to look like to be taken as a value of a type.  A shape is checked against a
value at hand (`decode`), or while the text of the value is read (`parse`); the second stops
at the first fault of either kind.
-/

namespace WebApp.Json

/-- A type of values that can be taken from JSON. -/
inductive Shape where
  | int64
  | word8
  | word64
  | float
  | text
  | flag
  | unit
  | any
  | optional (shape : Shape)
  | list (shape : Shape)
  | dict (shape : Shape)
  | tuple (shapes : List Shape)
  | record (name typeName : String) (fields : List (String × Shape × Option Json))

namespace Shape

mutual

/-- The name of the type in messages. -/
def typeName : Shape → String
  | .int64 => "i64"
  | .word8 => "u8"
  | .word64 => "u64"
  | .float => "f64"
  | .text => "alloc::string::String"
  | .flag => "bool"
  | .unit => "()"
  | .any => "serde_json::value::Value"
  | .optional s => "core::option::Option<" ++ s.typeName ++ ">"
  | .list s => "alloc::vec::Vec<" ++ s.typeName ++ ">"
  | .dict s =>
    "alloc::collections::btree::map::BTreeMap<alloc::string::String, " ++ s.typeName ++ ">"
  | .tuple ss => "(" ++ String.intercalate ", " (typeNames ss) ++ ")"
  | .record _ typeName _ => typeName

def typeNames : List Shape → List String
  | [] => []
  | s :: rest => s.typeName :: typeNames rest

end

/-- What a message says was wanted. -/
def wanted : Shape → String
  | .int64 => "i64"
  | .word8 => "u8"
  | .word64 => "u64"
  | .float => "f64"
  | .text => "a string"
  | .flag => "a boolean"
  | .unit => "unit"
  | .any => "any valid JSON value"
  | .optional _ => "option"
  | .list _ => "a sequence"
  | .dict _ => "a map"
  | .tuple ss => s!"a tuple of size {ss.length}"
  | .record name _ _ => s!"struct {name}"

/-- What a message says when a sequence is too short. -/
def wantedLength : Shape → String
  | .record name _ fields =>
    s!"struct {name} with {fields.length} element" ++ (if fields.length = 1 then "" else "s")
  | s => s.wanted

/-- A number of the wanted shape, or the cause why it is none. -/
def takeNumber (s : Shape) (n : JsonNumber) : Except Cause Json :=
  let within (low high : Int) : Except Cause Json :=
    match n with
    | .whole v =>
      if low ≤ v ∧ v ≤ high then .ok (.number n)
      else .error (.wrongValue (.number n) s.wanted)
    | .float _ => .error (.wrongType (.number n) s.wanted)
  match s with
  | .int64 => within Integer.least64 Integer.greatest64
  | .word8 => within 0 255
  | .word64 => within 0 Integer.greatestWord64
  | .float => .ok (.number (.float n.toFloat))
  | _ => .error (.wrongType (.number n) s.wanted)

/-- One part of a tuple or record: how it is taken, and what stands for it when it is absent. -/
structure Part (m : Type → Type) (ι : Type) where
  key : String
  take : ι → m Json
  absent : Option Json

/-- What stands for an absent field. -/
def whenAbsent (s : Shape) (given : Option Json) : Option Json :=
  match given, s with
  | some v, _ => some v
  | none, .optional _ => some .null
  | none, _ => none

/-- The members of a record, in the order of its parts.  A part without a member is filled in,
or missing. -/
def fill {m : Type → Type} {ι : Type} (parts : List (Part m ι))
    (found : List (String × Json)) : Except Cause Json := do
  let entries ← parts.mapM fun (part : Part m ι) =>
    match found.lookup part.key, part.absent with
    | some v, _ => Except.ok (part.key, v)
    | none, some v => Except.ok (part.key, v)
    | none, none => Except.error (Cause.missingField part.key)
  return ofMembers entries

section Decode

abbrev Decoder := Except Cause

/-- Takes one value for each part.  `short` says whether an absent value may be filled in. -/
def takeEach (whole : Shape) (count : Nat) :
    List (Part Decoder Json) → List Json → Decoder (List (String × Json) × List Json)
  | [], rest => .ok ([], rest)
  | part :: parts, [] =>
    match whole, part.absent with
    | .record .., some v => do
      let (found, rest) ← takeEach whole (count + 1) parts []
      return ((part.key, v) :: found, rest)
    | _, _ => .error (.wrongLength count whole.wantedLength)
  | part :: parts, item :: items => do
    let v ← part.take item
    let (found, rest) ← takeEach whole (count + 1) parts items
    return ((part.key, v) :: found, rest)

/-- Takes the values of a sequence, all of which must be used up. -/
def takeSequence (whole : Shape) (parts : List (Part Decoder Json)) (items : List Json) :
    Decoder (List (String × Json)) := do
  let (found, rest) ← takeEach whole 0 parts items
  if rest.isEmpty then
    return found
  else
    throw (.wrongLength items.length "fewer elements in array")

mutual

/-- Takes a value as a value of the shape. -/
def decode : Shape → Json → Decoder Json
  | .any, v => .ok v
  | .text, .string s => .ok (.string s)
  | .flag, .bool b => .ok (.bool b)
  | .unit, .null => .ok .null
  | .optional _, .null => .ok .null
  | .optional s, v => s.decode v
  | .list s, .array items => (items.mapM fun item => s.decode item).map .array
  | .dict s, .object entries =>
    (entries.mapM fun (entry : String × Json) =>
      (s.decode entry.2).map fun v => (entry.1, v)).map .object
  | .tuple ss, .array items =>
    (takeSequence (.tuple ss) (decoders ss) items).map fun found =>
      .array (found.map Prod.snd)
  | .record name typeName fields, .array items =>
    (takeSequence (.record name typeName fields) (fieldDecoders fields) items).map ofMembers
  | .record _ _ fields, .object entries => do
    let parts := fieldDecoders fields
    let found ← entries.filterMapM fun (entry : String × Json) =>
      match parts.find? (·.key == entry.1) with
      | some part => (part.take entry.2).map fun v => some (entry.1, v)
      | none => .ok none
    fill parts found
  | s, .number n => s.takeNumber n
  | s, v => .error (.wrongType (Found.of v) s.wanted)

def decoders : List Shape → List (Part Decoder Json)
  | [] => []
  | s :: rest => ⟨"", fun v => s.decode v, none⟩ :: decoders rest

def fieldDecoders : List (String × Shape × Option Json) → List (Part Decoder Json)
  | [] => []
  | (key, s, absent) :: rest =>
    ⟨key, fun v => s.decode v, whenAbsent s absent⟩ :: fieldDecoders rest

end

end Decode

section Parse

open Reader

/-- A value of another kind than the wanted one; its text may have a fault of its own. -/
def mismatch (s : Shape) (b : UInt8) : Reader Json := do
  match b with
  | 91 => failOpen (.wrongType .sequence s.wanted)
  | 123 => failOpen (.wrongType .map s.wanted)
  | _ =>
    let v ← scalar b
    failOpen (.wrongType (Found.of v) s.wanted)

/-- A scalar that `accept` takes. -/
def parseScalar (s : Shape) (accept : Json → Option (Except Cause Json)) : Reader Json :=
  placed do
    match ← peekToken with
    | none => failNext .endInValue
    | some 91 => mismatch s 91
    | some 123 => mismatch s 123
    | some b =>
      let v ← scalar b
      match accept v with
      | some (.ok v) => return v
      | some (.error cause) => failOpen cause
      | none => failOpen (.wrongType (Found.of v) s.wanted)

/-- Reads one value for each part of a sequence. -/
def parseEach (whole : Shape) (first : Bool) (count : Nat) :
    List (Part Reader Unit) → Reader (List (String × Json))
  | [] => return []
  | part :: parts => do
    if ← itemFollows first then
      let v ← part.take ()
      return (part.key, v) :: (← parseEach whole false (count + 1) parts)
    else
      match whole, part.absent with
      | .record .., some v =>
        return (part.key, v) :: (← parseEach whole first (count + 1) parts)
      | _, _ => failOpen (.wrongLength count whole.wantedLength)

/-- Reads the members of a record; those that are no part of it are passed over. -/
def parseMembers (parts : List (Part Reader Unit)) :
    Nat → Bool → List (String × Json) → Reader (List (String × Json))
  | 0, _, found => return found
  | fuel + 1, first, found => do
    if ← memberFollows first then
      let k ← key
      match parts.find? (·.key == k) with
      | some part =>
        if (found.lookup k).isSome then
          failOpen (.duplicateField k)
        else
          colon
          let v ← part.take ()
          parseMembers parts fuel false ((k, v) :: found)
      | none =>
        colon
        ignored
        parseMembers parts fuel false found
    else
      return found

/-- Reads a record from a sequence of its parts or from an object. -/
def parseRecord (whole : Shape) (parts : List (Part Reader Unit)) (depth : Nat) : Reader Json :=
  placed do
    match ← peekToken with
    | none => failNext .endInValue
    | some 91 =>
      return ofMembers (← enclosed depth (parseEach whole true 0 parts) endOfArray)
    | some 123 =>
      let inside : Reader Json := do
        let found ← parseMembers parts (← rounds) true []
        match fill parts found with
        | .ok v => return v
        | .error cause => failOpen cause
      enclosed depth inside endOfObject
    | some b => mismatch whole b

mutual

/-- Reads a value of the shape, with so much depth left. -/
def parser : Shape → Nat → Reader Json
  | .any, depth => value depth
  | .optional s, depth => do
    match ← peekToken with
    | some 110 => do skip; word [117, 108, 108]; return .null
    | _ => s.parser depth
  | .list s, depth => placed do
    match ← peekToken with
    | none => failNext .endInValue
    | some 91 =>
      return .array (← enclosed depth (do readItems (s.parser (depth - 1)) (← rounds) true) endOfArray)
    | some b => mismatch (.list s) b
  | .dict s, depth => placed do
    match ← peekToken with
    | none => failNext .endInValue
    | some 123 =>
      let entries ←
        enclosed depth (do readMembers (s.parser (depth - 1)) (← rounds) true) endOfObject
      return ofMembers entries
    | some b => mismatch (.dict s) b
  | .tuple ss, depth => placed do
    match ← peekToken with
    | none => failNext .endInValue
    | some 91 =>
      let found ← enclosed depth (parseEach (.tuple ss) true 0 (parsers ss (depth - 1))) endOfArray
      return .array (found.map Prod.snd)
    | some b => mismatch (.tuple ss) b
  | .record name typeName fields, depth =>
    parseRecord (.record name typeName fields) (fieldParsers fields (depth - 1)) depth
  | s, _ => parseScalar s fun v =>
    match s, v with
    | .text, .string t => some (.ok (.string t))
    | .flag, .bool b => some (.ok (.bool b))
    | .unit, .null => some (.ok .null)
    | s, .number n => some (s.takeNumber n)
    | _, _ => none

def parsers : List Shape → Nat → List (Part Reader Unit)
  | [], _ => []
  | s :: rest, depth => ⟨"", fun _ => s.parser depth, none⟩ :: parsers rest depth

def fieldParsers : List (String × Shape × Option Json) → Nat → List (Part Reader Unit)
  | [], _ => []
  | (key, s, absent) :: rest, depth =>
    ⟨key, fun _ => s.parser depth, whenAbsent s absent⟩ :: fieldParsers rest depth

end

/-- Reads a text that holds one value of the shape. -/
def parse (s : Shape) (input : Bytes) : Except Fault Json :=
  Reader.readAll (s.parser Reader.depthLimit) input

end Parse

end Shape

end WebApp.Json
