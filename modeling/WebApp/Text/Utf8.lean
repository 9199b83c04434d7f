import WebApp.Bytes

/-!
# UTF-8

Reading stops at the first byte that cannot continue a character.  The strict reader
refuses such input; the lenient one puts U+FFFD for the bytes of the broken character
that were right so far, and goes on behind them.
-/

namespace WebApp.Utf8

/-- A byte `10xxxxxx`. -/
def isTail (b : UInt8) : Bool :=
  0x80 ≤ b && b ≤ 0xBF

/-- The least and greatest second byte that may follow a first byte of three or four. -/
def secondRange (lead : UInt8) : UInt8 × UInt8 :=
  if lead == 0xE0 then (0xA0, 0xBF)
  else if lead == 0xED then (0x80, 0x9F)
  else if lead == 0xF0 then (0x90, 0xBF)
  else if lead == 0xF4 then (0x80, 0x8F)
  else (0x80, 0xBF)

/-- How many bytes follow a first byte, if it is one. -/
def tailCount (lead : UInt8) : Option Nat :=
  if lead ≤ 0x7F then some 0
  else if 0xC2 ≤ lead && lead ≤ 0xDF then some 1
  else if 0xE0 ≤ lead && lead ≤ 0xEF then some 2
  else if 0xF0 ≤ lead && lead ≤ 0xF4 then some 3
  else none

/-- How many of the bytes that a first byte asks for follow it. -/
def matchedTail (lead : UInt8) (count : Nat) : Bytes → Nat
  | [] => 0
  | b :: rest =>
    let range := secondRange lead
    if count = 0 then 0
    else if range.1 ≤ b && b ≤ range.2 then
      1 + ((rest.take (count - 1)).takeWhile isTail).length
    else 0

/-- The code point that a first byte and its followers write. -/
def codePoint (lead : UInt8) (tail : Bytes) : Nat :=
  let head :=
    match tail.length with
    | 0 => lead.toNat
    | 1 => lead.toNat % 32
    | 2 => lead.toNat % 16
    | _ => lead.toNat % 8
  tail.foldl (fun n b => n * 64 + b.toNat % 64) head

/-- A first reading step: the character, or none, and how many further bytes it takes. -/
def first (lead : UInt8) (rest : Bytes) : Option Char × Nat :=
  match tailCount lead with
  | none => (none, 0)
  | some count =>
    let found := matchedTail lead count rest
    if found = count then
      (some (Char.ofNat (codePoint lead (rest.take count))), count)
    else
      (none, found)

/-- The characters that the bytes write; `none` if some bytes write none. -/
def chars? : Bytes → Option (List Char)
  | [] => some []
  | lead :: rest =>
    match first lead rest with
    | (some c, n) => (chars? (rest.drop n)).map (c :: ·)
    | (none, _) => none
termination_by bytes => bytes.length
decreasing_by simp only [List.length_drop, List.length_cons]; omega

/-- The text that the bytes write, if they are UTF-8. -/
def decode? (bytes : Bytes) : Option String :=
  (chars? bytes).map String.ofList

/-- How many bytes stand before the first one that starts no character. -/
def soundLength : Bytes → Nat
  | [] => 0
  | lead :: rest =>
    match first lead rest with
    | (some _, n) => n + 1 + soundLength (rest.drop n)
    | (none, _) => 0
termination_by bytes => bytes.length
decreasing_by simp only [List.length_drop, List.length_cons]; omega

/-- The characters that the bytes write, with U+FFFD for each broken one. -/
def lenientChars : Bytes → List Char
  | [] => []
  | lead :: rest =>
    match first lead rest with
    | (some c, n) => c :: lenientChars (rest.drop n)
    | (none, n) => '\uFFFD' :: lenientChars (rest.drop n)
termination_by bytes => bytes.length
decreasing_by all_goals simp only [List.length_drop, List.length_cons]; omega

/-- The text that the bytes write, with U+FFFD for each broken character. -/
def decodeLenient (bytes : Bytes) : String :=
  String.ofList (lenientChars bytes)

def encode (s : String) : Bytes :=
  s.toList.flatMap String.utf8EncodeChar

end WebApp.Utf8
