import WebApp.Number.Integer
import WebApp.Text.Basic

/-!
# Network addresses

A host is known by four octets or by eight groups of sixteen bits, and a server is bound to a
host and a port.  Four octets have several spellings: parts may be missing, and each part may be
decimal, octal or hexadecimal.  A run of zero groups may be left out between two colons, and a
percent sign behind the groups tells the link that the host is on.
-/

namespace WebApp

/-- What a host is known by. -/
inductive Host where
  | ofOctets (octets : List Nat)
  | ofGroups (groups : List Nat)
deriving DecidableEq, Inhabited, Repr

/-- Why a server cannot be bound to an address. -/
inductive BindFault where
  /-- No colon stands before a port. -/
  | noPort
  | badPort
  /-- The character zero would end the host early. -/
  | zeroInName
  /-- The host is neither a number nor a name that a machine could have. -/
  | badName
  /-- Nobody is there to ask for the number behind the name. -/
  | unknownName
  /-- The number belongs to another machine. -/
  | notAssigned
  /-- The number means something on one link alone, and none is told or allowed. -/
  | noLink
  /-- The machine does not have the link. -/
  | unknownLink
deriving DecidableEq, Repr

def BindFault.message : BindFault → String
  | .noPort => "invalid socket address"
  | .badPort => "invalid port value"
  | .zeroInName => "file name contained an unexpected NUL byte"
  | .badName => "failed to lookup address information: Name or service not known"
  | .unknownName =>
    "failed to lookup address information: Temporary failure in name resolution"
  | .notAssigned => "Cannot assign requested address (os error 99)"
  | .noLink => "Invalid argument (os error 22)"
  | .unknownLink => "No such device (os error 19)"

namespace Host

/-! ## Reading -/

/-- The value of a digit to a base up to sixteen. -/
def digit? (base : Nat) (c : Char) : Option Nat :=
  let value :=
    if c.isDigit then c.toNat - 48
    else if 'a' ≤ c && c ≤ 'f' then c.toNat - 87
    else if 'A' ≤ c && c ≤ 'F' then c.toNat - 55
    else base
  if value < base then some value else none

/-- The value of one or more digits. -/
def number? (base : Nat) (digits : List Char) : Option Nat :=
  if digits.isEmpty then none
  else digits.foldlM (fun n c => (digit? base c).map (n * base + ·)) 0

/-- A part between dots: hexadecimal behind `0x`, octal behind another zero, else decimal. -/
def part? : List Char → Option Nat
  | '0' :: 'x' :: digits => number? 16 digits
  | '0' :: 'X' :: digits => number? 16 digits
  | '0' :: c :: digits => number? 8 (c :: digits)
  | digits => number? 10 digits

/-- Reads up to four parts between dots.  The last one fills all octets that are left. -/
def ofParts? (cs : List Char) : Option Host := do
  let parts ← (cs.splitOn '.').mapM part?
  let last ← parts.getLast?
  let before := parts.dropLast
  let left := 4 - before.length
  if before.length < 4 && before.all (· < 256) && last < Nat.pow 256 left then
    let filled := (List.range left).map fun place => last / Nat.pow 256 (left - 1 - place) % 256
    some (.ofOctets (before ++ filled))
  else
    none

/-- Two groups, written as four octets in decimal without leading zeros. -/
def octetGroups? (cs : List Char) : Option (List Nat) := do
  let parts := cs.splitOn '.'
  if parts.any fun part => part.length > 1 && part.head? == some '0' then none
  else
    match ← parts.mapM (number? 10) with
    | [a, b, c, d] =>
      if [a, b, c, d].all (· < 256) then some [a * 256 + b, c * 256 + d] else none
    | _ => none

/-- A group of up to four hexadecimal digits. -/
def group? (cs : List Char) : Option Nat :=
  if cs.length ≤ 4 then number? 16 cs else none

/-- Groups between colons.  The last two may be written as octets where these are allowed. -/
def groupList? (octetsAllowed : Bool) (cs : List Char) : Option (List Nat) :=
  match (cs.splitOn ':').reverse with
  | [] => some []
  | [[]] => some []
  | last :: before => do
    let before ← before.reverse.mapM group?
    let last ← if octetsAllowed && last.contains '.' then octetGroups? last
      else (group? last).map ([·])
    return before ++ last

/-- The characters before and after the first two colons in a row. -/
def cutAtGap : List Char → Option (List Char × List Char)
  | ':' :: ':' :: rest => some ([], rest)
  | c :: rest => (cutAtGap rest).map fun (before, after) => (c :: before, after)
  | [] => none

/-- Reads eight groups.  Two colons in a row stand for as many zero groups as are missing, and for
one at least. -/
def ofGroups? (cs : List Char) : Option (List Nat) := do
  match cutAtGap cs with
  | none =>
    let all ← groupList? true cs
    if all.length = 8 then some all else none
  | some (before, after) =>
    let before ← groupList? false before
    let after ← groupList? true after
    let given := before.length + after.length
    if given < 8 then some (before ++ List.replicate (8 - given) 0 ++ after) else none

/-- The number of a link in decimal: it has thirty-two bits. -/
def linkNumber? (digits : List Char) : Option Nat :=
  (number? 10 digits).filter (· < Nat.pow 2 32)

/-- The number of a link by its name.  The machine has the loopback alone; a name has up to fifteen
bytes, and counts up to a colon. -/
def namedLink? (name : List Char) : Option Nat :=
  if (String.ofList name).utf8ByteSize ≤ 15 && name.takeWhile (· != ':') == ['l', 'o'] then some 1
  else none

/-- Whether the groups are the number of one host on a link. -/
def isOnLink (groups : List Nat) : Bool :=
  0xFE80 ≤ groups.headD 0 && groups.headD 0 < 0xFEC0

/-- Whether the groups stand for many hosts. -/
def isShared (groups : List Nat) : Bool :=
  0xFF00 ≤ groups.headD 0

/-- Whether a link can be told by its name: where hosts on it are meant, or many on this machine. -/
def takesLinkName (groups : List Nat) : Bool :=
  isOnLink groups || isShared groups && (groups.headD 0 % 16 == 1 || groups.headD 0 % 16 == 2)

/-- Reads eight groups, and behind a percent sign the link.  No link is link zero. -/
def ofLinkedGroups? (namesAllowed : Bool) (cs : List Char) : Option (Host × Nat) := do
  let groups ← ofGroups? (cs.takeWhile (· != '%'))
  match cs.dropWhile (· != '%') with
  | [] => return (.ofGroups groups, 0)
  | _ :: link =>
    let named := if namesAllowed && takesLinkName groups then namedLink? link else none
    return (.ofGroups groups, ← named <|> linkNumber? link)

/-- Whether a character can stand in a label of a name. -/
def isNameChar (c : Char) : Bool :=
  c.isAlphanum || c == '-' || c == '_'

/-- Undoes the escapes in a name.  Behind a backslash stands the number of a character in three
digits, or the character, and it is one that a label may have. -/
def unescaped? : List Char → Option (List Char)
  | '\\' :: a :: rest =>
    if a.isDigit then
      match rest with
      | b :: c :: rest => do
        let escaped := Char.ofNat (← number? 10 [a, b, c])
        if isNameChar escaped then return escaped :: (← unescaped? rest) else none
      | _ => none
    else if isNameChar a then
      (unescaped? rest).map (a :: ·)
    else
      none
  | c :: rest => (unescaped? rest).map (c :: ·)
  | [] => some []

/-- Whether a machine could have the name: labels of up to 63 characters between dots, the first
character no hyphen, and 253 characters in all.  A dot may end the name, and one alone is the root
of all names. -/
def isName (name : List Char) : Bool :=
  match unescaped? name with
  | none => false
  | some ['.'] => true
  | some name =>
    let name := if name.getLast? == some '.' then name.dropLast else name
    name.head? != some '-' && name.length ≤ 253 && (name.splitOn '.').all fun label =>
      !label.isEmpty && label.length ≤ 63 && label.all isNameChar

/-- The host of a name or number, and the link that it is on. -/
def ofName (name : String) : Except BindFault (Host × Nat) :=
  if name.toList.any (·.toNat == 0) then .error .zeroInName
  else if Text.sameFolded name "localhost" then .ok (.ofOctets [127, 0, 0, 1], 0)
  else
    match (ofParts? name.toList).map (·, 0) <|> ofLinkedGroups? true name.toList with
    | some found => .ok found
    | none => .error (if isName name.toList then .unknownName else .badName)

/-! ## Printing -/

def dotted (octets : List Nat) : String :=
  ".".intercalate (octets.map toString)

def colonSeparated (groups : List Nat) : String :=
  ":".intercalate (groups.map fun n => String.ofList (Nat.toDigits 16 n))

/-- How many zero groups stand at a place and behind it. -/
def zeroRun (groups : List Nat) (place : Nat) : Nat :=
  ((groups.drop place).takeWhile (· == 0)).length

/-- The octets that groups carry behind eighty zeros and sixteen ones. -/
def carriedOctets? : List Nat → Option (List Nat)
  | [0, 0, 0, 0, 0, 0xFFFF, high, low] => some [high / 256, high % 256, low / 256, low % 256]
  | _ => none

/-- The host as text.  Two colons in a row stand for the first of the longest runs of two or more
zero groups. -/
def text : Host → String
  | .ofOctets octets => dotted octets
  | .ofGroups groups =>
    match carriedOctets? groups with
    | some octets => "::ffff:" ++ dotted octets
    | none =>
      let runs := (List.range groups.length).map (zeroRun groups)
      let longest := runs.foldl max 0
      if longest < 2 then
        colonSeparated groups
      else
        let place := runs.idxOf longest
        colonSeparated (groups.take place) ++ "::" ++
          colonSeparated (groups.drop (place + longest))

/-! ## Binding -/

/-- Why a server cannot be bound to the host on a link.  No host of eight groups is assigned to the
machine, so only those can be used that stand for all hosts or carry four octets.  The machine has
link one alone. -/
def fault? (link : Nat) : Host → Option BindFault
  | .ofOctets _ => none
  | .ofGroups groups =>
    if groups.all (· == 0) || (carriedOctets? groups).isSome then none
    else if isShared groups || isOnLink groups && link == 0 then some .noLink
    else if isOnLink groups && link != 1 then some .unknownLink
    else some .notAssigned

end Host

/-- Where connections are accepted.  Link zero leaves the link open. -/
structure Address where
  host : Host
  link : Nat
  port : Nat
deriving DecidableEq, Inhabited, Repr

namespace Address

/-- A host of groups inside brackets.  Its link is told by number. -/
def bracketed? (name : List Char) : Option (Host × Nat) :=
  match name with
  | '[' :: rest =>
    if rest.getLast? == some ']' then Host.ofLinkedGroups? false rest.dropLast else none
  | _ => none

/-- Reads an address: a host, and the number of a port behind the last colon.  Behind brackets the
port has no sign. -/
def read (address : String) : Except BindFault Address := do
  let some (name, digits) := Text.splitLast ':' address | throw .noPort
  let .ok port := Integer.read 0 65535 digits | throw .badPort
  match bracketed? name.toList with
  | some (host, link) =>
    if digits.toList.head? == some '+' then throw .badName else return ⟨host, link, port.toNat⟩
  | none =>
    let (host, link) ← Host.ofName name
    return ⟨host, link, port.toNat⟩

/-- The host that a server is bound to at an address. -/
def bind (address : String) : Except BindFault Host := do
  let a ← read address
  match a.host.fault? a.link with
  | none => return a.host
  | some fault => throw fault

end Address

end WebApp
