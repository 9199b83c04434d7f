/-!
# Values of several types in one place

Dependencies, request extensions and application state hold values whose type their reader
has to know.  A `Kind` names such a type; a `Datum` is a value together with its kind, and a
`TypeMap` holds at most one value of each kind.
-/

namespace WebApp

/-- Name and password of a client. -/
structure Credentials where
  username : String
  password : String
deriving DecidableEq, Inhabited, Repr

/-- The types of values that can be kept. -/
inductive Kind where
  | int64
  | word32
  | word64
  | flag
  | words
  | text
  | optionalText
  | credentials
  | instant
deriving DecidableEq, Inhabited, Repr

namespace Kind

/-- The type that a kind stands for.  An instant is a count of nanoseconds. -/
@[reducible] def Carrier : Kind → Type
  | .int64 => Int
  | .word32 => Nat
  | .word64 => Nat
  | .flag => Bool
  | .words => List Nat
  | .text => String
  | .optionalText => Option String
  | .credentials => Credentials
  | .instant => Nat

/-- The name of the type in messages. -/
def typeName : Kind → String
  | .int64 => "i64"
  | .word32 => "u32"
  | .word64 => "u64"
  | .flag => "bool"
  | .words => "alloc::vec::Vec<u32>"
  | .text => "alloc::string::String"
  | .optionalText => "core::option::Option<alloc::string::String>"
  | .credentials => "blaze::security::credentials::BasicCredentials"
  | .instant => "tokio::time::instant::Instant"

end Kind

structure Datum where
  kind : Kind
  value : kind.Carrier

namespace Datum

instance : Inhabited Datum := ⟨⟨.flag, false⟩⟩

def int64 (n : Int) : Datum := ⟨.int64, n⟩

def text (s : String) : Datum := ⟨.text, s⟩

def optionalText (s : Option String) : Datum := ⟨.optionalText, s⟩

def credentials (c : Credentials) : Datum := ⟨.credentials, c⟩

/-- The value, if it is of the kind asked for. -/
def as? (k : Kind) (d : Datum) : Option k.Carrier :=
  if h : d.kind = k then some (h ▸ d.value) else none

end Datum

/-- At most one value of each kind. -/
structure TypeMap where
  entries : List Datum := []
deriving Inhabited

namespace TypeMap

def get? (m : TypeMap) (k : Kind) : Option k.Carrier :=
  m.entries.findSome? (Datum.as? k)

/-- The map without a value of the kind. -/
def erase (m : TypeMap) (k : Kind) : TypeMap :=
  ⟨m.entries.filter fun d => d.kind ≠ k⟩

/-- The map with this value as the only one of its kind. -/
def insert (m : TypeMap) (d : Datum) : TypeMap :=
  ⟨(m.erase d.kind).entries ++ [d]⟩

/-- The map with this value in place of one of its kind, if there was one. -/
def replace (m : TypeMap) (d : Datum) : TypeMap :=
  if (m.get? d.kind).isSome then m.insert d else m

def contains (m : TypeMap) (k : Kind) : Bool :=
  (m.get? k).isSome

def size (m : TypeMap) : Nat := m.entries.length

/-- The map as it is shown inside a message about a program's data. -/
def shown (name : String) (m : TypeMap) : String :=
  name ++ " \x7b len: " ++ toString m.size ++ " \x7d"

end TypeMap

end WebApp
