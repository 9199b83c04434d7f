import WebApp.Number.Shortest
import WebApp.Number.Integer

/-!
# JSON values

A number is a whole number that fits 64 bits, with or without a sign, or a floating point
number.  The members of an object are in the order of their keys, each key once.
-/

namespace WebApp

inductive JsonNumber where
  | whole (value : Int)
  | float (value : Binary64)
deriving DecidableEq, Inhabited, Repr

inductive Json where
  | null
  | bool (value : Bool)
  | number (value : JsonNumber)
  | string (value : String)
  | array (items : List Json)
  | object (members : List (String × Json))
deriving Inhabited, Repr, BEq

namespace JsonNumber

/-- A whole number that no 64 bits hold is kept as the nearest floating point number. -/
def ofInt (n : Int) : JsonNumber :=
  if Integer.least64 ≤ n ∧ n ≤ Integer.greatestWord64 then .whole n
  else
    let size := Binary64.nearest n.natAbs 1
    .float (if n < 0 then size.negate else size)

def text : JsonNumber → String
  | .whole n => toString n
  | .float x => Shortest.render .data x

/-- The number as a floating point number. -/
def toFloat : JsonNumber → Binary64
  | .whole n =>
    let size := Binary64.nearest n.natAbs 1
    if n < 0 then size.negate else size
  | .float x => x

end JsonNumber

namespace Json

/-- Members with one more: in its place by the order of keys, and in the place of a member
with the same key. -/
def insertMember (key : String) (value : Json) : List (String × Json) → List (String × Json)
  | [] => [(key, value)]
  | (k, v) :: rest =>
    if key < k then (key, value) :: (k, v) :: rest
    else if key = k then (key, value) :: rest
    else (k, v) :: insertMember key value rest

/-- The object with these members; the last of several with one key counts. -/
def ofMembers (members : List (String × Json)) : Json :=
  .object (members.foldl (fun sorted (k, v) => insertMember k v sorted) [])

def ofInt (n : Int) : Json := .number (.ofInt n)

def ofNat (n : Nat) : Json := .number (.ofInt n)

def ofStrings (items : List String) : Json := .array (items.map .string)

/-- The object whose members are texts. -/
def ofTexts (entries : List (String × String)) : Json :=
  ofMembers (entries.map fun (k, v) => (k, .string v))

def member? (key : String) : Json → Option Json
  | .object members => members.lookup key
  | _ => none

end Json

end WebApp
