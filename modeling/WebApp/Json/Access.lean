import WebApp.Json.Value

/-!
# Looking into JSON values

What a value is taken for by one who knows what it should be.  Where it is something else, a
text is empty, a number is zero, a flag is false and a list has no items.
-/

namespace WebApp.Json

def text? : Json → Option String
  | .string s => some s
  | _ => none

def flag? : Json → Option Bool
  | .bool b => some b
  | _ => none

/-- A whole number of 64 bits with a sign. -/
def int? : Json → Option Int
  | .number (.whole n) => if n ≤ Integer.greatest64 then some n else none
  | _ => none

/-- A whole number of 32 bits without a sign. -/
def word32? : Json → Option Nat
  | .number (.whole n) => if 0 ≤ n ∧ n < 4294967296 then some n.toNat else none
  | _ => none

def text (j : Json) : String := j.text?.getD ""

def flag (j : Json) : Bool := j.flag?.getD false

/-- A whole number without a sign. -/
def nat? : Json → Option Nat
  | .number (.whole n) => if 0 ≤ n then some n.toNat else none
  | _ => none

def nat (j : Json) : Nat := j.nat?.getD 0

def items : Json → List Json
  | .array items => items
  | _ => []

def members : Json → List (String × Json)
  | .object members => members
  | _ => []

/-- Whether there is a member of this name. -/
def has (j : Json) (key : String) : Bool := (j.member? key).isSome

def field (j : Json) (key : String) : Json := (j.member? key).getD .null

def item (j : Json) (place : Nat) : Json := (j.items[place]?).getD .null

def textAt (j : Json) (key : String) : String := (j.field key).text

def textAt? (j : Json) (key : String) : Option String := (j.field key).text?

def flagAt (j : Json) (key : String) : Bool := (j.field key).flag

def natAt (j : Json) (key : String) : Nat := (j.field key).nat

def itemsAt (j : Json) (key : String) : List Json := (j.field key).items

/-- The items of a member as texts. -/
def textsAt (j : Json) (key : String) : List String := (j.itemsAt key).map text

/-- The items of a member, each the list of a name and a value. -/
def pairsAt (j : Json) (key : String) : List (String × String) :=
  (j.itemsAt key).map fun pair => ((pair.item 0).text, (pair.item 1).text)

/-- The members whose values are texts. -/
def textMembers (j : Json) : List (String × String) :=
  j.members.map fun (key, value) => (key, value.text)

end WebApp.Json
