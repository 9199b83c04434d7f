import WebApp.Json.Value
import WebApp.Text.Basic

/-!
# JSON texts

The compact form: no blanks, the members of an object in the order of their keys.
-/

namespace WebApp.Json

/-- The characters that write one character inside a JSON string. -/
def escapedChar (c : Char) : List Char :=
  match c with
  | '"' => ['\\', '"']
  | '\\' => ['\\', '\\']
  | '\n' => ['\\', 'n']
  | '\r' => ['\\', 'r']
  | '\t' => ['\\', 't']
  | '\x08' => ['\\', 'b']
  | '\x0c' => ['\\', 'f']
  | _ =>
    if c.toNat < 32 then
      ['\\', 'u', '0', '0', Nat.digitChar (c.toNat / 16), Nat.digitChar (c.toNat % 16)]
    else
      [c]

/-- The characters of a JSON string, with its quotes. -/
def stringChars (s : String) : List Char :=
  '"' :: s.toList.flatMap escapedChar ++ ['"']

mutual

def chars : Json → List Char
  | .null => ['n', 'u', 'l', 'l']
  | .bool true => ['t', 'r', 'u', 'e']
  | .bool false => ['f', 'a', 'l', 's', 'e']
  | .number n => n.text.toList
  | .string s => stringChars s
  | .array items => '[' :: itemChars items ++ [']']
  | .object members => '\x7b' :: memberChars members ++ ['\x7d']

/-- The characters of the items, with commas between them. -/
def itemChars : List Json → List Char
  | [] => []
  | [item] => chars item
  | item :: rest => chars item ++ ',' :: itemChars rest

/-- The characters of the members, with commas between them. -/
def memberChars : List (String × Json) → List Char
  | [] => []
  | [(key, value)] => stringChars key ++ ':' :: chars value
  | (key, value) :: rest => stringChars key ++ ':' :: chars value ++ ',' :: memberChars rest

end

def render (value : Json) : String :=
  String.ofList value.chars

mutual

/-- The characters of a value as it is shown inside a message about a program's data. -/
def shownChars : Json → List Char
  | .null => ['N', 'u', 'l', 'l']
  | .bool b => (s!"Bool({b})").toList
  | .number n => (s!"Number({n.text})").toList
  | .string s => (s!"String({Text.quoted s})").toList
  | .array items => "Array [".toList ++ shownItems items ++ [']']
  | .object members => "Object \x7b".toList ++ shownMembers members ++ ['\x7d']

def shownItems : List Json → List Char
  | [] => []
  | [item] => shownChars item
  | item :: rest => shownChars item ++ ',' :: ' ' :: shownItems rest

def shownMembers : List (String × Json) → List Char
  | [] => []
  | [(key, value)] => (Text.quoted key).toList ++ ':' :: ' ' :: shownChars value
  | (key, value) :: rest =>
    (Text.quoted key).toList ++ ':' :: ' ' :: shownChars value ++ ',' :: ' ' :: shownMembers rest

end

/-- A value as it is shown inside a message about a program's data. -/
def shown (value : Json) : String :=
  String.ofList value.shownChars

end WebApp.Json
