import Matchmaking.Json.Numeral

/-!
# JSON values and their text

A stored entry is one JSON text.  This module has the values and their compact
printed form: no blanks, members in order, everything but quotes, backslashes
and control characters as it is.

The content of a string is absent if an escape in it names half of a character
and the other half does not follow.  Such a string is well formed and may stand
in parts of a text that nobody reads, but has no content to give.
-/

namespace Matchmaking

/-- A JSON value. -/
inductive Json where
  /-- The value `null`. -/
  | null
  /-- A truth value. -/
  | bool (value : Bool)
  /-- A number, as written. -/
  | number (value : Numeral)
  /-- A string; the content is absent if it is not Unicode text. -/
  | string (content : Option String)
  /-- A list of values. -/
  | array (items : List Json)
  /-- Named values in the order they are written. -/
  | object (members : List (Option String × Json))
deriving Inhabited

namespace Json

/-- A string value. -/
def text (s : String) : Json := .string (some s)

/-- A natural number. -/
def nat (n : Nat) : Json := .number (.ofNat n)

/-- An object with Unicode names. -/
def record (members : List (String × Json)) : Json :=
  .object (members.map fun (name, value) => (some name, value))

/-! ## Printing -/

/-- A lower-case hexadecimal digit. -/
def hexDigit (n : Nat) : Char := Char.ofNat (if n < 10 then 48 + n else 87 + n)

/-- The form of one character inside a string. -/
def escape (c : Char) : List Char :=
  if c = '"' then ['\\', '"']
  else if c = '\\' then ['\\', '\\']
  else if c = '\x08' then ['\\', 'b']
  else if c = '\t' then ['\\', 't']
  else if c = '\n' then ['\\', 'n']
  else if c = '\x0c' then ['\\', 'f']
  else if c = '\r' then ['\\', 'r']
  else if c.toNat < 32 then ['\\', 'u', '0', '0', hexDigit (c.toNat / 16), hexDigit (c.toNat % 16)]
  else [c]

/-- Characters with their escapes, and the closing quote. -/
def escaped : List Char → List Char
  | [] => ['"']
  | c :: cs => escape c ++ escaped cs

/-- A quoted string.  Content that is no Unicode text is written as one half of
a character, which has none either. -/
def quoted : Option String → List Char
  | some s => '"' :: escaped s.toList
  | none => "\"\\ud800\"".toList

mutual

/-- The compact text of a value. -/
def chars : Json → List Char
  | .null => ['n', 'u', 'l', 'l']
  | .bool true => ['t', 'r', 'u', 'e']
  | .bool false => ['f', 'a', 'l', 's', 'e']
  | .number n => n.chars
  | .string content => quoted content
  | .array items => '[' :: itemsChars items
  | .object members => '{' :: membersChars members

/-- The items of an array and its closing bracket. -/
def itemsChars : List Json → List Char
  | [] => [']']
  | item :: items => item.chars ++ moreItemsChars items

/-- The items behind the first one and the closing bracket. -/
def moreItemsChars : List Json → List Char
  | [] => [']']
  | item :: items => ',' :: (item.chars ++ moreItemsChars items)

/-- The members of an object and its closing brace. -/
def membersChars : List (Option String × Json) → List Char
  | [] => ['}']
  | (name, value) :: members => quoted name ++ ':' :: (value.chars ++ moreMembersChars members)

/-- The members behind the first one and the closing brace. -/
def moreMembersChars : List (Option String × Json) → List Char
  | [] => ['}']
  | (name, value) :: members =>
    ',' :: (quoted name ++ ':' :: (value.chars ++ moreMembersChars members))

end

/-- The text of a value as a string. -/
def print (j : Json) : String := String.ofList j.chars

example : (record [("a", .array [.null, .bool true, nat 12]), ("b\n", text "\"é\x01")]).print
    = "\x7b\"a\":[null,true,12],\"b\\n\":\"\\\"é\\u0001\"\x7d" := by decide +kernel

end Json

end Matchmaking
