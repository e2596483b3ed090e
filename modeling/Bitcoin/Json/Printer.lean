import Bitcoin.Json
import Bitcoin.Hex

/-!
# Compact JSON Text

A document is written without any blank. In a string, a quotation mark, a
backslash and the control characters are escaped and nothing else is; a control
character without a letter of its own is written by its number in four digits.
A literal that denotes no string is written as the replacement character.

## Main definitions

* `Json.render`: The text of a document.
-/

namespace Bitcoin.Json

/-- How one character stands in a string literal. -/
def escape (c : Char) : String :=
  if c = '"' then "\\\""
  else if c = '\\' then "\\\\"
  else if c = '\n' then "\\n"
  else if c = '\r' then "\\r"
  else if c = '\t' then "\\t"
  else if c.toNat = 8 then "\\b"
  else if c.toNat = 12 then "\\f"
  else if c.toNat < 32 then "\\u00" ++ Hex.encode [UInt8.ofNat c.toNat]
  else String.singleton c

/-- Adds the literal of a string to a text. -/
def addLiteral (out : String) (content : Literal) : String :=
  let chars := (content.getD "\uFFFD").toList
  (chars.foldl (fun out c => out ++ escape c) (out ++ "\"")) ++ "\""

mutual

/-- Adds a document to a text. -/
def addTo (out : String) : Json → String
  | .null => out ++ "null"
  | .bool true => out ++ "true"
  | .bool false => out ++ "false"
  | .integer value => out ++ toString value
  | .real written => out ++ written
  | .text content => addLiteral out content
  | .array items => addItems (out ++ "[") true items ++ "]"
  | .object members => addMembers (out ++ "\x7b") true members ++ "\x7d"

/-- Adds the items of an array, with a comma before all but the first. -/
def addItems (out : String) (first : Bool) : List Json → String
  | [] => out
  | item :: rest => addItems (addTo (if first then out else out ++ ",") item) false rest

/-- Adds the members of an object, with a comma before all but the first. -/
def addMembers (out : String) (first : Bool) : List (Literal × Json) → String
  | [] => out
  | (name, value) :: rest =>
    let named := addLiteral (if first then out else out ++ ",") name ++ ":"
    addMembers (addTo named value) false rest

end

/-- The compact text of a document. -/
def render (document : Json) : String :=
  addTo "" document

end Bitcoin.Json
