import Bitcoin.Bytes

/-!
# JSON Documents

Limits, scripts and transactions are also exchanged as JSON. A document keeps
its members in the order they were written and keeps a repeated name twice,
because a record must refuse a document that names one of its fields twice.

Two kinds of value are well formed as text and still denote nothing a field
could hold. A string literal may escape half of a surrogate pair, which is no
character; it reads as `none`. A number with a fraction or an exponent is not an
integer, whatever its value; it is kept as it was written. Both are harmless
where a reader skips them.

A record is written as an object, or as an array with its fields in order.

## Main definitions

* `Json`: A document.
* `Json.fields?`: The values of a record's fields.
* `Json.string?`, `Json.natBelow?`, `Json.items?`: The readings a field can want.
-/

namespace Bitcoin

/-- What a string literal denotes: a string, unless it escapes half of a
    surrogate pair. -/
abbrev Literal := Option String

/-- A JSON document. -/
inductive Json where
  | null
  | bool (value : Bool)
  /-- A number written without fraction and exponent, minus zero excepted. -/
  | integer (value : Int)
  /-- Any other number, as it was written. -/
  | real (written : String)
  | text (content : Literal)
  | array (items : List Json)
  /-- The members in the order of the text, repeated names included. -/
  | object (members : List (Literal × Json))

namespace Json

/-- A string as a document. -/
def ofString (s : String) : Json :=
  .text (some s)

/-- A natural number as a document. -/
def ofNat (n : Nat) : Json :=
  .integer n

/-- An object with the given member names and values. -/
def ofMembers (members : List (String × Json)) : Json :=
  .object (members.map fun (name, value) => (some name, value))

/-- The string a document holds, if it is one. -/
def string? : Json → Option String
  | .text content => content
  | _ => none

/-- The natural number below `bound` a document holds, if it is one. -/
def natBelow? (bound : Nat) : Json → Option Nat
  | .integer value => if 0 ≤ value ∧ value < bound then some value.toNat else none
  | _ => none

/-- The items of an array. -/
def items? : Json → Option (List Json)
  | .array items => some items
  | _ => none

/-- The value of one field among an object's members. The outer layer is empty
    if the field is named twice, the inner one if it is not named. -/
def field? (members : List (Literal × Json)) (name : String) : Option (Option Json) :=
  match members.filter (fun member => member.1 == some name) with
  | [] => some none
  | [(_, value)] => some (some value)
  | _ => none

/-- The values of a record's fields, in the order of `names`, with `none` for a
    field that is left out. An object gives them by name and may have further
    members; an array gives them by position and may not be longer. -/
def fields? (names : List String) : Json → Option (List (Option Json))
  | .object members =>
    if members.all (fun member => member.1.isSome) then names.mapM (field? members) else none
  | .array items =>
    if items.length ≤ names.length then
      some (items.map some ++ List.replicate (names.length - items.length) none)
    else none
  | _ => none

end Json

end Bitcoin
