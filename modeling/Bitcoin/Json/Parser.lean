import Bitcoin.Json
import Bitcoin.Hex

/-!
# Reading JSON Text

The grammar is the standard one: blanks are space, tab, line feed and carriage
return, a number has no superfluous leading zero, a string literal holds no bare
control character, and nothing but blanks follows the document.

A string literal is read in two passes. The first takes it apart into characters
and escaped numbers; the second puts numbers that form a surrogate pair together
and finds out whether one is left alone.

Values nest, so reading one recurses. Of two calls nested in each other the outer
one has taken a character before the inner one starts, so the length of the text
bounds the depth of the recursion, and `parse?` starts with twice that length.

## Main definitions

* `Json.parse?`: The document a text holds.
-/

namespace Bitcoin.Json.Parser

/-- One part of a string literal: a character, or a number given by an escape. -/
inductive Piece where
  | char (c : Char)
  | unit (value : Nat)

/-- The text behind the leading blanks. -/
def skipBlank (cs : List Char) : List Char :=
  cs.dropWhile fun c => c = ' ' ∨ c = '\t' ∨ c = '\n' ∨ c = '\r'

/-- The number four hexadecimal digits stand for. -/
def unit? (a b c d : Char) : Option Nat := do
  let a ← Hex.digitValue? a
  let b ← Hex.digitValue? b
  let c ← Hex.digitValue? c
  let d ← Hex.digitValue? d
  return ((16 * a + b) * 16 + c) * 16 + d

/-- The character an escape letter stands for. -/
def escaped? (letter : Char) : Option Char :=
  match letter with
  | '"' => some '"'
  | '\\' => some '\\'
  | '/' => some '/'
  | 'b' => some (Char.ofNat 8)
  | 'f' => some (Char.ofNat 12)
  | 'n' => some '\n'
  | 'r' => some '\r'
  | 't' => some '\t'
  | _ => none

/-- The parts of a string literal and the text behind its closing mark, where
    the text starts behind the opening one. -/
def pieces? (done : List Piece) : List Char → Option (List Piece × List Char)
  | [] => none
  | '"' :: rest => some (done.reverse, rest)
  | '\\' :: 'u' :: a :: b :: c :: d :: rest =>
    match unit? a b c d with
    | some value => pieces? (.unit value :: done) rest
    | none => none
  | '\\' :: letter :: rest =>
    match escaped? letter with
    | some c => pieces? (.char c :: done) rest
    | none => none
  | c :: rest => if c.toNat < 32 then none else pieces? (.char c :: done) rest

/-- Whether an escaped number is the first half of a surrogate pair. -/
def isHighHalf (value : Nat) : Bool :=
  0xD800 ≤ value && value < 0xDC00

/-- Whether an escaped number is the second half of a surrogate pair. -/
def isLowHalf (value : Nat) : Bool :=
  0xDC00 ≤ value && value < 0xE000

/-- The string the parts of a literal make up, unless half of a surrogate pair
    stands alone. -/
def join (done : List Char) : List Piece → Literal
  | [] => some (String.ofList done.reverse)
  | .char c :: rest => join (c :: done) rest
  | .unit high :: .unit low :: rest =>
    if isHighHalf high ∧ isLowHalf low then
      join (Char.ofNat (0x10000 + (high - 0xD800) * 0x400 + (low - 0xDC00)) :: done) rest
    else if isHighHalf high ∨ isLowHalf high then none
    else join (Char.ofNat high :: done) (.unit low :: rest)
  | .unit value :: rest =>
    if isHighHalf value ∨ isLowHalf value then none else join (Char.ofNat value :: done) rest

/-- What a string literal denotes, and the text behind it. -/
def literal? (cs : List Char) : Option (Literal × List Char) :=
  match pieces? [] cs with
  | some (parts, rest) => some (join [] parts, rest)
  | none => none

/-- The digits at the front of a text, and the text behind them. -/
def digits (cs : List Char) : List Char × List Char :=
  cs.span Char.isDigit

/-- The fraction at the front of a text, which may be missing, and the text
    behind it. A point without digits is refused. -/
def fraction? : List Char → Option (List Char × List Char)
  | '.' :: rest =>
    match digits rest with
    | ([], _) => none
    | (ds, rest) => some ('.' :: ds, rest)
  | cs => some ([], cs)

/-- The exponent at the front of a text, which may be missing, and the text
    behind it. -/
def exponent? : List Char → Option (List Char × List Char)
  | 'e' :: rest | 'E' :: rest =>
    let (sign, rest) :=
      match rest with
      | '+' :: rest => (['+'], rest)
      | '-' :: rest => (['-'], rest)
      | rest => ([], rest)
    match digits rest with
    | ([], _) => none
    | (ds, rest) => some ('e' :: sign ++ ds, rest)
  | cs => some ([], cs)

/-- The number a row of decimal digits stands for. -/
def decimal (ds : List Char) : Nat :=
  ds.foldl (fun n c => 10 * n + (c.toNat - '0'.toNat)) 0

/-- The number at the front of a text, without its sign, and the text behind
    it. -/
def number? (negative : Bool) (cs : List Char) : Option (Json × List Char) := do
  let (whole, rest) := digits cs
  -- A leading zero stands alone.
  if whole.isEmpty ∨ (whole.head? = some '0' ∧ whole.length ≠ 1) then none
  let (part, rest) ← fraction? rest
  let (power, rest) ← exponent? rest
  let sign := if negative then ['-'] else []
  if part.isEmpty ∧ power.isEmpty ∧ ¬(negative ∧ decimal whole = 0) then
    return (.integer (if negative then -(decimal whole : Int) else decimal whole), rest)
  else
    return (.real (String.ofList (sign ++ whole ++ part ++ power)), rest)

mutual

/-- The value at the front of a text, and the text behind it. -/
def value? : Nat → List Char → Option (Json × List Char)
  | 0, _ => none
  | depth + 1, cs =>
    match skipBlank cs with
    | 'n' :: 'u' :: 'l' :: 'l' :: rest => some (.null, rest)
    | 't' :: 'r' :: 'u' :: 'e' :: rest => some (.bool true, rest)
    | 'f' :: 'a' :: 'l' :: 's' :: 'e' :: rest => some (.bool false, rest)
    | '"' :: rest => (literal? rest).map fun (content, rest) => (.text content, rest)
    | '-' :: rest => number? true rest
    | '[' :: rest =>
      match skipBlank rest with
      | ']' :: rest => some (.array [], rest)
      | rest => items? depth [] rest
    | '\x7b' :: rest =>
      match skipBlank rest with
      | '\x7d' :: rest => some (.object [], rest)
      | rest => members? depth [] rest
    | rest => number? false rest

/-- The items of an array up to its closing bracket, and the text behind it. At
    least one more item is due. -/
def items? : Nat → List Json → List Char → Option (Json × List Char)
  | 0, _, _ => none
  | depth + 1, done, cs =>
    match value? depth cs with
    | none => none
    | some (item, rest) =>
      match skipBlank rest with
      | ',' :: rest => items? depth (item :: done) rest
      | ']' :: rest => some (.array (item :: done).reverse, rest)
      | _ => none

/-- The members of an object up to its closing brace, and the text behind it. At
    least one more member is due. -/
def members? : Nat → List (Literal × Json) → List Char → Option (Json × List Char)
  | 0, _, _ => none
  | depth + 1, done, cs =>
    match skipBlank cs with
    | '"' :: rest =>
      match literal? rest with
      | none => none
      | some (name, rest) =>
        match skipBlank rest with
        | ':' :: rest =>
          match value? depth rest with
          | none => none
          | some (value, rest) =>
            match skipBlank rest with
            | ',' :: rest => members? depth ((name, value) :: done) rest
            | '\x7d' :: rest => some (.object ((name, value) :: done).reverse, rest)
            | _ => none
        | _ => none
    | _ => none

end

end Parser

/-- The document a text holds. -/
def parse? (text : String) : Option Json :=
  let cs := text.toList
  -- Two nested calls take at least one character.
  match Parser.value? (2 * cs.length + 2) cs with
  | some (document, rest) => if (Parser.skipBlank rest).isEmpty then some document else none
  | none => none

end Bitcoin.Json
