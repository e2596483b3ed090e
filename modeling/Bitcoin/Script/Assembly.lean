import Bitcoin.Script.Basic

/-!
# Script Assembly

A script is written as words: a payload in hexadecimal, an opcode by its name. The
empty payload has the name of the zero opcode. Where a script does not decode, a
mark follows the last good word.

Words are separated by blanks of any kind. Reading takes a word for an opcode if
it names one, and otherwise for a payload, which is then pushed with the smallest
header; so a payload written by a wider push reads back shorter.

## Main definitions

* `Script.toAsm`: The words of a script.
* `Script.ofAsm`: The script of some words.
* `Blank.words`: The words of a text.
-/

namespace Bitcoin

namespace Blank

/-- The characters that separate words. -/
def chars : List Nat :=
  [0x09, 0x0a, 0x0b, 0x0c, 0x0d, 0x20, 0x85, 0xa0, 0x1680, 0x2000, 0x2001, 0x2002, 0x2003, 0x2004,
    0x2005, 0x2006, 0x2007, 0x2008, 0x2009, 0x200a, 0x2028, 0x2029, 0x202f, 0x205f, 0x3000]

/-- Whether a character separates words. -/
def isBlank (c : Char) : Bool :=
  chars.contains c.toNat

/-- Adds a word, given with its last character first, unless it is empty. -/
def addWord (word : List Char) (words : List String) : List String :=
  if word.isEmpty then words else String.ofList word.reverse :: words

/-- The words of a row of characters, where `word` holds the characters since the
    last blank, last one first, and `words` the words before, last one first. -/
def collect (word : List Char) (words : List String) : List Char → List String
  | [] => (addWord word words).reverse
  | c :: rest =>
    if isBlank c then collect [] (addWord word words) rest else collect (c :: word) words rest

/-- The words of a text, in order. -/
def words (text : String) : List String :=
  collect [] [] text.toList

end Blank

/-- The word for a chunk. -/
def Chunk.word (chunk : Chunk) : String :=
  match chunk.data with
  | some [] => Opcode.name Opcode.zero
  | some data => Hex.encode data
  | none => Opcode.name chunk.op

namespace Script

/-- The mark for what does not decode. -/
def undecoded : String := "[error]"

/-- The words of a script. -/
def toAsm (script : Script) : String :=
  let (chunks, tail) := Chunk.split script.bytes
  " ".intercalate (chunks.map Chunk.word ++ if tail.isEmpty then [] else [undecoded])

/-- The bytes that a word stands for. -/
def ofWord (word : String) : Except ScriptError Bytes :=
  match Opcode.ofName? word with
  | some op => return [op]
  | none =>
    match Hex.decode word with
    | .ok data => Push.encode data
    | .error _ => throw (.unknownWord word)

/-- The script of the given words. -/
def ofAsm (text : String) : Except ScriptError Script := do
  return ⟨(← (Blank.words text).mapM ofWord).flatten⟩

end Script

end Bitcoin
