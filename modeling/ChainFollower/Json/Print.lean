import ChainFollower.Json.Basic
import ChainFollower.Number.Shortest
import ChainFollower.Text.Octets

/-!
# Text of a document

`Json.chars` writes a document without blanks, `Json.pretty` over several lines.  Only the double
quote, the backslash and the characters below U+0020 are escaped.
-/

namespace ChainFollower.Json

/-- One character between the quotes of a document's text. -/
def escapeChar (c : Char) : List Char :=
  if c = '"' then ['\\', '"']
  else if c = '\\' then ['\\', '\\']
  else if 0x20 ≤ c.toNat then [c]
  else if c.toNat = 0x08 then ['\\', 'b']
  else if c.toNat = 0x09 then ['\\', 't']
  else if c.toNat = 0x0a then ['\\', 'n']
  else if c.toNat = 0x0c then ['\\', 'f']
  else if c.toNat = 0x0d then ['\\', 'r']
  else ['\\', 'u', '0', '0', Hex.digit (c.toNat / 16), Hex.digit (c.toNat % 16)]

/-- A text between double quotes. -/
def textChars (s : String) : List Char := ['"'] ++ s.toList.flatMap escapeChar ++ ['"']

/-- An integer in decimal digits. -/
def intChars (n : Int) : List Char :=
  if n < 0 then '-' :: Decimal.digits n.natAbs else Decimal.digits n.natAbs

mutual

/-- The document on one line without blanks. -/
def chars : Json → List Char
  | .null => ['n', 'u', 'l', 'l']
  | .bool true => ['t', 'r', 'u', 'e']
  | .bool false => ['f', 'a', 'l', 's', 'e']
  | .int n => intChars n
  | .float x => Shortest.text .document x
  | .text s => textChars s
  | .array items => ['['] ++ itemChars items ++ [']']
  | .object members => ['\x7b'] ++ memberChars members ++ ['\x7d']

/-- Items with commas between them. -/
def itemChars : List Json → List Char
  | [] => []
  | [j] => j.chars
  | j :: rest => j.chars ++ [','] ++ itemChars rest

/-- Members with commas between them. -/
def memberChars : List (String × Json) → List Char
  | [] => []
  | [(k, j)] => textChars k ++ [':'] ++ j.chars
  | (k, j) :: rest => textChars k ++ [':'] ++ j.chars ++ [','] ++ memberChars rest

end

/-- A new line indented by two blanks a level. -/
def newline (level : Nat) : List Char := '\n' :: List.replicate (2 * level) ' '

mutual

/-- The document over several lines, each item and member on one of its own. -/
def prettyAt (level : Nat) : Json → List Char
  | .array [] => ['[', ']']
  | .array items => ['['] ++ prettyItems (level + 1) items ++ newline level ++ [']']
  | .object [] => ['\x7b', '\x7d']
  | .object members =>
    ['\x7b'] ++ prettyMembers (level + 1) members ++ newline level ++ ['\x7d']
  | j => j.chars

/-- Items on lines of their own. -/
def prettyItems (level : Nat) : List Json → List Char
  | [] => []
  | [j] => newline level ++ j.prettyAt level
  | j :: rest => newline level ++ j.prettyAt level ++ [','] ++ prettyItems level rest

/-- Members on lines of their own. -/
def prettyMembers (level : Nat) : List (String × Json) → List Char
  | [] => []
  | [(k, j)] => newline level ++ textChars k ++ [':', ' '] ++ j.prettyAt level
  | (k, j) :: rest =>
    newline level ++ textChars k ++ [':', ' '] ++ j.prettyAt level ++ [','] ++
      prettyMembers level rest

end

/-- The document's text on one line. -/
def compact (j : Json) : String := String.ofList j.chars

/-- The document's text over several lines. -/
def pretty (j : Json) : String := String.ofList (j.prettyAt 0)

/-- The bytes of the document's text. -/
def octets (j : Json) : Octets := .ofChars j.chars

example : (Json.object [("a", .array [.int (-1), .null]), ("\"\n", .text "é")]).compact =
    "\x7b\"a\":[-1,null],\"\\\"\\n\":\"é\"\x7d" := by decide +kernel
example : (Json.array [.bool true, .object []]).pretty = "[\n  true,\n  \x7b\x7d\n]" := by
  decide +kernel

end ChainFollower.Json
