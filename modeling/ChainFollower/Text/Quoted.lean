import ChainFollower.Text.Octets
import ChainFollower.Text.Invisible

/-!
# Quoted text in messages

A message shows the text it complains about between double quotes, so that blanks and control
characters stay visible.
-/

namespace ChainFollower.Text

/-- One character inside quotes: the usual five escapes, NUL as `\0`, every other invisible
character by its number in braces, and all else as it is. -/
def quotedChar (c : Char) : List Char :=
  if c = '"' then ['\\', '"']
  else if c = '\\' then ['\\', '\\']
  else if c = '\n' then ['\\', 'n']
  else if c = '\r' then ['\\', 'r']
  else if c = '\t' then ['\\', 't']
  else if c.toNat = 0 then ['\\', '0']
  else if isInvisible c then ['\\', 'u', '\x7b'] ++ Hex.number c.toNat ++ ['\x7d']
  else [c]

/-- The text between double quotes, as messages show it. -/
def quoted (s : String) : String :=
  String.ofList (['"'] ++ s.toList.flatMap quotedChar ++ ['"'])

example : quoted "a\"\\\nb\u0301'" = "\"a\\\"\\\\\\nb\\u\x7b301\x7d'\"" := by decide

end ChainFollower.Text
