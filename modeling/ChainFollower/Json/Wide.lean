import ChainFollower.Json.Doc

/-!
# Quoting wide integers

Integer literals that no word holds would be read as floating-point numbers.  `quoteWide` puts them
between quotes, so that they arrive as texts and lose no digit.  It looks at the bytes alone:
outside texts it takes maximal runs of number characters, and quotes the ones that are an integer
out of range.
-/

namespace ChainFollower.Json

/-- A character that number literals are made of. -/
def isNumberByte (b : UInt8) : Bool :=
  Doc.isDigit b || b == 0x2e || b == 0x65 || b == 0x45 || b == 0x2b || b == 0x2d

/-- The number that a run of digits denotes. -/
def digitsValue (ds : Octets) : Nat := ds.foldl (fun n d => 10 * n + (d.toNat - 0x30)) 0

/-- A token that is an integer literal whose value lies outside both signed and unsigned words. -/
def isWide (token : Octets) : Bool :=
  match token with
  -- A sign alone is no integer, and the point or letter of a fraction or exponent is no digit.
  | 0x2d :: ds => !ds.isEmpty && ds.all Doc.isDigit && decide (0x8000000000000000 < digitsValue ds)
  | ds => !ds.isEmpty && ds.all Doc.isDigit && decide (0x10000000000000000 ≤ digitsValue ds)

/-- A number token as it is passed on. -/
def quoteToken (token : Octets) : Octets :=
  if isWide token then [0x22] ++ token ++ [0x22] else token

/-- Where the scan of a text stands. -/
inductive Scan
  /-- Between tokens. -/
  | outside
  /-- Inside a text. -/
  | inText
  /-- Inside a text, after a backslash. -/
  | escaped
  /-- Inside a number token, whose characters so far are held in reverse. -/
  | inNumber (reversed : Octets)

/-- The scan after one byte that starts no longer token, and what it puts out. -/
def Scan.fresh (b : UInt8) : Scan × Octets :=
  if b == 0x22 then (.inText, [b])
  else if b == 0x2d || Doc.isDigit b then (.inNumber [b], [])
  else (.outside, [b])

/-- The scan after one byte, and what it puts out. -/
def Scan.step : Scan → UInt8 → Scan × Octets
  | .outside, b => Scan.fresh b
  | .inText, b =>
    if b == 0x5c then (.escaped, [b]) else if b == 0x22 then (.outside, [b]) else (.inText, [b])
  -- Whatever follows a backslash does not end the text.
  | .escaped, b => (.inText, [b])
  | .inNumber token, b =>
    if isNumberByte b then (.inNumber (b :: token), [])
    -- The byte that ends a number is looked at afresh, for it may open a text.
    else
      let (scan, out) := Scan.fresh b
      (scan, quoteToken token.reverse ++ out)

/-- What is still held when the text ends. -/
def Scan.flush : Scan → Octets
  | .inNumber token => quoteToken token.reverse
  | _ => []

/-- What a scan puts out for the rest of a text. -/
def quoteFrom : Scan → Octets → Octets
  | scan, [] => scan.flush
  | scan, b :: rest =>
    let (next, out) := scan.step b
    out ++ quoteFrom next rest

/-- The text with every wide integer literal between quotes. -/
def quoteWide (s : Octets) : Octets := quoteFrom .outside s

/-- The number tokens outside texts, from where a scan stands. -/
def tokensFrom : Scan → Octets → List Octets
  | .inNumber token, [] => [token.reverse]
  | _, [] => []
  | .inNumber token, b :: rest =>
    if isNumberByte b then tokensFrom (.inNumber (b :: token)) rest
    else token.reverse :: tokensFrom (Scan.fresh b).1 rest
  | scan, b :: rest => tokensFrom (scan.step b).1 rest

/-- Whether some number token is a wide integer. -/
def hasWide (s : Octets) : Bool := (tokensFrom .outside s).any isWide

example : quoteWide (Octets.ofText "[18446744073709551616,1.5,\"9\"]") =
    Octets.ofText "[\"18446744073709551616\",1.5,\"9\"]" := by decide +kernel
example : quoteWide (Octets.ofText "-9223372036854775809-") =
    Octets.ofText "-9223372036854775809-" := by decide +kernel

end ChainFollower.Json
