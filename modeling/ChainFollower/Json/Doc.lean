import ChainFollower.Text.Octets

/-!
# The spelling of a document

A `Doc` is the tree of a document's text: number literals and the insides of quotes are kept as they
are written.  `Doc.read` is total.  Where the text stops being a document it puts a `broken` leaf
and reads no further, so that what stands before the fault can still be looked at, in the order in
which it is written.

Main definitions: `Doc`, the literal scanners `scanNumber` and `scanText`, and `Doc.read`.
-/

namespace ChainFollower

/-- The tree of a document's text. -/
inductive Doc
  | null
  | bool (b : Bool)
  /-- A number literal. -/
  | number (literal : Octets)
  /-- A text, by what stands between its quotes. -/
  | text (raw : Octets)
  | array (items : List Doc)
  /-- Members, each name by what stands between its quotes. -/
  | object (members : List (Octets × Doc))
  /-- The place where the text stops being a document.  A member whose name cannot be read is a
  member with an empty name and a broken value. -/
  | broken

instance : Inhabited Doc := ⟨.broken⟩

namespace Doc

/-! ## Characters of the grammar -/

/-- Blanks between tokens. -/
def isBlank (b : UInt8) : Bool := b == 0x20 || b == 0x0a || b == 0x09 || b == 0x0d

/-- A decimal digit. -/
def isDigit (b : UInt8) : Bool := 0x30 ≤ b && b ≤ 0x39

/-- A hexadecimal digit of either case. -/
def isHexDigit (b : UInt8) : Bool :=
  isDigit b || (0x41 ≤ b && b ≤ 0x46) || (0x61 ≤ b && b ≤ 0x66)

/-- What may follow a backslash, the number escape apart: `"`, `\`, `/`, `b`, `f`, `n`, `r`, `t`. -/
def isPlainEscape (b : UInt8) : Bool :=
  b == 0x22 || b == 0x5c || b == 0x2f || b == 0x62 || b == 0x66 || b == 0x6e || b == 0x72 ||
    b == 0x74

/-- The text after its leading blanks. -/
def skipBlanks (s : Octets) : Octets := s.dropWhile isBlank

/-! ## Number literals -/

/-- An optional minus sign. -/
def scanSign : Octets → Octets × Octets
  | 0x2d :: rest => ([0x2d], rest)
  | s => ([], s)

/-- Zero alone, or digits that start with another one. -/
def scanWhole : Octets → Option (Octets × Octets)
  | 0x30 :: rest =>
    match rest with
    | d :: _ => if isDigit d then none else some ([0x30], rest)
    | [] => some ([0x30], [])
  | s =>
    let ds := s.takeWhile isDigit
    if ds.isEmpty then none else some (ds, s.dropWhile isDigit)

/-- A point with digits after it, or nothing. -/
def scanFraction : Octets → Option (Octets × Octets)
  | 0x2e :: rest =>
    let ds := rest.takeWhile isDigit
    if ds.isEmpty then none else some (0x2e :: ds, rest.dropWhile isDigit)
  | s => some ([], s)

/-- An optional sign of an exponent. -/
def scanExponentSign : Octets → Octets × Octets
  | 0x2b :: rest => ([0x2b], rest)
  | 0x2d :: rest => ([0x2d], rest)
  | s => ([], s)

/-- A letter `e` or `E` with an optional sign and digits after it, or nothing. -/
def scanExponent : Octets → Option (Octets × Octets)
  | [] => some ([], [])
  | b :: rest =>
    if b == 0x65 || b == 0x45 then
      let (sign, rest) := scanExponentSign rest
      let ds := rest.takeWhile isDigit
      if ds.isEmpty then none else some (b :: (sign ++ ds), rest.dropWhile isDigit)
    else some ([], b :: rest)

/-- The number literal at the start of a text and the text after it. -/
def scanNumber (s : Octets) : Option (Octets × Octets) := do
  let (sign, s) := scanSign s
  let (whole, s) ← scanWhole s
  let (fraction, s) ← scanFraction s
  let (exponent, s) ← scanExponent s
  return (sign ++ whole ++ fraction ++ exponent, s)

/-! ## Texts -/

/-- What stands before the closing quote, and the text after that quote.  Escapes are checked for
their form; control characters may not stand there. -/
def scanText : Octets → Option (Octets × Octets)
  | [] => none
  | 0x22 :: rest => some ([], rest)
  | 0x5c :: 0x75 :: a :: b :: c :: d :: rest =>
    if isHexDigit a && isHexDigit b && isHexDigit c && isHexDigit d then
      (scanText rest).map fun (raw, s) => (0x5c :: 0x75 :: a :: b :: c :: d :: raw, s)
    else none
  -- A number escape without its four digits comes here as well, and is refused.
  | 0x5c :: e :: rest =>
    if isPlainEscape e then (scanText rest).map fun (raw, s) => (0x5c :: e :: raw, s) else none
  | b :: rest =>
    if b < 0x20 || b == 0x5c then none else (scanText rest).map fun (raw, s) => (b :: raw, s)

/-! ## Trees -/

/-- The text after a word that it starts with. -/
def stripWord (word s : Octets) : Option Octets :=
  if word.isPrefixOf s then some (s.drop word.length) else none

mutual

/-- The tree at the start of a text and the text after it; no text after a broken leaf. -/
def readValue (fuel : Nat) (s : Octets) : Doc × Option Octets :=
  match fuel with
  | 0 => (.broken, none)
  | fuel + 1 =>
    match skipBlanks s with
    | [] => (.broken, none)
    | 0x5b :: rest =>
      match skipBlanks rest with
      | 0x5d :: rest => (.array [], some rest)
      | _ =>
        let (items, rest) := readItems fuel rest
        (.array items, rest)
    | 0x7b :: rest =>
      match skipBlanks rest with
      | 0x7d :: rest => (.object [], some rest)
      | _ =>
        let (members, rest) := readMembers fuel rest
        (.object members, rest)
    | 0x22 :: rest =>
      match scanText rest with
      | some (raw, rest) => (.text raw, some rest)
      | none => (.broken, none)
    | b :: rest =>
      if b == 0x2d || isDigit b then
        match scanNumber (b :: rest) with
        | some (literal, rest) => (.number literal, some rest)
        | none => (.broken, none)
      else
        -- The words are null, true and false.
        match stripWord [0x6e, 0x75, 0x6c, 0x6c] (b :: rest) with
        | some rest => (.null, some rest)
        | none =>
          match stripWord [0x74, 0x72, 0x75, 0x65] (b :: rest) with
          | some rest => (.bool true, some rest)
          | none =>
            match stripWord [0x66, 0x61, 0x6c, 0x73, 0x65] (b :: rest) with
            | some rest => (.bool false, some rest)
            | none => (.broken, none)

/-- The items of an array up to its closing bracket. -/
def readItems (fuel : Nat) (s : Octets) : List Doc × Option Octets :=
  match fuel with
  | 0 => ([.broken], none)
  | fuel + 1 =>
    match readValue fuel s with
    | (item, none) => ([item], none)
    | (item, some rest) =>
      match skipBlanks rest with
      | 0x2c :: rest =>
        let (items, rest) := readItems fuel rest
        (item :: items, rest)
      | 0x5d :: rest => ([item], some rest)
      | _ => ([item, .broken], none)

/-- The members of an object up to its closing brace. -/
def readMembers (fuel : Nat) (s : Octets) : List (Octets × Doc) × Option Octets :=
  match fuel with
  | 0 => ([([], .broken)], none)
  | fuel + 1 =>
    match skipBlanks s with
    | 0x22 :: rest =>
      match scanText rest with
      | none => ([([], .broken)], none)
      | some (name, rest) =>
        match skipBlanks rest with
        | 0x3a :: rest =>
          match readValue fuel rest with
          | (value, none) => ([(name, value)], none)
          | (value, some rest) =>
            match skipBlanks rest with
            | 0x2c :: rest =>
              let (members, rest) := readMembers fuel rest
              ((name, value) :: members, rest)
            | 0x7d :: rest => ([(name, value)], some rest)
            | _ => ([(name, value), ([], .broken)], none)
        | _ => ([(name, .broken)], none)
    | _ => ([([], .broken)], none)

end

/-- The tree at the start of a text, and whether nothing but blanks follows it. -/
def read (s : Octets) : Doc × Bool :=
  -- Each byte of the text is behind two calls at most.
  match readValue (2 * s.length + 2) s with
  | (doc, some rest) => (doc, (skipBlanks rest).isEmpty)
  | (doc, none) => (doc, false)

end Doc

end ChainFollower
