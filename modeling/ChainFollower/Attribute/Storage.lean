import ChainFollower.Attribute.Document
import ChainFollower.Chain.Point
import ChainFollower.Ledger.Transaction

/-!
# Storing chain data as attributes

Points and tips are stored as maps of their fields, values flat with one amount per asset id, and a
missing thing as a null attribute.
-/

namespace ChainFollower

/-- A type that is kept in attributes. -/
class Storable (α : Type) where
  /-- The attribute that stores a value. -/
  toAttribute : α → Attribute
  /-- Reads a stored value back. -/
  ofAttribute : Attribute → Except Complaint α

export Storable (toAttribute ofAttribute)

namespace Attribute

/-- The complaint about an attribute of the wrong type. -/
def wrongKind {α : Type} (expected : Kind) (found : Attribute) : Except Complaint α :=
  .error (.attribute (.wrongKind expected found.kind))

/-- The entries of a map. -/
def asMap : Attribute → Except Complaint (List (String × Attribute))
  | .map entries => .ok entries
  | found => wrongKind .map found

/-- The text of a text. -/
def asText : Attribute → Except Complaint String
  | .text s => .ok s
  | found => wrongKind .text found

/-- The word of a number. -/
def asWord : Attribute → Except Complaint UInt64
  | .number digits =>
    match Decimal.readWord 0x10000000000000000 (Text.trim digits.toList) with
    | .ok n => .ok (UInt64.ofNat n)
    | .error fault => .error (.attribute (.badNumber digits fault))
  | found => wrongKind .number found

/-- The attribute that stores a word. -/
def ofWord (n : UInt64) : Attribute := .number (toString n.toNat)

/-- An entry that must be there. -/
def required (entries : List (String × Attribute)) (field : String) : Except Complaint Attribute :=
  match entries.lookup field with
  | some a => .ok a
  | none => .error (.missingField field)

/-- An entry that may be missing. -/
def optional {α : Type} (entries : List (String × Attribute)) (field : String)
    (read : Attribute → Except Complaint α) : Except Complaint (Option α) :=
  match entries.lookup field with
  | some a => (read a).map some
  | none => .ok none

/-- A map of named entries. -/
def ofEntriesList (entries : List (String × Attribute)) : Attribute := .map (Entries.sort entries)

end Attribute

open Attribute

instance {α : Type} [Storable α] : Storable (Option α) where
  toAttribute
    | some a => toAttribute a
    | none => .null true
  ofAttribute item := if item.isNull then .ok none else (ofAttribute item).map some

instance : Storable Int where
  toAttribute n := .number (String.ofList (Json.intChars n))
  ofAttribute
    | .number digits =>
      match Decimal.readInt digits.toList with
      | .ok n => .ok n
      | .error fault => .error (.invalidInteger digits fault)
    | found => wrongKind .number found

instance : Storable BlockRef where
  toAttribute b := ofEntriesList <|
    [("slot", ofWord b.slot), ("id", .text b.id)] ++
      (b.height.map fun h => ("blockNo", ofWord h)).toList
  ofAttribute item := do
    let entries ← asMap item
    let height ← optional entries "blockNo" asWord
    let slot ← asWord (← required entries "slot")
    let id ← asText (← required entries "id")
    return ⟨slot, id, height⟩

instance : Storable Point where
  toAttribute
    | .symbol s => .text s
    | .block b => toAttribute b
  ofAttribute
    | .text s => .ok (.symbol s)
    -- A map without entries is no point.
    | .map (e :: entries) => (ofAttribute (.map (e :: entries))).map .block
    | found => .error (.invalidPoint (.kind found.kind))

instance : Storable Tip where
  toAttribute t := ofEntriesList
    [("slot", ofWord t.slot), ("id", .text t.id), ("height", ofWord t.height)]
  ofAttribute item := do
    let entries ← asMap item
    let slot ← optional entries "slot" asWord
    let id ← optional entries "id" asText
    let height ← optional entries "height" asWord
    return ⟨slot.getD 0, id.getD "", height.getD 0⟩

/-- Reads the amounts of a stored map. -/
def Attribute.amounts : List (String × Attribute) → Except Complaint (List (String × Int))
  | [] => .ok []
  | (id, a) :: rest => do
    let amount ← ofAttribute a
    let amounts ← Attribute.amounts rest
    return (id, amount) :: amounts

instance : Storable Value where
  toAttribute v := ofEntriesList <|
    [("coins", toAttribute v.coins)] ++
      if v.assets.isEmpty then []
      else [("assets", .map (v.assets.entries.map fun e => (e.1, toAttribute e.2)))]
  ofAttribute item := do
    let entries ← asMap item
    let coins ← optional entries "coins" ofAttribute
    let assets ← optional entries "assets" fun a => do amounts (← asMap a)
    return ⟨coins.getD 0, .ofList (assets.getD [])⟩

/-- Reads a stored datum: a text as it is, bytes in hexadecimal digits. -/
def Attribute.asDatum (key : String) : Attribute → Except Complaint String
  | .text s => .ok s
  | .bytes b => .ok (String.ofList (Hex.encode b))
  | _ => .error (.invalidDatum key .notStored)

/-- Reads stored datums. -/
def Datums.ofAttribute : Attribute → Except Complaint Datums
  | .map entries => do
    let datums ← entries.mapM fun (key, a) => do
      let hex ← asDatum key a
      return (key, hex)
    return ⟨.ofList datums⟩
  | _ => .error (.attribute .datumsNotMap)

/-- Reads a stored point; a missing attribute and a null one are no point. -/
def Point.ofStored? : Option Attribute → Except Complaint (Option Point)
  | none => .ok none
  | some item => ofAttribute item

end ChainFollower
