import ChainFollower.Attribute.Binary
import ChainFollower.Item.Portable

/-!
# Document form of attributes

An attribute is an object of one member whose name gives the type: `"N": "12"`.  Bytes are written
in base64.
-/

namespace ChainFollower.Attribute

mutual

/-- The document form of an attribute. -/
def document : Attribute → Json
  | .text s => .object [(Kind.text.name, .text s)]
  | .number digits => .object [(Kind.number.name, .text digits)]
  | .bytes b => .object [(Kind.bytes.name, .text (String.ofList (Base64.encode b)))]
  | .map entries => .object [(Kind.map.name, .object (documentEntries entries))]
  | .list items => .object [(Kind.list.name, .array (documentItems items))]
  | .bool b => .object [(Kind.bool.name, .bool b)]
  | .null b => .object [(Kind.null.name, .bool b)]

/-- The document form of each attribute. -/
def documentItems : List Attribute → List Json
  | [] => []
  | a :: rest => a.document :: documentItems rest

/-- The document form of each entry. -/
def documentEntries : List (String × Attribute) → List (String × Json)
  | [] => []
  | (k, a) :: rest => (k, a.document) :: documentEntries rest

end

mutual

/-- Reads an attribute from its document form. -/
def ofItem : Item → Reading Attribute
  | .map [(k, v)] =>
    match readKind .document k with
    | .ok .list => (ofList v).map .list
    | .ok .map => (ofMap v).map fun entries => .map (Entries.sort entries)
    | .ok leaf => readLeaf leaf .document v
    | .error cause => .error cause
  | _ => Reader.refuse

/-- Reads the attributes of a list. -/
def ofList : Item → Reading (List Attribute)
  | .array items => ofItems items
  | _ => Reader.refuse

/-- Reads each attribute. -/
def ofItems : List Item → Reading (List Attribute)
  | [] => .ok []
  | i :: rest => do
    let a ← ofItem i
    let as ← ofItems rest
    return a :: as

/-- Reads the attributes of a map. -/
def ofMap : Item → Reading (List (String × Attribute))
  | .map entries => ofEntries entries
  | _ => Reader.refuse

/-- Reads each attribute with its name. -/
def ofEntries : List (Item × Item) → Reading (List (String × Attribute))
  | [] => .ok []
  | (k, v) :: rest => do
    let name ← Reader.text .document k
    let a ← ofItem v
    let entries ← ofEntries rest
    return (name, a) :: entries

end

/-- In a binary document an attribute is no item, and cannot be read as one. -/
instance : Portable Attribute where
  toJson := document
  read m item :=
    match m with
    | .document => ofItem item
    | _ => Reader.refuse
  ofBinary := ofBinary

end ChainFollower.Attribute
