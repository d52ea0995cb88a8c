import ChainFollower.Item.Portable

/-!
# Records

Reading an item as a record with named fields.  A record is a map, or, in a document, an array of
the fields in their order.  Unknown fields are skipped, a field may not come twice, and of several
faults the one that stands first in the payload is reported: that is why the outcome of reading a
field carries its place.
-/

namespace ChainFollower

/-- The fields of a record in order, each by its name and its other spellings. -/
abbrev FieldNames := List (String × List String)

/-- An outcome together with the place of its fault; of two faults the earlier one counts. -/
structure Placed (α : Type) where
  outcome : Except (Nat × Fault) α

namespace Placed

/-- The earlier of the faults of two outcomes. -/
def combine {α β : Type} (f : Placed (α → β)) (a : Placed α) : Placed β :=
  match f.outcome, a.outcome with
  | .ok f, .ok a => ⟨.ok (f a)⟩
  | .error e, .ok _ => ⟨.error e⟩
  | .ok _, .error e => ⟨.error e⟩
  | .error e, .error e' => ⟨.error (if e'.1 < e.1 then e' else e)⟩

instance : Applicative Placed where
  pure a := ⟨.ok a⟩
  seq f a := combine f (a ())

end Placed

/-- A record as its payload gives it. -/
structure Record where
  medium : Medium
  /-- The known fields, each with its place. -/
  fields : List (String × Nat × Item)
  /-- The first fault outside the values of fields. -/
  stop : Option Nat
  /-- The place after all entries. -/
  size : Nat

namespace Record

/-- The field that a name means. -/
def fieldOf? (names : FieldNames) : Reader.Name → Option String
  | .name s => (names.find? fun f => f.1 == s || f.2.contains s).map (·.1)
  | .number n => (names[n]?).map (·.1)
  | .foreign => none

/-- Collects the known fields of a map's entries; the first structural fault ends the record. -/
def collect (m : Medium) (names : FieldNames) (place : Nat) (found : List (String × Nat × Item)) :
    List (Item × Item) → Record
  | [] => ⟨m, found, none, place⟩
  | (k, v) :: rest =>
    match Reader.name m k with
    | .error _ => ⟨m, found, some place, place⟩
    | .ok name =>
      match fieldOf? names name with
      | some field =>
        -- A field that comes twice stops the record, and so does what cannot be passed over.
        if found.any fun f => f.1 == field then ⟨m, found, some place, place⟩
        else collect m names (place + 1) (found ++ [(field, place, v)]) rest
      | none =>
        if m.passes v then collect m names (place + 1) found rest
        else ⟨m, found, some place, place⟩

/-- The fields of an array, by their order; there may be no more items than fields. -/
def positional (m : Medium) (names : FieldNames) (items : List Item) : Record :=
  let fields := (names.zip items).zipIdx.map fun ((field, item), place) => (field.1, place, item)
  ⟨m, fields, if names.length < items.length then some names.length else none, items.length⟩

/-- The record that an item is: a map or, in a document, an array. -/
def ofItem (m : Medium) (names : FieldNames) (item : Item) : Reading Record :=
  match m, Reader.below m item with
  | .document, .array items => .ok (positional m names items)
  | _, _ => do
    let (inside, entries) ← Reader.entries m item
    return collect inside names 0 [] entries

/-- The record that a map is. -/
def ofMap (m : Medium) (names : FieldNames) (item : Item) : Reading Record := do
  let (inside, entries) ← Reader.entries m item
  return collect inside names 0 [] entries

/-- The place and item of a field. -/
def find? (r : Record) (field : String) : Option (Nat × Item) := r.fields.lookup field

variable {α : Type}

/-- A field that must be there, by its own reader. -/
def getRequired (r : Record) (field : String) (read : Reader α) : Placed α :=
  match r.find? field with
  | some (place, item) =>
    match read r.medium item with
    | .ok a => ⟨.ok a⟩
    | .error fault => ⟨.error (place, fault)⟩
  | none => ⟨.error (r.size, none)⟩

/-- A field that may be absent, by its own reader. -/
def getWith (r : Record) (field : String) (read : Reader α) (absent : α) : Placed α :=
  match r.find? field with
  | some _ => r.getRequired field read
  | none => ⟨.ok absent⟩

/-- A field of a portable type that must be there. -/
def get [Portable α] (r : Record) (field : String) : Placed α := r.getRequired field Portable.read

/-- A field of a portable type that may be absent. -/
def getD [Portable α] (r : Record) (field : String) (absent : α) : Placed α :=
  r.getWith field Portable.read absent

/-- The outcome of the whole record. -/
def finish (r : Record) (fields : Placed α) : Reading α :=
  match r.stop, fields.outcome with
  | none, .ok a => .ok a
  | none, .error (_, fault) => .error fault
  | some _, .ok _ => Reader.refuse
  -- Of two faults the one that comes first in the item is told.
  | some place, .error (p, fault) => if p < place then .error fault else Reader.refuse

/-- Reads a record's fields. -/
def read (names : FieldNames) (fields : Record → Placed α) : Reader α :=
  fun m item => do
    let r ← ofItem m names item
    r.finish (fields r)

/-- Reads the fields of a record that must be a map. -/
def readMap (names : FieldNames) (fields : Record → Placed α) : Reader α :=
  fun m item => do
    let r ← ofMap m names item
    r.finish (fields r)

end Record

/-! ## Writing records -/

/-- A member of a record, or the lack of one. -/
structure Member where
  written : Option (String × Json)

namespace Member

variable {α : Type} [Portable α]

/-- A member that is always written. -/
def always (name : String) (a : α) : Member := ⟨some (name, toJson a)⟩

/-- A member that is written if there is something to write. -/
def ifSome (name : String) (a : Option α) : Member := ⟨a.map fun a => (name, toJson a)⟩

/-- A member that is written unless the text is empty. -/
def ifText (name : String) (s : String) : Member :=
  ⟨if s.isEmpty then none else some (name, .text s)⟩

/-- A member that is written unless the list is empty. -/
def ifAny (name : String) (as : List α) : Member :=
  ⟨if as.isEmpty then none else some (name, toJson as)⟩

/-- A member that is written unless the map is empty. -/
def ifEntries (name : String) (d : Dict α) : Member :=
  ⟨if d.isEmpty then none else some (name, toJson d)⟩

end Member

/-- The record of the members that are written. -/
def Json.record (members : List Member) : Json := .object (members.filterMap Member.written)

end ChainFollower
