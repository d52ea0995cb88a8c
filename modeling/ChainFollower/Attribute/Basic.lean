import ChainFollower.Text.Octets

/-!
# Attributes

The typed values of a key-value store.  Each names its type; numbers are decimal texts.
-/

namespace ChainFollower

/-- One typed attribute. -/
inductive Attribute
  | text (s : String)
  | number (digits : String)
  | bytes (b : Octets)
  /-- Attributes by name, in ascending order of names. -/
  | map (entries : List (String × Attribute))
  | list (items : List Attribute)
  | bool (b : Bool)
  | null (b : Bool)

instance : Inhabited Attribute := ⟨.null true⟩

namespace Attribute

/-- The type of an attribute. -/
inductive Kind
  | text | number | bytes | map | list | bool | null
  deriving DecidableEq

/-- The name by which a stored attribute shows its type. -/
def Kind.name : Kind → String
  | .text => "S"
  | .number => "N"
  | .bytes => "B"
  | .map => "M"
  | .list => "L"
  | .bool => "BOOL"
  | .null => "NULL"

/-- The kind of that name. -/
def Kind.ofName? (name : String) : Option Kind :=
  [.text, .number, .bytes, .map, .list, .bool, .null].find? fun k => k.name == name

/-- The type of an attribute. -/
def kind : Attribute → Kind
  | .text _ => .text
  | .number _ => .number
  | .bytes _ => .bytes
  | .map _ => .map
  | .list _ => .list
  | .bool _ => .bool
  | .null _ => .null

/-- Only a null that says so stands for nothing. -/
def isNull : Attribute → Bool
  | .null b => b
  | _ => false

end Attribute

end ChainFollower
