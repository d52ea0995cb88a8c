import ChainFollower.Dict
import ChainFollower.Number.Binary64

/-!
# Documents as data

A document value: what a payload says once its spelling is forgotten.  The members of an object keep
the order in which they are written; `Json.sorted` puts them in the order of their names, the last
of several members of one name replacing the others, and that is the form in which parts of a
payload are passed on unread.
-/

namespace ChainFollower

/-- A document value. -/
inductive Json
  | null
  | bool (b : Bool)
  | int (n : Int)
  | float (x : Binary64)
  | text (s : String)
  | array (items : List Json)
  | object (members : List (String × Json))

instance : Inhabited Json := ⟨.null⟩

namespace Json

mutual

/-- The document with the members of every object sorted. -/
def sorted : Json → Json
  | .array items => .array (sortedItems items)
  | .object members => .object (Entries.sort (sortedMembers members))
  | j => j

/-- `sorted` on each item. -/
def sortedItems : List Json → List Json
  | [] => []
  | j :: rest => j.sorted :: sortedItems rest

/-- `sorted` on each member's value. -/
def sortedMembers : List (String × Json) → List (String × Json)
  | [] => []
  | (k, j) :: rest => (k, j.sorted) :: sortedMembers rest

end

/-- The first member of that name. -/
def member? (name : String) : Json → Option Json
  | .object members => members.lookup name
  | _ => none

/-- The text, if the document is one. -/
def text? : Json → Option String
  | .text s => some s
  | _ => none

/-- Whether the document is `null`. -/
def isNull : Json → Bool
  | .null => true
  | _ => false

/-- Whether the document is an object. -/
def isObject : Json → Bool
  | .object _ => true
  | _ => false

/-- Whether the document is an array. -/
def isArray : Json → Bool
  | .array _ => true
  | _ => false

/-- The member of that name, unless it is absent or `null`. -/
def present? (name : String) (j : Json) : Option Json :=
  (j.member? name).filter fun v => !v.isNull

end Json

/-! ## Integers that a document holds as numbers -/

/-- The least signed and the greatest unsigned sixty-four-bit integer bound what is written as a
number; integers beyond are written as texts. -/
def FitsWord (n : Int) : Prop := -0x8000000000000000 ≤ n ∧ n < 0x10000000000000000

instance (n : Int) : Decidable (FitsWord n) := inferInstanceAs (Decidable (_ ∧ _))

end ChainFollower
