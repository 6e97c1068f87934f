import ConfigContract.OrderedMap
import ConfigContract.Number.Shortest

/-!
JSON values. Objects keep the order of their members.
-/

namespace ConfigContract

/-- An integer, or a number that was written with a fraction, an exponent, or too many digits. -/
inductive JsonNumber where
  | integer (value : Int)
  | float (value : Binary64)
deriving DecidableEq, Repr

inductive Json where
  | null
  | bool (value : Bool)
  | number (value : JsonNumber)
  | string (value : String)
  | array (items : List Json)
  | object (members : List (String × Json))

namespace Json

/-- An object without the members that are absent. -/
def record (members : List (Option (String × Json))) : Json := .object (members.filterMap id)

def natural (n : Nat) : Json := .number (.integer n)

def unsigned (n : UInt64) : Json := natural n.toNat

def strings (items : List String) : Json := .array (items.map .string)

mutual

/-- How many arrays and objects stand around the innermost value. -/
def depth : Json → Nat
  | .array items => 1 + itemsDepth items
  | .object members => 1 + membersDepth members
  | _ => 0

def itemsDepth : List Json → Nat
  | [] => 0
  | item :: rest => max (depth item) (itemsDepth rest)

def membersDepth : List (String × Json) → Nat
  | [] => 0
  | (_, value) :: rest => max (depth value) (membersDepth rest)

end

end Json

end ConfigContract
