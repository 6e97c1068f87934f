import ConfigContract.Schema.Basic

/-!
What the label positions of a block range over. A completable position ranges over the values that
dependent bodies name for it; any other position may have any value.
-/

namespace ConfigContract

/-- The choices at a label position; each known value selects something. -/
inductive LabelChoice (α : Type) where
  | anyValue
  | known (values : OrderedMap String α)

namespace LabelChoice

variable {α : Type}

def isAnyValue : LabelChoice α → Bool
  | .anyValue => true
  | .known _ => false

def values : LabelChoice α → OrderedMap String α
  | .anyValue => []
  | .known values => values

/-- The values that keys name for a position, of equal ones the last. -/
def collect (index : Nat) (dependents : List (List LabelKey × α)) : OrderedMap String α :=
  dependents.foldl (fun values (keys, selected) =>
    (keys.filter fun key => key.index.toNat == index).foldl
      (fun values key => OrderedMap.insert key.value selected values) values) []

def ofLabels (dependents : List (List LabelKey × α)) : Nat → List Label → List (LabelChoice α)
  | _, [] => []
  | index, label :: rest =>
      (if label.completable then .known (collect index dependents) else .anyValue) ::
        ofLabels dependents (index + 1) rest

end LabelChoice

namespace Block

/-- The choices at each label position; known values select dependent bodies. -/
def labelChoices (block : Block) : List (LabelChoice Body) :=
  LabelChoice.ofLabels (block.dependents.map fun dependent => (dependent.keys, dependent.body)) 0
    block.labels

end Block

end ConfigContract
