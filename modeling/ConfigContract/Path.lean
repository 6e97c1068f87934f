/-!
Locations in the tree of a module, and the policies that hold at some of them.
-/

namespace ConfigContract

structure Path where
  segments : List String
deriving DecidableEq, Repr

namespace Path

/-- The segment for a label that may have any value. -/
def anyLabel : String := "_"

def root : Path := ⟨[]⟩

def child (path : Path) (segment : String) : Path := ⟨path.segments ++ [segment]⟩

def wildcard (path : Path) : Path := path.child anyLabel

def descend (path : Path) (segments : List String) : Path := ⟨path.segments ++ segments⟩

def last? (path : Path) : Option String := path.segments.getLast?

def length (path : Path) : Nat := path.segments.length

def isEmpty (path : Path) : Bool := path.segments.isEmpty

def render (path : Path) : String :=
  if path.isEmpty then "<root>" else ".".intercalate path.segments

@[simp] theorem segments_child (path : Path) (segment : String) :
    (path.child segment).segments = path.segments ++ [segment] := rfl

@[simp] theorem last?_child (path : Path) (segment : String) :
    (path.child segment).last? = some segment := by simp [last?]

@[simp] theorem descend_nil (path : Path) : path.descend [] = path := by simp [descend]

theorem descend_cons (path : Path) (segment : String) (rest : List String) :
    path.descend (segment :: rest) = (path.child segment).descend rest := by
  simp [descend, child]

end Path

inductive SegmentPattern where
  | literal (segment : String)
  | any
deriving DecidableEq, Repr

namespace SegmentPattern

def accepts : SegmentPattern → String → Bool
  | .literal expected, segment => expected == segment
  | .any, _ => true

end SegmentPattern

/-- A pattern for whole paths: it has a place for each segment. -/
abbrev PathPattern := List SegmentPattern

namespace PathPattern

def accepts : PathPattern → List String → Bool
  | [], [] => true
  | place :: places, segment :: segments => place.accepts segment && accepts places segments
  | _, _ => false

end PathPattern

namespace Policy

/-- Objects here accept keys beyond their declared members. -/
def openObjects : List PathPattern := [
  [.literal "data"],
  [.literal "resource"],
  [.literal "provider"],
  [.literal "terraform", .literal "backend"],
  [.literal "module", .literal Path.anyLabel]]

/-- Blocks here are single objects whatever cardinality they declare. -/
def forcedObjects : List PathPattern := [
  [.literal "terraform"],
  [.literal "terraform", .literal "backend", .any]]

def isOpenObject (path : Path) : Bool :=
  openObjects.any fun pattern => PathPattern.accepts pattern path.segments

def forcesObject (path : Path) : Bool :=
  forcedObjects.any fun pattern => PathPattern.accepts pattern path.segments

end Policy

end ConfigContract
