import ConfigContract.Lowering.Attribute
import ConfigContract.Lowering.Labels

/-!
Lowering blocks and bodies. The labels of a block are expanded position by position; where all of
them are resolved, the block's own body and the selected dependent bodies are merged into one
object.
-/

namespace ConfigContract

inductive LowerError where
  | catchAllNotAlone (path : Path)
  | unknownBlockType (path : Path) (blockType : BlockType)
deriving DecidableEq, Repr

namespace LowerError

def message : LowerError → String
  | .catchAllNotAlone path =>
      "unsupported schema at " ++ path.render ++
        ": catch-all attribute declared next to explicit attributes or blocks"
  | .unknownBlockType path blockType =>
      "unrecognized block type " ++ blockType.title ++ " at " ++ path.render

end LowerError

structure Part where
  description : Option String
  lower : Path → Logged LowerError (Lowered Members)

structure Frame where
  description : Option String
  blockType : BlockType
  minItems : UInt64
  maxItems : UInt64
  anyLabel : Bool

/-- The cardinality of a block whose labels are resolved. -/
def effectiveBlockType (path : Path) (anyLabel : Bool) (blockType : BlockType) (maxItems : UInt64) :
    BlockType :=
  if Policy.forcesObject path || maxItems == 1 then .object
  else
    match blockType with
    | .nil => if anyLabel then .object else .list
    | declared => declared

/-- Merges the members of several bodies; a later body's member replaces an earlier one. -/
def mergeParts (path : Path) : List Part → Lowered Members → Logged LowerError (Lowered Members)
  | [], merged => pure merged
  | part :: rest, merged => do
      let body ← part.lower path
      let overridden := body.value.filter fun (key, _) => OrderedMap.contains key merged.value
      Logged.tellAll (overridden.map fun _ => .memberOverridden path)
      mergeParts path rest
        ⟨OrderedMap.insertAll merged.value body.value, merged.fields ++ body.fields⟩

namespace Frame

def expandedDescription (frame : Frame) : String := frame.description.getD ""

/-- The last body's description, or else the block's. -/
def finishedDescription (frame : Frame) (parts : List Part) : String :=
  ((parts.getLast?.bind Part.description).or frame.description).getD ""

def effectiveType (frame : Frame) (path : Path) : BlockType :=
  effectiveBlockType path frame.anyLabel frame.blockType frame.maxItems

/-- A list block hides the computed attributes of its bodies. -/
def listed (frame : Frame) (path : Path) (parts : List Part) :
    Logged LowerError (Lowered Member) := do
  Logged.tell (.assembling path (frame.effectiveType path) parts.length)
  let merged ← mergeParts path parts ⟨[], []⟩
  Logged.tellAll
    (if merged.fields.isEmpty then [] else [.blockFieldsHidden path merged.fields.length])
  let object := ContractType.object (Policy.isOpenObject path) merged.value
  return ⟨.container (frame.finishedDescription parts)
    (.bounded frame.minItems frame.maxItems object), []⟩

def single (frame : Frame) (path : Path) (parts : List Part) :
    Logged LowerError (Lowered Member) := do
  Logged.tell (.assembling path (frame.effectiveType path) parts.length)
  let merged ← mergeParts path parts ⟨[], []⟩
  let object := ContractType.object (Policy.isOpenObject path) merged.value
  return ⟨.container (frame.finishedDescription parts) object, merged.fields⟩

def finish (frame : Frame) (path : Path) (parts : List Part) :
    Logged LowerError (Lowered Member) :=
  match frame.effectiveType path with
  | .object => frame.single path parts
  | .list | .set => frame.listed path parts
  | other => .fail (.unknownBlockType path other)

def forEachValue (lower : String → Part → Logged LowerError (Lowered Member)) :
    OrderedMap String Part → Logged LowerError (Lowered Members)
  | [] => pure ⟨[], []⟩
  | (value, part) :: rest => do
      let member ← lower value part
      let others ← forEachValue lower rest
      return ⟨(value, member.value) :: others.value, member.fields ++ others.fields⟩

/-- Expands the labels that are left; `parts` holds the bodies that apply so far. -/
def expand (frame : Frame) :
    List (LabelChoice Part) → List Part → Path → Logged LowerError (Lowered Member)
  | [], parts, path => frame.finish path parts
  | .anyValue :: rest, parts, path => do
      let inner ← expand frame rest parts path.wildcard
      return ⟨.container frame.expandedDescription (.dictionary inner.value.type), inner.fields⟩
  | .known values :: rest, parts, path => do
      let content ← forEachValue
        (fun value part => expand frame rest (parts ++ [part]) (path.child value)) values
      let object := ContractType.object (Policy.isOpenObject path) content.value
      return ⟨.container frame.expandedDescription object, content.fields⟩

end Frame

/-- A body that accepts any attribute, if it is the block's own, has to declare nothing else; the
block is then a dictionary. -/
def lowerCatchAll (description : Option String) (body : Option Body) (path : Path) :
    Option (Logged LowerError (Lowered Member)) :=
  match body with
  | some ⟨_, attributes, blocks, some declared⟩ =>
      if attributes.isEmpty && blocks.isEmpty then
        some do
          let inner ← (declared.lower path.wildcard).logged
          return ⟨.container (description.getD "") (.dictionary inner.value.type), inner.fields⟩
      else some (.fail (.catchAllNotAlone path))
  | _ => none

mutual

/-- Attributes first, then blocks; a block replaces an attribute of the same name. -/
def Body.lower : Body → Path → Logged LowerError (Lowered Members)
  | ⟨_, attributes, blocks, _⟩ => fun path => do
      let declared ← (lowerAttributes attributes path).logged
      lowerBlocks blocks path declared

/-- Writes blocks over the members lowered before them. -/
def lowerBlocks : List (String × Block) → Path → Lowered Members →
    Logged LowerError (Lowered Members)
  | [], _, merged => pure merged
  | (key, block) :: rest, path, merged => do
      let member ← block.lower (path.child key)
      lowerBlocks rest path
        ⟨OrderedMap.insert key member.value merged.value, merged.fields ++ member.fields⟩

def Block.lower : Block → Path → Logged LowerError (Lowered Member)
  | ⟨description, labels, blockType, minItems, maxItems, body, dependents⟩ => fun path =>
      match lowerCatchAll description body path with
      | some outcome => outcome
      | none =>
          let choices := LabelChoice.ofLabels (dependentParts dependents) 0 labels
          let anyLabel := choices.any LabelChoice.isAnyValue
          Frame.expand { description, blockType, minItems, maxItems, anyLabel } choices
            (ownParts body) path

def ownParts : Option Body → List Part
  | none => []
  | some body => [⟨body.description, fun path => body.lower path⟩]

def dependentParts : List DependentBody → List (List LabelKey × Part)
  | [] => []
  | ⟨keys, body⟩ :: rest =>
      (keys, ⟨body.description, fun path => body.lower path⟩) :: dependentParts rest

end

namespace Body

def part (body : Body) : Part := ⟨body.description, body.lower⟩

def lowerAll (bodies : List Body) (path : Path) : Logged LowerError (Lowered Members) :=
  mergeParts path (bodies.map part) ⟨[], []⟩

end Body

namespace Contract

/-- Lowers several root bodies as one module; later bodies win. -/
def ofBodies (bodies : List Body) : Logged LowerError Contract := do
  let lowered ← Body.lowerAll bodies .root
  Logged.tell (.lowered bodies.length lowered.value.length lowered.fields.length)
  return ⟨lowered.fields, lowered.value⟩

def ofBody (body : Body) : Logged LowerError Contract := ofBodies [body]

end Contract

end ConfigContract
