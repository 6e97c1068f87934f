import ConfigContract.Contract.Basic
import ConfigContract.Path

/-!
Walks through the tree of a contract: into the members of an object by key, and into the content of
a dictionary by the segment that stands for any label. No walk enters a list.
-/

namespace ConfigContract

inductive Spot where
  | member (reached : Member)
  /-- What a dictionary holds. -/
  | content (held : ContractType)

namespace Spot

def type : Spot → ContractType
  | .member reached => reached.type
  | .content held => held

def computed : Spot → Bool
  | .member reached => reached.computed
  | .content _ => false

@[simp] theorem type_member (reached : Member) : (member reached).type = reached.type := rfl

@[simp] theorem type_content (held : ContractType) : (content held).type = held := rfl

end Spot

def ContractType.part? : ContractType → String → Option Spot
  | .object _ content, segment => (OrderedMap.get? segment content).map .member
  | .dictionary content, segment =>
      if segment = Path.anyLabel then some (.content content) else none
  | _, _ => none

namespace Spot

def follow? : Spot → List String → Option Spot
  | spot, [] => some spot
  | spot, segment :: rest => (spot.type.part? segment).bind fun next => follow? next rest

@[simp] theorem follow?_nil (spot : Spot) : spot.follow? [] = some spot := rfl

@[simp] theorem follow?_cons (spot : Spot) (segment : String) (rest : List String) :
    spot.follow? (segment :: rest) =
      (spot.type.part? segment).bind fun next => next.follow? rest := rfl

theorem follow?_append (spot : Spot) (first second : List String) :
    spot.follow? (first ++ second) = (spot.follow? first).bind fun next => next.follow? second := by
  induction first generalizing spot with
  | nil => rfl
  | cons segment rest ih =>
      cases found : spot.type.part? segment with
      | none => simp [found]
      | some next => simp [found, ih]

/-- Only the type of the start decides where segments lead. -/
theorem follow?_of_type_eq {spot last : Spot} {segments : List String} (other : Spot)
    (same : other.type = spot.type) (plain : other.computed = false)
    (followed : spot.follow? segments = some last) (lastPlain : last.computed = false) :
    ∃ reached, other.follow? segments = some reached ∧ reached.type = last.type ∧
      reached.computed = false := by
  cases segments with
  | nil =>
      cases followed
      exact ⟨other, rfl, same, plain⟩
  | cons segment rest =>
      rw [follow?_cons, ← same] at followed
      exact ⟨last, followed, rfl, lastPlain⟩

end Spot

namespace Members

def find? (schema : Members) : List String → Option Spot
  | [] => none
  | key :: rest => (OrderedMap.get? key schema).bind fun member => (Spot.member member).follow? rest

end Members

end ConfigContract
