import ConfigContract.Provider.Version
import ConfigContract.Text.Split

/-!
Constraints on versions: requirements between commas, all of which have to hold.
-/

namespace ConfigContract

inductive Operator where
  | equal
  | different
  | greater
  | atLeast
  | less
  | atMost
  /-- Lets only the rightmost written segment grow. -/
  | pessimistic
deriving DecidableEq, Repr

namespace Operator

def symbol : Operator → String
  | .equal => "="
  | .different => "!="
  | .greater => ">"
  | .atLeast => ">="
  | .less => "<"
  | .atMost => "<="
  | .pessimistic => "~>"

/-- The operator at the front, the longest one that fits; without one, equality is meant. -/
def scan : List Char → Operator × List Char
  | '=' :: rest => (.equal, rest)
  | '!' :: '=' :: rest => (.different, rest)
  | '>' :: '=' :: rest => (.atLeast, rest)
  | '<' :: '=' :: rest => (.atMost, rest)
  | '>' :: rest => (.greater, rest)
  | '<' :: rest => (.less, rest)
  | '~' :: '>' :: rest => (.pessimistic, rest)
  | rest => (.equal, rest)

end Operator

structure Requirement where
  operator : Operator
  version : Version
  /-- How many numeric segments the version was written with. -/
  precision : Nat
deriving DecidableEq, Repr

namespace Requirement

def allows (requirement : Requirement) (candidate : Version) : Bool :=
  let version := requirement.version
  match requirement.operator with
  | .equal => candidate == version
  | .different => candidate != version
  | .greater => (Version.order candidate version).isGT
  | .atLeast => (Version.order candidate version).isGE
  | .less => (Version.order candidate version).isLT
  | .atMost => (Version.order candidate version).isLE
  | .pessimistic =>
      (Version.order candidate version).isGE &&
        match requirement.precision with
        | 1 => true
        | 2 => candidate.major == version.major
        | _ => candidate.major == version.major && candidate.minor == version.minor

def render (requirement : Requirement) : String :=
  requirement.operator.symbol ++ " " ++ requirement.version.render

/-- An operator or none, white space, and a version without white space inside. -/
def parse (part : List Char) : Option Requirement :=
  let (operator, rest) := Operator.scan (trimBlank part)
  let written := rest.dropWhile isBlank
  if written.any isBlank then none
  else
    (Version.parseWithPrecision (String.ofList written)).map fun (version, precision) =>
      { operator, version, precision }

end Requirement

/-- The empty constraint allows every version. -/
structure VersionConstraint where
  requirements : List Requirement := []
deriving DecidableEq, Repr

namespace VersionConstraint

def exactly (version : Version) : VersionConstraint := ⟨[⟨.equal, version, 3⟩]⟩

def parse (input : String) : Option VersionConstraint :=
  if (trimBlank input.toList).isEmpty then some {}
  else ((splitAtChar ',' input.toList).mapM Requirement.parse).map VersionConstraint.mk

def allows (constraint : VersionConstraint) (version : Version) : Bool :=
  constraint.requirements.all fun requirement => requirement.allows version

def render (constraint : VersionConstraint) : String :=
  ", ".intercalate (constraint.requirements.map Requirement.render)

end VersionConstraint

end ConfigContract
