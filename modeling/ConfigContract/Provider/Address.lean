import ConfigContract.Text.Blank
import ConfigContract.Text.Split

/-!
Source addresses of providers: `host/owner/kind`, where the host and the owner may be left out.
-/

namespace ConfigContract

structure Address where
  host : String
  owner : String
  kind : String
deriving DecidableEq, Repr

inductive AddressFault where
  | parts
  | host
  | owner
  | kind
  | packageName
deriving DecidableEq, Repr

def AddressFault.message : AddressFault → String
  | .parts => "expected [hostname/]namespace/type"
  | .host => "invalid hostname"
  | .owner => "invalid namespace"
  | .kind => "invalid provider type"
  | .packageName => "provider type must not carry the terraform-provider- prefix"

namespace Address

/-- The registry of an address without a host. -/
def defaultHost : String := "registry.terraform.io"

/-- The owner of an address that is a bare kind. -/
def defaultOwner : String := "hashicorp"

/-- The start of a package name, which is not the name of a kind. -/
def packageStart : String := "terraform-provider-"

def isAlphanumeric (c : Char) : Bool := ('0' ≤ c && c ≤ '9') || ('a' ≤ c && c ≤ 'z')

/-- Letters and digits at both ends, and characters of a larger class between them. -/
def isName (inner : Char → Bool) (s : List Char) : Bool :=
  match s.head?, s.getLast? with
  | some first, some last =>
      isAlphanumeric first && isAlphanumeric last && s.all fun c => isAlphanumeric c || inner c
  | _, _ => false

def isSegment (s : List Char) : Bool := isName (· == '-') s

/-- A name that may hold points, and optionally a colon and digits. -/
def isHost (s : List Char) : Bool :=
  isName (fun c => c == '.' || c == '-') (s.takeWhile (· != ':')) &&
    match s.dropWhile (· != ':') with
    | [] => true
    | _ :: digits => !digits.isEmpty && digits.all fun c => '0' ≤ c && c ≤ '9'

def complete : List (List Char) → Option (List Char × List Char × List Char)
  | [kind] => some (defaultHost.toList, defaultOwner.toList, kind)
  | [owner, kind] => some (defaultHost.toList, owner, kind)
  | [host, owner, kind] => some (host, owner, kind)
  | _ => none

/-- Letters in lower case, without white space around. -/
def normalize (source : String) : List Char := (trimBlank source.toList).map Char.toLower

def parse (source : String) : Except AddressFault Address :=
  match complete (splitAtChar '/' (normalize source)) with
  | none => .error .parts
  | some (host, owner, kind) =>
      if !isHost host then .error .host
      else if !isSegment owner then .error .owner
      else if !isSegment kind then .error .kind
      else if packageStart.toList.isPrefixOf kind then .error .packageName
      else .ok ⟨String.ofList host, String.ofList owner, String.ofList kind⟩

def render (address : Address) : String :=
  address.host ++ "/" ++ address.owner ++ "/" ++ address.kind

/-- By host, then owner, then kind. -/
def order (a b : Address) : Ordering :=
  (compare a.host b.host).then ((compare a.owner b.owner).then (compare a.kind b.kind))

def sort (addresses : List Address) : List Address :=
  addresses.mergeSort fun a b => (order a b).isLE

end Address

end ConfigContract
