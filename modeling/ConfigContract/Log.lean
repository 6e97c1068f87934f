import ConfigContract.Path
import ConfigContract.Provider.Address
import ConfigContract.Provider.Version
import ConfigContract.Schema.Basic
import ConfigContract.Text.Quoted

/-!
Events that are worth telling while a result is computed, and computations that report them whether
they succeed or fail.
-/

namespace ConfigContract

inductive Level where
  | trace
  | debug
  | info
  | warn
deriving DecidableEq, Repr

def Level.name : Level → String
  | .trace => "TRACE"
  | .debug => "DEBUG"
  | .info => "INFO"
  | .warn => "WARN"

inductive Event where
  | elementFieldsHidden (path : Path) (hidden : Nat)
  | assembling (path : Path) (blockType : BlockType) (bodies : Nat)
  | blockFieldsHidden (path : Path) (hidden : Nat)
  | memberOverridden (path : Path)
  | lowered (bodies members computedFields : Nat)
  | configured (localName : String) (address : Address) (version : Version)
  | addressShared (address : Address) (shadowed : String)
  | opened (directory : String) (providers : Nat)
  | loaded (address : Address) (version : Version) (resources dataSources : Nat)
  | merging (localName : String) (address : Address) (resources dataSources : Nat)
  | bodyDropped (block value : String)
deriving DecidableEq, Repr

def BlockType.title : BlockType → String
  | .nil => "Nil"
  | .object => "Object"
  | .list => "List"
  | .set => "Set"
  | .map => "Map"

namespace Event

def level : Event → Level
  | .elementFieldsHidden .. | .assembling .. => .trace
  | .blockFieldsHidden .. | .memberOverridden .. | .configured .. => .debug
  | .lowered .. | .opened .. | .loaded .. | .merging .. => .info
  | .addressShared .. | .bodyDropped .. => .warn

def message : Event → String
  | .elementFieldsHidden .. => "dropping computed fields inside list element"
  | .assembling .. => "assembling block body"
  | .blockFieldsHidden .. => "dropping computed fields under list block"
  | .memberOverridden .. => "later body overrides an earlier member"
  | .lowered .. => "lowered module schema"
  | .configured .. => "configured provider"
  | .addressShared .. => "several local names share one provider address"
  | .opened .. => "opened provider store"
  | .loaded .. => "loaded provider schema"
  | .merging .. => "merging provider"
  | .bodyDropped .. => "core schema lacks block; dependent body dropped"

def details : Event → List (String × String)
  | .elementFieldsHidden path hidden => [("path", path.render), ("hidden", toString hidden)]
  | .assembling path blockType bodies =>
      [("path", path.render), ("block_type", blockType.title), ("bodies", toString bodies)]
  | .blockFieldsHidden path hidden => [("path", path.render), ("hidden", toString hidden)]
  | .memberOverridden path => [("path", path.render)]
  | .lowered bodies members computedFields =>
      [("bodies", toString bodies), ("attributes", toString members),
        ("computed_fields", toString computedFields)]
  | .configured localName address version =>
      [("local_name", localName), ("address", address.render), ("version", version.render)]
  | .addressShared address shadowed => [("address", address.render), ("shadowed", shadowed)]
  | .opened directory providers => [("dir", directory), ("providers", toString providers)]
  | .loaded address version resources dataSources =>
      [("address", address.render), ("version", version.render),
        ("resources", toString resources), ("data_sources", toString dataSources)]
  | .merging localName address resources dataSources =>
      [("local_name", localName), ("address", address.render),
        ("resources", toString resources), ("data_sources", toString dataSources)]
  | .bodyDropped block value => [("block", Quoted.quote block), ("value", Quoted.quote value)]

def line (event : Event) : String :=
  event.level.name ++ " " ++ event.message ++
    String.join (event.details.map fun (name, value) => " " ++ name ++ "=" ++ value)

end Event

/-- A result, or an error, with the events up to there. -/
structure Logged (ε α : Type) where
  events : List Event
  result : Except ε α

namespace Logged

variable {ε α β : Type}

def ok (value : α) : Logged ε α := ⟨[], .ok value⟩

def fail (error : ε) : Logged ε α := ⟨[], .error error⟩

def tell (event : Event) : Logged ε Unit := ⟨[event], .ok ()⟩

def tellAll (events : List Event) : Logged ε Unit := ⟨events, .ok ()⟩

def bind (first : Logged ε α) (next : α → Logged ε β) : Logged ε β :=
  match first.result with
  | .error error => ⟨first.events, .error error⟩
  | .ok value => ⟨first.events ++ (next value).events, (next value).result⟩

instance : Monad (Logged ε) where
  pure := ok
  bind := bind

def ofExcept (result : Except ε α) : Logged ε α := ⟨[], result⟩

def mapError {δ : Type} (f : ε → δ) (logged : Logged ε α) : Logged δ α :=
  ⟨logged.events, logged.result.mapError f⟩

@[simp] theorem result_pure (value : α) : (pure value : Logged ε α).result = .ok value := rfl

@[simp] theorem result_bind (first : Logged ε α) (next : α → Logged ε β) :
    (first >>= next).result = first.result >>= fun value => (next value).result := by
  show (bind first next).result = _
  unfold bind
  cases first.result <;> rfl

@[simp] theorem result_tell (event : Event) : (tell event : Logged ε Unit).result = .ok () := rfl

@[simp] theorem result_tellAll (events : List Event) :
    (tellAll events : Logged ε Unit).result = .ok () := rfl

@[simp] theorem result_fail (error : ε) : (fail error : Logged ε α).result = .error error := rfl

theorem ofExcept_ok_bind (value : α) (next : α → Logged ε β) :
    (ofExcept (.ok value) >>= next) = next value := rfl

@[simp] theorem result_mapError {δ : Type} (f : ε → δ) (logged : Logged ε α) :
    (logged.mapError f).result = logged.result.mapError f := rfl

@[simp] theorem result_ofExcept (result : Except ε α) : (ofExcept result).result = result := rfl

end Logged

end ConfigContract
