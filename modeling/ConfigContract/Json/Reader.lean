import ConfigContract.Json.Token

/-!
Readers of JSON values. A reader takes the front of a text and returns a value with the rest, or the
first fault from the left. A container takes one level of the depth that is left to it; the levels
inside it are read by readers of a smaller depth.
-/

namespace ConfigContract

abbrev Reader (α : Type) := StateT Text (Except Fault) α

namespace Reader

variable {α β : Type}

def fail (reason : Reason) : Reader α := fun _ => .error (.here reason)

def within (step : Step) (reader : Reader α) : Reader α := fun text =>
  match reader text with
  | .ok result => .ok result
  | .error fault => .error (fault.within step)

def ofToken (token : Text → Except Reason (α × Text)) : Reader α := fun text =>
  match token text with
  | .ok result => .ok result
  | .error reason => .error (.here reason)

def skipping (token : Text → Except Reason Text) : Reader Unit :=
  ofToken fun text => (token text).map ((), ·)

def mismatch (expected : String) : Text → Reason
  | .char 'n' :: rest => named (Token.word "ull".toList rest) .null
  | .char 't' :: rest => named (Token.word "rue".toList rest) (.boolean true)
  | .char 'f' :: rest => named (Token.word "alse".toList rest) (.boolean false)
  | .char '-' :: rest => numbered (Token.number true rest)
  | .char '"' :: rest =>
      match Token.string rest with
      | .ok (s, _) => .invalidType (.string s) expected
      | .error reason => reason
  | .char '[' :: _ => .invalidType .sequence expected
  | .char '{' :: _ => .invalidType .map expected
  | .char c :: rest =>
      if c.isDigit then numbered (Token.number false (.char c :: rest)) else .expectedValue
  | _ => .expectedValue
where
  named (rest : Except Reason Text) (found : Found) : Reason :=
    match rest with
    | .ok _ => .invalidType found expected
    | .error reason => reason
  numbered (result : Except Reason (JsonNumber × Text)) : Reason :=
    match result with
    | .ok (n, _) => .invalidType (.number n) expected
    | .error reason => reason

/-- Passes over white space; a value has to follow. -/
def start : Reader Unit := fun text =>
  match Token.skipSpace text with
  | [] => .error (.here .endInValue)
  | text => .ok ((), text)

def unexpected (expected : String) : Reader α := fun text =>
  .error (.here (mismatch expected text))

/-! Values without parts -/

def bool : Reader Bool := do
  start
  fun text =>
    match text with
    | .char 't' :: rest => ofToken (fun text => (Token.word "rue".toList text).map (true, ·)) rest
    | .char 'f' :: rest => ofToken (fun text => (Token.word "alse".toList text).map (false, ·)) rest
    | text => unexpected "a boolean" text

def string (expected : String) : Reader String := do
  start
  fun text =>
    match text with
    | .char '"' :: rest => ofToken Token.string rest
    | text => unexpected expected text

def text : Reader String := string "a string"

/-- An integer from zero to `2 ^ 64 - 1`. -/
def unsigned (expected : String) : Reader UInt64 := do
  start
  fun text =>
    match text with
    | .char '-' :: rest => (ofToken (Token.number true) >>= ofNumber) rest
    | .char c :: rest =>
        if c.isDigit then (ofToken (Token.number false) >>= ofNumber) (.char c :: rest)
        else unexpected expected (.char c :: rest)
    | text => unexpected expected text
where
  ofNumber : JsonNumber → Reader UInt64
    | .integer i =>
        if i < 0 then fail (.invalidValue (.number (.integer i)) expected)
        else pure (UInt64.ofNat i.toNat)
    | .float x => fail (.invalidType (.number (.float x)) expected)

def null (expected : String) : Reader Unit := do
  start
  fun text =>
    match text with
    | .char 'n' :: rest => skipping (Token.word "ull".toList) rest
    | text => unexpected expected text

/-- A null stands for an absent value. -/
def optional (reader : Reader α) : Reader (Option α) := fun text =>
  match Token.skipSpace text with
  | .char 'n' :: rest => (skipping (Token.word "ull".toList) >>= fun _ => pure none) rest
  | text => (some <$> reader) text

/-- As many steps as a text has characters, and one more. Reading an item takes a step and at least
one character, so that the characters run out first. -/
def stepsFor (text : Text) : Text := .char ' ' :: text

/-! Values that are passed over -/

inductive Enclosing where
  | list
  | object

mutual

/-- Passes over a value inside the given containers, innermost first, and over all that is left of
them. -/
def skipValue : Text → List Enclosing → Text → Except Reason Text
  | [], _, _ => .error .expectedValue
  | _ :: steps, around, text =>
      match Token.skipSpace text with
      | [] => .error .endInValue
      | .char 'n' :: rest => do skipAfter steps around (← Token.word "ull".toList rest)
      | .char 't' :: rest => do skipAfter steps around (← Token.word "rue".toList rest)
      | .char 'f' :: rest => do skipAfter steps around (← Token.word "alse".toList rest)
      | .char '-' :: rest => do skipAfter steps around (← Token.skipNumber rest)
      | .char '"' :: rest => do skipAfter steps around (← Token.skipString rest)
      | .char '[' :: rest =>
          match Token.skipSpace rest with
          | [] => .error .endInList
          | .char ']' :: rest => skipAfter steps around rest
          | rest => skipValue steps (.list :: around) rest
      | .char '{' :: rest =>
          match Token.skipSpace rest with
          | .char '}' :: rest => skipAfter steps around rest
          | rest => skipMember steps around rest
      | .char c :: rest =>
          if c.isDigit then do skipAfter steps around (← Token.skipNumber (.char c :: rest))
          else .error .expectedValue
      | .stray _ :: _ => .error .expectedValue

def skipMember : Text → List Enclosing → Text → Except Reason Text
  | [], _, _ => .error .expectedValue
  | _ :: steps, around, text =>
      match Token.skipSpace text with
      | [] => .error .endInObject
      | .char '"' :: rest => do
          match Token.skipSpace (← Token.skipString rest) with
          | [] => .error .endInObject
          | .char ':' :: rest => skipValue steps (.object :: around) rest
          | _ => .error .expectedColon
      | _ => .error .keyNotString

def skipAfter : Text → List Enclosing → Text → Except Reason Text
  | [], _, _ => .error .expectedValue
  | _, [], text => .ok text
  | _ :: steps, .list :: around, text =>
      match Token.skipSpace text with
      | [] => .error .endInList
      | .char ',' :: rest => skipValue steps (.list :: around) rest
      | .char ']' :: rest => skipAfter steps around rest
      | _ => .error .expectedListComma
  | _ :: steps, .object :: around, text =>
      match Token.skipSpace text with
      | [] => .error .endInObject
      | .char ',' :: rest => skipMember steps around rest
      | .char '}' :: rest => skipAfter steps around rest
      | _ => .error .expectedObjectComma

end

def skip : Reader Unit :=
  skipping fun text => skipValue (stepsFor text) [] text

/-! Containers -/

/-- Takes the opening bracket, if there is a level left for what it opens. -/
def enter (depth : Nat) (rest : Text) : Except Fault (Unit × Text) :=
  if depth = 0 then .error (.here .recursionLimit) else .ok ((), rest)

/-- Whether another item follows in an array; the closing bracket stays. -/
def nextItem (first : Bool) : Reader Bool := fun text =>
  match Token.skipSpace text with
  | [] => .error (.here .endInList)
  | .char ']' :: rest => .ok (false, .char ']' :: rest)
  | .char ',' :: rest =>
      if first then .ok (true, .char ',' :: rest)
      else
        match Token.skipSpace rest with
        | [] => .error (.here .endInValue)
        | .char ']' :: _ => .error (.here .trailingComma)
        | rest => .ok (true, rest)
  | text => if first then .ok (true, text) else .error (.here .expectedListComma)

def closeArray : Reader Unit := fun text =>
  match Token.skipSpace text with
  | [] => .error (.here .endInList)
  | .char ']' :: rest => .ok ((), rest)
  | .char ',' :: rest =>
      match Token.skipSpace rest with
      | .char ']' :: _ => .error (.here .trailingComma)
      | _ => .error (.here .trailingCharacters)
  | _ => .error (.here .trailingCharacters)

/-- The next key of an object, if there is one; the closing brace stays. -/
def nextKey (first : Bool) : Reader (Option String) :=
  within .unknown fun text =>
    match Token.skipSpace text with
    | [] => .error (.here .endInObject)
    | .char '}' :: rest => .ok (none, .char '}' :: rest)
    | .char ',' :: rest =>
        if first then .error (.here .keyNotString)
        else
          match Token.skipSpace rest with
          | [] => .error (.here .endInValue)
          | .char '}' :: _ => .error (.here .trailingComma)
          | rest => key rest
    | text => if first then key text else .error (.here .expectedObjectComma)
where
  key : Reader (Option String) := fun text =>
    match text with
    | .char '"' :: rest => (some <$> ofToken Token.string) rest
    | _ => .error (.here .keyNotString)

def colon : Reader Unit := fun text =>
  match Token.skipSpace text with
  | [] => .error (.here .endInObject)
  | .char ':' :: rest => .ok ((), rest)
  | _ => .error (.here .expectedColon)

def closeObject : Reader Unit := fun text =>
  match Token.skipSpace text with
  | [] => .error (.here .endInObject)
  | .char '}' :: rest => .ok ((), rest)
  | .char ',' :: _ => .error (.here .trailingComma)
  | _ => .error (.here .trailingCharacters)

def items (item : Reader α) : Text → Nat → Reader (List α)
  | [], _ => fail .recursionLimit
  | _ :: steps, position => do
      if ← nextItem (position == 0) then
        let value ← within (.index position) item
        let rest ← items item steps (position + 1)
        return value :: rest
      else return []

def insideArray (depth : Nat) (item : Reader α) : Reader (List α) := fun text =>
  (do
    enter depth
    let values ← items item (stepsFor text) 0
    closeArray
    return values : Reader (List α)) text

def list (depth : Nat) (item : Reader α) : Reader (List α) := do
  start
  fun text =>
    match text with
    | .char '[' :: rest => insideArray depth item rest
    | text => unexpected "a sequence" text

def entries (value : Reader α) : Text → Bool → OrderedMap String α → Reader (OrderedMap String α)
  | [], _, _ => fail .recursionLimit
  | _ :: steps, first, known => do
      match ← nextKey first with
      | none => return known
      | some key =>
          colon
          let item ← within (.key key) value
          entries value steps false (OrderedMap.insert key item known)

/-- An object with free keys, after its opening brace. A key given again replaces the value and
keeps its place. -/
def insideObject (depth : Nat) (value : Reader α) : Reader (OrderedMap String α) := fun text =>
  (do
    enter depth
    let result ← entries value (stepsFor text) true []
    closeObject
    return result : Reader (OrderedMap String α)) text

def map (depth : Nat) (value : Reader α) : Reader (OrderedMap String α) := do
  start
  fun text =>
    match text with
    | .char '{' :: rest => insideObject depth value rest
    | text => unexpected "a map" text

/-- A value of any kind; the values inside it are read by `inner`. -/
def anyValue (depth : Nat) (inner : Reader Json) : Reader Json := do
  start
  fun text =>
    match text with
    | .char 'n' :: rest => (skipping (Token.word "ull".toList) >>= fun _ => pure .null) rest
    | .char 't' :: rest =>
        (skipping (Token.word "rue".toList) >>= fun _ => pure (.bool true)) rest
    | .char 'f' :: rest =>
        (skipping (Token.word "alse".toList) >>= fun _ => pure (.bool false)) rest
    | .char '-' :: rest => (Json.number <$> ofToken (Token.number true)) rest
    | .char '"' :: rest => (Json.string <$> ofToken Token.string) rest
    | .char '[' :: rest => (Json.array <$> insideArray depth inner) rest
    | .char '{' :: rest => (Json.object <$> insideObject depth inner) rest
    | .char c :: rest =>
        if c.isDigit then (Json.number <$> ofToken (Token.number false)) (.char c :: rest)
        else .error (.here .expectedValue)
    | _ => .error (.here .expectedValue)

/-! Records -/

/-- A field of a record: what reading it changes in the record, and whether it has to be there. -/
structure RecordField (α : Type) where
  name : String
  required : Bool
  read : α → Reader α

def field (name : String) (reader : Reader β) (set : α → β → α) : RecordField α :=
  ⟨name, false, fun record => set record <$> reader⟩

def required (name : String) (reader : Reader β) (set : α → β → α) : RecordField α :=
  ⟨name, true, fun record => set record <$> reader⟩

/-- The members after those already read. Unknown members are passed over. -/
def members (fields : List (RecordField α)) :
    Text → Bool → List String → α → Reader (List String × α)
  | [], _, _, _ => fail .recursionLimit
  | _ :: steps, first, seen, record => do
      match ← nextKey first with
      | none => return (seen, record)
      | some key =>
          match fields.find? (·.name == key) with
          | none =>
              colon
              within (.key key) skip
              members fields steps false seen record
          | some field =>
              if key ∈ seen then fail (.duplicateField key)
              else
                colon
                let record ← within (.key key) (field.read record)
                members fields steps false (key :: seen) record

/-- A record as an array of its fields in order; optional fields may be missing at the end. -/
def positional (expected : String) : List (RecordField α) → Nat → α → Reader α
  | [], _, record => return record
  | field :: rest, position, record => do
      if ← nextItem (position == 0) then
        let record ← within (.index position) (field.read record)
        positional expected rest (position + 1) record
      else if field.required then fail (.invalidLength position expected)
      else positional expected rest (position + 1) record

def withElements (expected : String) (count : Nat) : String :=
  if count = 1 then expected ++ " with 1 element" else expected ++ s!" with {count} elements"

/-- A record, from an object or an array; `initial` holds the defaults of its optional fields. -/
def record (expected : String) (depth : Nat) (fields : List (RecordField α)) (initial : α) :
    Reader α := do
  start
  fun text =>
    match text with
    | .char '[' :: rest =>
        (do
          enter depth
          let result ← positional (withElements expected fields.length) fields 0 initial
          closeArray
          return result : Reader α) rest
    | .char '{' :: rest =>
        (do
          enter depth
          let (seen, result) ← members fields (stepsFor rest) true [] initial
          match fields.find? fun field => field.required && !seen.contains field.name with
          | some field => fail (.missingField field.name)
          | none =>
              closeObject
              return result : Reader α) rest
    | text => unexpected expected text

/-! Tagged alternatives -/

inductive Payload (α : Type) where
  | unit (value : α)
  | newtype (read : Reader α)
  | struct (read : Reader α)

structure Variant (α : Type) where
  name : String
  payload : Payload α

namespace Variant

def unit (name : String) (value : α) : Variant α := ⟨name, .unit value⟩

def newtype (name : String) (reader : Reader β) (build : β → α) : Variant α :=
  ⟨name, .newtype (build <$> reader)⟩

def struct (name : String) (reader : Reader β) (build : β → α) : Variant α :=
  ⟨name, .struct (build <$> reader)⟩

/-- The alternative when only its name is given. -/
def bare (variant : Variant α) : Reader α :=
  match variant.payload with
  | .unit value => pure value
  | .newtype _ => fail (.invalidType .unitVariant "newtype variant")
  | .struct _ => fail (.invalidType .unitVariant "struct variant")

/-- The alternative when a value stands beside its name. -/
def loaded (variant : Variant α) : Reader α :=
  match variant.payload with
  | .unit value => do
      null "unit"
      return value
  | .newtype read => read
  | .struct read => read

end Variant

def findVariant (variants : List (Variant α)) (name : String) : Reader (Variant α) :=
  match variants.find? (·.name == name) with
  | some variant => pure variant
  | none => fail (.unknownVariant name (variants.map (·.name)))

def variantKey : Reader String := fun text =>
  match Token.skipSpace text with
  | [] => .error (.here .endInObject)
  | .char '"' :: rest => ofToken Token.string rest
  | .char '}' :: _ => .error (.here .expectedValue)
  | _ => .error (.here .keyNotString)

/-- An alternative: its name as a string, or an object whose only key is the name. -/
def variants (depth : Nat) (alternatives : List (Variant α)) : Reader α := do
  start
  fun text =>
    match text with
    | .char '"' :: rest =>
        (do
          let name ← ofToken Token.string
          let variant ← findVariant alternatives name
          within (.key name) variant.bare : Reader α) rest
    | .char '{' :: rest =>
        (do
          enter depth
          let name ← variantKey
          let variant ← findVariant alternatives name
          colon
          let value ← within (.key name) variant.loaded
          close
          return value : Reader α) rest
    | _ => .error (.here .expectedValue)
where
  close : Reader Unit := fun text =>
    match Token.skipSpace text with
    | [] => .error (.here .endInObject)
    | .char '}' :: rest => .ok ((), rest)
    | _ => .error (.here .expectedValue)

/-! Levels -/

/-- Takes no level and reads nothing: stands inside a container for which no level is left. -/
def refused : Reader α := fail .recursionLimit

instance : Inhabited (Reader α) := ⟨refused⟩

section Levels

variable {ρ σ : Type} [Inhabited ρ] [Inhabited σ]

/-- The readers for what stands inside a container of some depth, made level by level from those
that read nothing. -/
def below (atDepth : Nat → ρ → ρ) : Nat → ρ
  | 0 => default
  | depth + 1 => atDepth depth (below atDepth depth)

theorem below_induction {atDepth : Nat → ρ → ρ} {good : ρ → Prop} (nothing : good default)
    (level : ∀ {inner}, good inner → ∀ depth, good (atDepth depth inner)) (depth : Nat) :
    good (below atDepth depth) := by
  induction depth with
  | zero => exact nothing
  | succ depth ih => exact level ih depth

/-- Readers that are part of others go down the levels with them. -/
theorem project_below {atDepth : Nat → ρ → ρ} {partAtDepth : Nat → σ → σ} (project : ρ → σ)
    (nothing : project default = default)
    (level : ∀ depth inner, project (atDepth depth inner) = partAtDepth depth (project inner))
    (depth : Nat) : project (below atDepth depth) = below partAtDepth depth := by
  induction depth with
  | zero => exact nothing
  | succ depth ih => rw [below, level, ih, below]

end Levels

/-- A JSON value of at most the given depth. -/
def json (depth : Nat) : Reader Json := anyValue depth (below anyValue depth)

/-- How many containers may stand inside each other. -/
def greatestDepth : Nat := 127

/-- The value at the front of a text. -/
def run (reader : Reader α) (text : Text) : Except Fault α := Prod.fst <$> reader text

end Reader

end ConfigContract
