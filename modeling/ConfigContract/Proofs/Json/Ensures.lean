import ConfigContract.Proofs.Json.Reads
import ConfigContract.Proofs.OrderedMap

/-!
What holds of every value that a reader yields, whatever the text is.
-/

namespace ConfigContract

namespace Reader

variable {α β : Type}

def Ensures (reader : Reader α) (good : α → Prop) : Prop :=
  ∀ ⦃text value rest⦄, reader text = .ok (value, rest) → good value

def RecordField.Keeps (field : RecordField α) (good : α → Prop) : Prop :=
  ∀ record, good record → (field.read record).Ensures good

namespace Ensures

variable {good : α → Prop} {fine : β → Prop} {reader : Reader α}

theorem anything (reader : Reader α) : reader.Ensures fun _ => True := fun _ _ _ _ => trivial

theorem pure {value : α} (isGood : good value) : (pure value : Reader α).Ensures good := by
  intro text result rest read
  cases read
  exact isGood

theorem fail (reason : Reason) : (fail reason : Reader α).Ensures good := nofun

theorem bind {next : α → Reader β} (first : reader.Ensures good)
    (second : ∀ value, good value → (next value).Ensures fine) :
    (reader >>= next).Ensures fine := by
  intro text result rest read
  rw [bind_apply, bind_eq_ok] at read
  obtain ⟨⟨value, between⟩, readFirst, readSecond⟩ := read
  exact second value (first readFirst) readSecond

theorem after (first : Reader β) {next : β → Reader α}
    (second : ∀ value, (next value).Ensures good) : (first >>= next).Ensures good :=
  (anything first).bind fun value _ => second value

theorem fmap {f : α → β} (ensures : reader.Ensures fun value => fine (f value)) :
    (f <$> reader).Ensures fine := by
  intro text result rest read
  rw [map_apply, map_eq_ok] at read
  obtain ⟨⟨value, after⟩, readValue, same⟩ := read
  cases same
  exact ensures readValue

theorem within (step : Step) (ensures : reader.Ensures good) :
    (reader.within step).Ensures good := by
  intro text value rest read
  unfold Reader.within at read
  split at read
  next result readInside =>
    cases read
    exact ensures readInside
  next => cases read

theorem optional (ensures : reader.Ensures good) :
    (optional reader).Ensures fun value => ∀ given ∈ value, good given := by
  intro text value rest read
  unfold Reader.optional at read
  split at read
  · have absent : (skipping (Token.word "ull".toList) >>= fun _ =>
        Pure.pure (none : Option α)).Ensures fun value => ∀ given ∈ value, good given :=
      after _ fun _ => .pure nofun
    exact absent read
  · have present : (some <$> reader).Ensures fun value => ∀ given ∈ value, good given :=
      .fmap fun _ _ _ readGiven _ same => Option.some.inj same ▸ ensures readGiven
    exact present read

/-! Containers -/

theorem items (ensures : reader.Ensures good) (steps : Text) (position : Nat) :
    (items reader steps position).Ensures fun values => ∀ value ∈ values, good value := by
  induction steps generalizing position with
  | nil => exact .fail _
  | cons _ steps ih =>
      refine after _ fun another => ?_
      cases another with
      | false => exact .pure nofun
      | true =>
          refine (ensures.within _).bind fun value isGood => ?_
          refine (ih (position + 1)).bind fun rest restGood => ?_
          exact .pure (List.forall_mem_cons.mpr ⟨isGood, restGood⟩)

theorem list (depth : Nat) (ensures : reader.Ensures good) :
    (Reader.list depth reader).Ensures fun values => ∀ value ∈ values, good value := by
  refine after _ fun _ text result rest read => ?_
  split at read
  next inside =>
    have inArray : (do
        enter depth
        let values ← Reader.items reader (stepsFor inside) 0
        closeArray
        return values : Reader (List α)).Ensures fun values => ∀ value ∈ values, good value :=
      after _ fun _ => (ensures.items _ _).bind fun _ allGood => after _ fun _ => .pure allGood
    exact inArray read
  next => cases read

theorem entries (ensures : reader.Ensures good) (steps : Text) (first : Bool)
    {known : OrderedMap String α} (distinct : OrderedMap.Distinct known)
    (knownGood : ∀ entry ∈ known, good entry.2) :
    (entries reader steps first known).Ensures fun entries =>
      OrderedMap.Distinct entries ∧ ∀ entry ∈ entries, good entry.2 := by
  induction steps generalizing first known with
  | nil => exact .fail _
  | cons _ steps ih =>
      refine after _ fun key => ?_
      cases key with
      | none => exact .pure ⟨distinct, knownGood⟩
      | some key =>
          refine after _ fun _ => (ensures.within _).bind fun value isGood => ?_
          refine ih false (OrderedMap.distinct_insert key value distinct) fun entry member => ?_
          rcases OrderedMap.mem_insert member with rfl | old
          · exact isGood
          · exact knownGood entry old

theorem map (depth : Nat) (ensures : reader.Ensures good) :
    (Reader.map depth reader).Ensures fun entries =>
      OrderedMap.Distinct entries ∧ ∀ entry ∈ entries, good entry.2 := by
  refine after _ fun _ text result rest read => ?_
  split at read
  next inside =>
    have inObject : (do
        enter depth
        let result ← Reader.entries reader (stepsFor inside) true []
        closeObject
        return result : Reader (OrderedMap String α)).Ensures fun entries =>
          OrderedMap.Distinct entries ∧ ∀ entry ∈ entries, good entry.2 :=
      after _ fun _ => (ensures.entries _ _ OrderedMap.distinct_nil nofun).bind
        fun _ allGood => after _ fun _ => .pure allGood
    exact inObject read
  next => cases read

/-! Records -/

theorem field {name : String} {set : β → α → β} (ensures : reader.Ensures good)
    (kept : ∀ record value, fine record → good value → fine (set record value)) :
    (Reader.field name reader set).Keeps fine := fun record recordFine =>
  .fmap fun _ value _ read => kept record value recordFine (ensures read)

theorem required {name : String} {set : β → α → β} (ensures : reader.Ensures good)
    (kept : ∀ record value, fine record → good value → fine (set record value)) :
    (Reader.required name reader set).Keeps fine := fun record recordFine =>
  .fmap fun _ value _ read => kept record value recordFine (ensures read)

variable {fields : List (RecordField α)}

theorem members (keeps : ∀ field ∈ fields, field.Keeps good) (steps : Text) (first : Bool)
    (seen : List String) {record : α} (isGood : good record) :
    (members fields steps first seen record).Ensures fun result => good result.2 := by
  induction steps generalizing first seen record with
  | nil => exact .fail _
  | cons _ steps ih =>
      refine after _ fun key => ?_
      cases key with
      | none => exact .pure isGood
      | some key =>
          dsimp only
          split
          next => exact after _ fun _ => after _ fun _ => ih false seen isGood
          next field found =>
            have keepsFound := keeps field (List.mem_of_find?_eq_some found) record isGood
            split
            · exact .fail _
            · exact after _ fun _ => (keepsFound.within (.key key)).bind
                fun next nextGood => ih false (key :: seen) nextGood

theorem positional (expected : String) (keeps : ∀ field ∈ fields, field.Keeps good)
    (position : Nat) {record : α} (isGood : good record) :
    (positional expected fields position record).Ensures good := by
  induction fields generalizing position record with
  | nil => exact .pure isGood
  | cons field rest ih =>
      have keepsRest := fun other member => keeps other (List.mem_cons_of_mem field member)
      refine after _ fun another => ?_
      cases another with
      | true =>
          exact ((keeps field List.mem_cons_self record isGood).within _).bind
            fun next nextGood => ih keepsRest (position + 1) nextGood
      | false =>
          simp only [Bool.false_eq_true, ↓reduceIte]
          split
          · exact .fail _
          · exact ih keepsRest (position + 1) isGood

theorem record (expected : String) (depth : Nat) {initial : α}
    (keeps : ∀ field ∈ fields, field.Keeps good) (isGood : good initial) :
    (record expected depth fields initial).Ensures good := by
  refine after _ fun _ text result rest read => ?_
  split at read
  next =>
    refine Ensures.after _ (fun _ => ?_) read
    exact (positional _ keeps 0 isGood).bind fun result resultGood =>
      .after _ fun _ => .pure resultGood
  next inside =>
    refine Ensures.after _ (fun _ => ?_) read
    refine (members keeps (stepsFor inside) true [] isGood).bind fun result resultGood => ?_
    dsimp only
    split
    · exact .fail _
    · exact .after _ fun _ => .pure resultGood
  next => cases read

/-! Alternatives -/

variable {alternatives : List (Variant α)}

theorem findVariant {name : String} :
    (Reader.findVariant alternatives name).Ensures fun variant => variant ∈ alternatives := by
  unfold Reader.findVariant
  split
  next variant found => exact .pure (List.mem_of_find?_eq_some found)
  next => exact .fail _

theorem variants (depth : Nat) (bare : ∀ variant ∈ alternatives, variant.bare.Ensures good)
    (loaded : ∀ variant ∈ alternatives, variant.loaded.Ensures good) :
    (Reader.variants depth alternatives).Ensures good := by
  refine after _ fun _ text value rest read => ?_
  split at read
  next =>
    refine Ensures.after _ (fun name => ?_) read
    exact findVariant.bind fun variant member => (bare variant member).within _
  next =>
    refine Ensures.after _ (fun _ => .after _ fun name => ?_) read
    refine findVariant.bind fun variant member => .after _ fun _ => ?_
    exact ((loaded variant member).within _).bind fun _ isGood => .after _ fun _ => .pure isGood
  next => cases read

end Ensures

end Reader

end ConfigContract
