import ConfigContract.Contract.Decoding
import ConfigContract.Proofs.Json.Records

/-!
Contracts written to a file and read from it. Every type, member and computed attribute comes back,
in the order in which it was written, and only contracts that nest deeper than readers go are
refused.
-/

namespace ConfigContract

open Text Reader Encoding

/-! Contracts in which no object holds a key twice -/

mutual

@[simp] def ContractType.WellFormed : ContractType → Prop
  | .list _ _ content => content.WellFormed
  | .object _ content => OrderedMap.Distinct content ∧ membersWellFormed content
  | .dictionary content => content.WellFormed
  | _ => True

@[simp] def Member.WellFormed : Member → Prop
  | ⟨_, _, _, type⟩ => type.WellFormed

@[simp] def membersWellFormed : List (String × Member) → Prop
  | [] => True
  | (_, member) :: rest => member.WellFormed ∧ membersWellFormed rest

end

@[simp] def Contract.WellFormed (contract : Contract) : Prop :=
  OrderedMap.Distinct contract.schema ∧ membersWellFormed contract.schema

/-! Types and members -/

namespace ContractReaders

theorem reads_bound {key name : String} {depth : Nat} {parts : ListParts}
    {set : ListParts → Option UInt64 → ListParts} (bound : Option UInt64)
    (absent : set parts none = parts) :
    (optionalBound key bound = none ∧ set parts bound = parts) ∨
      ∃ json, optionalBound key bound = some (key, json) ∧
        Reads ((field name (optional (unsigned "u64")) set).read parts) depth json
          (set parts bound) :=
  Fills.optionally bound absent fun given _ => ⟨.unsigned "u64" depth given, nofun⟩

theorem reads_listForm (min max : Option UInt64) {content : ContractType}
    (reads : ∀ inner, Reads (ofDepth inner).type inner content.toJson content) (depth : Nat) :
    Reads (ofDepth depth).listForm depth
      (.record [optionalBound "min" min, optionalBound "max" max,
        some ("content", content.toJson)]) (.list min max content) := by
  have parts : Reads (record "struct variant Type::List" depth (below atDepth depth).listFields {}) depth
      (.record [optionalBound "min" min, optionalBound "max" max,
        some ("content", content.toJson)]) (⟨min, max, content⟩ : ListParts) := by
    refine Reads.record _ _ ?_ ?_
    · rintro inner rfl
      refine .slot "min" rfl (by simp) (reads_bound min rfl) ?_
      refine .slot "max" rfl (by simp) (reads_bound max rfl) ?_
      exact .present rfl (by simp) ((reads inner).fmap _) .done
    · cases min <;> cases max <;> simp [listFields, required, field, optionalBound]
  rw [ofDepth]
  exact parts.fmap fun parts => ContractType.list parts.min parts.max parts.content

theorem reads_members {content : Members} (distinct : OrderedMap.Distinct content)
    (reads : ∀ inner, List.Forall₂ (fun json pair => json.1 = pair.1 ∧
      Reads (ofDepth inner).member inner json.2 pair.2) (membersToJson content) content)
    (depth : Nat) :
    Reads (ofDepth depth).members depth (.object (membersToJson content)) content := by
  rw [ofDepth]
  refine .map distinct ?_
  rintro inner rfl
  exact reads inner

theorem reads_objectForm (isOpen : Bool) {content : Members}
    (reads : ∀ inner, Reads (ofDepth inner).members inner (.object (membersToJson content))
      content) (depth : Nat) :
    Reads (ofDepth depth).objectForm depth
      (.object [("open", .bool isOpen), ("content", .object (membersToJson content))])
      (.object isOpen content) := by
  have parts : Reads (record "struct variant Type::Object" depth (below atDepth depth).objectFields {})
      depth (.object [("open", .bool isOpen), ("content", .object (membersToJson content))])
      (⟨isOpen, content⟩ : ObjectParts) := by
    refine Reads.record _ [some _, some _] ?_ ?_
    · rintro inner rfl
      refine .present rfl (by simp) ((Reads.bool inner isOpen).fmap _) ?_
      exact .present rfl (by simp) ((reads inner).fmap _) .done
    · simp [objectFields, required]
  rw [ofDepth]
  exact parts.fmap fun parts => ContractType.object parts.isOpen parts.content

theorem reads_tagged {name : String} {variant : ContractReaders → Variant ContractType}
    {json : Json} {type : ContractType}
    (known : ∀ inner, (typeVariants inner).find? (·.name == name) = some (variant inner))
    (reads : ∀ inner, Reads (variant (ofDepth inner)).loaded inner json type) (depth : Nat) :
    Reads (ofDepth depth).type depth (tagged name json) type := by
  rw [ofDepth]
  refine .taggedVariant (known _) ?_
  rintro inner rfl
  exact reads inner

theorem reads_named {name : String} {type : ContractType}
    (known : ∀ inner, (typeVariants inner).find? (·.name == name) = some (.unit name type))
    (depth : Nat) : Reads (ofDepth depth).type depth (.string name) type := by
  rw [ofDepth]
  exact .unitVariant (known _) depth

end ContractReaders

open ContractReaders in
mutual

theorem ContractType.reads : ∀ type : ContractType, type.WellFormed → ∀ depth,
    Reads (ofDepth depth).type depth type.toJson type
  | .dynamic, _, depth => reads_named (fun _ => rfl) depth
  | .string, _, depth => reads_named (fun _ => rfl) depth
  | .number, _, depth => reads_named (fun _ => rfl) depth
  | .bool, _, depth => reads_named (fun _ => rfl) depth
  | .list min max content, wellFormed, depth => by
      refine reads_tagged (fun _ => rfl) (fun inner => ?_) depth
      exact (reads_listForm min max (content.reads wellFormed) inner).fmap id
  | .object isOpen content, wellFormed, depth => by
      have members := reads_members wellFormed.1 (membersRead content wellFormed.2)
      refine reads_tagged (fun _ => rfl) (fun inner => ?_) depth
      exact (reads_objectForm isOpen members inner).fmap id
  | .dictionary content, wellFormed, depth => by
      refine reads_tagged (fun _ => rfl) (fun inner => ?_) depth
      exact (content.reads wellFormed inner).fmap ContractType.dictionary

theorem Member.reads : ∀ member : Member, member.WellFormed → ∀ depth,
    Reads (ofDepth depth).member depth member.toJson member
  | ⟨description, isOptional, computed, type⟩, wellFormed, depth => by
      have typeRead := type.reads wellFormed
      rw [ofDepth]
      refine Reads.record _ [some _, some _, some _, some _] ?_ ?_
      · rintro inner rfl
        refine .present rfl (by simp) ((Reads.string "a string" inner description).fmap _) ?_
        refine .present rfl (by simp) ((Reads.bool inner isOptional).fmap _) ?_
        refine .present rfl (by simp) ((Reads.bool inner computed).fmap _) ?_
        exact .present rfl (by simp) ((typeRead inner).fmap _) .done
      · simp [memberFields, required]

theorem membersRead : ∀ content : List (String × Member), membersWellFormed content → ∀ depth,
    List.Forall₂ (fun json pair => json.1 = pair.1 ∧
      Reads (ofDepth depth).member depth json.2 pair.2) (membersToJson content) content
  | [], _, _ => .nil
  | (_, member) :: rest, wellFormed, depth =>
      .cons ⟨rfl, member.reads wellFormed.1 depth⟩ (membersRead rest wellFormed.2 depth)

end

/-! Whole contracts -/

theorem ComputedField.reads (field : ComputedField) (depth : Nat) :
    Reads (reader depth) depth field.toJson field := by
  refine Reads.record _ [some _, some _] ?_ ?_
  · rintro inner rfl
    have segments : Reads (Reader.list inner text) inner (.strings field.path) field.path := by
      refine .list ?_
      rintro innermost rfl
      exact List.forall₂_map_left_iff.mpr
        (List.forall₂_same.mpr fun segment _ => .string "a string" innermost segment)
    refine .present rfl (by simp) ((Reads.bool inner field.force).fmap _) ?_
    exact .present rfl (by simp) (segments.fmap _) .done
  · simp [computedFieldFields, required]

namespace Contract

theorem reads (contract : Contract) (wellFormed : contract.WellFormed) (depth : Nat) :
    Reads (reader depth) depth contract.toJson contract := by
  obtain ⟨computedFields, schema⟩ := contract
  have members := ContractReaders.reads_members wellFormed.1 (membersRead schema wellFormed.2)
  refine Reads.record _ [some _, some _] ?_ ?_
  · rintro inner rfl
    have computed : Reads (Reader.list inner (ComputedField.reader (inner - 1))) inner
        (.array (computedFields.map ComputedField.toJson)) computedFields := by
      refine .list ?_
      rintro innermost rfl
      exact List.forall₂_map_left_iff.mpr
        (List.forall₂_same.mpr fun field _ => field.reads innermost)
    refine .present rfl (by simp) (computed.fmap _) ?_
    exact .present rfl (by simp) ((members inner).fmap _) .done
  · simp [contractFields, required]

def dump (layout : Layout) (contract : Contract) : Text :=
  Text.ofString (contract.toJson.render layout)

theorem read_dump {contract : Contract} (wellFormed : contract.WellFormed) {layout : Layout}
    (plain : layout.Plain) :
    Guarded (contract.toJson.depth ≤ Reader.greatestDepth) (read (contract.dump layout))
      contract := by
  have atEnd : Token.Stops [] := trivial
  have reads := contract.reads wellFormed Reader.greatestDepth
  have read := (reads.guarded plain 0 .nil atEnd).map Prod.fst
  simpa [Contract.read, Reader.run, dump, Json.render, Text.ofString, ofChars] using read

/-- A contract is read back from either layout as it was, computed attributes and the order of all
maps included, if its JSON form nests at most 127 arrays and objects; beyond that its file is
refused. -/
theorem contract_reads_back (contract : Contract) (wellFormed : contract.WellFormed)
    (layout : Layout) (written : layout = .compact ∨ layout = .pretty) :
    (contract.toJson.depth ≤ 127 → read (contract.dump layout) = .ok contract) ∧
      (127 < contract.toJson.depth →
        ∃ fault, read (contract.dump layout) = .error fault) := by
  have plain : layout.Plain := by
    rcases written with rfl | rfl
    · exact Layout.plain_compact
    · exact Layout.plain_pretty
  obtain ⟨fits, misfits⟩ := read_dump wellFormed plain
  exact ⟨fits, fun deep => misfits (Nat.not_le.mpr deep)⟩

/-- Every form of type, bounds at their limits and bounds of zero, and texts that need escapes. -/
def everyType : Contract where
  computedFields := [⟨true, ["b", "_", "\"\\\n"]⟩, ⟨false, []⟩, ⟨true, ["b", "_", "\"\\\n"]⟩]
  schema := [
    ("b", .container "a \"b\"\\\n\x01é" (.dictionary (.object true [
      ("\"\\\n", ⟨"", true, true, .string⟩),
      ("", ⟨"", false, false, .number⟩),
      ("a", .container "" (.list (some 0) (some 18446744073709551615)
        (.list none (some 1) (.object false []))))]))),
    ("a", .container "" (.list none none (.dictionary .bool))),
    ("id", ⟨"id", false, true, .dynamic⟩)]

theorem everyType_reads_back : everyType.WellFormed ∧ everyType.toJson.depth ≤ 127 ∧
    read (everyType.dump .compact) = .ok everyType ∧
    read (everyType.dump .pretty) = .ok everyType := by
  have wellFormed : everyType.WellFormed := by
    simp [everyType, Member.container]
  have shallow : everyType.toJson.depth ≤ 127 := by decide
  exact ⟨wellFormed, shallow,
    (contract_reads_back everyType wellFormed .compact (.inl rfl)).1 shallow,
    (contract_reads_back everyType wellFormed .pretty (.inr rfl)).1 shallow⟩

end Contract

end ConfigContract
