import ConfigContract.Proofs.Lowering.Members
import ConfigContract.Proofs.Provider.Attachment
import ConfigContract.Proofs.Provider.Document

/-!
What the nested blocks of a schema document mean as members of a contract, read off the document in
one step: the lowering of the blocks that they are converted to comes to the same.
-/

namespace ConfigContract

/-! The meaning of nested blocks -/

namespace Nesting

def meaning (nesting : Nesting) (minItems maxItems : UInt64) (object : ContractType) :
    ContractType :=
  match nesting with
  | .single | .group => object
  | .list | .set => if maxItems = 1 then object else .bounded minItems maxItems object
  | .map => .dictionary object

/-- Where the members of a nested block are: the keys of a map have a segment of their own. -/
def place (nesting : Nesting) (path : Path) : Path :=
  match nesting with
  | .map => path.wildcard
  | _ => path

end Nesting

def attributeMeanings (attributes : List (String × AttributeDeclaration)) (path : Path) :
    List (String × Lowered Member) :=
  attributes.map fun (key, declaration) =>
    (key, (declaration.toAttribute.lower (path.child key)).toLowered)

mutual

/-- The members are written in order, and noted whether or not they are written over. -/
def BlockDeclaration.meaning : BlockDeclaration → Path → Lowered Members
  | ⟨attributes, blockTypes, _, _⟩, path =>
      Lowered.write ⟨[], []⟩ (attributeMeanings attributes path ++ nestedMeanings blockTypes path)

def NestedBlock.meaning : NestedBlock → Path → Lowered Member
  | ⟨nesting, block, minItems, maxItems⟩, path =>
      let members := block.meaning (nesting.place path)
      let type := nesting.meaning minItems maxItems (.object false members.value)
      { value :=
          { description := (shownDescription block.description).getD ""
            optional := true
            computed := false
            type }
        fields := if type.isList then [] else members.fields }

def nestedMeanings : List (String × NestedBlock) → Path → List (String × Lowered Member)
  | [], _ => []
  | (key, nested) :: rest, path =>
      (key, nested.meaning (path.child key)) :: nestedMeanings rest path

end

/-! Where providers attach their blocks -/

structure Path.InProvider (path : Path) : Prop where
  deep : 2 ≤ path.length
  kind : path.segments.head? ∈ [some "provider", some "resource", some "data"]

namespace Path.InProvider

variable {path : Path}

theorem child (inProvider : path.InProvider) (segment : String) :
    (path.child segment).InProvider := by
  obtain ⟨deep, kind⟩ := inProvider
  obtain ⟨segments⟩ := path
  cases segments with
  | nil => simp at kind
  | cons first rest =>
      refine ⟨?_, kind⟩
      simp only [length, segments_child, List.length_append] at deep ⊢
      omega

theorem place (inProvider : path.InProvider) (nesting : Nesting) :
    (nesting.place path).InProvider := by
  cases nesting with
  | map => exact inProvider.child anyLabel
  | single | group | list | set => exact inProvider

theorem closed (inProvider : path.InProvider) : Policy.isOpenObject path = false := by
  obtain ⟨deep, kind⟩ := inProvider
  obtain ⟨_ | ⟨first, _ | ⟨second, rest⟩⟩⟩ := path
  · simp at kind
  · simp [length] at deep
  · simp only [List.head?_cons, List.mem_cons, Option.some.injEq, List.not_mem_nil, or_false]
      at kind
    rcases kind with rfl | rfl | rfl <;>
      simp [Policy.isOpenObject, Policy.openObjects, PathPattern.accepts, SegmentPattern.accepts]

theorem unforced (inProvider : path.InProvider) : Policy.forcesObject path = false := by
  obtain ⟨-, kind⟩ := inProvider
  obtain ⟨_ | ⟨first, rest⟩⟩ := path
  · simp at kind
  · simp only [List.head?_cons, List.mem_cons, Option.some.injEq, List.not_mem_nil, or_false]
      at kind
    rcases kind with rfl | rfl | rfl <;>
      simp [Policy.forcesObject, Policy.forcedObjects, PathPattern.accepts, SegmentPattern.accepts]

end Path.InProvider

/-! Lowering the converted blocks -/

theorem BlockDeclaration.description_toBody (block : BlockDeclaration) :
    block.toBody.description = shownDescription block.description := by
  cases block
  rfl

theorem BlockDeclaration.anyAttribute_toBody (block : BlockDeclaration) :
    block.toBody.anyAttribute = none := by
  cases block
  rfl

theorem attributeMeanings_eq (attributes : List (String × AttributeDeclaration)) (path : Path) :
    attributeMeanings attributes path = (declaredAttributes attributes).map fun entry =>
      (entry.1, (entry.2.lower (path.child entry.1)).toLowered) := by
  induction attributes with
  | nil => rfl
  | cons entry rest ih => exact congrArg (_ :: ·) ih

namespace NestedBlock

variable {nested : NestedBlock} {path : Path}

theorem description_toBlock (nested : NestedBlock) :
    nested.toBlock.description = shownDescription nested.block.description := by
  cases nested
  rfl

theorem body_toBlock (nested : NestedBlock) : nested.toBlock.body = some nested.block.toBody := by
  cases nested
  rfl

theorem catchAll?_toBlock (nested : NestedBlock) : nested.toBlock.catchAll? = none := by
  rw [Block.catchAll?, body_toBlock, Option.bind_some, BlockDeclaration.anyAttribute_toBody]

theorem effectiveType_object (inProvider : path.InProvider)
    (single : nested.nesting ∈ [.list, .set] → nested.maxItems = 1) :
    nested.toBlock.frame.effectiveType path = .object := by
  obtain ⟨nesting, block, minItems, maxItems⟩ := nested
  have unforced := inProvider.unforced
  cases nesting with
  | single | group | map =>
      simp [Frame.effectiveType, effectiveBlockType, Block.frame, toBlock, Nesting.toBlock,
        Block.items, Block.withBody, Block.ofType, Block.addLabel]
  | list | set =>
      have one : maxItems = 1 := single (by simp)
      simp [Frame.effectiveType, effectiveBlockType, Block.frame, toBlock, Block.items,
        Block.withBody, one]

theorem effectiveType_listed (inProvider : path.InProvider)
    (listed : nested.nesting ∈ [.list, .set]) (several : nested.maxItems ≠ 1) :
    nested.toBlock.frame.effectiveType path = .list ∨
      nested.toBlock.frame.effectiveType path = .set := by
  obtain ⟨nesting, block, minItems, maxItems⟩ := nested
  have unforced := inProvider.unforced
  cases nesting with
  | single | group | map => simp at listed
  | list | set =>
      simp [Frame.effectiveType, effectiveBlockType, Block.frame, toBlock, Nesting.toBlock,
        Block.items, Block.withBody, Block.ofType, unforced, several]

theorem finish_toBlock {place : Path} {members : Lowered Members} {leaf : Lowered Member}
    (wellFormed : nested.block.toBody.WellFormed fun _ => True)
    (lowers : (nested.block.toBody.lower place).result = .ok members)
    (finishes : nested.toBlock.frame.Finishes place [nested.block.toBody.part] members leaf) :
    (nested.toBlock.frame.finish place [nested.block.toBody.part]).result = .ok leaf := by
  refine Frame.finish_of_finishes ?_ finishes
  rw [← lowers]
  exact Body.lowerAll_single wellFormed.distinct_attributes place

theorem finishedDescription_toBlock (nested : NestedBlock) :
    nested.toBlock.frame.finishedDescription [nested.block.toBody.part] =
      (shownDescription nested.block.description).getD "" := by
  simp [Frame.finishedDescription, Body.part, BlockDeclaration.description_toBody, Block.frame,
    description_toBlock]

/-- A converted block has no label, or the one for the keys of a map. -/
theorem lower_toBlock_of_body (inProvider : path.InProvider)
    (wellFormed : nested.block.toBody.WellFormed fun _ => True)
    (lowers : (nested.block.toBody.lower (nested.nesting.place path)).result =
      .ok (nested.block.meaning (nested.nesting.place path))) :
    (nested.toBlock.lower path).result = .ok (nested.meaning path) := by
  have inside := inProvider.place nested.nesting
  have object (single : nested.nesting ∈ [.list, .set] → nested.maxItems = 1) :=
    finish_toBlock wellFormed lowers (.single (effectiveType_object inside single))
  have list (listed : nested.nesting ∈ [.list, .set]) (several : nested.maxItems ≠ 1) :=
    finish_toBlock wellFormed lowers (.listed (effectiveType_listed inside listed several))
  rw [nested.finishedDescription_toBlock, inside.closed] at object list
  rw [Block.lower_eq_expand _ path nested.catchAll?_toBlock, body_toBlock]
  obtain ⟨nesting, block, minItems, maxItems⟩ := nested
  cases nesting with
  | single | group => exact object (by simp)
  | list | set =>
      by_cases one : maxItems = 1
      · simp only [meaning, Nesting.meaning, if_pos one]
        exact object fun _ => one
      · simp only [meaning, Nesting.meaning, if_neg one]
        exact list (by simp) one
  | map =>
      have keyed : (NestedBlock.mk .map block minItems maxItems).toBlock.choicesFrom 0
          (NestedBlock.mk .map block minItems maxItems).toBlock.labels = [.anyValue] := rfl
      have content := object (by simp)
      simp only [Nesting.place] at content
      simp only [keyed, Frame.expand, Option.toList_some, List.map_cons, List.map_nil,
        Logged.result_bind, content, ok_bind]
      rfl

end NestedBlock

mutual

theorem BlockDeclaration.lower_toBody : ∀ (block : BlockDeclaration) (path : Path),
    block.WellFormed → path.InProvider →
      (block.toBody.lower path).result = .ok (block.meaning path)
  | ⟨attributes, blockTypes, description, deprecated⟩, path, wellFormed, inProvider => by
      have distinct : OrderedMap.Distinct (declaredAttributes attributes) :=
        .of_keys (keys_declaredAttributes attributes) wellFormed.1
      have blocks := nestedMeanings_lower blockTypes path wellFormed.2.2.2 inProvider
      rw [Body.lower_result _ _ distinct, Body.declarations, List.mapM_append]
      simp only [BlockDeclaration.toBody, Declaration.mapM_lowerEntry_attributes, blocks,
        ← attributeMeanings_eq]
      rfl

theorem NestedBlock.lower_toBlock : ∀ (nested : NestedBlock) (path : Path),
    nested.WellFormed → path.InProvider →
      (nested.toBlock.lower path).result = .ok (nested.meaning path)
  | ⟨nesting, block, _, _⟩, path, wellFormed, inProvider =>
      have lowers := block.lower_toBody (nesting.place path) wellFormed (inProvider.place nesting)
      NestedBlock.lower_toBlock_of_body inProvider (block.wellFormed_toBody wellFormed) lowers

theorem nestedMeanings_lower : ∀ (blockTypes : List (String × NestedBlock)) (path : Path),
    nestedBlocksWellFormed blockTypes → path.InProvider →
      (OrderedMap.mapValues .block (declaredBlocks blockTypes)).mapM
        (Declaration.lowerEntry path) = .ok (nestedMeanings blockTypes path)
  | [], _, _, _ => rfl
  | (key, nested) :: rest, path, wellFormed, inProvider => by
      have first := nested.lower_toBlock (path.child key) wellFormed.1 (inProvider.child key)
      have others := nestedMeanings_lower rest path wellFormed.2 inProvider
      simp [declaredBlocks, OrderedMap.mapValues_cons, Declaration.lowerEntry, Declaration.lower,
        first, others, nestedMeanings]

end

/-! Documents -/

inductive BlockDeclaration.Holds : BlockDeclaration → NestedBlock → Prop
  | here {block : BlockDeclaration} {key : String} {nested : NestedBlock}
      (listed : (key, nested) ∈ block.blockTypes) : BlockDeclaration.Holds block nested
  | inside {block : BlockDeclaration} {key : String} {outer nested : NestedBlock}
      (listed : (key, outer) ∈ block.blockTypes)
      (held : BlockDeclaration.Holds outer.block nested) : BlockDeclaration.Holds block nested

def Document.Holds (document : Document) (nested : NestedBlock) : Prop :=
  ∃ entry ∈ document.providers, ∃ block ∈ entry.2.blocks, block.Holds nested

theorem BlockDeclaration.WellFormed.held {block : BlockDeclaration} {nested : NestedBlock}
    (wellFormed : block.WellFormed) (held : block.Holds nested) : nested.WellFormed := by
  induction held with
  | @here block key nested listed =>
      cases block
      exact (nestedBlocksWellFormed_iff _).mp wellFormed.2.2.2 _ listed
  | @inside block key outer nested listed _ ih =>
      apply ih
      cases block
      have outerGood := (nestedBlocksWellFormed_iff _).mp wellFormed.2.2.2 _ listed
      cases outer
      exact outerGood

theorem ProviderDeclaration.WellFormed.block {declaration : ProviderDeclaration}
    (wellFormed : declaration.WellFormed) {block : BlockDeclaration}
    (member : block ∈ declaration.blocks) : block.WellFormed := by
  obtain ⟨schema, listed, rfl⟩ := List.mem_map.mp member
  obtain ⟨providerGood, resourcesGood, dataSourcesGood⟩ := wellFormed
  rcases List.mem_append.mp listed with provider | typed
  · exact providerGood schema (Option.mem_toList.mp provider)
  · obtain ⟨entry, entryMem, rfl⟩ := List.mem_map.mp typed
    rcases List.mem_append.mp entryMem with resource | dataSource
    · exact resourcesGood entry resource
    · exact dataSourcesGood entry dataSource

namespace Document

end Document

end ConfigContract
