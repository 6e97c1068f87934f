import ConfigContract.Lowering.Block
import ConfigContract.Proofs.Except
import ConfigContract.Proofs.OrderedMap
import Mathlib.Data.List.Forall2

/-!
What bodies declare, in order: the attributes of a body, then its blocks. Lowering bodies lowers
their declarations one by one and writes the members in that order, so the last declaration of a
key counts, while the computed attributes of all of them are noted.
-/

namespace ConfigContract

inductive Declaration where
  | plain (declared : Attribute)
  | block (block : Block)

namespace Declaration

def lower : Declaration → Path → Except LowerError (Lowered Member)
  | .plain declared, path => .ok (declared.lower path).toLowered
  | .block nested, path => (nested.lower path).result

def lowerEntry (path : Path) (entry : String × Declaration) :
    Except LowerError (String × Lowered Member) := do
  return (entry.1, ← entry.2.lower (path.child entry.1))

end Declaration

def notedFields {ε α : Type} : Except ε (Lowered α) → List ComputedField
  | .ok lowered => lowered.fields
  | .error _ => []

namespace Lowered

def write (merged : Lowered Members) (parts : List (String × Lowered Member)) : Lowered Members :=
  ⟨OrderedMap.insertAll merged.value (OrderedMap.mapValues Lowered.value parts),
    merged.fields ++ parts.flatMap fun part => part.2.fields⟩

theorem write_nil (merged : Lowered Members) : merged.write [] = merged := by
  cases merged
  simp [write, OrderedMap.mapValues]

theorem write_append (merged : Lowered Members) (first second : List (String × Lowered Member)) :
    merged.write (first ++ second) = (merged.write first).write second := by
  simp [write, OrderedMap.mapValues, OrderedMap.insertAll_append]

theorem write_single (merged : Lowered Members) (key : String) (member : Lowered Member) :
    merged.write [(key, member)] =
      ⟨OrderedMap.insert key member.value merged.value, merged.fields ++ member.fields⟩ := by
  simp [write, OrderedMap.mapValues]

theorem insertAll_write (merged : Lowered Members) (parts : List (String × Lowered Member)) :
    (⟨OrderedMap.insertAll merged.value (write ⟨[], []⟩ parts).value,
      merged.fields ++ (write ⟨[], []⟩ parts).fields⟩ : Lowered Members) = merged.write parts := by
  simp [write, OrderedMap.insertAll_insertAll _ OrderedMap.distinct_nil]

end Lowered

theorem lowerAttributes_value (attributes : List (String × Attribute)) (path : Path) :
    (lowerAttributes attributes path).value =
      attributes.map fun entry => (entry.1, (entry.2.lower (path.child entry.1)).value) := by
  induction attributes with
  | nil => rfl
  | cons entry rest ih => simp [lowerAttributes, ih]

theorem lowerAttributes_fields (attributes : List (String × Attribute)) (path : Path) :
    (lowerAttributes attributes path).fields =
      attributes.flatMap fun entry => (entry.2.lower (path.child entry.1)).fields := by
  induction attributes with
  | nil => rfl
  | cons entry rest ih => simp [lowerAttributes, ih]

namespace Declaration

theorem mapM_lowerEntry_attributes (attributes : List (String × Attribute)) (path : Path) :
    (OrderedMap.mapValues .plain attributes).mapM (lowerEntry path) =
      .ok (attributes.map fun entry =>
        (entry.1, (entry.2.lower (path.child entry.1)).toLowered)) := by
  induction attributes with
  | nil => rfl
  | cons entry rest ih =>
      simp [OrderedMap.mapValues_cons, lowerEntry, lower, ih]

def Yields (path : Path) : List (String × Declaration) → List (String × Lowered Member) → Prop :=
  List.Forall₂ fun entry part =>
    part.1 = entry.1 ∧ entry.2.lower (path.child entry.1) = .ok part.2

theorem yields_of_mapM {entries : List (String × Declaration)} {path : Path}
    {parts : List (String × Lowered Member)} (lowers : entries.mapM (lowerEntry path) = .ok parts) :
    Yields path entries parts := by
  refine (mapM_eq_ok_iff.mp lowers).imp fun entry part lowersEntry => ?_
  obtain ⟨member, lowered, paired⟩ := bind_eq_ok.mp lowersEntry
  cases paired
  exact ⟨rfl, lowered⟩

variable {path : Path} {entries : List (String × Declaration)}
  {parts : List (String × Lowered Member)}

theorem Yields.exists_of_mem (yields : Yields path entries parts) {entry : String × Declaration}
    (member : entry ∈ entries) : ∃ part, entry.2.lower (path.child entry.1) = .ok part := by
  induction yields with
  | nil => simp at member
  | cons first _ ih =>
      rcases List.mem_cons.mp member with rfl | later
      · exact ⟨_, first.2⟩
      · exact ih later

theorem Yields.fields (yields : Yields path entries parts) :
    (parts.flatMap fun part => part.2.fields) =
      entries.flatMap fun entry => notedFields (entry.2.lower (path.child entry.1)) := by
  induction yields with
  | nil => rfl
  | cons first _ ih => simp [notedFields, first.2, ih]

theorem Yields.get? (yields : Yields path entries parts) (key : String) :
    OrderedMap.get? key (OrderedMap.mapValues Lowered.value parts) =
      (OrderedMap.get? key entries).bind fun declaration =>
        (declaration.lower (path.child key)).toOption.map Lowered.value := by
  induction yields with
  | nil => rfl
  | @cons entry part _ _ first _ ih =>
      obtain ⟨name, declaration⟩ := entry
      obtain ⟨same, lowered⟩ := first
      simp only [OrderedMap.mapValues, List.map_cons, OrderedMap.get?, same] at ih ⊢
      split
      next hit =>
        subst hit
        simp [lowered, Except.toOption]
      next => exact ih

end Declaration

theorem lowerBlocks_result (blocks : List (String × Block)) (path : Path)
    (merged : Lowered Members) :
    (lowerBlocks blocks path merged).result =
      merged.write <$> (OrderedMap.mapValues .block blocks).mapM (Declaration.lowerEntry path) := by
  induction blocks generalizing merged with
  | nil => simp [lowerBlocks, OrderedMap.mapValues, Lowered.write_nil]
  | cons entry rest ih =>
      obtain ⟨key, block⟩ := entry
      simp only [lowerBlocks, Logged.result_bind, ih, OrderedMap.mapValues_cons,
        List.mapM_cons, Declaration.lowerEntry, Declaration.lower]
      cases (block.lower (path.child key)).result with
      | error error => rfl
      | ok member =>
          simp only [ok_bind, ← Lowered.write_single]
          cases (OrderedMap.mapValues .block rest).mapM (Declaration.lowerEntry path) with
          | error error => rfl
          | ok parts => simp [← Lowered.write_append]

namespace Body

def declarations (body : Body) : List (String × Declaration) :=
  OrderedMap.mapValues .plain body.attributes ++ OrderedMap.mapValues .block body.blocks

def allDeclarations (bodies : List Body) : List (String × Declaration) :=
  bodies.flatMap declarations

theorem lower_result (body : Body) (path : Path)
    (distinct : OrderedMap.Distinct body.attributes) :
    (body.lower path).result =
      Lowered.write ⟨[], []⟩ <$> body.declarations.mapM (Declaration.lowerEntry path) := by
  obtain ⟨description, attributes, blocks, anyAttribute⟩ := body
  have declared : (lowerAttributes attributes path).toLowered =
      Lowered.write ⟨[], []⟩ (attributes.map fun entry =>
        (entry.1, (entry.2.lower (path.child entry.1)).toLowered)) := by
    have keys : OrderedMap.Distinct (attributes.map fun entry =>
        (entry.1, (entry.2.lower (path.child entry.1)).value)) := by
      simpa [OrderedMap.Distinct, OrderedMap.keys, Function.comp_def] using distinct
    have written := OrderedMap.insertAll_of_distinct [] _ keys
    show (⟨_, _⟩ : Lowered Members) = _
    rw [lowerAttributes_value, lowerAttributes_fields]
    simpa [Lowered.write, OrderedMap.mapValues, Function.comp_def, List.flatMap_map] using
      written.symm
  simp only [Body.lower, Yield.logged, declarations, List.mapM_append, Logged.result_bind,
    Declaration.mapM_lowerEntry_attributes, ok_bind, declared, lowerBlocks_result]
  cases (OrderedMap.mapValues .block blocks).mapM (Declaration.lowerEntry path) with
  | error error => rfl
  | ok parts => simp [Lowered.write_append]

/-- Bodies are lowered declaration by declaration, and the first error among them counts. -/
theorem mergeParts_result (bodies : List Body) (path : Path) (merged : Lowered Members)
    (distinct : ∀ body ∈ bodies, OrderedMap.Distinct body.attributes) :
    (mergeParts path (bodies.map part) merged).result =
      merged.write <$> (allDeclarations bodies).mapM (Declaration.lowerEntry path) := by
  induction bodies generalizing merged with
  | nil => simp [mergeParts, allDeclarations, Lowered.write_nil]
  | cons body rest ih =>
      have first := body.lower_result path (distinct body (by simp))
      have others := fun merged => ih merged fun body member => distinct body (by simp [member])
      simp only [allDeclarations] at others
      simp only [List.map_cons, mergeParts, part, Logged.result_bind, first, others,
        Logged.result_tellAll, allDeclarations, List.flatMap_cons, List.mapM_append]
      cases body.declarations.mapM (Declaration.lowerEntry path) with
      | error error => rfl
      | ok parts =>
          simp only [map_ok, ok_bind, Lowered.insertAll_write]
          cases (rest.flatMap declarations).mapM (Declaration.lowerEntry path) with
          | error error => rfl
          | ok others => simp [Lowered.write_append]

def survivor? (bodies : List Body) (key : String) : Option Declaration :=
  OrderedMap.get? key (allDeclarations bodies).reverse

structure LoweredAt (bodies : List Body) (path : Path) (lowered : Lowered Members) : Prop where
  succeeds : ∀ entry ∈ allDeclarations bodies, ∃ part,
    entry.2.lower (path.child entry.1) = .ok part
  fields : lowered.fields = (allDeclarations bodies).flatMap fun entry =>
    notedFields (entry.2.lower (path.child entry.1))
  member : ∀ key, OrderedMap.get? key lowered.value =
    (survivor? bodies key).bind fun declaration =>
      (declaration.lower (path.child key)).toOption.map Lowered.value

theorem loweredAt_of_lowerAll {bodies : List Body} {path : Path} {lowered : Lowered Members}
    (distinct : ∀ body ∈ bodies, OrderedMap.Distinct body.attributes)
    (succeeded : (lowerAll bodies path).result = .ok lowered) : LoweredAt bodies path lowered := by
  rw [lowerAll, mergeParts_result bodies path _ distinct, map_eq_ok] at succeeded
  obtain ⟨parts, lowers, rfl⟩ := succeeded
  have yields := Declaration.yields_of_mapM lowers
  have reversed : Declaration.Yields path (allDeclarations bodies).reverse parts.reverse :=
    List.forall₂_reverse_iff.mpr yields
  refine ⟨fun entry member => yields.exists_of_mem member, ?_, fun key => ?_⟩
  · rw [Lowered.write, List.nil_append, yields.fields]
  · have found := reversed.get? key
    rw [OrderedMap.mapValues, List.map_reverse] at found
    rw [Lowered.write, OrderedMap.get?_insertAll, survivor?, ← found]
    simp [OrderedMap.mapValues, OrderedMap.get?]

end Body

namespace Contract

theorem ofBodies_result (bodies : List Body) : (ofBodies bodies).result =
    (Body.lowerAll bodies .root).result >>= fun lowered =>
      .ok ⟨lowered.fields, lowered.value⟩ := by
  simp [ofBodies]

theorem ofBodies_ok {bodies : List Body} {contract : Contract}
    (succeeded : (ofBodies bodies).result = .ok contract) : ∃ lowered,
      (Body.lowerAll bodies .root).result = .ok lowered ∧
        contract = ⟨lowered.fields, lowered.value⟩ := by
  rw [ofBodies_result, bind_eq_ok] at succeeded
  obtain ⟨lowered, lowers, built⟩ := succeeded
  cases built
  exact ⟨lowered, lowers, rfl⟩

end Contract

end ConfigContract
