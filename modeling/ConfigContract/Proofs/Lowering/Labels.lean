import ConfigContract.Lowering.Labels
import ConfigContract.Path
import ConfigContract.Proofs.Pointwise
import Mathlib.Data.List.Find
import Mathlib.Data.List.Nodup
import Mathlib.Data.List.Pairwise

/-!
The label tuples of a block and the bodies that each of them selects, read off the block's
declaration, and their agreement with the choices that lowering collects.
-/

namespace ConfigContract

def DependentBody.carries (dependent : DependentBody) (index : Nat) (value : String) : Bool :=
  dependent.keys.any fun key => key.index.toNat == index && key.value == value

namespace Block

def namedValues (block : Block) (index : Nat) : List String :=
  (((block.dependents.flatMap DependentBody.keys).filter fun key =>
    key.index.toNat == index).map LabelKey.value).eraseDups

def dependentFor (block : Block) (index : Nat) (value : String) : Option Body :=
  (block.dependents.reverse.find? fun dependent => dependent.carries index value).map
    DependentBody.body

def segmentsAt (block : Block) (index : Nat) (label : Label) : List String :=
  if label.completable then block.namedValues index else [Path.anyLabel]

def selectedAt (block : Block) (index : Nat) (label : Label) (segment : String) : List Body :=
  if label.completable then (block.dependentFor index segment).toList else []

def tuplesFrom (block : Block) : Nat → List Label → List (List String)
  | _, [] => [[]]
  | index, label :: labels =>
      (block.segmentsAt index label).flatMap fun segment =>
        (tuplesFrom block (index + 1) labels).map (segment :: ·)

def selectedFrom (block : Block) : Nat → List Label → List String → List Body
  | index, label :: labels, segment :: tuple =>
      block.selectedAt index label segment ++ selectedFrom block (index + 1) labels tuple
  | _, _, _ => []

def tuples (block : Block) : List (List String) := block.tuplesFrom 0 block.labels

def bodiesFor (block : Block) (tuple : List String) : List Body :=
  block.body.toList ++ block.selectedFrom 0 block.labels tuple

theorem segmentsAt_of_free (block : Block) (index : Nat) {label : Label}
    (free : label.completable = false) : block.segmentsAt index label = [Path.anyLabel] := by
  simp [segmentsAt, free]

theorem segmentsAt_of_completable (block : Block) (index : Nat) {label : Label}
    (completable : label.completable = true) :
    block.segmentsAt index label = block.namedValues index := by
  simp [segmentsAt, completable]

theorem length_of_mem_tuplesFrom {block : Block} {index : Nat} {labels : List Label}
    {tuple : List String} (member : tuple ∈ block.tuplesFrom index labels) :
    tuple.length = labels.length := by
  induction labels generalizing index tuple with
  | nil => simpa [tuplesFrom] using member
  | cons label labels ih =>
      simp only [tuplesFrom, List.mem_flatMap, List.mem_map] at member
      obtain ⟨segment, -, rest, restMem, rfl⟩ := member
      simp [ih restMem]

theorem nodup_segmentsAt (block : Block) (index : Nat) (label : Label) :
    (block.segmentsAt index label).Nodup := by
  unfold segmentsAt
  split
  next => exact OrderedMap.nodup_eraseDups _
  next => exact List.nodup_singleton _

theorem nodup_tuplesFrom (block : Block) (index : Nat) (labels : List Label) :
    (block.tuplesFrom index labels).Nodup := by
  induction labels generalizing index with
  | nil => exact List.nodup_singleton _
  | cons label labels ih =>
      rw [tuplesFrom, List.nodup_flatMap]
      constructor
      · intro segment _
        exact (ih (index + 1)).map fun _ _ same => (List.cons.inj same).2
      · refine (block.nodup_segmentsAt index label).imp fun {first second} different => ?_
        intro tuple inFirst inSecond
        obtain ⟨rest, -, rfl⟩ := List.mem_map.mp inFirst
        obtain ⟨other, -, same⟩ := List.mem_map.mp inSecond
        exact different (List.cons.inj same).1.symm

/-- A label position without a segment leaves no label tuple at all. -/
theorem tuplesFrom_eq_nil_iff {block : Block} {index : Nat} {labels : List Label} :
    block.tuplesFrom index labels = [] ↔
      ∃ offset label, labels[offset]? = some label ∧ block.segmentsAt (index + offset) label = [] := by
  induction labels generalizing index with
  | nil => simp [tuplesFrom]
  | cons label labels ih =>
      simp only [tuplesFrom, List.flatMap_eq_nil_iff, List.map_eq_nil_iff, ih]
      constructor
      · intro empty
        by_cases here : block.segmentsAt index label = []
        · exact ⟨0, label, rfl, here⟩
        · obtain ⟨segment, rest, split⟩ := List.exists_cons_of_ne_nil here
          obtain ⟨offset, later, found, vacant⟩ := empty segment (by simp [split])
          exact ⟨offset + 1, later, found, by simpa [Nat.add_assoc, Nat.add_comm 1] using vacant⟩
      · rintro ⟨offset, later, found, vacant⟩ segment member
        cases offset with
        | zero =>
            cases found
            rw [Nat.add_zero] at vacant
            simp [vacant] at member
        | succ offset =>
            exact ⟨offset, later, found, by simpa [Nat.add_assoc, Nat.add_comm 1] using vacant⟩

theorem segmentsAt_eq_nil_iff {block : Block} {index : Nat} {label : Label} :
    block.segmentsAt index label = [] ↔
      label.completable = true ∧ block.namedValues index = [] := by
  cases completable : label.completable <;> simp [segmentsAt, completable]

theorem length_of_mem_tuples {block : Block} {tuple : List String}
    (label : tuple ∈ block.tuples) : tuple.length = block.labels.length :=
  length_of_mem_tuplesFrom label

/-- A completable label that no dependent body names a value for leaves no label tuple. -/
theorem tuples_eq_nil {block : Block} {index : Nat} {label : Label}
    (position : block.labels[index]? = some label) (completable : label.completable = true)
    (unnamed : block.namedValues index = []) : block.tuples = [] := by
  refine tuplesFrom_eq_nil_iff.mpr ⟨index, label, position, ?_⟩
  rw [Nat.zero_add]
  exact segmentsAt_eq_nil_iff.mpr ⟨completable, unnamed⟩

theorem nodup_tuples (block : Block) : block.tuples.Nodup := block.nodup_tuplesFrom 0 block.labels

end Block

namespace LabelChoice

variable {α : Type}

def contribution (index : Nat) (dependent : List LabelKey × α) : OrderedMap String α :=
  (dependent.1.filter fun key => key.index.toNat == index).map fun key => (key.value, dependent.2)

theorem collect_eq (index : Nat) (dependents : List (List LabelKey × α)) :
    collect index dependents =
      OrderedMap.insertAll [] (dependents.flatMap (contribution index)) := by
  unfold collect
  generalize ([] : OrderedMap String α) = values
  induction dependents generalizing values with
  | nil => rfl
  | cons dependent rest ih =>
      rw [List.foldl_cons, ih, List.flatMap_cons, OrderedMap.insertAll_append]
      simp [OrderedMap.insertAll, contribution, List.foldl_map]

theorem distinct_collect (index : Nat) (dependents : List (List LabelKey × α)) :
    OrderedMap.Distinct (collect index dependents) := by
  rw [collect_eq]
  exact OrderedMap.distinct_insertAll OrderedMap.distinct_nil _

theorem keys_contributions (index : Nat) (dependents : List (List LabelKey × α)) :
    OrderedMap.keys (dependents.flatMap (contribution index)) =
      ((dependents.flatMap Prod.fst).filter fun key => key.index.toNat == index).map
        LabelKey.value := by
  induction dependents with
  | nil => rfl
  | cons dependent rest ih =>
      rw [List.flatMap_cons, OrderedMap.keys_append, ih, List.flatMap_cons, List.filter_append,
        List.map_append]
      simp [contribution, OrderedMap.keys, Function.comp_def]

theorem get?_contribution (index : Nat) (value : String) (dependent : List LabelKey × α) :
    OrderedMap.get? value (contribution index dependent).reverse =
      if dependent.1.any fun key => key.index.toNat == index && key.value == value then
        some dependent.2
      else none := by
  have reversed : (contribution index dependent).reverse =
      ((dependent.1.filter fun key => key.index.toNat == index).reverse.map LabelKey.value).map
        fun name => (name, dependent.2) := by
    simp [contribution, Function.comp_def]
  rw [reversed, OrderedMap.get?_of_same_value]
  simp [List.any_eq_true, and_assoc]

theorem get?_collect (index : Nat) (value : String) (dependents : List (List LabelKey × α)) :
    OrderedMap.get? value (collect index dependents) =
      (dependents.reverse.find? fun dependent =>
        dependent.1.any fun key => key.index.toNat == index && key.value == value).map
          Prod.snd := by
  rw [collect_eq, OrderedMap.get?_insertAll]
  simp only [OrderedMap.get?, Option.or_none]
  induction dependents with
  | nil => rfl
  | cons dependent rest ih =>
      rw [List.flatMap_cons, List.reverse_append, OrderedMap.get?_append, ih, get?_contribution,
        List.reverse_cons, List.find?_append, Option.map_or]
      cases named : dependent.1.any fun key => key.index.toNat == index && key.value == value <;>
        simp [named]

theorem pointwise_collect {related : α → α → Prop} {dependents others : List (List LabelKey × α)}
    (matched : OrderedMap.Pointwise (fun _ => related) dependents others) (index : Nat) :
    OrderedMap.Pointwise (fun _ => related) (collect index dependents) (collect index others) := by
  have contributions : OrderedMap.Pointwise (fun _ => related)
      (dependents.flatMap (contribution index)) (others.flatMap (contribution index)) := by
    induction matched using OrderedMap.Pointwise.entry_induction with
    | nil => exact .nil
    | cons keys _ _ _ _ both _ ih =>
        refine OrderedMap.Pointwise.append ?_ ih
        exact List.rel_map (fun _ _ same => ⟨congrArg LabelKey.value same, both⟩)
          (List.forall₂_same.mpr fun key _ => rfl)
  rw [collect_eq, collect_eq]
  exact .insertAll .nil contributions

/-- Where no key selects twice, it does not matter which of the dependent bodies comes first. -/
theorem get?_collect_of_perm {dependents others : List (List LabelKey × α)}
    (unshared : (dependents.map Prod.fst).Pairwise List.Disjoint) (perm : dependents.Perm others)
    (index : Nat) (value : String) : OrderedMap.get? value (collect index dependents) =
      OrderedMap.get? value (collect index others) := by
  have reversed : dependents.reverse.Perm others.reverse :=
    (List.reverse_perm _).trans (perm.trans (List.reverse_perm _).symm)
  have symmetric : Std.Symm fun first second : List LabelKey × α => first.1.Disjoint second.1 :=
    ⟨fun _ _ apart _ member other => apart other member⟩
  rw [get?_collect, get?_collect, List.find?_eq_find?_of_perm reversed]
  rintro first ⟨listed, named⟩ second ⟨listedToo, namedToo⟩
  by_contra different
  have apart : first.1.Disjoint second.1 := (List.pairwise_map.mp unshared).forall
    (List.mem_reverse.mp listed) (List.mem_reverse.mp listedToo) different
  -- the key that names the value in one of them is the key that names it in the other
  simp only [List.any_eq_true, Bool.and_eq_true, beq_iff_eq] at named namedToo
  obtain ⟨⟨position, name⟩, member, here, same⟩ := named
  obtain ⟨⟨positionToo, nameToo⟩, memberToo, hereToo, sameToo⟩ := namedToo
  cases UInt64.toNat_inj.mp (here.trans hereToo.symm)
  cases same.trans sameToo.symm
  exact apart member memberToo

end LabelChoice

end ConfigContract
