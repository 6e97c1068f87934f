import ConfigContract.Proofs.Lowering.Expansion
import ConfigContract.Proofs.Lowering.Nesting

/-!
The walk of lowering through the blocks of bodies: depth first, with the label tuples of each block
in order. What stops the walk is read off the places that it comes to.
-/

namespace ConfigContract

inductive Visit where
  | met (place : Path) (block : Block)
  | resolved (place : Path) (block : Block) (tuple : List String)

namespace Block

/-- The label tuples at which a block is finished. A block with a catch-all is a dictionary: its
labels are not resolved, and nothing inside it is met. -/
def resolutions (block : Block) : List (List String) :=
  if block.catchAll?.isSome then [] else block.tuples

theorem mem_resolutions {block : Block} {tuple : List String} :
    tuple ∈ block.resolutions ↔ block.catchAll? = none ∧ tuple ∈ block.tuples := by
  unfold resolutions
  split
  next catchAll => simp [Option.isSome_iff_ne_none.mp catchAll]
  next noCatchAll => simpa using fun _ => noCatchAll

theorem sizeOf_inner {block : Block} {tuple : List String} {entry : String × Block}
    (member : entry ∈ (block.bodiesFor tuple).flatMap Body.blocks) :
    sizeOf entry.2 < sizeOf block := by
  obtain ⟨body, selected, declares⟩ := List.mem_flatMap.mp member
  have inBody := Body.sizeOf_block declares
  have inBlock := sizeOf_bodiesFor selected
  omega

def visits (block : Block) (place : Path) : List Visit :=
  .met place block :: block.resolutions.flatMap fun tuple =>
    .resolved place block tuple ::
      ((block.bodiesFor tuple).flatMap Body.blocks).attach.flatMap fun entry =>
        visits entry.1.2 ((place.descend tuple).child entry.1.1)
termination_by sizeOf block
decreasing_by exact sizeOf_inner entry.2

def ownVisits (block : Block) (place : Path) : List Visit :=
  .met place block :: block.resolutions.map (.resolved place block)

end Block

namespace Body

def visits (bodies : List Body) (path : Path) : List Visit :=
  (bodies.flatMap blocks).flatMap fun entry => entry.2.visits (path.child entry.1)

end Body

theorem Block.visits_eq (block : Block) (place : Path) :
    block.visits place = .met place block :: block.resolutions.flatMap fun tuple =>
      .resolved place block tuple :: Body.visits (block.bodiesFor tuple) (place.descend tuple) := by
  have inside (tuple : List String) :
      ((block.bodiesFor tuple).flatMap Body.blocks).attach.flatMap (fun entry =>
        entry.1.2.visits ((place.descend tuple).child entry.1.1)) =
      Body.visits (block.bodiesFor tuple) (place.descend tuple) :=
    Body.flatMap_attach _ fun entry : String × Block =>
      entry.2.visits ((place.descend tuple).child entry.1)
  rw [Block.visits]
  simp only [inside]

namespace Body

inductive Reaches : List Body → Path → Path → Block → Prop
  | declared {bodies : List Body} {path : Path} {key : String} {block : Block}
      (declares : (key, block) ∈ bodies.flatMap blocks) :
      Reaches bodies path (path.child key) block
  | inside {bodies : List Body} {path place : Path} {key : String} {block inner : Block}
      {tuple : List String} (declares : (key, block) ∈ bodies.flatMap blocks)
      (label : tuple ∈ block.resolutions)
      (reaches : Reaches (block.bodiesFor tuple) ((path.child key).descend tuple) place inner) :
      Reaches bodies path place inner

theorem Reaches.inner {bodies : List Body} {path place : Path} {block inner : Block} {key : String}
    {tuple : List String} (reaches : Reaches bodies path place block)
    (label : tuple ∈ block.resolutions)
    (declares : (key, inner) ∈ (block.bodiesFor tuple).flatMap blocks) :
    Reaches bodies path ((place.descend tuple).child key) inner := by
  induction reaches with
  | declared outer => exact .inside outer label (.declared declares)
  | inside outer outerLabel _ ih => exact .inside outer outerLabel (ih label declares)

theorem declares_block {bodies : List Body} {key : String} {block : Block}
    (declares : (key, block) ∈ bodies.flatMap blocks) :
    (key, .block block) ∈ allDeclarations bodies := by
  obtain ⟨body, member, listed⟩ := List.mem_flatMap.mp declares
  refine mem_allDeclarations.mpr ⟨body, member, List.mem_append_right _ ?_⟩
  exact List.mem_map_of_mem (f := fun entry : String × Block => (entry.1, Declaration.block entry.2)) listed

theorem mem_visits (bodies : List Body) (path : Path) (visit : Visit) :
    visit ∈ visits bodies path ↔
      ∃ place block, Reaches bodies path place block ∧ visit ∈ block.ownVisits place := by
  -- a place is a block's own, or the walk has gone on into the bodies at a label tuple
  induction bodies using nested_induction generalizing path with
  | step bodies ih =>
      constructor
      · intro member
        obtain ⟨⟨key, block⟩, declares, member⟩ := List.mem_flatMap.mp member
        rw [Block.visits_eq, List.mem_cons, List.mem_flatMap] at member
        rcases member with rfl | ⟨tuple, label, member⟩
        · exact ⟨_, block, .declared declares, List.mem_cons_self⟩
        · rcases List.mem_cons.mp member with rfl | deeper
          · exact ⟨_, block, .declared declares,
              List.mem_cons_of_mem _ (List.mem_map_of_mem label)⟩
          · obtain ⟨place, inner, reaches, own⟩ :=
              (ih key block (declares_block declares) tuple _).mp deeper
            exact ⟨place, inner, .inside declares label reaches, own⟩
      · rintro ⟨place, block, reaches, own⟩
        cases reaches with
        | declared declares =>
            refine List.mem_flatMap.mpr ⟨_, declares, ?_⟩
            rw [Block.visits_eq]
            rcases List.mem_cons.mp own with rfl | resolved
            · exact List.mem_cons_self
            · obtain ⟨tuple, label, rfl⟩ := List.mem_map.mp resolved
              exact List.mem_cons_of_mem _
                (List.mem_flatMap.mpr ⟨tuple, label, List.mem_cons_self⟩)
        | @inside _ _ _ key outer _ tuple declares label reaches =>
            refine List.mem_flatMap.mpr ⟨_, declares, ?_⟩
            rw [Block.visits_eq]
            refine List.mem_cons_of_mem _ (List.mem_flatMap.mpr ⟨tuple, label, ?_⟩)
            refine List.mem_cons_of_mem _ ?_
            exact (ih key outer (declares_block declares) tuple _).mpr ⟨place, block, reaches, own⟩

end Body

/-! What stops the walk -/

namespace Block

def mixesCatchAll (block : Block) : Bool :=
  block.body.any fun body =>
    body.anyAttribute.isSome && !(body.attributes.isEmpty && body.blocks.isEmpty)

theorem not_mixesCatchAll {block : Block} (noCatchAll : block.catchAll? = none) :
    ¬ block.mixesCatchAll = true := by
  cases own : block.body with
  | none => simp [mixesCatchAll, own]
  | some body =>
      rw [catchAll?, own, Option.bind_some] at noCatchAll
      simp [mixesCatchAll, own, noCatchAll]

def staysMap (block : Block) (place : Path) : Bool :=
  block.blockType == .map && block.maxItems != 1 && !Policy.forcesObject place

inductive Faulty (block : Block) (place : Path) : LowerError → Prop
  | mixed (mixes : block.mixesCatchAll = true) : Faulty block place (.catchAllNotAlone place)
  | map {tuple : List String} (noCatchAll : block.catchAll? = none) (label : tuple ∈ block.tuples)
      (stays : block.staysMap (place.descend tuple) = true) :
      Faulty block place (.unknownBlockType (place.descend tuple) .map)

end Block

def Visit.faults : Visit → List LowerError
  | .met place block => if block.mixesCatchAll then [.catchAllNotAlone place] else []
  | .resolved place block tuple =>
      if block.staysMap (place.descend tuple) then
        [.unknownBlockType (place.descend tuple) .map]
      else []

namespace Block

def faults (block : Block) (place : Path) : List LowerError :=
  (block.visits place).flatMap Visit.faults

theorem mem_ownFaults {block : Block} {place : Path} {error : LowerError} :
    error ∈ (block.ownVisits place).flatMap Visit.faults ↔ block.Faulty place error := by
  constructor
  · intro member
    obtain ⟨visit, own, fault⟩ := List.mem_flatMap.mp member
    rcases List.mem_cons.mp own with rfl | resolved
    · obtain ⟨mixes, same⟩ := List.mem_ite_nil_right.mp fault
      cases List.mem_singleton.mp same
      exact .mixed mixes
    · obtain ⟨tuple, label, rfl⟩ := List.mem_map.mp resolved
      obtain ⟨noCatchAll, label⟩ := mem_resolutions.mp label
      obtain ⟨stays, same⟩ := List.mem_ite_nil_right.mp fault
      cases List.mem_singleton.mp same
      exact .map noCatchAll label stays
  · intro faulty
    cases faulty with
    | mixed mixes =>
        refine List.mem_flatMap.mpr ⟨.met place block, List.mem_cons_self, ?_⟩
        exact List.mem_ite_nil_right.mpr ⟨mixes, List.mem_singleton_self _⟩
    | @map tuple noCatchAll label stays =>
        have resolved : tuple ∈ block.resolutions := mem_resolutions.mpr ⟨noCatchAll, label⟩
        refine List.mem_flatMap.mpr ⟨.resolved place block tuple,
          List.mem_cons_of_mem _ (List.mem_map_of_mem resolved), ?_⟩
        exact List.mem_ite_nil_right.mpr ⟨stays, List.mem_singleton_self _⟩

end Block

namespace Body

def faults (bodies : List Body) (path : Path) : List LowerError :=
  (visits bodies path).flatMap Visit.faults

theorem mem_faults {bodies : List Body} {path : Path} {error : LowerError} :
    error ∈ faults bodies path ↔
      ∃ place block, Reaches bodies path place block ∧ block.Faulty place error := by
  simp only [faults, List.mem_flatMap, mem_visits, ← Block.mem_ownFaults]
  constructor
  · rintro ⟨visit, ⟨place, block, reaches, own⟩, fault⟩
    exact ⟨place, block, reaches, visit, own, fault⟩
  · rintro ⟨place, block, reaches, visit, own, fault⟩
    exact ⟨visit, ⟨place, block, reaches, own⟩, fault⟩

end Body

namespace Block

theorem faults_eq (block : Block) (place : Path) :
    block.faults place = (Visit.met place block).faults ++ block.resolutions.flatMap fun tuple =>
      (Visit.resolved place block tuple).faults ++
        Body.faults (block.bodiesFor tuple) (place.descend tuple) := by
  rw [faults, visits_eq, List.flatMap_cons, List.flatMap_assoc]
  simp only [List.flatMap_cons, Body.faults]

end Block

theorem Body.faults_cons (body : Body) (rest : List Body) (path : Path) :
    faults (body :: rest) path =
      (body.blocks.flatMap fun entry => entry.2.faults (path.child entry.1)) ++
        faults rest path := by
  simp only [faults, visits, Block.faults, List.flatMap_cons, List.flatMap_append,
    List.flatMap_assoc]

end ConfigContract
