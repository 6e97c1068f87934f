import ConfigContract.Error
import ConfigContract.Proofs.Provider.Merge
import ConfigContract.Proofs.Schema.Dump

/-!
Writing a loaded module out and reading it back. Documents are read to the same depth as module
schemas, but the forms of a type nest deeper than the type.
-/

namespace ConfigContract

open Text

namespace Store

variable {disk : Disk} {root : String} {module : Body}

/-- A loaded module is read back from its file, compact or indented, exactly if it does not nest too
deep. What is read back lowers to the contract of the directory. -/
theorem reload_iff_depth (loaded : (loadModule disk root).result = .ok module) {layout : Layout}
    (written : layout = .compact ∨ layout = .pretty) :
    (Schema.readBody (module.dump layout) = .ok module ↔
        module.toJson.depth ≤ Reader.greatestDepth) ∧
      ∀ reloaded, Schema.readBody (module.dump layout) = .ok reloaded →
        ((Contract.ofBody reloaded).mapError Error.lower).result =
          (Contract.ofDirectory disk root).result := by
  have plain : layout.Plain := by
    rcases written with rfl | rfl
    · exact Layout.plain_compact
    · exact Layout.plain_pretty
  obtain ⟨fits, misfits⟩ := Body.readBody_dump (wellFormed_of_loadModule loaded) plain
  have lowers : (Contract.ofDirectory disk root).result =
      ((Contract.ofBody module).mapError Error.lower).result := by
    simp [Contract.ofDirectory, loaded]
  by_cases fit : module.toJson.depth ≤ Reader.greatestDepth
  · refine ⟨⟨fun _ => fit, fits⟩, fun reloaded read => ?_⟩
    rw [lowers, Except.ok.inj ((fits fit).symm.trans read)]
  · obtain ⟨fault, refused⟩ := misfits fit
    rw [refused]
    exact ⟨⟨nofun, fun fit' => absurd fit' fit⟩, nofun⟩

/-! A provider with one attribute, whose type is a list of lists -/

def nestedLists : Nat → ValueType
  | 0 => .string
  | levels + 1 => .list (nestedLists levels)

def nestedDocument (levels : Nat) : Json :=
  let declared := Json.object [("type", (nestedLists levels).toJson)]
  let block := Json.object [("attributes", .object [("a", declared)])]
  let declaration := Json.object [("provider", .object [("block", block)])]
  .object [("provider_schemas", .object [("registry.terraform.io/hashicorp/aws", declaration)])]

def nestedDirectory (levels : Nat) : Disk where
  workingDirectory := []
  entries := [
    (["p"], .directory),
    (["p", "providers.json"], fileOf (.object [("aws", spec.toJson)])),
    (["p", "schemas"], .directory),
    (["p", "schemas", "aws.json"], fileOf (nestedDocument levels))]
where
  spec : ProviderSpec := ⟨"hashicorp/aws", "5.31.0"⟩
  fileOf (json : Json) : Entry := .file (ofChars (json.write .compact 0))

theorem nested_module_reloads : ∃ module,
    (loadModule (nestedDirectory 39) "p").result = .ok module ∧
      Schema.readBody (module.dump .pretty) = .ok module ∧
      ((Contract.ofBody module).mapError Error.lower).result =
        (Contract.ofDirectory (nestedDirectory 39) "p").result := by
  obtain ⟨module, loaded, shallow⟩ := exists_ok (loadModule (nestedDirectory 39) "p").result
    (fun module => module.toJson.depth ≤ Reader.greatestDepth) (by decide +kernel)
  obtain ⟨reloads, lowers⟩ := reload_iff_depth loaded (.inr rfl)
  have read := reloads.mpr (of_decide_eq_true shallow)
  exact ⟨module, loaded, read, lowers module read⟩

/-- One more list: the document nests 47 deep and is read, the module nests too deep. -/
theorem deeper_module_refused : ∃ module,
    (loadModule (nestedDirectory 40) "p").result = .ok module ∧
      ∃ fault, Schema.readBody (module.dump .compact) = .error fault := by
  obtain ⟨module, loaded, deep⟩ := exists_ok (loadModule (nestedDirectory 40) "p").result
    (fun module => Reader.greatestDepth < module.toJson.depth) (by decide +kernel)
  refine ⟨module, loaded, ?_⟩
  exact (Body.readBody_dump (wellFormed_of_loadModule loaded) Layout.plain_compact).2
    (Nat.not_le.mpr (of_decide_eq_true deep))

end Store

end ConfigContract
