import ConfigContract.CommandLine.Run
import ConfigContract.Proofs.Lowering.Report
import ConfigContract.Proofs.Provider.Resolution

/-!
What the tasks print. Whatever files a task is given, the bodies that it reads or makes hold no key
twice, so nothing has to be assumed about them.
-/

namespace ConfigContract

variable {disk : Disk}

theorem wellFormed_of_readSchema {file : String} {body : Body}
    (read : readSchema disk file = .ok body) : body.WellFormed fun _ => True := by
  unfold readSchema at read
  split at read
  next => cases read
  next text found => exact Schema.wellFormed_of_readBody (mapError_eq_ok.mp read)

namespace Task

/-- The bodies that a task makes a contract of. -/
inductive Lowers (disk : Disk) : Task → List Body → Prop
  | ir {directory : String} {module : Body}
      (loaded : (Store.loadModule disk directory).result = .ok module) :
      Lowers disk (.ir directory) [module]
  | lower {inputs files : List String} {bodies : List Body}
      (resolved : resolveInputs disk inputs = .ok files)
      (read : files.mapM (readSchema disk) = .ok bodies) : Lowers disk (.lower inputs) bodies

variable {task : Task} {bodies : List Body} {json : Json}

theorem Lowers.wellFormed (lowers : Lowers disk task bodies) :
    ∀ body ∈ bodies, body.WellFormed fun _ => True := by
  cases lowers with
  | ir loaded => exact List.forall_mem_singleton.mpr (Store.wellFormed_of_loadModule loaded)
  | lower resolved read =>
      intro body member
      obtain ⟨file, -, readFile⟩ := exists_of_forall₂ (mapM_eq_ok_iff.mp read) member
      exact wellFormed_of_readSchema readFile

/-- A task prints a merged module, or the contract of its bodies. -/
theorem perform_ok_iff : (task.perform disk).result = .ok json ↔
    (∃ (directory : String) (module : Body), task = .merged directory ∧
      (Store.loadModule disk directory).result = .ok module ∧ json = module.toJson) ∨
    ∃ (bodies : List Body) (contract : Contract), Lowers disk task bodies ∧
      (Contract.ofBodies bodies).result = .ok contract ∧ json = contract.toJson := by
  cases task with
  | ir directory =>
      simp only [perform, Logged.result_bind, Logged.result_mapError, Logged.result_pure,
        bind_eq_ok, mapError_eq_ok, Contract.ofDirectory_ok_iff, Except.ok.injEq]
      constructor
      · rintro ⟨contract, ⟨module, loaded, lowered⟩, rfl⟩
        exact .inr ⟨[module], contract, .ir loaded, lowered, rfl⟩
      · rintro (⟨_, _, other, -⟩ | ⟨_, contract, ⟨loaded⟩, lowered, rfl⟩)
        · cases other
        · exact ⟨contract, ⟨_, loaded, lowered⟩, rfl⟩
  | merged directory =>
      simp only [perform, Logged.result_bind, Logged.result_mapError, Logged.result_pure,
        bind_eq_ok, mapError_eq_ok, Except.ok.injEq]
      constructor
      · rintro ⟨module, loaded, rfl⟩
        exact .inl ⟨directory, module, rfl, loaded, rfl⟩
      · rintro (⟨_, module, ⟨⟩, loaded, rfl⟩ | ⟨_, _, ⟨⟩, -⟩)
        exact ⟨module, loaded, rfl⟩
  | lower inputs =>
      simp only [perform, Logged.result_bind, Logged.result_ofExcept, Logged.result_mapError,
        Logged.result_pure, bind_eq_ok, mapError_eq_ok, Except.ok.injEq]
      constructor
      · rintro ⟨files, resolved, bodies, read, contract, lowered, rfl⟩
        exact .inr ⟨bodies, contract, .lower resolved read, lowered, rfl⟩
      · rintro (⟨_, _, other, -⟩ | ⟨bodies, contract, lowers, lowered, rfl⟩)
        · cases other
        · cases lowers with
          | lower resolved read => exact ⟨_, resolved, bodies, read, contract, lowered, rfl⟩

/-- Every contract that is printed notes all computed attributes in it. -/
theorem printed_contract_noted (performed : (task.perform disk).result = .ok json) :
    (∃ directory : String, task = .merged directory) ∨
    ∃ contract : Contract, json = contract.toJson ∧
      ∀ segments member, Members.find? contract.schema segments = some (.member member) →
        member.computed = true → segments ∈ contract.computedFields.map ComputedField.path := by
  rcases perform_ok_iff.mp performed with
    ⟨directory, _, rfl, -, -⟩ | ⟨bodies, contract, lowers, succeeded, printed⟩
  · exact .inl ⟨directory, rfl⟩
  · obtain ⟨lowered, lowersAll, rfl⟩ := Contract.ofBodies_ok succeeded
    exact .inr ⟨_, printed, fun segments member reached computed =>
      Contract.mem_fields_of_computed lowers.wellFormed lowersAll reached computed⟩

end Task

end ConfigContract
