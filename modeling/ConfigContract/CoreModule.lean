import ConfigContract.Schema.Basic

/-!
The schema of a configuration module before any provider is attached.
-/

namespace ConfigContract

namespace CoreModule

def references : List Constraint := [.listOf [.reference]]

def instances : List Constraint := [.map [.dynamic], .setOf [.string]]

def requiredProviders : Block :=
  let source := (Attribute.optional [.string]).describedAs "Source address of the provider"
  let version := (Attribute.optional [.string]).describedAs "Version constraint for the provider"
  ((Block.ofType .object).describedAs "Providers required by this module").items 0 1 |>.withBody <|
    ({} : Body).acceptAny (.optional [.object [("source", source), ("version", version)]])

def backend : Block :=
  (((Block.ofType .object).describedAs "Where state snapshots are stored").addLabel "type"
    true).items 0 1

def terraform : Block :=
  ((Block.ofType .object).describedAs "Terraform settings").withBody <|
    ({} : Body)
      |>.addAttribute "required_version"
        ((Attribute.optional [.string]).describedAs "Terraform CLI version constraint")
      |>.addAttribute "experiments" (.optional [.setOf [.keyword "experiment"]])
      |>.addBlock "required_providers" requiredProviders
      |>.addBlock "backend" backend

def provider : Block :=
  (((Block.ofType .object).describedAs "Provider configuration").addLabel "name" true).withBody <|
    ({} : Body)
      |>.addAttribute "alias"
        ((Attribute.optional [.string]).describedAs "Alias for an additional configuration")
      |>.addAttribute "version"
        ((Attribute.optional [.string]).describedAs "Deprecated provider version constraint")

/-- The attributes that every resource and data source accepts. -/
def metaArguments : Body :=
  ({} : Body)
    |>.addAttribute "count"
      ((Attribute.optional [.number]).describedAs "Number of instances to create")
    |>.addAttribute "for_each"
      ((Attribute.optional instances).describedAs "One instance per map key or set member")
    |>.addAttribute "provider"
      ((Attribute.optional [.reference]).describedAs "Provider configuration to use")
    |>.addAttribute "depends_on"
      ((Attribute.optional references).describedAs "Explicit dependencies")

def lifecycle : Block :=
  (((Block.ofType .object).describedAs "Lifecycle customizations").items 0 1).withBody <|
    ({} : Body)
      |>.addAttribute "create_before_destroy" (.optional [.bool])
      |>.addAttribute "prevent_destroy" (.optional [.bool])
      |>.addAttribute "ignore_changes" (.optional references)
      |>.addAttribute "replace_triggered_by" (.optional references)

def resource : Block :=
  ((((Block.ofType .object).describedAs "Managed resource").addLabel "type" true).addLabel "name"
    false).withBody (metaArguments.addBlock "lifecycle" lifecycle)

def data : Block :=
  ((((Block.ofType .object).describedAs "Data source").addLabel "type" true).addLabel "name"
    false).withBody metaArguments

def moduleCall : Block :=
  (((Block.ofType .nil).describedAs "Module call").addLabel "name" false).withBody <|
    ({} : Body)
      |>.addAttribute "source"
        ((Attribute.required [.string]).describedAs "Source of the module")
      |>.addAttribute "version"
        ((Attribute.optional [.string]).describedAs "Module version constraint")
      |>.addAttribute "count" (.optional [.number])
      |>.addAttribute "for_each" (.optional instances)
      |>.addAttribute "providers" (.optional [.map [.reference]])
      |>.addAttribute "depends_on" (.optional references)

def variableBlock : Block :=
  (((Block.ofType .nil).describedAs "Input variable").addLabel "name" false).withBody <|
    ({} : Body)
      |>.addAttribute "description" (.optional [.string])
      |>.addAttribute "default" (.optional [.dynamic])
      |>.addAttribute "type" (.optional [.keyword "type"])
      |>.addAttribute "sensitive" (.optional [.bool])
      |>.addAttribute "nullable" (.optional [.bool])

def output : Block :=
  (((Block.ofType .nil).describedAs "Output value").addLabel "name" false).withBody <|
    ({} : Body)
      |>.addAttribute "value" (.required [.dynamic])
      |>.addAttribute "description" (.optional [.string])
      |>.addAttribute "sensitive" (.optional [.bool])
      |>.addAttribute "depends_on" (.optional references)

def locals : Block :=
  ((Block.ofType .nil).describedAs "Local values").withBody <|
    ({} : Body).acceptAny (.optional [.dynamic])

end CoreModule

/-- The blocks that every module accepts. Providers are attached to `provider`, `resource` and
`data`. -/
def coreModule : Body :=
  ({} : Body)
    |>.addBlock "terraform" CoreModule.terraform
    |>.addBlock "provider" CoreModule.provider
    |>.addBlock "resource" CoreModule.resource
    |>.addBlock "data" CoreModule.data
    |>.addBlock "module" CoreModule.moduleCall
    |>.addBlock "variable" CoreModule.variableBlock
    |>.addBlock "output" CoreModule.output
    |>.addBlock "locals" CoreModule.locals

end ConfigContract
