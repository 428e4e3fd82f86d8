import ConfigSchema.Builtin.Shapes

/-!
The built-in schema of the earliest version of the language.
-/

namespace ConfigSchema.Builtin

open BlockSchema (described)
open Description (plainText markdown)
open Constraint (literal traversal)

def dataBlock : BlockSchema :=
  (described (plainText
    "A data block requests that Terraform read from a given data source and export the result under the given local name. The name is used to refer to this resource from elsewhere in the same Terraform module, but has no significance outside of the scope of a module."))
    |>.withLabel (LabelSchema.plain "type" (plainText "Data Source Type")).asDependencyKey
    |>.withLabel (.plain "name" (plainText "Reference Name"))
    |>.withAttribute "provider" (providerReference (markdown
      "Reference to a `provider` configuration block, e.g. `mycloud.west` or `mycloud`"))
    |>.withAttribute "count" (countWithTraversals (markdown
      "Number of instances of this data source, e.g. `3`"))
    |>.withAttribute "depends_on" (dependsOn (markdown
      "Set of references to hidden dependencies, e.g. other resources or data sources"))
    |>.withReference (.addressed .dataSource [.fixed "data", .label 0, .label 1])

/-- Every attribute of `locals` publishes itself, with the type of its own value. -/
def localsBlock : BlockSchema :=
  (described (markdown
    "Local values assigning names to expressions, so you can use these multiple times without repetition\ne.g. `service_name = \"forum\"`"))
    |>.withOpenRule ((AttributeSchema.optional [literal .dynamic, traversal .localValue none])
      |>.withReference ((Reference.addressed .localValue [.fixed "local", .attributeName])
        |>.withRule (.inferredFrom none)))

def moduleBlock : BlockSchema :=
  (described (plainText "Module block to call a locally or remotely stored module"))
    |>.withLabel (.plain "name" (plainText "Reference Name"))
    |>.withAttribute "source" ((AttributeSchema.required stringSet)
      |>.withDescription (markdown
        "Source where to load the module from, a local directory (e.g. `./module`) or a remote address - e.g. `hashicorp/consul/aws` (Terraform Registry address) or `github.com/hashicorp/example` (GitHub)")
      |>.asDependencyKey)
    |>.withAttribute "version" (stringLiteral (markdown
      "Constraint to set the version of the module, e.g. `~> 1.0`. Only applicable to modules in a module registry."))
    |>.withAttribute "providers" ((AttributeSchema.optional
        [.map stringSet [traversal .provider none]])
      |>.withDescription (markdown "Explicit mapping of providers which the module uses"))
    |>.withReference (.addressed .moduleCall [.fixed "module", .label 0])

def outputBlock : BlockSchema :=
  (described (plainText
    "Output value for consumption by another module or a human interacting via the UI"))
    |>.withLabel (.plain "name" (plainText "Output Name"))
    |>.withAttribute "description" (stringLiteral (plainText
      "Human-readable description of the output (for documentation and UI)"))
    |>.withAttribute "value" ((AttributeSchema.required
        ([Scope.inputVariable, .localValue, .dataSource, .resource, .moduleCall].map
          (traversal · none) ++ [literal .dynamic]))
      |>.withDescription (plainText
        "Value, typically a reference to an attribute of a resource or a data source"))
    |>.withAttribute "sensitive" (boolLiteral (plainText
      "Whether the output contains sensitive material and should be hidden in the UI"))
    |>.withAttribute "depends_on" (dependsOn (plainText
      "Set of references to hidden dependencies (e.g. resources or data sources)"))
    |>.withReference ((Reference.addressed .outputValue [.fixed "output", .label 0])
      |>.withRule (.inferredFrom (some "value")))

/-- A provider is referred to by its name, followed by its alias if it has one. -/
def providerBlock : BlockSchema :=
  (described (plainText "A provider block is used to specify a provider configuration"))
    |>.withLabel (LabelSchema.plain "name" (plainText "Provider Name")).asDependencyKey
    |>.withAttribute "alias" (stringLiteral (markdown
      "Alias for using the same provider with different configurations for different resources, e.g. `eu-west`"))
    |>.withAttribute "version" (stringLiteral (markdown
      "Specifies a version constraint for the provider, e.g. `~> 1.0`"))
    |>.withReference (.addressed .provider [.label 0, .attributeValue "alias" true])

def lifecycleBlock : BlockSchema :=
  (described (markdown
    "Lifecycle customizations to change default resource behaviours during apply"))
    |>.withAttribute "create_before_destroy" (boolLiteral (markdown
      "Whether to reverse the default order of operations (destroy -> create) during apply when the resource requires replacement (cannot be updated in-place)"))
    |>.withAttribute "prevent_destroy" (boolLiteral (markdown
      "Whether to prevent accidental destruction of the resource and cause Terraform to reject with an error any plan that would destroy the resource"))
    |>.withAttribute "ignore_changes" (anyTuple (markdown
      "A tuple of fields (references) of which to ignore changes to, e.g. `tags`"))

def connectionBlock : BlockSchema :=
  (described (markdown
    "Connection block describing how the provisioner connects to the given instance"))
    |>.withMaxItems 1
    |>.withAttribute "type" (stringLiteral (markdown
      "Connection type to use - `ssh` (default) or `winrm`"))

def provisionerBlock : BlockSchema :=
  (described (markdown
    "Provisioner to model specific actions on the local machine or on a remote machine in order to prepare servers or other infrastructure objects for service"))
    |>.withLabel (LabelSchema.plain "type" (plainText
      "Type of provisioner to use, e.g. `remote-exec` or `file`")).asDependencyKey
    |>.withAttribute "when" ((AttributeSchema.optional [.any])
      |>.withDescription (markdown
        "When to run the provisioner - `create` or `destroy`, defaults to `create` (i.e. after creation of the resource)"))
    |>.withAttribute "on_failure" ((AttributeSchema.optional [.any])
      |>.withDescription (markdown
        "What to do when the provisioner run fails to finish - `fail` (default), or `continue` (ignore the error)"))
    |>.withBlock "connection" connectionBlock

def resourceBlock : BlockSchema :=
  (described (plainText
    "A resource block declares a resource of a given type with a given local name. The name is used to refer to this resource from elsewhere in the same Terraform module, but has no significance outside of the scope of a module."))
    |>.withLabel (LabelSchema.plain "type" (plainText "Resource Type")).asDependencyKey
    |>.withLabel (.plain "name" (plainText "Reference Name"))
    |>.withAttribute "provider" (providerReference (markdown
      "Reference to a `provider` configuration block, e.g. `mycloud.west` or `mycloud`"))
    |>.withAttribute "count" ((AttributeSchema.optional [literal .number])
      |>.withDescription (markdown "Number of instances of this resource, e.g. `3`"))
    |>.withAttribute "depends_on" (dependsOn (markdown
      "Set of references to hidden dependencies, e.g. other resources or data sources"))
    |>.withBlock "lifecycle" lifecycleBlock
    |>.withBlock "connection" connectionBlock
    |>.withBlock "provisioner" provisionerBlock
    |>.withReference (.addressed .resource [.fixed "resource", .label 0, .label 1])

def backendBlock : BlockSchema :=
  (described (markdown
    "Backend configuration which defines exactly where and how operations are performed, where state snapshots are stored, etc."))
    |>.withLabel (LabelSchema.plain "type" (markdown "Backend Type")).asDependencyKey

/-- Required providers have names of their own, and entries of the given shape. -/
def requiredProvidersBlock (description : String) (entry : ConstraintSet)
    (entryDescription : Description) : BlockSchema :=
  (described (markdown description))
    |>.withOpenRule ((AttributeSchema.optional entry).withDescription entryDescription)

def terraformBlock : BlockSchema :=
  (described (markdown
    "Terraform block used to configure some high-level behaviors of Terraform"))
    |>.withAttribute "required_version" (stringLiteral (markdown
      "Constraint to specify which versions of Terraform can be used with this configuration, e.g. `~> 0.12`"))
    |>.withBlock "backend" (backendBlock.withMaxItems 1)
    |>.withBlock "required_providers" ((requiredProvidersBlock
        "What provider version to use within this configuration" stringSet
        (markdown "Version constraint")).withMaxItems 1)

/-- The declared type of a variable comes before the type of its default. -/
def variableBlock : BlockSchema :=
  (described (plainText
    "Input variable allowing users to customize aspects of the configuration when used directly (e.g. via CLI, tfvars file or via environment variables), or as a module (via module arguments)"))
    |>.withLabel (.plain "name" (plainText "Variable Name"))
    |>.withAttribute "description" (stringLiteral (plainText
      "Description to document the purpose of the variable and what value is expected"))
    |>.withAttribute "type" ((AttributeSchema.optional [.typeExpression])
      |>.withDescription (plainText
        "Type constraint restricting the type of value to accept, e.g. string or list(string)"))
    |>.withAttribute "default" ((AttributeSchema.optional [literal .dynamic])
      |>.withDescription (plainText
        "Default value to use when variable is not explicitly set"))
    |>.withReference ((Reference.addressed .inputVariable [.fixed "var", .label 0])
      |>.withRule (.declaredBy "type")
      |>.withRule (.inferredFrom (some "default")))

def baseSchema : SchemaTree :=
  SchemaTree.empty
    |>.withBlock "data" dataBlock
    |>.withBlock "locals" localsBlock
    |>.withBlock "module" moduleBlock
    |>.withBlock "output" outputBlock
    |>.withBlock "provider" providerBlock
    |>.withBlock "resource" resourceBlock
    |>.withBlock "terraform" terraformBlock
    |>.withBlock "variable" variableBlock

end ConfigSchema.Builtin
