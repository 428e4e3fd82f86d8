import ConfigSchema.Builtin.Base
import ConfigSchema.Evolution.Basic

/-!
The deltas of the built-in schema: what later versions of the language added.
-/

namespace ConfigSchema.Builtin

open Description (plainText markdown)
open Constraint (literal traversal closedObject)

/-- The earliest version that the schema describes. -/
def v0_12_0 : Version := .release 0 12 0

/-- Repetition of resources and data sources. -/
def v0_12_6 : Version := .release 0 12 6

/-- Experiments in the `terraform` block. -/
def v0_12_18 : Version := .release 0 12 18

/-- Objects as entries of `required_providers`. -/
def v0_12_20 : Version := .release 0 12 20

/-- Repetition of modules and source addresses of providers. -/
def v0_13_0 : Version := .release 0 13 0

def addAttribute (since : Version) (target : List String) (name : String) (a : AttributeSchema) :
    Delta :=
  ⟨since, target, .addAttribute name a⟩

def dataDeltas : List Delta :=
  [addAttribute v0_12_6 ["data"] "for_each" (forEach (markdown
    "A set or a map where each item represents an instance of this data source"))]

def resourceDeltas : List Delta :=
  [addAttribute v0_12_6 ["resource"] "for_each" (forEach (markdown
    "A set or a map where each item represents an instance of this resource"))]

def moduleDeltas : List Delta := [
  addAttribute v0_13_0 ["module"] "count" (countWithTraversals (markdown
    "Number of instances of this module, e.g. `3`")),
  addAttribute v0_13_0 ["module"] "for_each" (forEach (markdown
    "A set or a map where each item represents an instance of this module")),
  addAttribute v0_13_0 ["module"] "depends_on" (dependsOn (markdown
    "Set of references to hidden dependencies, e.g. other resources or data sources"))]

/-- An attribute of an entry of `required_providers`. -/
def entryAttribute (name : String) : String × ObjectAttribute ConstraintSet :=
  (name, ⟨stringSet, true⟩)

def terraformDeltas : List Delta := [
  addAttribute v0_12_18 ["terraform"] "experiments" (anyTuple (markdown
    "A tuple of experimental language features to enable")),
  ⟨v0_12_20, ["terraform"], .replaceBlock "required_providers" ((requiredProvidersBlock
    "What provider version to use within this configuration"
    [closedObject [entryAttribute "version"], literal .string]
    (markdown "Version constraint")).withMaxItems 1)⟩,
  ⟨v0_13_0, ["terraform"], .replaceBlock "required_providers" (requiredProvidersBlock
    "What provider version to use within this configuration and where to source it from"
    [closedObject [entryAttribute "source", entryAttribute "version"], literal .string]
    (markdown "Provider source and version constraint"))⟩,
  ⟨v0_13_0, ["terraform"], .replaceBlock "backend" backendBlock⟩,
  ⟨v0_13_0, ["terraform"], .addBlock "provider_meta"
    ((BlockSchema.described (markdown "Metadata to pass into a provider which supports this"))
      |>.withLabel (LabelSchema.plain "name" (markdown "Provider Name")).asDependencyKey)⟩]

def variableDeltas : List Delta := [
  ⟨v0_13_0, ["variable"], .addBlock "validation"
    ((BlockSchema.described (plainText
      "Custom validation rule to restrict what value is expected for the variable"))
      |>.withAttribute "condition" ((AttributeSchema.required
          [literal .bool, traversal .inputVariable (some .bool)])
        |>.withDescription (plainText
          "Condition under which a variable value is valid, e.g. length(var.example) >= 4 enforces minimum of 4 characters"))
      |>.withAttribute "error_message" ((AttributeSchema.required stringSet)
        |>.withDescription (plainText
          "Error message to present when the variable is considered invalid, i.e. when condition evaluates to false")))⟩]

def deltas : List Delta :=
  dataDeltas ++ resourceDeltas ++ moduleDeltas ++ terraformDeltas ++ variableDeltas

/-- The evolution of the built-in schema. -/
def evolution : Evolution := .ofDeltas v0_12_0 baseSchema deltas

end ConfigSchema.Builtin
