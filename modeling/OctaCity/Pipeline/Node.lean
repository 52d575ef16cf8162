/-
  OctaCity.Pipeline.Node

  One Job template of a Pipeline (octacity-server-pipeline, `PipelineNode`):
  bounded names, required capabilities and a canonical JSON template, with
  their serialized form.
-/
import OctaCity.Domain.CanonicalJson
import OctaCity.Factory.Permission
import OctaCity.Lib.Numbering
import OctaCity.Pipeline.Policy
import OctaCity.Trigger.Schedule

namespace OctaCity.Pipeline

open Lib
open Domain (canonicalizeJson)
open Factory (isControl)
open Trigger (trim)

/-! ## Names and capabilities -/

inductive TextErrorKind
  | empty
  | tooLong
  | surroundingWhitespace
  | controlCharacter
  | invalidCharacter
  | invalidStart

def maxPipelineNodeIdBytes : Nat := 128

/-- What is wrong with a node identity outside `[A-Za-z0-9][A-Za-z0-9._-]*`. -/
def nodeIdentityError (value : String) : Option TextErrorKind :=
  if value.isEmpty then some .empty
  else if value.utf8ByteSize > maxPipelineNodeIdBytes then some .tooLong
  else if ¬value.toList.head?.any Char.isAlphanum then some .invalidStart
  else if ¬value.toList.tail.all fun c => c.isAlphanum || c = '.' || c = '_' || c = '-' then
    some .invalidCharacter
  else none

/-- Stable identity of one node within a Pipeline version. -/
structure PipelineNodeId where
  value : String
  valid : nodeIdentityError value = none
  deriving DecidableEq

def PipelineNodeId.new (value : String) : Except TextErrorKind PipelineNodeId :=
  match h : nodeIdentityError value with
  | some reason => .error reason
  | none => .ok ⟨value, h⟩

instance : LinearOrder PipelineNodeId :=
  LinearOrder.lift' PipelineNodeId.value fun a b h => by
    cases a
    cases b
    simpa using h

def maxResourceNameBytes : Nat := 128

/-- What `validate_name` finds wrong with a resource name. -/
def resourceNameError (value : String) : Option TextErrorKind :=
  if value.isEmpty then some .empty
  else if value.utf8ByteSize > maxResourceNameBytes then some .tooLong
  else if trim value ≠ value then some .surroundingWhitespace
  else if value.toList.any isControl then some .controlCharacter
  else none

/-- Bounded display name of a Job template. -/
structure JobName where
  value : String
  valid : resourceNameError value = none

def JobName.new (value : String) : Except TextErrorKind JobName :=
  match h : resourceNameError value with
  | some reason => .error reason
  | none => .ok ⟨value, h⟩

def maxExecutionCapabilityBytes : Nat := 64

/-- `[a-z0-9][a-z0-9._-]*` -/
def isCapability (value : String) : Bool :=
  !value.isEmpty && value.utf8ByteSize ≤ maxExecutionCapabilityBytes &&
    value.toList.head?.any (fun c => c.isLower || c.isDigit) &&
    value.toList.tail.all fun c => c.isLower || c.isDigit || c = '.' || c = '_' || c = '-'

/-- Provider-neutral execution capability. -/
structure ExecutionCapability where
  value : String
  valid : isCapability value = true
  deriving DecidableEq

def ExecutionCapability.new (value : String) : Option ExecutionCapability :=
  if h : isCapability value = true then some ⟨value, h⟩ else none

instance : LinearOrder ExecutionCapability :=
  LinearOrder.lift' ExecutionCapability.value fun a b h => by
    cases a
    cases b
    simpa using h

/-- The capabilities that Pipeline versions may request. -/
structure CapabilityCatalog where
  capabilities : Finset ExecutionCapability

def CapabilityCatalog.supports (catalog : CapabilityCatalog) (capability : ExecutionCapability) :
    Bool :=
  capability ∈ catalog.capabilities

inductive PipelineError
  | invalidNodeTemplate
  | empty
  | tooManyNodes
  | tooManyEdges
  | duplicateNode (nodeId : PipelineNodeId)
  | duplicateCapability (nodeId : PipelineNodeId)
  | unavailableCapability (nodeId : PipelineNodeId) (capability : ExecutionCapability)
  | duplicateEdge
  | selfDependency (nodeId : PipelineNodeId)
  | missingNode (nodeId : PipelineNodeId)
  | fanInExceeded (nodeId : PipelineNodeId)
  | fanOutExceeded (nodeId : PipelineNodeId)
  | cycle
  | snapshotTooLarge
  | unsupportedSchema

/-! ## Nodes -/

/-- One immutable Job template inside a Pipeline version. -/
structure PipelineNode where
  id : PipelineNodeId
  name : JobName
  dependencyPolicy : DependencyPolicy
  requiredCapabilities : List ExecutionCapability
  template : Json

def maxPipelineNodeTemplateBytes : Nat := 256 * 1024

section

-- How a float is printed.
variable (floatText : FiniteFloat → String)

def validateTemplate (template : Json) : Except PipelineError Unit :=
  if template.asObject.isNone ∨ template.size floatText > maxPipelineNodeTemplateBytes then
    .error .invalidNodeTemplate
  else .ok ()

def PipelineNode.canonicalize (node : PipelineNode) : Except PipelineError PipelineNode :=
  let requiredCapabilities := node.requiredCapabilities.insertionSort (· ≤ ·)
  if (windows requiredCapabilities).any fun pair => pair.1 = pair.2 then
    .error (.duplicateCapability node.id)
  else do
    let template ← (canonicalizeJson node.template).mapError fun _ => .invalidNodeTemplate
    validateTemplate floatText template
    .ok { node with requiredCapabilities, template }

/-- Constructs and canonicalizes one bounded Job template. -/
def PipelineNode.new (id : PipelineNodeId) (name : JobName) (dependencyPolicy : DependencyPolicy)
    (requiredCapabilities : List ExecutionCapability) (template : Json) :
    Except PipelineError PipelineNode :=
  PipelineNode.canonicalize floatText ⟨id, name, dependencyPolicy, requiredCapabilities, template⟩

end

/-! ## Serialized form -/

/-- The fields of a derived decoder that refuses unknown ones: each once, in any order, or the
    values alone in the order of the declaration. -/
def decodeFields (names : List String) : Json → Option (List Json)
  | .object fields =>
    if (fields.map Prod.fst).Nodup ∧ ∀ field ∈ fields, field.1 ∈ names then
      names.mapM (Json.get fields)
    else none
  | .array items => if items.length = names.length then some items else none
  | _ => none

def DependencyPolicy.serialize : DependencyPolicy → Json
  | .allSucceeded => .string "all_succeeded"
  | .allCompleted => .string "all_completed"
  | .anySucceeded => .string "any_succeeded"

def DependencyPolicy.ofText (text : String) : Option DependencyPolicy :=
  if text = "all_succeeded" then some .allSucceeded
  else if text = "all_completed" then some .allCompleted
  else if text = "any_succeeded" then some .anySucceeded
  else none

/-- A unit variant is its name, or an object from its name to nothing. -/
def DependencyPolicy.deserialize : Json → Option DependencyPolicy
  | .string text => ofText text
  | .object [(text, .null)] => ofText text
  | _ => none

def PipelineNodeId.deserialize (value : Json) : Option PipelineNodeId :=
  value.asStr.bind fun text => (new text).toOption

def JobName.deserialize (value : Json) : Option JobName :=
  value.asStr.bind fun text => (new text).toOption

def ExecutionCapability.deserialize (value : Json) : Option ExecutionCapability :=
  value.asStr.bind new

def PipelineNode.serialize (node : PipelineNode) : Json :=
  .object [("id", .string node.id.value), ("name", .string node.name.value),
    ("dependency_policy", node.dependencyPolicy.serialize),
    ("required_capabilities",
      .array (node.requiredCapabilities.map fun capability => .string capability.value)),
    ("template", node.template)]

def PipelineNode.deserialize (value : Json) : Option PipelineNode :=
  match decodeFields ["id", "name", "dependency_policy", "required_capabilities", "template"]
    value with
  | some [id, name, policy, capabilities, template] => do
    let id ← PipelineNodeId.deserialize id
    let name ← JobName.deserialize name
    let policy ← DependencyPolicy.deserialize policy
    let capabilities ← (← capabilities.asArray).mapM ExecutionCapability.deserialize
    some ⟨id, name, policy, capabilities, template⟩
  | _ => none

theorem PipelineNodeId.deserialize_value (id : PipelineNodeId) :
    deserialize (.string id.value) = some id := by
  show (new id.value).toOption = some id
  unfold new
  split
  · rename_i reason h
    rw [id.valid] at h
    cases h
  · rfl

theorem JobName.deserialize_value (name : JobName) :
    deserialize (.string name.value) = some name := by
  show (new name.value).toOption = some name
  unfold new
  split
  · rename_i reason h
    rw [name.valid] at h
    cases h
  · rfl

theorem ExecutionCapability.deserialize_value (capability : ExecutionCapability) :
    deserialize (.string capability.value) = some capability :=
  dif_pos capability.valid

theorem DependencyPolicy.deserialize_serialize (policy : DependencyPolicy) :
    deserialize policy.serialize = some policy := by
  cases policy <;> rfl

/-- A list is read back when each of its elements is. -/
theorem mapM_deserialize {α : Type} {serialize : α → Json} {deserialize : Json → Option α}
    (h : ∀ a, deserialize (serialize a) = some a) (values : List α) :
    (values.map serialize).mapM deserialize = some values := by
  induction values with
  | nil => rfl
  | cons value values ih =>
    rw [List.map_cons, List.mapM_cons, h, ih]
    rfl

/-- A node is read back as it was written. -/
theorem PipelineNode.deserialize_serialize (node : PipelineNode) :
    deserialize node.serialize = some node := by
  have hflds : decodeFields
      ["id", "name", "dependency_policy", "required_capabilities", "template"] node.serialize =
        some [.string node.id.value, .string node.name.value, node.dependencyPolicy.serialize,
          .array (node.requiredCapabilities.map fun capability => .string capability.value),
          node.template] := by
    unfold decodeFields serialize
    simp only
    rw [if_pos]
    · rfl
    · simp
  have hcaps :=
    mapM_deserialize ExecutionCapability.deserialize_value node.requiredCapabilities
  unfold deserialize
  rw [hflds]
  simp only [PipelineNodeId.deserialize_value, JobName.deserialize_value,
    DependencyPolicy.deserialize_serialize, Json.asArray, Option.bind_eq_bind, Option.bind_some,
    hcaps]

end OctaCity.Pipeline
