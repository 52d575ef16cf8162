/-
  OctaCity.Source.Configuration

  Published source inputs and exclusive input groups (`factory_source.rs` of the
  store crate and of the Postgres store, `source_input.rs`, `source_group.rs`):
  the versioned tables, what one publication adds to them, and which scan
  targets they list and accept.

  What a publication reads from other tables (connections, Factory Configurations,
  repositories) is given with it.
-/
import OctaCity.Lib.Versions
import OctaCity.Source.Projection

namespace OctaCity.Source

open Factory Lib

/-! ## Inputs and groups -/

structure WorkSourceBinding where
  installation : ImmutableReference
  capability : ImmutableReference
  configuration : ImmutableReference
  resource : ImmutableReference
  deriving DecidableEq

/-- A versioned reference to a Factory Configuration or to a repository. -/
structure VersionedRef where
  id : Nat
  version : Nat
  deriving DecidableEq

structure WorkSourceInputDraft where
  target : VersionedRef
  repository : VersionedRef
  source : WorkSourceBinding
  enabled : Bool
  /-- The fields that are only compared: reporting, predicate, connection and reporter. -/
  settings : FactoryDigest
  deriving DecidableEq

structure WorkSourceInput where
  id : Nat
  version : Nat
  projectId : Nat
  definition : WorkSourceInputDraft
  deriving DecidableEq

/-- Whether two inputs observe the same installed source. -/
def WorkSourceBinding.SameScope (a b : WorkSourceBinding) : Prop :=
  a.installation = b.installation ∧ a.capability = b.capability ∧ a.resource = b.resource

instance (a b : WorkSourceBinding) : Decidable (a.SameScope b) :=
  inferInstanceAs (Decidable (_ ∧ _ ∧ _))

/-- An exclusive group; its fields are what `WorkSourceGroup::publish` checks. -/
structure WorkSourceGroup where
  id : Nat
  version : Nat
  projectId : Nat
  members : List WorkSourceInput
  nonempty : members ≠ []
  bounded : members.length ≤ 64
  owned : ∀ member ∈ members, member.projectId = projectId
  distinct : (members.map (·.id)).Nodup
  oneScope : ∀ member ∈ members, ∀ other ∈ members,
    member.definition.source.SameScope other.definition.source
  deriving DecidableEq

inductive WorkSourceScanTarget
  | input (id version : Nat)
  | group (id version : Nat)
  deriving DecidableEq

/-- The identity of a scan, which later definitions keep. -/
def WorkSourceScanTarget.identity : WorkSourceScanTarget → String × Nat
  | .input id _ => ("input", id)
  | .group id _ => ("group", id)

/-! ## Publications -/

structure WorkSourceInputChange where
  expectedVersion : Option Nat
  input : WorkSourceInput

structure WorkSourceGroupChange where
  expectedVersion : Option Nat
  group : WorkSourceGroup

structure PublishWorkSources where
  projectId : Nat
  inputs : List WorkSourceInputChange
  group : Option WorkSourceGroupChange

/-- What a publication reads from the other tables. -/
structure PublicationChecks where
  /-- `lock_connections`. -/
  connections : Bool
  /-- `validate_managed`. -/
  isManaged : WorkSourceInput → Bool
  /-- `validate_source_input_dependencies`. -/
  hasDependencies : WorkSourceInput → Bool

/-- The version that follows an expected one, within 64 bits. -/
def IsNext (version : Nat) (expected : Option Nat) : Prop :=
  version = expected.getD 0 + 1 ∧ version < 2 ^ 64

instance (version : Nat) (expected : Option Nat) : Decidable (IsNext version expected) :=
  inferInstanceAs (Decidable (_ ∧ _))

def PublishWorkSources.validate (request : PublishWorkSources) : Except SourceError Unit :=
  if 64 < request.inputs.length ∨ (request.inputs = [] ∧ request.group.isNone) then
    .error .conflict
  else if ¬ (request.inputs.map fun change => change.input.id).Nodup then .error .conflict
  else if ∃ change ∈ request.inputs, change.input.projectId ≠ request.projectId ∨
      ¬ IsNext change.input.version change.expectedVersion then .error .conflict
  else if ∃ change ∈ request.group, change.group.projectId ≠ request.projectId ∨
      ¬ IsNext change.group.version change.expectedVersion then .error .conflict
  else .ok ()

/-! ## Tables -/

/-- The Projects and the published versions of inputs and groups. -/
structure SourceTables where
  projects : List Nat
  inputs : List WorkSourceInput
  groups : List WorkSourceGroup
  deriving DecidableEq

namespace SourceTables

variable (tables : SourceTables)

def currentInput? (project id : Nat) : Option WorkSourceInput :=
  newest WorkSourceInput.version (fun input => input.projectId = project ∧ input.id = id)
    tables.inputs

def currentInput (project id : Nat) : Except SourceError WorkSourceInput :=
  okOr (tables.currentInput? project id) .conflict

/-- The newest version of a group in a Project. -/
def currentGroup? (project id : Nat) : Option WorkSourceGroup :=
  newest WorkSourceGroup.version (fun group => group.projectId = project ∧ group.id = id)
    tables.groups

/-- Whether the newest version of some group has an input as a member. -/
def isGrouped (project id : Nat) : Bool :=
  tables.groups.any fun group =>
    tables.currentGroup? project group.id = some group ∧ ∃ member ∈ group.members, member.id = id

/-- Whether every member of a group is the current version of its input. -/
def isUpToDate (project : Nat) (group : WorkSourceGroup) : Bool :=
  group.members.all fun member => tables.currentInput? project member.id = some member

def requireCurrent (project : Nat) : WorkSourceScanTarget → Except SourceError Unit
  | .input id version => do
    let input ← tables.currentInput project id
    if input.version ≠ version ∨ ¬ input.definition.enabled then .error .conflict
    else if tables.isGrouped project id then .error .conflict
    else .ok ()
  | .group id version => do
    let group ← okOr (tables.currentGroup? project id) .conflict
    if group.version ≠ version then .error .conflict
    else if ¬ tables.isUpToDate project group then .error .conflict
    else if ¬ group.members.any (·.definition.enabled) then .error .conflict
    else .ok ()

/-- The targets of a Project, in no order. -/
def scanTargets (project : Nat) : List WorkSourceScanTarget :=
  (tables.inputs.filter fun input =>
      tables.currentInput? project input.id = some input ∧ input.definition.enabled ∧
        ¬ tables.isGrouped project input.id).map (fun input => .input input.id input.version) ++
    (tables.groups.filter fun group =>
      tables.currentGroup? project group.id = some group ∧
        group.members.any (·.definition.enabled) ∧ tables.isUpToDate project group).map
      fun group => .group group.id group.version

def scanMembers (project : Nat) : WorkSourceScanTarget → Except SourceError (List WorkSourceInput)
  | .input id _ => do
    let input ← tables.currentInput project id
    .ok [input]
  | .group id version => do
    let group ← okOr
      (tables.groups.find? fun group =>
        group.projectId = project ∧ group.id = id ∧ group.version = version) .unavailable
    .ok group.members

/-- One input of `publish_in`. -/
def publishInput (project : Nat) (checks : PublicationChecks) (tables : SourceTables)
    (change : WorkSourceInputChange) : Except SourceError SourceTables :=
  let current := newest WorkSourceInput.version (·.id = change.input.id) tables.inputs
  if ¬ checks.isManaged change.input then .error .conflict
  else if current.map (·.version) ≠ change.expectedVersion ∨
      current.any (·.projectId ≠ project) then .error .conflict
  else if ¬ checks.hasDependencies change.input then .error .conflict
  else if 2 ^ 63 ≤ change.input.version then .error .conflict
  else .ok { tables with inputs := tables.inputs ++ [change.input] }

/-- The group of `publish_in`. -/
def publishGroup (project : Nat) (checks : PublicationChecks) (change : WorkSourceGroupChange) :
    Except SourceError SourceTables :=
  let current := newest WorkSourceGroup.version (·.id = change.group.id) tables.groups
  if current.map (·.version) ≠ change.expectedVersion ∨
      current.any (·.projectId ≠ project) then .error .conflict
  -- The members are compared with the inputs as this publication leaves them.
  else if ∃ member ∈ change.group.members, ¬ checks.isManaged member ∨
      tables.currentInput? project member.id ≠ some member then .error .conflict
  else if 2 ^ 63 ≤ change.group.version then .error .conflict
  else .ok { tables with groups := tables.groups ++ [change.group] }

/-- `publish_in`. -/
def publish (request : PublishWorkSources) (checks : PublicationChecks) :
    Except SourceError SourceTables := do
  request.validate
  if ¬ checks.connections ∨ request.projectId ∉ tables.projects then .error .conflict
  else do
    let tables ← request.inputs.foldlM (publishInput request.projectId checks) tables
    match request.group with
    | none => .ok tables
    | some change => tables.publishGroup request.projectId checks change

end SourceTables

end OctaCity.Source
