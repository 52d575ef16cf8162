/-
  OctaCity.Agent.ToolAction

  The canonical tool action a coding harness proposes and the permission ceiling
  it is checked against (octacity-protocol, `tool_action.rs`).

  Main result: `CanonicalFactoryToolActionV3.isPermittedBy_iff`, a valid
  ceiling permits exactly the actions it grants in every part.
-/
import OctaCity.Agent.PermissionWire
import OctaCity.Lib.BinarySearch

namespace OctaCity.Agent

open Factory (isControl MountMode)
open Lib

/-- Access requested for one canonical portable path. -/
inductive FactoryToolPathAccessV3
  | read
  | write
  deriving DecidableEq

def FactoryToolPathAccessV3.rank : FactoryToolPathAccessV3 → Nat
  | .read => 0
  | .write => 1

/-- One path touched by a proposed protected tool action. -/
structure FactoryToolPathV3 where
  path : String
  access : FactoryToolPathAccessV3

/-- Untrusted bounded proposal emitted by a blocking coding-harness hook. -/
structure FactoryToolActionProposalV3 where
  tool : FactoryImmutableReferenceV3
  executable : FactoryImmutableReferenceV3
  arguments : List String
  paths : List FactoryToolPathV3
  networkHosts : List String
  secretProfiles : List String
  workloadIdentityProfiles : List String
  descendants : Nat
  resources : FactoryResourceLimitsV3
  outputs : FactoryOutputPermissionsV3

/-! ## Canonical proposals -/

def validateArguments (arguments : List String) : Except String Unit :=
  if maxFactoryCommandArguments < arguments.length ∨
      arguments.any (fun argument => argument.toList.any isControl) ∨
      maxFactoryCommandArgumentBytes < argumentBytes arguments then
    .error "tool-action arguments exceed the protocol bound"
  else .ok ()

/-- Two neighbours are the same. -/
def repeats {α : Type} [DecidableEq α] (values : List α) : Bool :=
  (values.zip values.tail).any fun pair => pair.1 = pair.2

/-- The values in order, each valid and none twice. -/
def canonicalizeStrings (name : String) (values : List String)
    (validate : String → String → Except String Unit) : Except String (List String) := do
  boundedCount name values.length
  values.forM (validate name)
  let sorted := values.mergeSort (· ≤ ·)
  if repeats sorted then .error (name ++ " contains a duplicate value") else .ok sorted

def validateResources (descendants : Nat) (resources : FactoryResourceLimitsV3) :
    Except String Unit :=
  if resources.cpuMillis = 0 ∨ resources.memoryBytes = 0 ∨ resources.diskBytes = 0 ∨
      resources.processCount = 0 ∨ resources.elapsedMillis = 0 ∨
      resources.processCount ≤ descendants then
    .error "tool-action resource bounds are invalid"
  else .ok ()

def validateOutputs (outputs : FactoryOutputPermissionsV3) : Except String Unit := do
  boundedCount "tool_action.outputs.kinds" outputs.kinds.length
  outputs.kinds.forM (boundedKey "tool_action.outputs.kinds")
  if repeats outputs.kinds ∨
      (outputs.maxArtifactCount = 0) ≠ (outputs.maxArtifactBytes = 0) ∨
      (outputs.maxReportCount = 0) ≠ (outputs.maxReportBytes = 0) ∨
      (outputs.kinds ≠ []) ≠ (0 < outputs.maxArtifactCount ∨ 0 < outputs.maxReportCount) then
    .error "tool-action output bounds are invalid"
  else .ok ()

namespace FactoryToolActionProposalV3

/-- Validates bounds and normalizes unordered collections into one stable form. -/
def canonicalize (canonicalIp : String → Bool) (proposal : FactoryToolActionProposalV3) :
    Except String FactoryToolActionProposalV3 := do
  proposal.tool.validate "tool_action.tool"
  proposal.executable.validate "tool_action.executable"
  validateArguments proposal.arguments
  boundedCount "tool_action.paths" proposal.paths.length
  proposal.paths.forM fun path => portableAbsolutePath "tool_action.paths.path" path.path
  let paths := proposal.paths.mergeSort fun left right =>
    toLex (left.path, left.access.rank) ≤ toLex (right.path, right.access.rank)
  if repeats (paths.map (·.path)) then .error "tool-action paths must identify each path once"
  else do
    let networkHosts ← canonicalizeStrings "tool_action.network_hosts" proposal.networkHosts
      (validateHost canonicalIp)
    let secretProfiles ←
      canonicalizeStrings "tool_action.secret_profiles" proposal.secretProfiles boundedKey
    let workloadIdentityProfiles ← canonicalizeStrings "tool_action.workload_identity_profiles"
      proposal.workloadIdentityProfiles boundedKey
    validateResources proposal.descendants proposal.resources
    let outputs := { proposal.outputs with kinds := proposal.outputs.kinds.mergeSort (· ≤ ·) }
    validateOutputs outputs
    .ok { proposal with paths, networkHosts, secretProfiles, workloadIdentityProfiles, outputs }

end FactoryToolActionProposalV3

/-- Validated canonical proposal. -/
structure CanonicalFactoryToolActionV3 (canonicalIp : String → Bool) where
  action : FactoryToolActionProposalV3
  canonical : ∃ proposal : FactoryToolActionProposalV3,
    proposal.canonicalize canonicalIp = .ok action

/-! ## The ceiling -/

def commandPermits (permission : FactoryCommandPermissionV3)
    (action : FactoryToolActionProposalV3) : Bool :=
  permission.executable = action.executable && permission.permitsArguments action.arguments

/-- Reading needs a mount, writing one that may be written. -/
def pathIsPermitted (path : FactoryToolPathV3) (permissions : FactoryPermissionSetV3) : Bool :=
  permissions.mounts.any fun mount =>
    pathContains mount.root path.path && (path.access = .read || mount.mode = .readWrite)

def isSubset (values grants : List String) : Bool :=
  values.all fun value => binarySearch grants value

def resourcesFit (requested granted : FactoryResourceLimitsV3) : Bool :=
  requested.cpuMillis ≤ granted.cpuMillis && requested.memoryBytes ≤ granted.memoryBytes &&
    requested.diskBytes ≤ granted.diskBytes && requested.processCount ≤ granted.processCount &&
    requested.elapsedMillis ≤ granted.elapsedMillis

def outputsFit (requested granted : FactoryOutputPermissionsV3) : Bool :=
  isSubset requested.kinds granted.kinds &&
    requested.maxArtifactCount ≤ granted.maxArtifactCount &&
    requested.maxArtifactBytes ≤ granted.maxArtifactBytes &&
    requested.maxReportCount ≤ granted.maxReportCount &&
    requested.maxReportBytes ≤ granted.maxReportBytes

/-- Every part of the concrete action is within the ceiling. -/
def FactoryToolActionProposalV3.fits (action : FactoryToolActionProposalV3)
    (permissions : FactoryPermissionSetV3) : Bool :=
  action.tool ∈ permissions.tools && action.executable ∈ permissions.executables &&
    permissions.commands.any (fun permission => commandPermits permission action) &&
    action.descendants ≤ permissions.maxDescendants &&
    action.paths.all (fun path => pathIsPermitted path permissions) &&
    isSubset action.networkHosts permissions.networkHosts &&
    isSubset action.secretProfiles permissions.secretProfiles &&
    isSubset action.workloadIdentityProfiles permissions.workloadIdentityProfiles &&
    resourcesFit action.resources permissions.resources &&
    outputsFit action.outputs permissions.outputs

/-- Checks the complete concrete action against one permission ceiling. -/
def CanonicalFactoryToolActionV3.isPermittedBy {canonicalIp : String → Bool}
    (action : CanonicalFactoryToolActionV3 canonicalIp) (permissions : FactoryPermissionSetV3) :
    Except String Bool := do
  permissions.validate canonicalIp
  .ok (action.action.fits permissions)

/-! ## What an action is granted -/

theorem isSubset_iff {values grants : List String} (hsort : grants.Pairwise (· < ·)) :
    isSubset values grants = true ↔ values ⊆ grants := by
  rw [isSubset, List.all_eq_true]
  exact forall₂_congr fun value _ => binarySearch_iff hsort

/-- Every part of the action is granted by some entry of the set. -/
structure FactoryToolActionProposalV3.Granted (action : FactoryToolActionProposalV3)
    (permissions : FactoryPermissionSetV3) : Prop where
  tool : action.tool ∈ permissions.tools
  executable : action.executable ∈ permissions.executables
  command : ∃ permission ∈ permissions.commands, permission.executable = action.executable ∧
    permission.permitsArguments action.arguments = true
  descendants : action.descendants ≤ permissions.maxDescendants
  paths : ∀ path ∈ action.paths, ∃ mount ∈ permissions.mounts,
    pathContains mount.root path.path = true ∧ (path.access = .read ∨ mount.mode = .readWrite)
  networkHosts : action.networkHosts ⊆ permissions.networkHosts
  secretProfiles : action.secretProfiles ⊆ permissions.secretProfiles
  workloadIdentityProfiles : action.workloadIdentityProfiles ⊆ permissions.workloadIdentityProfiles
  resources : resourcesFit action.resources permissions.resources = true
  kinds : action.outputs.kinds ⊆ permissions.outputs.kinds
  maxArtifactCount : action.outputs.maxArtifactCount ≤ permissions.outputs.maxArtifactCount
  maxArtifactBytes : action.outputs.maxArtifactBytes ≤ permissions.outputs.maxArtifactBytes
  maxReportCount : action.outputs.maxReportCount ≤ permissions.outputs.maxReportCount
  maxReportBytes : action.outputs.maxReportBytes ≤ permissions.outputs.maxReportBytes

theorem FactoryToolActionProposalV3.fits_iff {action : FactoryToolActionProposalV3}
    {permissions : FactoryPermissionSetV3} (hcanon : permissions.Canonical) :
    action.fits permissions = true ↔ action.Granted permissions := by
  have hcmds : permissions.commands.any (fun permission => commandPermits permission action) =
      true ↔ ∃ permission ∈ permissions.commands, permission.executable = action.executable ∧
        permission.permitsArguments action.arguments = true := by
    simp [commandPermits]
  have hpaths : action.paths.all (fun path => pathIsPermitted path permissions) = true ↔
      ∀ path ∈ action.paths, ∃ mount ∈ permissions.mounts,
        pathContains mount.root path.path = true ∧
          (path.access = .read ∨ mount.mode = .readWrite) := by
    simp [pathIsPermitted]
  simp only [fits, outputsFit, Bool.and_eq_true, decide_eq_true_eq, hcmds, hpaths,
    isSubset_iff hcanon.networkHosts, isSubset_iff hcanon.secretProfiles,
    isSubset_iff hcanon.workloadIdentityProfiles, isSubset_iff hcanon.outputKinds]
  constructor
  · rintro ⟨⟨⟨⟨⟨⟨⟨⟨⟨tool, executable⟩, command⟩, descendants⟩, paths⟩, hosts⟩, secrets⟩, identities⟩,
      resources⟩, ⟨⟨⟨kinds, artifacts⟩, artifactBytes⟩, reports⟩, reportBytes⟩
    exact ⟨tool, executable, command, descendants, paths, hosts, secrets, identities, resources,
      kinds, artifacts, artifactBytes, reports, reportBytes⟩
  · intro h
    exact ⟨⟨⟨⟨⟨⟨⟨⟨⟨h.tool, h.executable⟩, h.command⟩, h.descendants⟩, h.paths⟩, h.networkHosts⟩,
      h.secretProfiles⟩, h.workloadIdentityProfiles⟩, h.resources⟩, ⟨⟨⟨h.kinds, h.maxArtifactCount⟩,
      h.maxArtifactBytes⟩, h.maxReportCount⟩, h.maxReportBytes⟩

/-- A valid ceiling permits exactly the actions it grants in every part. -/
theorem CanonicalFactoryToolActionV3.isPermittedBy_iff {canonicalIp : String → Bool}
    {action : CanonicalFactoryToolActionV3 canonicalIp} {permissions : FactoryPermissionSetV3} :
    action.isPermittedBy permissions = .ok true ↔
      permissions.validate canonicalIp = .ok () ∧ action.action.Granted permissions := by
  rw [isPermittedBy, check_eq_ok]
  refine and_congr_right fun hvalid => ?_
  rw [Except.ok.injEq]
  exact FactoryToolActionProposalV3.fits_iff (FactoryPermissionSetV3.validate_canonical hvalid)

end OctaCity.Agent
