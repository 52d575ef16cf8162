/-
  OctaCity.Placement.Execution

  The provider-neutral execution contract: what a signed target asks for, what
  one provider route advertises, and when the route satisfies the target.
-/
import Mathlib.Data.String.Basic
import OctaCity.Trigger.Schedule

namespace OctaCity.Placement

open Trigger (isWhitespace)

/-! ## Platforms, modes and guarantees -/

inductive PlatformOs
  | linux
  | windows
  | macos
  deriving DecidableEq

inductive PlatformArchitecture
  | amd64
  | arm64
  deriving DecidableEq

structure PlatformSpec where
  os : PlatformOs
  architecture : PlatformArchitecture
  deriving DecidableEq

inductive ExecutionMode
  | host
  | isolation
  | virtualization
  deriving DecidableEq

inductive ExecutionGuarantee
  | filesystemIsolation
  | processIsolation
  | networkIsolation
  | resourceIsolation
  | hardwareVirtualization
  deriving DecidableEq

/-- The exact baseline guarantees promised by one provider-neutral mode. -/
def guaranteesFor : ExecutionMode → Finset ExecutionGuarantee
  | .host => ∅
  | .isolation =>
    {.filesystemIsolation, .processIsolation, .networkIsolation, .resourceIsolation}
  | .virtualization =>
    {.filesystemIsolation, .processIsolation, .networkIsolation, .resourceIsolation,
      .hardwareVirtualization}

/-- Semantic Factory controls, in the order of their declaration. -/
inductive FactoryEnforcementCapability
  | pluginIdentity
  | executableIdentity
  | toolIdentity
  | commandArguments
  | descendantProcesses
  | filesystemPaths
  | mountModes
  | networkHosts
  | secretProfiles
  | workloadIdentityProfiles
  | cpu
  | memory
  | disk
  | processCount
  | elapsedTime
  | outputs
  | protectedInputIntegrity
  | readOnlyProtectedInputs
  | workspaceSeparation
  | managedOctaExecution
  | sourceVisibilityV1
  deriving DecidableEq, Ord

/-- Complete ordered enforcement vocabulary of the third contract. -/
def allEnforcement : List FactoryEnforcementCapability :=
  [.pluginIdentity, .executableIdentity, .toolIdentity, .commandArguments, .descendantProcesses,
    .filesystemPaths, .mountModes, .networkHosts, .secretProfiles, .workloadIdentityProfiles,
    .cpu, .memory, .disk, .processCount, .elapsedTime, .outputs, .protectedInputIntegrity,
    .readOnlyProtectedInputs, .workspaceSeparation, .managedOctaExecution]

/-- `str::rsplit_once`: the text around the last occurrence of the separator. -/
def rsplitOnce (separator : List Char) : List Char → Option (List Char × List Char)
  | [] => if separator.isEmpty then some ([], []) else none
  | c :: rest =>
    match rsplitOnce separator rest with
    | some (before, after) => some (c :: before, after)
    | none =>
      if separator.isPrefixOf (c :: rest) then some ([], (c :: rest).drop separator.length)
      else none

/-- `str::contains` of a text. -/
def containsText (needle text : List Char) : Bool := text.tails.any needle.isPrefixOf

/-- `sha256`; every accepted character is one byte. -/
def sha256 (name : String) (value : List Char) : Except String Unit :=
  if value.length = 64 ∧
      value.all (fun c => c.isDigit || (('a' ≤ c) && (c ≤ 'f'))) then .ok ()
  else .error s!"{name} must be a 64-character hexadecimal SHA-256 digest"

def immutableOciReference (name value : String) : Except String Unit :=
  match rsplitOnce "@sha256:".toList value.toList with
  | none => .error s!"{name} must be an immutable OCI reference ending in @sha256:<digest>"
  | some (repository, digest) =>
    if repository.isEmpty || repository.contains '@' ||
        containsText "://".toList repository || repository.any isWhitespace then
      .error s!"{name} contains an invalid OCI repository reference"
    else sha256 name digest

/-! ## Targets and routes -/

/-- Platform and guarantees requested by a provider-neutral JobSpec. -/
structure ExecutionTarget where
  mode : ExecutionMode
  hostPlatform : PlatformSpec
  targetPlatform : PlatformSpec
  requiredGuarantees : Finset ExecutionGuarantee
  immutableImage : Option String
  deriving DecidableEq

/-- The part of `ExecutionTargetV2::validate` that depends on the mode. -/
def ExecutionTarget.validateMode (target : ExecutionTarget) : Except String Unit :=
  match target.mode with
  | .host =>
    if target.hostPlatform ≠ target.targetPlatform ∨ target.immutableImage.isSome then
      .error "host execution requires one identical host/target platform and no image"
    else .ok ()
  | .isolation =>
    if target.hostPlatform ≠ target.targetPlatform ∧ target.immutableImage = none then
      .error "cross-platform isolation requires an immutable image"
    else .ok ()
  | .virtualization =>
    if target.immutableImage = none then
      .error "virtualization requires an immutable guest image"
    else .ok ()

def ExecutionTarget.validate (target : ExecutionTarget) : Except String Unit := do
  if target.requiredGuarantees ≠ guaranteesFor target.mode then
    .error "execution guarantees do not match the requested execution mode"
  else do
    target.validateMode
    match target.immutableImage with
    | none => .ok ()
    | some image => immutableOciReference "runtime.target.immutable_image" image

/-- `ExecutionProviderId`, ordered as its text. -/
structure ExecutionProviderId where
  asStr : String
  deriving DecidableEq

theorem ExecutionProviderId.asStr_injective : Function.Injective ExecutionProviderId.asStr := by
  rintro ⟨a⟩ ⟨b⟩ rfl
  rfl

instance : LinearOrder ExecutionProviderId :=
  LinearOrder.lift' ExecutionProviderId.asStr ExecutionProviderId.asStr_injective

/-- One provider-backed execution contract advertised by an Agent. -/
structure ExecutionCapability where
  provider : ExecutionProviderId
  mode : ExecutionMode
  hostPlatform : PlatformSpec
  targetPlatform : PlatformSpec
  guarantees : Finset ExecutionGuarantee
  immutableImages : Bool
  deriving DecidableEq

namespace ExecutionCapability

def validate (capability : ExecutionCapability) : Except String Unit :=
  if capability.guarantees ≠ guaranteesFor capability.mode then
    .error "execution capability guarantees do not match its mode"
  else
    match capability.mode with
    | .host =>
      if capability.hostPlatform ≠ capability.targetPlatform ∨ capability.immutableImages then
        .error "host capability requires one identical platform and no image support"
      else .ok ()
    | .isolation =>
      if capability.hostPlatform ≠ capability.targetPlatform ∧ ¬capability.immutableImages then
        .error "cross-platform isolation must support immutable images"
      else .ok ()
    | .virtualization =>
      if ¬capability.immutableImages then
        .error "virtualization capability must support immutable guest images"
      else .ok ()

/-- Whether this provider route satisfies one signed provider-neutral target. -/
def satisfies (capability : ExecutionCapability) (target : ExecutionTarget) : Bool :=
  capability.validate.isOk && target.validate.isOk &&
    capability.mode = target.mode &&
    capability.hostPlatform = target.hostPlatform &&
    capability.targetPlatform = target.targetPlatform &&
    target.requiredGuarantees ⊆ capability.guarantees &&
    (target.immutableImage = none || capability.immutableImages)

end ExecutionCapability

end OctaCity.Placement
