/-
  OctaCity.Placement.Matching

  The scheduler's side of placement: whether one accepting idle Agent, as its
  inventory and last snapshot describe it, satisfies a ready Job.
-/
import OctaCity.Lib.Table
import OctaCity.Placement.Execution

namespace OctaCity.Placement

open Lib (Table)

/-- A text map, ordered by its names. -/
abbrev TextMap := Table (Prod.fst : String × String → String)

namespace TextMap

def get (m : TextMap) (name : String) : Option String := (m.find? name).map Prod.snd

end TextMap

/-! ## What an Agent advertises -/

inductive OciIsolation
  | process
  | hypervisor
  deriving DecidableEq

inductive RuntimeMode
  | native
  | oci
  deriving DecidableEq

structure RuntimeCapability where
  backend : String
  mode : RuntimeMode
  platform : PlatformSpec
  isolation : Option OciIsolation

/-- One execution route and the semantic Factory controls it can enforce. -/
structure FactoryExecutionCapability where
  workspaceAnchor : Bool
  controlledTools : Bool
  execution : ExecutionCapability
  enforcement : List FactoryEnforcementCapability

structure TaskPluginInventory where
  name : String
  protocol : Nat
  platforms : List String
  sha256 : String
  capabilities : List String

structure OctaInventory where
  version : String
  runnerSha256 : String
  runnerProtocols : List Nat
  eventSchemas : List Nat
  pluginProtocols : List Nat
  features : List String
  plugins : List TaskPluginInventory

structure SourcePluginInventory where
  name : String
  version : String
  platforms : List String
  sha256 : String

structure CacheCapability where
  runnerProtocol : Nat
  actionKeyFormat : Nat
  remoteHttp : Bool

/-- An inclusive range of execution-contract revisions. -/
structure ExecutionContractRange where
  min : Nat
  max : Nat

def executionContractV1 : Nat := 1
def executionContractV2 : Nat := 2
def executionContractV3 : Nat := 3
def executionContractV4 : Nat := 4

def supportedExecutionContracts : ExecutionContractRange :=
  ⟨executionContractV1, executionContractV4⟩

namespace ExecutionContractRange

def contains (range : ExecutionContractRange) (version : Nat) : Bool :=
  range.min ≤ version && version ≤ range.max

end ExecutionContractRange

structure AgentInventory where
  executionContract : ExecutionContractRange
  labels : TextMap
  hostPlatform : PlatformSpec
  runtimes : List RuntimeCapability
  executions : List ExecutionCapability
  factoryExecutions : List FactoryExecutionCapability
  octa : OctaInventory
  sourcePlugins : List SourcePluginInventory
  cache : Option CacheCapability

inductive BackendHealthStatus
  | ready
  | degraded
  /-- The backend must not receive new jobs. -/
  | unavailable
  deriving DecidableEq

structure BackendHealth where
  backend : String
  execution : Option ExecutionCapability
  status : BackendHealthStatus

structure HostSnapshot where
  availableCpuMillis : Nat
  availableMemoryBytes : Nat
  workDiskFreeBytes : Nat
  backends : List BackendHealth

/-! ## What a Job asks for -/

inductive RuntimeClass
  | native
  | ociProcess
  | ociHypervisor
  | host
  | isolation
  | virtualization

def RuntimeClass.isLegacy : RuntimeClass → Bool
  | .native | .ociProcess | .ociHypervisor => true
  | .host | .isolation | .virtualization => false

structure JobRequirements where
  capabilities : Finset String
  labels : TextMap
  minimumCpuMillis : Nat
  minimumMemoryBytes : Nat
  minimumDiskBytes : Nat
  runtimeClass : RuntimeClass
  operatingSystem : PlatformOs
  architecture : PlatformArchitecture
  hostPlatform : Option PlatformSpec
  requiredGuarantees : Finset ExecutionGuarantee

inductive RuntimeTarget
  | native (platform : PlatformSpec)
  | oci (platform : PlatformSpec) (isolation : OciIsolation) (image : String)

/-- The target of the exact v1 or v2 runtime document. -/
inductive JobRuntimePolicy
  | legacy (target : RuntimeTarget)
  | current (target : ExecutionTarget)

structure OctaSpec where
  version : String
  runnerSha256 : String
  runnerProtocol : Nat
  eventSchema : Nat
  pluginProtocol : Nat
  pluginDigests : TextMap

structure JobSourcePluginRequirement where
  provider : String
  version : String
  sha256 : String

structure FactoryToolControl where
  plugin : String
  capability : String

/-- What managed intent adds to a template. -/
structure ManagedJobSpecIntent where
  workspaceRoot : Option String
  toolControl : Option FactoryToolControl
  requiredEnforcement : List FactoryEnforcementCapability

inductive JobExecutionIntent
  | ordinary
  | managed (intent : ManagedJobSpecIntent)

structure JobSpecPolicySnapshot where
  source : JobSourcePluginRequirement
  octa : OctaSpec
  runtime : JobRuntimePolicy
  /-- Whether a cache policy is signed. -/
  cache : Bool

structure JobSpecTemplate where
  /-- Whether the template names the source-free mode. -/
  sourceFree : Bool
  execution : JobExecutionIntent
  policy : JobSpecPolicySnapshot

structure JobPlacementPolicy where
  source : Option JobSourcePluginRequirement
  octa : OctaSpec
  runtime : JobRuntimePolicy
  requiresCache : Bool
  minimumExecutionContract : Nat

namespace JobSpecTemplate

variable (template : JobSpecTemplate)

def placementPolicy : JobPlacementPolicy :=
  { source := if template.sourceFree then none else some template.policy.source
    octa := template.policy.octa
    runtime := template.policy.runtime
    requiresCache := template.policy.cache
    minimumExecutionContract :=
      match template.execution, template.policy.runtime with
      | .managed _, _ =>
        if template.sourceFree then executionContractV4 else executionContractV3
      | .ordinary, .current _ => executionContractV2
      | .ordinary, .legacy _ => executionContractV1 }

def requiredFactoryEnforcement : Option (List FactoryEnforcementCapability) :=
  match template.execution with
  | .ordinary => none
  | .managed managed => some managed.requiredEnforcement

def requiresFactoryWorkspaceAnchor : Bool :=
  match template.execution with
  | .ordinary => false
  | .managed managed => managed.workspaceRoot.isSome

def requiredToolControl : Option FactoryToolControl :=
  match template.execution with
  | .ordinary => none
  | .managed managed => managed.toolControl

end JobSpecTemplate

/-- Immutable placement facts usable before a Job or Lease exists. -/
structure PlacementRequirements where
  job : JobRequirements
  policy : JobPlacementPolicy
  factoryEnforcement : Option (List FactoryEnforcementCapability)
  workspaceAnchor : Bool
  toolControl : Option FactoryToolControl

/-! ## The matcher -/

/-- The search of `<[T]>::binary_search`; it compares the element it ends at. -/
def binarySearchFrom {α : Type} (compareTo : α → Ordering) (xs : Array α)
    (base size : Nat) : Bool :=
  if _hsize : 1 < size then
    let half := size / 2
    let mid := base + half
    let base := if (xs[mid]?.map compareTo) = some .gt then base else mid
    binarySearchFrom compareTo xs base (size - half)
  else (xs[base]?.map compareTo) = some .eq
termination_by size
decreasing_by omega

/-- `binary_search(..).is_ok()`. -/
def binarySearch {α : Type} [Ord α] (xs : List α) (x : α) : Bool :=
  binarySearchFrom (fun y => compare y x) xs.toArray 0 xs.length

def pluginPlatform (platform : PlatformSpec) : String :=
  let operatingSystem := match platform.os with
    | .linux => "linux"
    | .windows => "windows"
    | .macos => "macos"
  let architecture := match platform.architecture with
    | .amd64 => "x86_64"
    | .arm64 => "aarch64"
  s!"{operatingSystem}-{architecture}"

namespace JobRequirements

def platform (requirements : JobRequirements) : PlatformSpec :=
  ⟨requirements.operatingSystem, requirements.architecture⟩

end JobRequirements

variable (inventory : AgentInventory) (snapshot : HostSnapshot) (requirements : JobRequirements)

def labelsMatch : Bool :=
  requirements.labels.rows.all fun label => inventory.labels.get label.1 = some label.2

def resourcesMatch : Bool :=
  requirements.minimumCpuMillis ≤ snapshot.availableCpuMillis &&
    requirements.minimumMemoryBytes ≤ snapshot.availableMemoryBytes &&
    requirements.minimumDiskBytes ≤ snapshot.workDiskFreeBytes

def factoryEnforcementMatches (execution : ExecutionCapability)
    (required : Option (List FactoryEnforcementCapability))
    (requiresWorkspaceAnchor requiresControlledTools : Bool) : Bool :=
  required.all fun required =>
    inventory.factoryExecutions.any fun candidate =>
      candidate.execution = execution &&
        (!requiresWorkspaceAnchor || candidate.workspaceAnchor) &&
        (!requiresControlledTools || candidate.controlledTools) &&
        required.all fun capability => binarySearch candidate.enforcement capability

/-- Whether a legacy runtime is of the required class. -/
def RuntimeCapability.isOfClass (runtime : RuntimeCapability) : RuntimeClass → Bool
  | .native => runtime.mode = .native && runtime.isolation = none
  | .ociProcess => runtime.mode = .oci && runtime.isolation = some .process
  | .ociHypervisor => runtime.mode = .oci && runtime.isolation = some .hypervisor
  | .host | .isolation | .virtualization => false

def backendIsAvailable (runtimePolicy : JobRuntimePolicy)
    (requiredFactoryEnforcement : Option (List FactoryEnforcementCapability))
    (requiresWorkspaceAnchor requiresControlledTools : Bool) : Bool :=
  match runtimePolicy with
  | .current target =>
    match requirements.hostPlatform with
    | none => false
    | some hostPlatform =>
      if target.hostPlatform ≠ hostPlatform ∨ target.targetPlatform ≠ requirements.platform ∨
          target.requiredGuarantees ≠ requirements.requiredGuarantees then
        false
      else
        inventory.executions.any fun execution =>
          execution.satisfies target &&
            factoryEnforcementMatches inventory execution requiredFactoryEnforcement
              requiresWorkspaceAnchor requiresControlledTools &&
            snapshot.backends.any fun health =>
              health.backend = execution.provider.asStr &&
                health.execution = some execution &&
                health.status ≠ .unavailable
  | .legacy _ =>
    inventory.runtimes.any fun runtime =>
      runtime.platform = requirements.platform &&
        runtime.isOfClass requirements.runtimeClass &&
        snapshot.backends.any fun health =>
          health.backend = runtime.backend && health.status ≠ .unavailable

/-- Every capability an Agent advertises by name. -/
def advertisedCapabilities (includeLegacyRuntime : Bool) : List String :=
  let runtimes := inventory.runtimes.flatMap fun runtime =>
    [runtime.backend, match runtime.mode with | .native => "native" | .oci => "oci"] ++
      match runtime.isolation with
      | none => []
      | some .process => ["oci.process"]
      | some .hypervisor => ["oci.hypervisor"]
  inventory.octa.features ++ (if includeLegacyRuntime then runtimes else []) ++
    inventory.octa.plugins.flatMap (·.capabilities)

def capabilitiesMatch (includeLegacyRuntime : Bool) : Bool :=
  decide (∀ capability ∈ requirements.capabilities,
    capability ∈ advertisedCapabilities inventory includeLegacyRuntime)

def pluginsMatch (installed : List TaskPluginInventory) (required : OctaSpec)
    (platform : String) (toolControl : Option FactoryToolControl) : Bool :=
  (required.pluginDigests.rows.all fun (name, digest) =>
    installed.any fun plugin =>
      plugin.name = name && plugin.sha256 = digest &&
        plugin.protocol = required.pluginProtocol &&
        plugin.platforms.contains platform &&
        toolControl.all fun control =>
          control.plugin ≠ name || plugin.capabilities.contains control.capability) &&
    toolControl.all fun control => required.pluginDigests.contains control.plugin

def currentMode : RuntimeClass → Option ExecutionMode
  | .host => some .host
  | .isolation => some .isolation
  | .virtualization => some .virtualization
  | .native | .ociProcess | .ociHypervisor => none

def legacyRuntimePolicyMatches (target : RuntimeTarget) (runtimeClass : RuntimeClass)
    (platform : PlatformSpec) : Bool :=
  match target, runtimeClass with
  | .native required, .native => required = platform
  | .oci required isolation _, .ociProcess => required = platform && isolation = .process
  | .oci required isolation _, .ociHypervisor => required = platform && isolation = .hypervisor
  | _, _ => false

def runtimePolicyMatches (runtime : JobRuntimePolicy) (runtimeClass : RuntimeClass)
    (platform : PlatformSpec) (executionContractVersion : Nat) : Bool :=
  match runtime with
  | .legacy target => legacyRuntimePolicyMatches target runtimeClass platform
  | .current target =>
    executionContractV2 ≤ executionContractVersion &&
      (currentMode runtimeClass).any fun mode =>
        target.mode = mode && target.targetPlatform = platform && target.validate.isOk

/-- `cacheActionKeyFormat` is the format of the installed cache protocol. -/
def matchesPlacement (cacheActionKeyFormat : Nat) (required : PlacementRequirements)
    (executionContractVersion : Nat) : Bool :=
  let requirements := required.job
  let policy := required.policy
  if !inventory.executionContract.contains executionContractVersion ||
      !supportedExecutionContracts.contains executionContractVersion then
    false
  else
    policy.minimumExecutionContract ≤ executionContractVersion &&
      labelsMatch inventory requirements &&
      resourcesMatch snapshot requirements &&
      backendIsAvailable inventory snapshot requirements policy.runtime
        required.factoryEnforcement required.workspaceAnchor required.toolControl.isSome &&
      capabilitiesMatch inventory requirements requirements.runtimeClass.isLegacy &&
      inventory.octa.version = policy.octa.version &&
      inventory.octa.runnerSha256 = policy.octa.runnerSha256 &&
      inventory.octa.runnerProtocols.contains policy.octa.runnerProtocol &&
      inventory.octa.eventSchemas.contains policy.octa.eventSchema &&
      inventory.octa.pluginProtocols.contains policy.octa.pluginProtocol &&
      pluginsMatch inventory.octa.plugins policy.octa (pluginPlatform requirements.platform)
        required.toolControl &&
      (policy.source.all fun source =>
        inventory.sourcePlugins.any fun plugin =>
          plugin.name = source.provider && plugin.version = source.version &&
            plugin.sha256 = source.sha256 &&
            plugin.platforms.contains (pluginPlatform inventory.hostPlatform)) &&
      (!policy.requiresCache || inventory.cache.any fun cache =>
        cache.runnerProtocol = policy.octa.runnerProtocol &&
          cache.actionKeyFormat = cacheActionKeyFormat && cache.remoteHttp) &&
      runtimePolicyMatches policy.runtime requirements.runtimeClass requirements.platform
        executionContractVersion

/-- Compatibility under the revision selected for the Agent's registration. -/
def isCompatibleWithContract (cacheActionKeyFormat : Nat) (template : JobSpecTemplate)
    (executionContractVersion : Nat) : Bool :=
  matchesPlacement inventory snapshot cacheActionKeyFormat
    { job := requirements
      policy := template.placementPolicy
      factoryEnforcement := template.requiredFactoryEnforcement
      workspaceAnchor := template.requiresFactoryWorkspaceAnchor
      toolControl := template.requiredToolControl }
    executionContractVersion

/-! ## What the matcher establishes -/

variable {inventory snapshot requirements}

theorem binarySearchFrom_found {α : Type} {compareTo : α → Ordering} {xs : Array α}
    {base size : Nat} (h : binarySearchFrom compareTo xs base size = true) :
    ∃ x ∈ xs, compareTo x = .eq := by
  fun_induction binarySearchFrom compareTo xs base size with
  | case1 base size _ _ _ _ ih => exact ih h
  | case2 base size _ =>
    obtain ⟨x, hx, hfound⟩ := Option.map_eq_some_iff.mp (of_decide_eq_true h)
    exact ⟨x, Array.mem_of_getElem? hx, hfound⟩

theorem mem_of_binarySearch {enforcement : List FactoryEnforcementCapability}
    {capability : FactoryEnforcementCapability} (h : binarySearch enforcement capability = true) :
    capability ∈ enforcement := by
  obtain ⟨found, hmem, hcompare⟩ := binarySearchFrom_found h
  have heq : found = capability := by
    cases found <;> cases capability <;> first | rfl | cases hcompare
  exact heq ▸ List.mem_toArray.mp hmem

/-- A Factory Job is matched by one advertised entry of the route with everything it requires. -/
theorem factoryEnforcementMatches_entry {execution : ExecutionCapability}
    {required : List FactoryEnforcementCapability} {requiresWorkspaceAnchor
      requiresControlledTools : Bool}
    (h : factoryEnforcementMatches inventory execution (some required) requiresWorkspaceAnchor
      requiresControlledTools = true) :
    ∃ entry ∈ inventory.factoryExecutions, entry.execution = execution ∧
      (requiresWorkspaceAnchor = true → entry.workspaceAnchor = true) ∧
      (requiresControlledTools = true → entry.controlledTools = true) ∧
      ∀ capability ∈ required, capability ∈ entry.enforcement := by
  simp only [factoryEnforcementMatches, Option.all_some, List.any_eq_true, Bool.and_eq_true,
    decide_eq_true_eq, List.all_eq_true] at h
  obtain ⟨entry, hentry, ⟨⟨hexec, hanch⟩, htools⟩, hreqd⟩ := h
  refine ⟨entry, hentry, hexec, ?_, ?_, fun capability hmem =>
    mem_of_binarySearch (hreqd capability hmem)⟩
  · rintro rfl
    simpa using hanch
  · rintro rfl
    simpa using htools

/-- Placement of a provider-neutral Job rests on one available route that satisfies the target
    and has every required control. -/
theorem isCompatibleWithContract_route {cacheActionKeyFormat executionContractVersion : Nat}
    {template : JobSpecTemplate} {target : ExecutionTarget}
    (hruntime : template.policy.runtime = .current target)
    (h : isCompatibleWithContract inventory snapshot requirements cacheActionKeyFormat template
      executionContractVersion = true) : ∃ execution ∈ inventory.executions,
      execution.satisfies target = true ∧
        factoryEnforcementMatches inventory execution template.requiredFactoryEnforcement
          template.requiresFactoryWorkspaceAnchor template.requiredToolControl.isSome = true ∧
        ∃ health ∈ snapshot.backends, health.backend = execution.provider.asStr ∧
          health.execution = some execution ∧ health.status ≠ .unavailable := by
  unfold isCompatibleWithContract matchesPlacement at h
  dsimp only at h
  split at h
  · cases h
  · have hbackend : backendIsAvailable inventory snapshot requirements template.policy.runtime
        template.requiredFactoryEnforcement template.requiresFactoryWorkspaceAnchor
        template.requiredToolControl.isSome = true := by
      simp only [Bool.and_eq_true] at h
      exact h.1.1.1.1.1.1.1.1.1.1.2
    rw [hruntime] at hbackend
    unfold backendIsAvailable at hbackend
    dsimp only at hbackend
    split at hbackend
    · cases hbackend
    · split at hbackend
      · cases hbackend
      · simpa [List.any_eq_true, and_assoc] using hbackend

end OctaCity.Placement
