/-
  OctaCity.Factory.PermissionSets

  How permission sets are built and persisted: the bounds each constructor
  enforces, the draft `try_new` normalizes, the wire form a set is encoded in
  and the checks its decoding repeats.
-/
import OctaCity.Factory.Budget
import OctaCity.Factory.Grants
import OctaCity.Lib.Result
import Mathlib.Algebra.Ring.Nat
import Mathlib.Data.Finset.Sort

namespace OctaCity.Factory

open Lib List

/-! ## Categories and errors -/

/-- Capability required to enforce one permission category. -/
inductive PermissionCategory
  | pluginIdentity
  | executableIdentity
  | toolIdentity
  | commandArguments
  | descendantProcesses
  | filesystemPaths
  | mountModes
  | networkHosts
  | secretProfiles
  | workloadIdentityProfiles
  | cpu
  | memory
  | disk
  | processCount
  | elapsedTime
  | outputs
  deriving DecidableEq

def PermissionCategory.all : List PermissionCategory :=
  [.pluginIdentity, .executableIdentity, .toolIdentity, .commandArguments, .descendantProcesses,
    .filesystemPaths, .mountModes, .networkHosts, .secretProfiles, .workloadIdentityProfiles,
    .cpu, .memory, .disk, .processCount, .elapsedTime, .outputs]

/-- The Factory errors permission values raise. -/
inductive PermissionError
  | invalidPermission (category : PermissionCategory)
  | duplicatePermission (category : PermissionCategory)
  | unenforceablePermission (category : PermissionCategory)
  | collectionLimitExceeded (collection : String)
  deriving DecidableEq

def maxPermissionEntriesPerCategory : Nat := 256
def maxCommandArguments : Nat := 64
def maxCommandArgumentBytes : Nat := 16 * 1024
def maxPermissionHostBytes : Nat := 253
def maxFactoryCpuMillis : Nat := 1000000
def maxFactoryMemoryBytes : Nat := 1024 * 1024 * 1024 * 1024 * 1024
def maxFactoryDiskBytes : Nat := 1024 * 1024 * 1024 * 1024 * 1024
def maxFactoryProcessCount : Nat := 1000000
def maxFactoryOutputCount : Nat := 1000000

/-! ## Constructors -/

def CommandArgumentPattern.bytes : CommandArgumentPattern → Nat
  | .exact value => value.utf8ByteSize
  | .any => 0

def argumentBytes (arguments : List CommandArgumentPattern) : Nat :=
  (arguments.map CommandArgumentPattern.bytes).sum

def CommandPermission.tryNew (executable : ImmutableReference)
    (arguments : List CommandArgumentPattern) : Except PermissionError CommandPermission :=
  if maxCommandArguments < arguments.length ∨ maxCommandArgumentBytes < argumentBytes arguments
  then .error (.invalidPermission .commandArguments)
  else .ok ⟨executable, arguments⟩

def FactoryPath.new (value : String) : Except PermissionError FactoryPath :=
  if h : isCanonicalPath value = true then .ok ⟨value, h⟩
  else .error (.invalidPermission .filesystemPaths)

def isLowercase (c : Char) : Bool := 'a' ≤ c && c ≤ 'z'

/-- One label of a lowercase DNS name; every accepted character is one byte. -/
def validDnsLabel (label : List Char) : Bool :=
  !label.isEmpty && label.length ≤ 63 &&
    label.all (fun c => isLowercase c || c.isDigit || c = '-') &&
    label.head?.any (fun c => c.isAlphanum) && label.getLast?.any (fun c => c.isAlphanum)

section

-- Whether a text is an IP address that prints as itself.
variable (canonicalIp : String → Bool)

def NetworkHost.new (value : String) : Except PermissionError String :=
  let canonicalDns := value.utf8ByteSize ≤ maxPermissionHostBytes &&
    value.toList.any isLowercase && (value.toList.splitOn '.').all validDnsLabel
  if value.isEmpty || (!canonicalIp value && !canonicalDns) then
    .error (.invalidPermission .networkHosts)
  else .ok value

end

def FactoryResourceLimits.new (cpuMillis memoryBytes diskBytes processCount elapsedMillis : Nat) :
    Except PermissionError FactoryResourceLimits :=
  if maxFactoryCpuMillis < cpuMillis then .error (.invalidPermission .cpu)
  else if maxFactoryMemoryBytes < memoryBytes then .error (.invalidPermission .memory)
  else if maxFactoryDiskBytes < diskBytes then .error (.invalidPermission .disk)
  else if maxFactoryProcessCount < processCount then .error (.invalidPermission .processCount)
  else if maxFactoryElapsedMillis < elapsedMillis then .error (.invalidPermission .elapsedTime)
  else .ok ⟨cpuMillis, memoryBytes, diskBytes, processCount, elapsedMillis⟩

/-- Values as a set, unless there are too many or one is repeated. -/
def boundedSet {α : Type} [DecidableEq α] (values : List α) (category : PermissionCategory) :
    Except PermissionError (Finset α) :=
  if maxPermissionEntriesPerCategory < values.length then
    .error (.collectionLimitExceeded "permission grants")
  else if values.toFinset.card ≠ values.length then .error (.duplicatePermission category)
  else .ok values.toFinset

def FactoryOutputPermissions.tryNew (kinds : List FactoryKey)
    (maxArtifactCount maxArtifactBytes maxReportCount maxReportBytes : Nat) :
    Except PermissionError FactoryOutputPermissions :=
  if maxFactoryOutputCount < maxArtifactCount ∨ maxFactoryOutputCount < maxReportCount ∨
      maxFactoryOutputBytes < maxArtifactBytes ∨ maxFactoryOutputBytes < maxReportBytes then
    .error (.invalidPermission .outputs)
  else do
    let kinds ← boundedSet kinds .outputs
    .ok ⟨kinds, maxArtifactCount, maxArtifactBytes, maxReportCount, maxReportBytes⟩

/-- Untrusted permission input, normalized into a deny-by-default set. -/
structure FactoryPermissionDraft where
  plugins : List ImmutableReference
  executables : List ImmutableReference
  tools : List ImmutableReference
  commands : List CommandPermission
  maxDescendants : Nat
  mounts : List MountPermission
  networkHosts : List String
  secretProfiles : List FactoryKey
  workloadIdentityProfiles : List FactoryKey
  resources : FactoryResourceLimits
  outputs : FactoryOutputPermissions

/-- Two mounted roots of which one covers the other. -/
def MountPermission.Overlaps (left right : MountPermission) : Prop :=
  left.root.contains right.root = true ∨ right.root.contains left.root = true

instance (left right : MountPermission) : Decidable (left.Overlaps right) :=
  inferInstanceAs (Decidable (_ ∨ _))

def FactoryPermissionSet.tryNew (draft : FactoryPermissionDraft) :
    Except PermissionError FactoryPermissionSet :=
  if maxFactoryProcessCount < draft.maxDescendants then
    .error (.invalidPermission .descendantProcesses)
  else do
    let executables ← boundedSet draft.executables .executableIdentity
    if ∃ command ∈ draft.commands, command.executable ∉ executables then
      .error (.invalidPermission .commandArguments)
    else do
      let mounts ← boundedSet draft.mounts .filesystemPaths
      if ∃ mount ∈ mounts, ∃ other ∈ mounts, mount ≠ other ∧ mount.Overlaps other then
        .error (.invalidPermission .filesystemPaths)
      else do
        let plugins ← boundedSet draft.plugins .pluginIdentity
        let tools ← boundedSet draft.tools .toolIdentity
        let commands ← boundedSet draft.commands .commandArguments
        let networkHosts ← boundedSet draft.networkHosts .networkHosts
        let secretProfiles ← boundedSet draft.secretProfiles .secretProfiles
        let workloadIdentityProfiles ←
          boundedSet draft.workloadIdentityProfiles .workloadIdentityProfiles
        .ok
          { plugins, executables, tools, commands, mounts, networkHosts, secretProfiles
            workloadIdentityProfiles, maxDescendants := draft.maxDescendants
            resources := draft.resources, outputs := draft.outputs }

/-! ## Canonical order -/

/-- An exact argument comes before any argument. -/
def CommandArgumentPattern.rank : CommandArgumentPattern → WithTop String
  | .exact value => value
  | .any => ⊤

theorem CommandArgumentPattern.rank_injective : Function.Injective rank := by
  intro left right h
  cases left with
  | any =>
    cases right with
    | any => rfl
    | exact value => exact absurd h.symm (WithTop.coe_ne_top)
  | exact value =>
    cases right with
    | any => exact absurd h (WithTop.coe_ne_top)
    | exact other => rw [WithTop.coe_injective h]

instance : LinearOrder CommandArgumentPattern :=
  LinearOrder.lift' CommandArgumentPattern.rank CommandArgumentPattern.rank_injective

instance : LinearOrder CommandPermission :=
  LinearOrder.lift' (fun command => toLex (command.executable, command.arguments))
    fun a b h => by
      cases a
      cases b
      simpa using h

instance : LinearOrder FactoryPath :=
  LinearOrder.lift' FactoryPath.value fun a b h => by
    cases a
    cases b
    simpa using h

/-- Reading comes before writing. -/
def MountMode.rank : MountMode → Nat
  | .readOnly => 0
  | .readWrite => 1

instance : LinearOrder MountPermission :=
  LinearOrder.lift' (fun mount => toLex (mount.root, mount.mode.rank))
    fun a b h => by
      obtain ⟨root, mode⟩ := a
      obtain ⟨root', mode'⟩ := b
      have hpair := Prod.mk.inj (toLex.injective h)
      have hmode : mode = mode' := by
        have := hpair.2
        cases mode <;> cases mode' <;> first | rfl | cases this
      have hroot : root = root' := hpair.1
      rw [hroot, hmode]

/-! ## Persistence -/

inductive CommandArgumentPatternWire
  | exact (value : String)
  | any

structure CommandPermissionWire where
  executable : ImmutableReference
  arguments : List CommandArgumentPatternWire

structure MountPermissionWire where
  root : String
  mode : MountMode

structure ResourceLimitsWire where
  cpuMillis : Nat
  memoryBytes : Nat
  diskBytes : Nat
  processCount : Nat
  elapsedMillis : Nat

structure OutputPermissionsWire where
  kinds : List FactoryKey
  maxArtifactCount : Nat
  maxArtifactBytes : Nat
  maxReportCount : Nat
  maxReportBytes : Nat

structure PermissionSetWire where
  plugins : List ImmutableReference
  executables : List ImmutableReference
  tools : List ImmutableReference
  commands : List CommandPermissionWire
  maxDescendants : Nat
  mounts : List MountPermissionWire
  networkHosts : List String
  secretProfiles : List FactoryKey
  workloadIdentityProfiles : List FactoryKey
  resources : ResourceLimitsWire
  outputs : OutputPermissionsWire

def CommandArgumentPattern.wire : CommandArgumentPattern → CommandArgumentPatternWire
  | .exact value => .exact value
  | .any => .any

def CommandArgumentPatternWire.pattern : CommandArgumentPatternWire → CommandArgumentPattern
  | .exact value => .exact value
  | .any => .any

def CommandPermission.wire (command : CommandPermission) : CommandPermissionWire :=
  ⟨command.executable, command.arguments.map CommandArgumentPattern.wire⟩

def CommandPermissionWire.tryInto (wire : CommandPermissionWire) :
    Except PermissionError CommandPermission :=
  CommandPermission.tryNew wire.executable (wire.arguments.map CommandArgumentPatternWire.pattern)

def MountPermission.wire (mount : MountPermission) : MountPermissionWire :=
  ⟨mount.root.value, mount.mode⟩

def MountPermissionWire.tryInto (wire : MountPermissionWire) :
    Except PermissionError MountPermission := do
  let root ← FactoryPath.new wire.root
  .ok ⟨root, wire.mode⟩

abbrev ascending {α : Type} [LinearOrder α] (values : Finset α) : List α := values.sort (· ≤ ·)

/-- The wire form; sets are listed in canonical order. -/
def FactoryPermissionSet.encode (permissions : FactoryPermissionSet) : PermissionSetWire :=
  { plugins := permissions.plugins.sort (· ≤ ·)
    executables := permissions.executables.sort (· ≤ ·)
    tools := permissions.tools.sort (· ≤ ·)
    commands := (permissions.commands.sort (· ≤ ·)).map CommandPermission.wire
    maxDescendants := permissions.maxDescendants
    mounts := (permissions.mounts.sort (· ≤ ·)).map MountPermission.wire
    networkHosts := permissions.networkHosts.sort (· ≤ ·)
    secretProfiles := permissions.secretProfiles.sort (· ≤ ·)
    workloadIdentityProfiles := permissions.workloadIdentityProfiles.sort (· ≤ ·)
    resources :=
      { cpuMillis := permissions.resources.cpuMillis
        memoryBytes := permissions.resources.memoryBytes
        diskBytes := permissions.resources.diskBytes
        processCount := permissions.resources.processCount
        elapsedMillis := permissions.resources.elapsedMillis }
    outputs :=
      { kinds := permissions.outputs.kinds.sort (· ≤ ·)
        maxArtifactCount := permissions.outputs.maxArtifactCount
        maxArtifactBytes := permissions.outputs.maxArtifactBytes
        maxReportCount := permissions.outputs.maxReportCount
        maxReportBytes := permissions.outputs.maxReportBytes } }

/-- `FactoryPermissionSet::try_from` of the decoded wire form. -/
def FactoryPermissionSet.decode (canonicalIp : String → Bool) (wire : PermissionSetWire) :
    Except PermissionError FactoryPermissionSet := do
  let commands ← wire.commands.mapM CommandPermissionWire.tryInto
  let mounts ← wire.mounts.mapM MountPermissionWire.tryInto
  let networkHosts ← wire.networkHosts.mapM (NetworkHost.new canonicalIp)
  let resources ← FactoryResourceLimits.new wire.resources.cpuMillis wire.resources.memoryBytes
    wire.resources.diskBytes wire.resources.processCount wire.resources.elapsedMillis
  let outputs ← FactoryOutputPermissions.tryNew wire.outputs.kinds wire.outputs.maxArtifactCount
    wire.outputs.maxArtifactBytes wire.outputs.maxReportCount wire.outputs.maxReportBytes
  FactoryPermissionSet.tryNew
    { plugins := wire.plugins, executables := wire.executables, tools := wire.tools
      commands, maxDescendants := wire.maxDescendants, mounts, networkHosts
      secretProfiles := wire.secretProfiles
      workloadIdentityProfiles := wire.workloadIdentityProfiles
      resources, outputs }

/-! ## What the constructors accept -/

/-- Every part of the draft passed its own constructor. -/
structure FactoryPermissionDraft.Typed (canonicalIp : String → Bool)
    (draft : FactoryPermissionDraft) : Prop where
  commands : ∀ command ∈ draft.commands,
    CommandPermission.tryNew command.executable command.arguments = .ok command
  networkHosts : ∀ host ∈ draft.networkHosts, NetworkHost.new canonicalIp host = .ok host
  resources : FactoryResourceLimits.new draft.resources.cpuMillis draft.resources.memoryBytes
    draft.resources.diskBytes draft.resources.processCount draft.resources.elapsedMillis =
      .ok draft.resources
  outputs : ∃ kinds, FactoryOutputPermissions.tryNew kinds draft.outputs.maxArtifactCount
    draft.outputs.maxArtifactBytes draft.outputs.maxReportCount draft.outputs.maxReportBytes =
      .ok draft.outputs

/-- The set was built by `try_new`. -/
def FactoryPermissionSet.Built (canonicalIp : String → Bool) (permissions : FactoryPermissionSet) :
    Prop :=
  ∃ draft : FactoryPermissionDraft,
    draft.Typed canonicalIp ∧ FactoryPermissionSet.tryNew draft = .ok permissions

/-- The bounds on a command pattern. -/
structure CommandPermission.Bounded (command : CommandPermission) : Prop where
  arguments : command.arguments.length ≤ maxCommandArguments
  bytes : argumentBytes command.arguments ≤ maxCommandArgumentBytes

structure FactoryResourceLimits.Bounded (resources : FactoryResourceLimits) : Prop where
  cpuMillis : resources.cpuMillis ≤ maxFactoryCpuMillis
  memoryBytes : resources.memoryBytes ≤ maxFactoryMemoryBytes
  diskBytes : resources.diskBytes ≤ maxFactoryDiskBytes
  processCount : resources.processCount ≤ maxFactoryProcessCount
  elapsedMillis : resources.elapsedMillis ≤ maxFactoryElapsedMillis

structure FactoryOutputPermissions.Bounded (outputs : FactoryOutputPermissions) : Prop where
  kinds : outputs.kinds.card ≤ maxPermissionEntriesPerCategory
  maxArtifactCount : outputs.maxArtifactCount ≤ maxFactoryOutputCount
  maxReportCount : outputs.maxReportCount ≤ maxFactoryOutputCount
  maxArtifactBytes : outputs.maxArtifactBytes ≤ maxFactoryOutputBytes
  maxReportBytes : outputs.maxReportBytes ≤ maxFactoryOutputBytes

/-- Every invariant the constructors enforce. -/
structure FactoryPermissionSet.Valid (canonicalIp : String → Bool)
    (permissions : FactoryPermissionSet) : Prop where
  plugins : permissions.plugins.card ≤ maxPermissionEntriesPerCategory
  executables : permissions.executables.card ≤ maxPermissionEntriesPerCategory
  tools : permissions.tools.card ≤ maxPermissionEntriesPerCategory
  commands : permissions.commands.card ≤ maxPermissionEntriesPerCategory
  mounts : permissions.mounts.card ≤ maxPermissionEntriesPerCategory
  networkHosts : permissions.networkHosts.card ≤ maxPermissionEntriesPerCategory
  secretProfiles : permissions.secretProfiles.card ≤ maxPermissionEntriesPerCategory
  workloadIdentityProfiles :
    permissions.workloadIdentityProfiles.card ≤ maxPermissionEntriesPerCategory
  maxDescendants : permissions.maxDescendants ≤ maxFactoryProcessCount
  listed : ∀ command ∈ permissions.commands, command.executable ∈ permissions.executables
  patterns : ∀ command ∈ permissions.commands, command.Bounded
  separate : ∀ mount ∈ permissions.mounts, ∀ other ∈ permissions.mounts,
    mount ≠ other → ¬mount.Overlaps other
  hosts : ∀ host ∈ permissions.networkHosts, NetworkHost.new canonicalIp host = .ok host
  resources : permissions.resources.Bounded
  outputs : permissions.outputs.Bounded

variable {category : PermissionCategory}

theorem boundedSet_eq_ok {α : Type} [DecidableEq α] {values : List α} {set : Finset α} :
    boundedSet values category = .ok set ↔
      values.length ≤ maxPermissionEntriesPerCategory ∧ values.Nodup ∧ values.toFinset = set := by
  unfold boundedSet
  rw [guard_eq_ok, guard_eq_ok, not_lt, not_not, Except.ok.injEq]
  constructor
  · rintro ⟨hlen, hcard, hset⟩
    rw [card_toFinset] at hcard
    exact ⟨hlen, dedup_eq_self.mp (values.dedup_sublist.eq_of_length hcard), hset⟩
  · rintro ⟨hlen, hnodup, hset⟩
    exact ⟨hlen, toFinset_card_of_nodup hnodup, hset⟩

section

variable {α : Type} [DecidableEq α] {values : List α} {set : Finset α}
  (h : boundedSet values category = .ok set)

include h

theorem boundedSet_card : set.card ≤ maxPermissionEntriesPerCategory := by
  obtain ⟨hlen, -, rfl⟩ := boundedSet_eq_ok.mp h
  exact values.toFinset_card_le.trans hlen

theorem mem_boundedSet {value : α} : value ∈ set ↔ value ∈ values := by
  obtain ⟨-, -, rfl⟩ := boundedSet_eq_ok.mp h
  exact mem_toFinset

end

/-- A bounded set is accepted from its canonical list. -/
theorem boundedSet_sort {α : Type} [LinearOrder α] {decEq : DecidableEq α} {set : Finset α} :
    @boundedSet α decEq (set.sort (· ≤ ·)) category = .ok set ↔
      set.card ≤ maxPermissionEntriesPerCategory := by
  rw [boundedSet_eq_ok, Finset.length_sort, Finset.sort_toFinset]
  simp [Finset.sort_nodup]

/-- What `try_new` checks, one fact for each field. -/
structure FactoryPermissionSet.Accepts (draft : FactoryPermissionDraft)
    (permissions : FactoryPermissionSet) : Prop where
  descendants : draft.maxDescendants ≤ maxFactoryProcessCount
  executables : boundedSet draft.executables .executableIdentity = .ok permissions.executables
  listed : ∀ command ∈ draft.commands, command.executable ∈ permissions.executables
  mounts : boundedSet draft.mounts .filesystemPaths = .ok permissions.mounts
  separate : ∀ mount ∈ permissions.mounts, ∀ other ∈ permissions.mounts,
    mount ≠ other → ¬mount.Overlaps other
  plugins : boundedSet draft.plugins .pluginIdentity = .ok permissions.plugins
  tools : boundedSet draft.tools .toolIdentity = .ok permissions.tools
  commands : boundedSet draft.commands .commandArguments = .ok permissions.commands
  networkHosts : boundedSet draft.networkHosts .networkHosts = .ok permissions.networkHosts
  secretProfiles : boundedSet draft.secretProfiles .secretProfiles = .ok permissions.secretProfiles
  workloadIdentityProfiles :
    boundedSet draft.workloadIdentityProfiles .workloadIdentityProfiles =
      .ok permissions.workloadIdentityProfiles
  maxDescendants : permissions.maxDescendants = draft.maxDescendants
  resources : permissions.resources = draft.resources
  outputs : permissions.outputs = draft.outputs

theorem FactoryPermissionSet.tryNew_eq_ok {draft : FactoryPermissionDraft}
    {permissions : FactoryPermissionSet} :
    tryNew draft = .ok permissions ↔ permissions.Accepts draft := by
  unfold tryNew
  simp only [guard_eq_ok, bind_eq_ok, not_lt, not_exists, not_and, not_not, Except.ok.injEq]
  constructor
  · rintro ⟨hdescendants, executables, hexecutables, hlist, mounts, hmounts, hseparate, plugins,
      hplugins, tools, htools, commands, hcmds, networkHosts, hnetworkHosts, secretProfiles,
      hsecretProfiles, workloadIdentityProfiles, hids, rfl⟩
    exact ⟨hdescendants, hexecutables, hlist, hmounts, hseparate, hplugins, htools, hcmds,
      hnetworkHosts, hsecretProfiles, hids, rfl, rfl, rfl⟩
  · intro h
    refine ⟨h.descendants, _, h.executables, h.listed, _, h.mounts, h.separate, _, h.plugins, _,
      h.tools, _, h.commands, _, h.networkHosts, _, h.secretProfiles, _,
      h.workloadIdentityProfiles, ?_⟩
    cases permissions
    cases h.maxDescendants
    cases h.resources
    cases h.outputs
    rfl

theorem CommandPermission.tryNew_eq_ok {command built : CommandPermission} :
    tryNew command.executable command.arguments = .ok built ↔
      command.Bounded ∧ built = command := by
  unfold tryNew
  rw [guard_eq_ok, not_or, not_lt, not_lt, Except.ok.injEq]
  constructor
  · rintro ⟨⟨hargs, hbytes⟩, rfl⟩
    exact ⟨⟨hargs, hbytes⟩, rfl⟩
  · rintro ⟨h, rfl⟩
    exact ⟨⟨h.arguments, h.bytes⟩, rfl⟩

theorem FactoryResourceLimits.new_eq_ok {resources built : FactoryResourceLimits} :
    new resources.cpuMillis resources.memoryBytes resources.diskBytes resources.processCount
        resources.elapsedMillis = .ok built ↔ resources.Bounded ∧ built = resources := by
  unfold new
  simp only [guard_eq_ok, not_lt, Except.ok.injEq]
  constructor
  · rintro ⟨hcpu, hmemory, hdisk, hproc, helapsed, rfl⟩
    exact ⟨⟨hcpu, hmemory, hdisk, hproc, helapsed⟩, rfl⟩
  · rintro ⟨h, rfl⟩
    exact ⟨h.cpuMillis, h.memoryBytes, h.diskBytes, h.processCount, h.elapsedMillis, rfl⟩

theorem FactoryOutputPermissions.tryNew_eq_ok {kinds : List FactoryKey}
    {outputs built : FactoryOutputPermissions} :
    tryNew kinds outputs.maxArtifactCount outputs.maxArtifactBytes outputs.maxReportCount
        outputs.maxReportBytes = .ok built ↔
      boundedSet kinds .outputs = .ok built.kinds ∧ { outputs with kinds := built.kinds }.Bounded ∧
        built = { outputs with kinds := built.kinds } := by
  unfold tryNew
  simp only [guard_eq_ok, bind_eq_ok, not_or, not_lt, Except.ok.injEq]
  constructor
  · rintro ⟨⟨hcount, hreports, hbytes, hreportBytes⟩, set, hset, rfl⟩
    exact ⟨hset, ⟨boundedSet_card hset, hcount, hreports, hbytes, hreportBytes⟩, rfl⟩
  · rintro ⟨hset, h, hbuilt⟩
    exact ⟨⟨h.maxArtifactCount, h.maxReportCount, h.maxArtifactBytes, h.maxReportBytes⟩, _, hset,
      hbuilt.symm⟩

/-- The grants of a set, each category in canonical order. -/
def FactoryPermissionSet.draft (permissions : FactoryPermissionSet) : FactoryPermissionDraft :=
  { plugins := permissions.plugins.sort (· ≤ ·)
    executables := permissions.executables.sort (· ≤ ·)
    tools := permissions.tools.sort (· ≤ ·)
    commands := permissions.commands.sort (· ≤ ·)
    maxDescendants := permissions.maxDescendants
    mounts := permissions.mounts.sort (· ≤ ·)
    networkHosts := permissions.networkHosts.sort (· ≤ ·)
    secretProfiles := permissions.secretProfiles.sort (· ≤ ·)
    workloadIdentityProfiles := permissions.workloadIdentityProfiles.sort (· ≤ ·)
    resources := permissions.resources
    outputs := permissions.outputs }

section

variable {canonicalIp : String → Bool} {permissions : FactoryPermissionSet}

/-- What `try_new` checks and what the parts' own constructors check are all there is. -/
theorem FactoryPermissionSet.Accepts.valid {draft : FactoryPermissionDraft}
    (h : permissions.Accepts draft) (hpatterns : ∀ command ∈ draft.commands, command.Bounded)
    (hhosts : ∀ host ∈ draft.networkHosts, NetworkHost.new canonicalIp host = .ok host)
    (hresources : draft.resources.Bounded) (houts : draft.outputs.Bounded) :
    permissions.Valid canonicalIp where
  plugins := boundedSet_card h.plugins
  executables := boundedSet_card h.executables
  tools := boundedSet_card h.tools
  commands := boundedSet_card h.commands
  mounts := boundedSet_card h.mounts
  networkHosts := boundedSet_card h.networkHosts
  secretProfiles := boundedSet_card h.secretProfiles
  workloadIdentityProfiles := boundedSet_card h.workloadIdentityProfiles
  maxDescendants := h.maxDescendants.trans_le h.descendants
  listed command hmem := h.listed command ((mem_boundedSet h.commands).mp hmem)
  patterns command hmem := hpatterns command ((mem_boundedSet h.commands).mp hmem)
  separate := h.separate
  hosts host hmem := hhosts host ((mem_boundedSet h.networkHosts).mp hmem)
  resources := h.resources ▸ hresources
  outputs := h.outputs ▸ houts

theorem FactoryPermissionSet.Valid.accepts (h : permissions.Valid canonicalIp) :
    permissions.Accepts permissions.draft where
  descendants := h.maxDescendants
  executables := boundedSet_sort.mpr h.executables
  listed command hmem := h.listed command ((Finset.mem_sort _).mp hmem)
  mounts := boundedSet_sort.mpr h.mounts
  separate := h.separate
  plugins := boundedSet_sort.mpr h.plugins
  tools := boundedSet_sort.mpr h.tools
  commands := boundedSet_sort.mpr h.commands
  networkHosts := boundedSet_sort.mpr h.networkHosts
  secretProfiles := boundedSet_sort.mpr h.secretProfiles
  workloadIdentityProfiles := boundedSet_sort.mpr h.workloadIdentityProfiles
  maxDescendants := rfl
  resources := rfl
  outputs := rfl

/-- The constructors accept a set exactly when it has all their invariants. -/
theorem FactoryPermissionSet.built_iff :
    permissions.Built canonicalIp ↔ permissions.Valid canonicalIp := by
  constructor
  · rintro ⟨draft, htyped, hnew⟩
    obtain ⟨kinds, houts⟩ := htyped.outputs
    refine (tryNew_eq_ok.mp hnew).valid (fun command hmem => ?_) htyped.networkHosts ?_ ?_
    · exact (CommandPermission.tryNew_eq_ok.mp (htyped.commands command hmem)).1
    · exact (FactoryResourceLimits.new_eq_ok.mp htyped.resources).1
    · exact (FactoryOutputPermissions.tryNew_eq_ok.mp houts).2.1
  · intro h
    refine ⟨permissions.draft, ⟨fun command hmem => ?_, fun host hmem => ?_, ?_, ?_⟩,
      tryNew_eq_ok.mpr h.accepts⟩
    · exact CommandPermission.tryNew_eq_ok.mpr
        ⟨h.patterns command ((Finset.mem_sort _).mp hmem), rfl⟩
    · exact h.hosts host ((Finset.mem_sort _).mp hmem)
    · exact FactoryResourceLimits.new_eq_ok.mpr ⟨h.resources, rfl⟩
    · exact ⟨permissions.outputs.kinds.sort (· ≤ ·), FactoryOutputPermissions.tryNew_eq_ok.mpr
        ⟨boundedSet_sort.mpr h.outputs.kinds, h.outputs, rfl⟩⟩

end

/-! ## Restoring a set -/

theorem mapM_restores {α ω : Type} {wire : α → ω} {tryInto : ω → Except PermissionError α}
    {values : List α} (h : ∀ a ∈ values, tryInto (wire a) = .ok a) :
    (values.map wire).mapM tryInto = .ok values :=
  mapM_eq_ok.mpr (forall₂_map_left_iff.mpr (forall₂_same.mpr h))

@[simp] theorem CommandArgumentPattern.pattern_wire (argument : CommandArgumentPattern) :
    argument.wire.pattern = argument := by
  cases argument <;> rfl

theorem CommandPermission.tryInto_wire {command : CommandPermission} (h : command.Bounded) :
    command.wire.tryInto = .ok command := by
  have hnew := CommandPermission.tryNew_eq_ok.mpr ⟨h, rfl⟩
  simpa [CommandPermissionWire.tryInto, CommandPermission.wire, Function.comp_def] using hnew

theorem MountPermission.tryInto_wire (mount : MountPermission) :
    mount.wire.tryInto = .ok mount := by
  unfold MountPermissionWire.tryInto MountPermission.wire FactoryPath.new
  rw [dif_pos mount.root.canonical]
  rfl

theorem NetworkHost.new_eq_ok {canonicalIp : String → Bool} {host built : String}
    (h : NetworkHost.new canonicalIp host = .ok built) : built = host := by
  unfold NetworkHost.new at h
  cases (guard_eq_ok.mp h).2
  rfl

namespace FactoryPermissionSet

variable {canonicalIp : String → Bool} {permissions : FactoryPermissionSet}

/-- Whatever is decoded has the invariants of the constructors. -/
theorem Valid.of_decode {wire : PermissionSetWire}
    (h : decode canonicalIp wire = .ok permissions) : permissions.Valid canonicalIp := by
  unfold decode at h
  simp only [bind_eq_ok, mapM_eq_ok] at h
  obtain ⟨commands, hcmds, mounts, -, hosts, hhosts, resources, hresources, outputs, houts,
    hnew⟩ := h
  refine (tryNew_eq_ok.mp hnew).valid (fun command hmem => ?_) (fun host hmem => ?_) ?_ ?_
  · obtain ⟨source, -, hcommand⟩ := forall₂_exists_left hcmds hmem
    obtain ⟨hbdd, rfl⟩ := (@CommandPermission.tryNew_eq_ok ⟨source.executable, _⟩ _).mp hcommand
    exact hbdd
  · obtain ⟨source, -, hhost⟩ := forall₂_exists_left hhosts hmem
    obtain rfl := NetworkHost.new_eq_ok hhost
    exact hhost
  · obtain ⟨hbdd, rfl⟩ := (@FactoryResourceLimits.new_eq_ok ⟨_, _, _, _, _⟩ _).mp hresources
    exact hbdd
  · obtain ⟨-, hbdd, hsame⟩ :=
      (@FactoryOutputPermissions.tryNew_eq_ok _ ⟨∅, _, _, _, _⟩ _).mp houts
    exact hsame ▸ hbdd

/-- A set is restored from its own encoding exactly when the constructors accept it. -/
theorem decode_encode_iff :
    decode canonicalIp permissions.encode = .ok permissions ↔ permissions.Valid canonicalIp := by
  refine ⟨Valid.of_decode, fun h => ?_⟩
  unfold decode encode
  simp only [bind_eq_ok]
  refine ⟨_, mapM_restores fun command hmem => CommandPermission.tryInto_wire
      (h.patterns command ((Finset.mem_sort _).mp hmem)),
    _, mapM_restores fun mount _ => mount.tryInto_wire, _, ?_, permissions.resources,
    FactoryResourceLimits.new_eq_ok.mpr ⟨h.resources, rfl⟩, permissions.outputs,
    FactoryOutputPermissions.tryNew_eq_ok.mpr
      ⟨boundedSet_sort.mpr h.outputs.kinds, h.outputs, rfl⟩, tryNew_eq_ok.mpr h.accepts⟩
  exact mapM_eq_ok.mpr (forall₂_same.mpr fun host hmem => h.hosts host ((Finset.mem_sort _).mp hmem))

/-- Exactly the sets the constructors build are restored from their encoding, and whatever
    wire form is decoded, the decoder returns one of them. -/
theorem decoded_is_built (canonicalIp : String → Bool) :
    (∀ permissions : FactoryPermissionSet, permissions.Built canonicalIp ↔
      decode canonicalIp permissions.encode = .ok permissions) ∧
    ∀ (wire : PermissionSetWire) (permissions : FactoryPermissionSet),
      decode canonicalIp wire = .ok permissions → permissions.Built canonicalIp :=
  ⟨fun _ => built_iff.trans decode_encode_iff.symm, fun _ _ h => built_iff.mpr (.of_decode h)⟩

end FactoryPermissionSet

end OctaCity.Factory
