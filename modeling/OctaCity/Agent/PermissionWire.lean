/-
  OctaCity.Agent.PermissionWire

  Signed Factory execution authority as the server and the Agent exchange it
  (octacity-protocol, `factory.rs`), with the checks both sides repeat.

  Main result: `FactoryPermissionSetV3.validate_canonical`, what a set that
  passes its checks is known to be.
-/
import OctaCity.Factory.PermissionSets
import Mathlib.Data.Sum.Order

namespace OctaCity.Agent

open Factory (isControl validDnsLabel MountMode)
open Lib List

def maxFactoryPermissionEntries : Nat := 256
def maxFactoryPathBytes : Nat := 1024
def maxFactoryWireIdentityBytes : Nat := 256
def maxFactoryCommandArguments : Nat := 64
def maxFactoryCommandArgumentBytes : Nat := 16 * 1024

/-! ## Values -/

structure FactoryImmutableReferenceV3 where
  identity : String
  version : String
  sha256 : String
  deriving DecidableEq

instance : LinearOrder FactoryImmutableReferenceV3 :=
  LinearOrder.lift' (fun reference => toLex (reference.identity,
    toLex (reference.version, reference.sha256))) fun a b h => by
      cases a
      cases b
      simpa using h

/-- One fixed-position argument constraint. -/
inductive FactoryCommandArgumentV3
  | exact (value : String)
  | any (maxBytes : Nat)

/-- An exact argument comes before any argument. -/
def FactoryCommandArgumentV3.rank : FactoryCommandArgumentV3 → Lex (String ⊕ Nat)
  | .exact value => toLex (.inl value)
  | .any maxBytes => toLex (.inr maxBytes)

theorem FactoryCommandArgumentV3.rank_injective : Function.Injective rank := by
  intro left right h
  cases left with
  | exact value =>
    cases right with
    | exact other => rw [Sum.inl.inj (toLex.injective h)]
    | any maxBytes => cases toLex.injective h
  | any maxBytes =>
    cases right with
    | exact other => cases toLex.injective h
    | any other => rw [Sum.inr.inj (toLex.injective h)]

instance : LinearOrder FactoryCommandArgumentV3 :=
  LinearOrder.lift' FactoryCommandArgumentV3.rank FactoryCommandArgumentV3.rank_injective

/-- One allowed executable and fixed-length argument pattern. -/
structure FactoryCommandPermissionV3 where
  executable : FactoryImmutableReferenceV3
  arguments : List FactoryCommandArgumentV3

instance : LinearOrder FactoryCommandPermissionV3 :=
  LinearOrder.lift' (fun command => toLex (command.executable, command.arguments))
    fun a b h => by
      cases a
      cases b
      simpa using h

/-- The argument is allowed at the position. -/
def FactoryCommandArgumentV3.permits : FactoryCommandArgumentV3 → String → Bool
  | .exact value, argument => argument = value
  | .any maxBytes, argument => argument.utf8ByteSize ≤ maxBytes

def argumentBytes (arguments : List String) : Nat := (arguments.map String.utf8ByteSize).sum

/-- Checks concrete arguments against the fixed-length bounded pattern. -/
def FactoryCommandPermissionV3.permitsArguments (permission : FactoryCommandPermissionV3)
    (arguments : List String) : Bool :=
  permission.arguments.length = arguments.length &&
    argumentBytes arguments ≤ maxFactoryCommandArgumentBytes &&
    (permission.arguments.zip arguments).all fun pair => pair.1.permits pair.2

/-- One portable filesystem permission. -/
structure FactoryMountPermissionV3 where
  root : String
  mode : MountMode

/-- Independent resource ceilings for one managed execution. -/
structure FactoryResourceLimitsV3 where
  cpuMillis : Nat
  memoryBytes : Nat
  diskBytes : Nat
  processCount : Nat
  elapsedMillis : Nat

/-- Output kinds and aggregate publication ceilings. -/
structure FactoryOutputPermissionsV3 where
  kinds : List String
  maxArtifactCount : Nat
  maxArtifactBytes : Nat
  maxReportCount : Nat
  maxReportBytes : Nat

/-- Deny-by-default signed Factory execution authority. -/
structure FactoryPermissionSetV3 where
  plugins : List FactoryImmutableReferenceV3
  executables : List FactoryImmutableReferenceV3
  tools : List FactoryImmutableReferenceV3
  commands : List FactoryCommandPermissionV3
  maxDescendants : Nat
  mounts : List FactoryMountPermissionV3
  networkHosts : List String
  secretProfiles : List String
  workloadIdentityProfiles : List String
  resources : FactoryResourceLimitsV3
  outputs : FactoryOutputPermissionsV3

/-! ## Checks of values -/

def boundedCount (name : String) (count : Nat) : Except String Unit :=
  if maxFactoryPermissionEntries < count then .error (name ++ " exceeds the protocol entry bound")
  else .ok ()

/-- The characters `str::trim` removes at both ends. -/
def isWhitespace (c : Char) : Bool :=
  (0x9 ≤ c.val && c.val ≤ 0xd) || c.val = 0x20 || c.val = 0x85 || c.val = 0xa0 || c.val = 0x1680 ||
    (0x2000 ≤ c.val && c.val ≤ 0x200a) || c.val = 0x2028 || c.val = 0x2029 || c.val = 0x202f ||
    c.val = 0x205f || c.val = 0x3000

def boundedText (name value : String) (maximum : Nat) : Except String Unit :=
  if value.isEmpty || maximum < value.utf8ByteSize || value.toList.head?.any isWhitespace ||
      value.toList.getLast?.any isWhitespace || value.toList.any isControl then
    .error (name ++ " is empty, oversized, or diagnostic-unsafe")
  else .ok ()

def boundedIdentity (name value : String) : Except String Unit :=
  boundedText name value maxFactoryWireIdentityBytes

/-- A lowercase ASCII letter or an ASCII digit. -/
def isKeyLetter (c : Char) : Bool := ('a' ≤ c && c ≤ 'z') || ('0' ≤ c && c ≤ '9')

def boundedKey (name value : String) : Except String Unit := do
  boundedIdentity name value
  if !value.toList.head?.any isKeyLetter ||
      !value.toList.tail.all (fun c => isKeyLetter c || c = '.' || c = '_' || c = '-') then
    .error (name ++ " is not a canonical Factory key")
  else .ok ()

/-- A SHA-256 digest in lowercase hexadecimal. -/
def digest (name value : String) : Except String Unit :=
  if value.utf8ByteSize = 64 &&
      value.toList.all (fun c => ('0' ≤ c && c ≤ '9') || ('a' ≤ c && c ≤ 'f')) then
    .ok ()
  else .error (name ++ " must be a lowercase SHA-256 digest")

def FactoryImmutableReferenceV3.validate (reference : FactoryImmutableReferenceV3)
    (name : String) : Except String Unit := do
  boundedKey name reference.identity
  boundedIdentity name reference.version
  digest name reference.sha256

/-- Every segment below the root is named, so the root itself has an empty one. -/
def portableAbsolutePath (name value : String) : Except String Unit :=
  if value.isEmpty || maxFactoryPathBytes < value.utf8ByteSize || value.toList.head? ≠ some '/' ||
      (1 < value.utf8ByteSize && value.toList.getLast? = some '/') || '\\' ∈ value.toList ||
      ':' ∈ value.toList || value.toList.any isControl ||
      ((value.toList.splitOn '/').drop 1).any (fun segment =>
        segment = [] || segment = ['.'] || segment = ['.', '.']) then
    .error (name ++ " must be a canonical absolute portable path")
  else .ok ()

/-- Whether the root is the candidate or a directory above it. -/
def pathContains (root candidate : String) : Bool :=
  candidate = root || (root ++ "/").toList.isPrefixOf candidate.toList

/-- Each key is less than the next one. -/
def strictlyOrdered {α κ : Type} [LinearOrder κ] (name : String) (values : List α) (key : α → κ) :
    Except String Unit :=
  if (values.zip values.tail).any fun pair => key pair.2 ≤ key pair.1 then
    .error (name ++ " must be canonically ordered without duplicates")
  else .ok ()

def validateKeys (name : String) (values : List String) : Except String Unit := do
  boundedCount name values.length
  strictlyOrdered name values id
  values.forM (boundedKey name)

def validateReferences (name : String) (references : List FactoryImmutableReferenceV3) :
    Except String Unit := do
  boundedCount name references.length
  strictlyOrdered name references (·.identity)
  references.forM (·.validate name)

section

-- Whether a text is an IP address that prints as itself.
variable (canonicalIp : String → Bool)

def validateHost (name value : String) : Except String Unit :=
  let canonicalDns := value.utf8ByteSize ≤ 253 && (value.toList.splitOn '.').all validDnsLabel
  if !canonicalIp value && !canonicalDns then
    .error (name ++ " is not a canonical DNS name or IP address")
  else .ok ()

def validateHosts (hosts : List String) : Except String Unit := do
  boundedCount "permissions.network_hosts" hosts.length
  strictlyOrdered "permissions.network_hosts" hosts id
  hosts.forM (validateHost canonicalIp "permissions.network_hosts")

end

/-! ## Checks of a permission set -/

/-- An exact argument is bounded text; a wildcard bound is positive and within the protocol's. -/
def FactoryCommandArgumentV3.validate : FactoryCommandArgumentV3 → Except String Unit
  | .exact value =>
    boundedText "permissions.commands.arguments" value maxFactoryCommandArgumentBytes
  | .any maxBytes =>
    if maxBytes = 0 || maxFactoryCommandArgumentBytes < maxBytes then
      .error "wildcard command argument bound is outside the protocol limit"
    else .ok ()

/-- Wildcards count nothing towards the bytes of a pattern. -/
def FactoryCommandArgumentV3.bytes : FactoryCommandArgumentV3 → Nat
  | .exact value => value.utf8ByteSize
  | .any _ => 0

def FactoryCommandPermissionV3.validate (executables : List FactoryImmutableReferenceV3)
    (command : FactoryCommandPermissionV3) : Except String Unit :=
  if command.executable ∉ executables then
    .error "command executable is absent from the executable allowlist"
  else if maxFactoryCommandArguments < command.arguments.length then
    .error "command argument count exceeds the protocol bound"
  else if maxFactoryCommandArgumentBytes <
      (command.arguments.map FactoryCommandArgumentV3.bytes).sum then
    .error "command argument bytes exceed the protocol bound"
  else command.arguments.forM FactoryCommandArgumentV3.validate

/-- Every ceiling is positive and one process is left for the primary. -/
def FactoryResourceLimitsV3.validate (resources : FactoryResourceLimitsV3)
    (maxDescendants : Nat) : Except String Unit :=
  if resources.cpuMillis = 0 ∨ resources.memoryBytes = 0 ∨ resources.diskBytes = 0 ∨
      resources.processCount = 0 ∨ resources.elapsedMillis = 0 then
    .error "managed execution requires positive Factory resource ceilings"
  else if resources.processCount ≤ maxDescendants then
    .error "descendant ceiling must leave capacity for the primary process"
  else .ok ()

/-- No mounted root is another's or lies below it. -/
def validateMounts (mounts : List FactoryMountPermissionV3) : Except String Unit := do
  boundedCount "permissions.mounts" mounts.length
  strictlyOrdered "permissions.mounts" mounts (·.root)
  mounts.forM fun mount => portableAbsolutePath "permissions.mounts.root" mount.root
  if ¬mounts.Pairwise (fun mount other => pathContains mount.root other.root = false ∧
      pathContains other.root mount.root = false) then
    .error "permission mount roots must not overlap"
  else .ok ()

def FactoryOutputPermissionsV3.validate (outputs : FactoryOutputPermissionsV3) :
    Except String Unit := do
  validateKeys "permissions.outputs.kinds" outputs.kinds
  if (outputs.maxArtifactCount = 0) ≠ (outputs.maxArtifactBytes = 0) ∨
      (outputs.maxReportCount = 0) ≠ (outputs.maxReportBytes = 0) then
    .error "Factory output counts and bytes must be enabled together"
  else if (0 < outputs.maxArtifactCount ∨ 0 < outputs.maxReportCount) ≠ (outputs.kinds ≠ []) then
    .error "Factory output kinds must be present exactly when outputs are enabled"
  else .ok ()

/-- Revalidates canonical ordering, bounds, and internal references. -/
def FactoryPermissionSetV3.validate (canonicalIp : String → Bool)
    (permissions : FactoryPermissionSetV3) : Except String Unit := do
  validateReferences "permissions.plugins" permissions.plugins
  validateReferences "permissions.executables" permissions.executables
  validateReferences "permissions.tools" permissions.tools
  boundedCount "permissions.commands" permissions.commands.length
  strictlyOrdered "permissions.commands" permissions.commands id
  permissions.commands.forM (·.validate permissions.executables)
  permissions.resources.validate permissions.maxDescendants
  validateMounts permissions.mounts
  validateHosts canonicalIp permissions.networkHosts
  validateKeys "permissions.secret_profiles" permissions.secretProfiles
  validateKeys "permissions.workload_identity_profiles" permissions.workloadIdentityProfiles
  permissions.outputs.validate

theorem strictlyOrdered_eq_ok {α κ : Type} [LinearOrder κ] {name : String} {values : List α}
    {key : α → κ} (h : strictlyOrdered name values key = .ok ()) :
    (values.map key).Pairwise (· < ·) := by
  rw [strictlyOrdered, guard_eq_ok, Bool.not_eq_true, any_eq_false] at h
  rw [← isChain_iff_pairwise, isChain_map]
  induction values with
  | nil => exact .nil
  | cons first rest ih =>
    cases rest with
    | nil => exact .singleton _
    | cons second rest =>
      refine .cons_cons ?_ (ih ⟨fun pair hmem => h.1 pair (mem_cons_of_mem _ hmem), rfl⟩)
      exact lt_of_not_ge fun hle => h.1 (first, second) mem_cons_self (decide_eq_true hle)

theorem validateKeys_ordered {name : String} {values : List String}
    (h : validateKeys name values = .ok ()) : values.Pairwise (· < ·) := by
  have hord := strictlyOrdered_eq_ok (check_eq_ok.mp (check_eq_ok.mp h).2).1
  rwa [map_id] at hord

theorem validateHosts_ordered {canonicalIp : String → Bool} {hosts : List String}
    (h : validateHosts canonicalIp hosts = .ok ()) : hosts.Pairwise (· < ·) := by
  have hord := strictlyOrdered_eq_ok (check_eq_ok.mp (check_eq_ok.mp h).2).1
  rwa [map_id] at hord

/-- What the comparisons of two sets rely on. -/
structure FactoryPermissionSetV3.Canonical (permissions : FactoryPermissionSetV3) : Prop where
  mounts : ∀ mount ∈ permissions.mounts,
    portableAbsolutePath "permissions.mounts.root" mount.root = .ok ()
  networkHosts : permissions.networkHosts.Pairwise (· < ·)
  secretProfiles : permissions.secretProfiles.Pairwise (· < ·)
  workloadIdentityProfiles : permissions.workloadIdentityProfiles.Pairwise (· < ·)
  outputKinds : permissions.outputs.kinds.Pairwise (· < ·)

theorem FactoryPermissionSetV3.validate_canonical {canonicalIp : String → Bool}
    {permissions : FactoryPermissionSetV3} (h : permissions.validate canonicalIp = .ok ()) :
    permissions.Canonical := by
  simp only [validate, check_eq_ok] at h
  obtain ⟨-, -, -, -, -, -, -, hmounts, hhosts, hsecrets, hids, houts⟩ := h
  simp only [validateMounts, check_eq_ok] at hmounts
  simp only [FactoryOutputPermissionsV3.validate, check_eq_ok] at houts
  exact
    { mounts := forM_eq_ok.mp hmounts.2.2.1
      networkHosts := validateHosts_ordered hhosts
      secretProfiles := validateKeys_ordered hsecrets
      workloadIdentityProfiles := validateKeys_ordered hids
      outputKinds := validateKeys_ordered houts.1 }

/-- The root of a file system is no portable path. -/
theorem portableAbsolutePath_ne_root {name value : String}
    (h : portableAbsolutePath name value = .ok ()) : value ≠ "/" := by
  rintro rfl
  exact absurd h (by simp [portableAbsolutePath]; decide)

end OctaCity.Agent
