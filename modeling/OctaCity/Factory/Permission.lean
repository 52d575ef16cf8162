/-
  OctaCity.Factory.Permission

  Deny-by-default Factory authority (octacity-server-factory, `permission.rs`).
  A permission set is never widened: sets are only intersected, and one set is
  no broader than another when intersecting them leaves it unchanged.
-/
import OctaCity.Factory.Value
import Mathlib.Data.Finset.Option
import Mathlib.Data.Finset.Prod

namespace OctaCity.Factory

/-- One position in a bounded, fixed-length command argument pattern. -/
inductive CommandArgumentPattern
  | exact (value : String)
  | any
  deriving DecidableEq

def CommandArgumentPattern.intersection :
    CommandArgumentPattern → CommandArgumentPattern → Option CommandArgumentPattern
  | .exact left, .exact right => if left = right then some (.exact left) else none
  | .exact value, .any | .any, .exact value => some (.exact value)
  | .any, .any => some .any

/-- Exact executable identity and one fixed-length argument pattern. -/
structure CommandPermission where
  executable : ImmutableReference
  arguments : List CommandArgumentPattern
  deriving DecidableEq

def CommandPermission.intersection (left right : CommandPermission) : Option CommandPermission :=
  if left.executable ≠ right.executable ∨ left.arguments.length ≠ right.arguments.length then none
  else
    ((left.arguments.zip right.arguments).mapM
      fun (pair : CommandArgumentPattern × CommandArgumentPattern) =>
        pair.1.intersection pair.2).map
      fun arguments => ⟨left.executable, arguments⟩

def maxPermissionPathBytes : Nat := 1024

def isControl (c : Char) : Bool := c.val < 0x20 ∨ (0x7f ≤ c.val ∧ c.val < 0xa0)

/-- The paths `FactoryPath::new` accepts: absolute, slash-separated, without
    ambiguous segments. -/
def isCanonicalPath (value : String) : Bool :=
  value ≠ "" ∧ value.utf8ByteSize ≤ maxPermissionPathBytes ∧ value.toList.head? = some '/' ∧
  (value = "/" ∨ value.toList.getLast? ≠ some '/') ∧ '\\' ∉ value.toList ∧
  value.toList.all (!isControl ·) ∧
  (value = "/" ∨ ∀ segment ∈ (value.toList.splitOn '/').drop 1,
    segment ≠ [] ∧ segment ≠ ['.'] ∧ segment ≠ ['.', '.'])

/-- Canonical absolute path in the portable Factory execution namespace. -/
structure FactoryPath where
  value : String
  canonical : isCanonicalPath value = true
  deriving DecidableEq

/-- Whether this root covers the other path; directory boundaries matter. -/
def FactoryPath.contains (root other : FactoryPath) : Bool :=
  root = other || root.value = "/" || (root.value ++ "/").toList.isPrefixOf other.value.toList

inductive MountMode
  | readOnly
  | readWrite
  deriving DecidableEq

/-- One canonical filesystem root and its maximum mount access. -/
structure MountPermission where
  root : FactoryPath
  mode : MountMode
  deriving DecidableEq

def MountPermission.intersection (left right : MountPermission) : Option MountPermission :=
  let mode := if left.mode = .readOnly ∨ right.mode = .readOnly then .readOnly else .readWrite
  if left.root.contains right.root then some ⟨right.root, mode⟩
  else if right.root.contains left.root then some ⟨left.root, mode⟩
  else none

/-- Independent resource ceilings for one Factory execution. -/
structure FactoryResourceLimits where
  cpuMillis : Nat := 0
  memoryBytes : Nat := 0
  diskBytes : Nat := 0
  processCount : Nat := 0
  elapsedMillis : Nat := 0
  deriving DecidableEq

def FactoryResourceLimits.intersection (left right : FactoryResourceLimits) :
    FactoryResourceLimits where
  cpuMillis := min left.cpuMillis right.cpuMillis
  memoryBytes := min left.memoryBytes right.memoryBytes
  diskBytes := min left.diskBytes right.diskBytes
  processCount := min left.processCount right.processCount
  elapsedMillis := min left.elapsedMillis right.elapsedMillis

/-- Bounded Artifact and report publication authority. -/
structure FactoryOutputPermissions where
  kinds : Finset FactoryKey := ∅
  maxArtifactCount : Nat := 0
  maxArtifactBytes : Nat := 0
  maxReportCount : Nat := 0
  maxReportBytes : Nat := 0
  deriving DecidableEq

def FactoryOutputPermissions.intersection (left right : FactoryOutputPermissions) :
    FactoryOutputPermissions where
  kinds := left.kinds ∩ right.kinds
  maxArtifactCount := min left.maxArtifactCount right.maxArtifactCount
  maxArtifactBytes := min left.maxArtifactBytes right.maxArtifactBytes
  maxReportCount := min left.maxReportCount right.maxReportCount
  maxReportBytes := min left.maxReportBytes right.maxReportBytes

/-- Canonical deny-by-default Factory authority. -/
structure FactoryPermissionSet where
  plugins : Finset ImmutableReference := ∅
  executables : Finset ImmutableReference := ∅
  tools : Finset ImmutableReference := ∅
  commands : Finset CommandPermission := ∅
  maxDescendants : Nat := 0
  mounts : Finset MountPermission := ∅
  networkHosts : Finset String := ∅
  secretProfiles : Finset FactoryKey := ∅
  workloadIdentityProfiles : Finset FactoryKey := ∅
  resources : FactoryResourceLimits := {}
  outputs : FactoryOutputPermissions := {}
  deriving DecidableEq

/-- The intersections of every pair of grants. -/
def crossIntersection {α : Type} [DecidableEq α] (left right : Finset α)
    (intersect : α → α → Option α) : Finset α :=
  (left ×ˢ right).biUnion fun pair => (intersect pair.1 pair.2).toFinset

/-- The pure, commutative intersection of two permission sets. -/
def FactoryPermissionSet.intersection (left right : FactoryPermissionSet) :
    FactoryPermissionSet where
  plugins := left.plugins ∩ right.plugins
  executables := left.executables ∩ right.executables
  tools := left.tools ∩ right.tools
  commands := crossIntersection left.commands right.commands CommandPermission.intersection
  maxDescendants := min left.maxDescendants right.maxDescendants
  mounts := crossIntersection left.mounts right.mounts MountPermission.intersection
  networkHosts := left.networkHosts ∩ right.networkHosts
  secretProfiles := left.secretProfiles ∩ right.secretProfiles
  workloadIdentityProfiles := left.workloadIdentityProfiles ∩ right.workloadIdentityProfiles
  resources := left.resources.intersection right.resources
  outputs := left.outputs.intersection right.outputs

/-- Reports whether this set grants no authority beyond an enclosing set. -/
def FactoryPermissionSet.isNoBroaderThan (permissions enclosing : FactoryPermissionSet) : Bool :=
  permissions.intersection enclosing = permissions

end OctaCity.Factory
