/-
  OctaCity.Agent.GrantSubset

  The Agent's check that signed authority stays within its local grants
  (octacity-job, `factory_preflight.rs`), and what it decides about every
  concrete action.
-/
import OctaCity.Agent.ToolAction

namespace OctaCity.Agent

open Factory (FactoryResource MountMode)
open Lib List

/-- The reasons this check rejects a Factory Job. -/
inductive FactoryPreflightError
  | plugin
  | executable
  | tool
  | command
  | descendants
  | mount
  | network
  | secretProfile
  | workloadIdentityProfile
  | resources
  | outputs

/-! ## The check -/

/-- `require_references` and `require_strings`: every requested value is a local one. -/
def requireAll {α : Type} [DecidableEq α] (requested granted : List α)
    (error : FactoryPreflightError) : Except FactoryPreflightError Unit :=
  if requested.any (· ∉ granted) then .error error else .ok ()

def FactoryCommandArgumentV3.isWithin : FactoryCommandArgumentV3 → FactoryCommandArgumentV3 → Bool
  | .any requested, .any granted => requested ≤ granted
  | .exact value, .any maxBytes => value.utf8ByteSize ≤ maxBytes
  | .exact requested, .exact granted => requested = granted
  | .any _, .exact _ => false

def commandIsWithin (requested granted : FactoryCommandPermissionV3) : Bool :=
  requested.executable = granted.executable &&
    requested.arguments.length = granted.arguments.length &&
    (requested.arguments.zip granted.arguments).all fun pair => pair.1.isWithin pair.2

def pathIsWithin (root path : String) : Bool := pathContains root path

def mountIsWithin (requested granted : FactoryMountPermissionV3) : Bool :=
  pathIsWithin granted.root requested.root &&
    (requested.mode = .readOnly || granted.mode = .readWrite)

def resourcesExceed (resources granted : FactoryResourceLimitsV3) : Bool :=
  granted.cpuMillis < resources.cpuMillis || granted.memoryBytes < resources.memoryBytes ||
    granted.diskBytes < resources.diskBytes || granted.processCount < resources.processCount ||
    granted.elapsedMillis < resources.elapsedMillis

def outputsExceed (outputs granted : FactoryOutputPermissionsV3) : Bool :=
  outputs.kinds.any (· ∉ granted.kinds) || granted.maxArtifactCount < outputs.maxArtifactCount ||
    granted.maxArtifactBytes < outputs.maxArtifactBytes ||
    granted.maxReportCount < outputs.maxReportCount ||
    granted.maxReportBytes < outputs.maxReportBytes

def verifyGrantSubset (requested granted : FactoryPermissionSetV3) :
    Except FactoryPreflightError Unit := do
  requireAll requested.plugins granted.plugins .plugin
  requireAll requested.executables granted.executables .executable
  requireAll requested.tools granted.tools .tool
  if requested.commands.any fun command => !granted.commands.any (commandIsWithin command) then
    .error .command
  else if granted.maxDescendants < requested.maxDescendants then .error .descendants
  else if requested.mounts.any fun mount => !granted.mounts.any (mountIsWithin mount) then
    .error .mount
  else do
    requireAll requested.networkHosts granted.networkHosts .network
    requireAll requested.secretProfiles granted.secretProfiles .secretProfile
    requireAll requested.workloadIdentityProfiles granted.workloadIdentityProfiles
      .workloadIdentityProfile
    if resourcesExceed requested.resources granted.resources then .error .resources
    else if outputsExceed requested.outputs granted.outputs then .error .outputs
    else .ok ()

/-- Each category of the first set is within the same category of the second. -/
structure GrantedWithin (requested granted : FactoryPermissionSetV3) : Prop where
  plugins : requested.plugins ⊆ granted.plugins
  executables : requested.executables ⊆ granted.executables
  tools : requested.tools ⊆ granted.tools
  commands : ∀ command ∈ requested.commands, ∃ grant ∈ granted.commands,
    commandIsWithin command grant = true
  descendants : requested.maxDescendants ≤ granted.maxDescendants
  mounts : ∀ mount ∈ requested.mounts, ∃ grant ∈ granted.mounts, mountIsWithin mount grant = true
  networkHosts : requested.networkHosts ⊆ granted.networkHosts
  secretProfiles : requested.secretProfiles ⊆ granted.secretProfiles
  workloadIdentityProfiles : requested.workloadIdentityProfiles ⊆ granted.workloadIdentityProfiles
  resources : resourcesFit requested.resources granted.resources = true
  kinds : requested.outputs.kinds ⊆ granted.outputs.kinds
  maxArtifactCount : requested.outputs.maxArtifactCount ≤ granted.outputs.maxArtifactCount
  maxArtifactBytes : requested.outputs.maxArtifactBytes ≤ granted.outputs.maxArtifactBytes
  maxReportCount : requested.outputs.maxReportCount ≤ granted.outputs.maxReportCount
  maxReportBytes : requested.outputs.maxReportBytes ≤ granted.outputs.maxReportBytes

theorem requireAll_eq_ok {α : Type} [DecidableEq α] {requested granted : List α}
    {error : FactoryPreflightError} :
    requireAll requested granted error = .ok () ↔ requested ⊆ granted := by
  simp [requireAll, subset_def]

theorem resourcesExceed_eq_false {resources granted : FactoryResourceLimitsV3} :
    ¬resourcesExceed resources granted = true ↔ resourcesFit resources granted = true := by
  simp [resourcesExceed, resourcesFit]

theorem outputsExceed_eq_false {outputs granted : FactoryOutputPermissionsV3} :
    ¬outputsExceed outputs granted = true ↔ outputs.kinds ⊆ granted.kinds ∧
      outputs.maxArtifactCount ≤ granted.maxArtifactCount ∧
      outputs.maxArtifactBytes ≤ granted.maxArtifactBytes ∧
      outputs.maxReportCount ≤ granted.maxReportCount ∧
      outputs.maxReportBytes ≤ granted.maxReportBytes := by
  simp [outputsExceed, subset_def]
  tauto

theorem verifyGrantSubset_eq_ok {requested granted : FactoryPermissionSetV3} :
    verifyGrantSubset requested granted = .ok () ↔ GrantedWithin requested granted := by
  have hcmds : ¬(requested.commands.any fun command =>
      !granted.commands.any (commandIsWithin command)) = true ↔
        ∀ command ∈ requested.commands, ∃ grant ∈ granted.commands,
          commandIsWithin command grant = true := by
    simp
  have hmounts : ¬(requested.mounts.any fun mount =>
      !granted.mounts.any (mountIsWithin mount)) = true ↔
        ∀ mount ∈ requested.mounts, ∃ grant ∈ granted.mounts,
          mountIsWithin mount grant = true := by
    simp
  simp only [verifyGrantSubset, check_eq_ok, requireAll_eq_ok, guard_eq_ok, hcmds, hmounts,
    not_lt, resourcesExceed_eq_false, outputsExceed_eq_false]
  constructor
  · rintro ⟨plugins, executables, tools, commands, descendants, mounts, hosts, secrets, identities,
      resources, ⟨kinds, artifacts, artifactBytes, reports, reportBytes⟩, -⟩
    exact ⟨plugins, executables, tools, commands, descendants, mounts, hosts, secrets, identities,
      resources, kinds, artifacts, artifactBytes, reports, reportBytes⟩
  · intro h
    exact ⟨h.plugins, h.executables, h.tools, h.commands, h.descendants, h.mounts, h.networkHosts,
      h.secretProfiles, h.workloadIdentityProfiles, h.resources, ⟨h.kinds, h.maxArtifactCount,
      h.maxArtifactBytes, h.maxReportCount, h.maxReportBytes⟩, trivial⟩

/-! ## Concrete actions -/

/-- One concrete use of signed authority. -/
inductive GrantedAction
  | plugin (reference : FactoryImmutableReferenceV3)
  | executable (reference : FactoryImmutableReferenceV3)
  | tool (reference : FactoryImmutableReferenceV3)
  | command (executable : FactoryImmutableReferenceV3) (arguments : List String)
  | file (path : FactoryToolPathV3)
  | host (name : String)
  | secretProfile (key : String)
  | workloadIdentityProfile (key : String)
  | outputKind (kind : String)
  | amount (resource : FactoryResource) (quantity : Nat)

def FactoryPermissionSetV3.ceiling (permissions : FactoryPermissionSetV3) : FactoryResource → Nat
  | .cpuMillis => permissions.resources.cpuMillis
  | .memoryBytes => permissions.resources.memoryBytes
  | .diskBytes => permissions.resources.diskBytes
  | .processCount => permissions.resources.processCount
  | .elapsedMillis => permissions.resources.elapsedMillis
  | .descendants => permissions.maxDescendants
  | .artifactCount => permissions.outputs.maxArtifactCount
  | .artifactBytes => permissions.outputs.maxArtifactBytes
  | .reportCount => permissions.outputs.maxReportCount
  | .reportBytes => permissions.outputs.maxReportBytes

def FactoryPermissionSetV3.grants (permissions : FactoryPermissionSetV3) : GrantedAction → Bool
  | .plugin reference => reference ∈ permissions.plugins
  | .executable reference => reference ∈ permissions.executables
  | .tool reference => reference ∈ permissions.tools
  | .command executable arguments => permissions.commands.any fun permission =>
    permission.executable = executable && permission.permitsArguments arguments
  | .file path => pathIsPermitted path permissions
  | .host name => name ∈ permissions.networkHosts
  | .secretProfile key => key ∈ permissions.secretProfiles
  | .workloadIdentityProfile key => key ∈ permissions.workloadIdentityProfiles
  | .outputKind kind => kind ∈ permissions.outputs.kinds
  | .amount resource quantity => quantity ≤ permissions.ceiling resource

/-- An argument within another allows no more. -/
theorem FactoryCommandArgumentV3.permits_of_isWithin {requested granted : FactoryCommandArgumentV3}
    (h : requested.isWithin granted = true) {argument : String}
    (hperm : requested.permits argument = true) : granted.permits argument = true := by
  cases requested with
  | any maxBytes =>
    cases granted with
    | any other =>
      simp only [isWithin, permits, decide_eq_true_eq] at h hperm ⊢
      exact hperm.trans h
    | exact value => cases h
  | exact value =>
    simp only [permits, decide_eq_true_eq] at hperm
    subst hperm
    cases granted with
    | any maxBytes => exact h
    | exact other => exact h

theorem all_zip_iff {α β : Type} {r : α × β → Bool} {xs : List α} {ys : List β}
    (hlen : xs.length = ys.length) :
    (xs.zip ys).all r = true ↔ List.Forall₂ (fun x y => r (x, y) = true) xs ys := by
  rw [all_eq_true, forall₂_iff_zip, Prod.forall]
  exact (and_iff_right hlen).symm

variable {requested granted : FactoryCommandPermissionV3} {arguments : List String}

theorem commandIsWithin_iff :
    commandIsWithin requested granted = true ↔ requested.executable = granted.executable ∧
      List.Forall₂ (fun inner outer => inner.isWithin outer = true) requested.arguments
        granted.arguments := by
  simp only [commandIsWithin, Bool.and_eq_true, decide_eq_true_eq, and_assoc]
  refine and_congr_right fun _ => ⟨fun ⟨hlen, h⟩ => (all_zip_iff hlen).mp h, fun h => ?_⟩
  exact ⟨h.length_eq, (all_zip_iff h.length_eq).mpr h⟩

theorem permitsArguments_iff {permission : FactoryCommandPermissionV3} :
    permission.permitsArguments arguments = true ↔
      argumentBytes arguments ≤ maxFactoryCommandArgumentBytes ∧
      List.Forall₂ (fun pattern argument => pattern.permits argument = true) permission.arguments
        arguments := by
  simp only [FactoryCommandPermissionV3.permitsArguments, Bool.and_eq_true, decide_eq_true_eq]
  constructor
  · rintro ⟨⟨hlen, hbytes⟩, h⟩
    exact ⟨hbytes, (all_zip_iff hlen).mp h⟩
  · rintro ⟨hbytes, h⟩
    exact ⟨⟨h.length_eq, hbytes⟩, (all_zip_iff h.length_eq).mpr h⟩

theorem forall₂_trans {α β γ : Type} {r : α → β → Prop} {s : α → γ → Prop} {t : β → γ → Prop}
    (h : ∀ a b c, r a b → s a c → t b c) {as : List α} {bs : List β} {cs : List γ}
    (hr : List.Forall₂ r as bs) (hs : List.Forall₂ s as cs) : List.Forall₂ t bs cs := by
  induction hr generalizing cs with
  | nil =>
    cases hs
    exact .nil
  | cons hhead _ ih =>
    cases hs with
    | cons hhead' htail' => exact .cons (h _ _ _ hhead hhead') (ih htail')

theorem permitsArguments_of_isWithin (h : commandIsWithin requested granted = true)
    (hperm : requested.permitsArguments arguments = true) :
    granted.permitsArguments arguments = true := by
  rw [permitsArguments_iff] at hperm ⊢
  refine ⟨hperm.1, forall₂_trans (fun pattern outer argument hwith hpat => ?_)
    (commandIsWithin_iff.mp h).2 hperm.2⟩
  exact FactoryCommandArgumentV3.permits_of_isWithin hwith hpat

theorem pathContains_iff {root candidate : String} :
    pathContains root candidate = true ↔
      candidate = root ∨ (root ++ "/").toList <+: candidate.toList := by
  simp [pathContains, isPrefixOf_iff_prefix]

/-- Directories below a covered directory are covered. -/
theorem pathContains_trans {outer inner path : String} (hinner : pathContains outer inner = true)
    (hpath : pathContains inner path = true) : pathContains outer path = true := by
  rw [pathContains_iff] at hinner hpath ⊢
  obtain rfl | hinner := hinner
  · exact hpath
  · obtain rfl | hpath := hpath
    · exact .inr hinner
    · refine .inr (hinner.trans (List.IsPrefix.trans ?_ hpath))
      rw [String.toList_append]
      exact prefix_append _ _

theorem mount_permits_of_isWithin {requested granted : FactoryMountPermissionV3}
    (h : mountIsWithin requested granted = true) {path : FactoryToolPathV3}
    (hpath : pathContains requested.root path.path = true)
    (hmode : path.access = .read ∨ requested.mode = .readWrite) :
    pathContains granted.root path.path = true ∧
      (path.access = .read ∨ granted.mode = .readWrite) := by
  simp only [mountIsWithin, pathIsWithin, Bool.and_eq_true, Bool.or_eq_true,
    decide_eq_true_eq] at h
  refine ⟨pathContains_trans h.1 hpath, hmode.imp_right fun hwrite => ?_⟩
  exact h.2.resolve_left fun hread => MountMode.noConfusion (hread.symm.trans hwrite)

theorem resourcesFit_trans {inner middle outer : FactoryResourceLimitsV3}
    (h : resourcesFit inner middle = true) (h' : resourcesFit middle outer = true) :
    resourcesFit inner outer = true := by
  simp only [resourcesFit, Bool.and_eq_true, decide_eq_true_eq] at h h' ⊢
  omega

namespace GrantedWithin

variable {requested granted : FactoryPermissionSetV3}

section

variable (h : GrantedWithin requested granted)

include h

theorem ceiling (resource : FactoryResource) :
    requested.ceiling resource ≤ granted.ceiling resource := by
  have hresources := h.resources
  simp only [resourcesFit, Bool.and_eq_true, decide_eq_true_eq] at hresources
  obtain ⟨⟨⟨⟨hcpu, hmemory⟩, hdisk⟩, hprocesses⟩, helapsed⟩ := hresources
  cases resource with
  | cpuMillis => exact hcpu
  | memoryBytes => exact hmemory
  | diskBytes => exact hdisk
  | processCount => exact hprocesses
  | elapsedMillis => exact helapsed
  | descendants => exact h.descendants
  | artifactCount => exact h.maxArtifactCount
  | artifactBytes => exact h.maxArtifactBytes
  | reportCount => exact h.maxReportCount
  | reportBytes => exact h.maxReportBytes

/-- Every action the first set grants is one the second grants. -/
theorem grants {action : GrantedAction} (hgrants : requested.grants action = true) :
    granted.grants action = true := by
  cases action with
  | plugin reference => exact decide_eq_true (h.plugins (of_decide_eq_true hgrants))
  | executable reference => exact decide_eq_true (h.executables (of_decide_eq_true hgrants))
  | tool reference => exact decide_eq_true (h.tools (of_decide_eq_true hgrants))
  | command executable arguments =>
    simp only [FactoryPermissionSetV3.grants, any_eq_true, Bool.and_eq_true,
      decide_eq_true_eq] at hgrants ⊢
    obtain ⟨command, hmem, hsame, hperm⟩ := hgrants
    obtain ⟨grant, hgrant, hwith⟩ := h.commands command hmem
    exact ⟨grant, hgrant, (commandIsWithin_iff.mp hwith).1.symm.trans hsame,
      permitsArguments_of_isWithin hwith hperm⟩
  | file path =>
    simp only [FactoryPermissionSetV3.grants, pathIsPermitted, any_eq_true, Bool.and_eq_true,
      Bool.or_eq_true, decide_eq_true_eq] at hgrants ⊢
    obtain ⟨mount, hmem, hpath, hmode⟩ := hgrants
    obtain ⟨grant, hgrant, hwith⟩ := h.mounts mount hmem
    exact ⟨grant, hgrant, mount_permits_of_isWithin hwith hpath hmode⟩
  | host name => exact decide_eq_true (h.networkHosts (of_decide_eq_true hgrants))
  | secretProfile key => exact decide_eq_true (h.secretProfiles (of_decide_eq_true hgrants))
  | workloadIdentityProfile key =>
    exact decide_eq_true (h.workloadIdentityProfiles (of_decide_eq_true hgrants))
  | outputKind kind => exact decide_eq_true (h.kinds (of_decide_eq_true hgrants))
  | amount resource quantity =>
    exact decide_eq_true ((of_decide_eq_true hgrants).trans (h.ceiling resource))

/-- A tool action granted in every part stays so. -/
theorem granted_action {action : FactoryToolActionProposalV3} (hact : action.Granted requested) :
    action.Granted granted where
  tool := h.tools hact.tool
  executable := h.executables hact.executable
  command := by
    obtain ⟨command, hmem, hsame, hperm⟩ := hact.command
    obtain ⟨grant, hgrant, hwith⟩ := h.commands command hmem
    exact ⟨grant, hgrant, (commandIsWithin_iff.mp hwith).1.symm.trans hsame,
      permitsArguments_of_isWithin hwith hperm⟩
  descendants := hact.descendants.trans h.descendants
  paths path hmem := by
    obtain ⟨mount, hmount, hpath, hmode⟩ := hact.paths path hmem
    obtain ⟨grant, hgrant, hwith⟩ := h.mounts mount hmount
    exact ⟨grant, hgrant, mount_permits_of_isWithin hwith hpath hmode⟩
  networkHosts := List.Subset.trans hact.networkHosts h.networkHosts
  secretProfiles := List.Subset.trans hact.secretProfiles h.secretProfiles
  workloadIdentityProfiles := List.Subset.trans hact.workloadIdentityProfiles h.workloadIdentityProfiles
  resources := resourcesFit_trans hact.resources h.resources
  kinds := List.Subset.trans hact.kinds h.kinds
  maxArtifactCount := hact.maxArtifactCount.trans h.maxArtifactCount
  maxArtifactBytes := hact.maxArtifactBytes.trans h.maxArtifactBytes
  maxReportCount := hact.maxReportCount.trans h.maxReportCount
  maxReportBytes := hact.maxReportBytes.trans h.maxReportBytes

end

end GrantedWithin

end OctaCity.Agent
