/-
  OctaCity.Agent.GrantProjection

  Server permission sets in the form they are signed in (octacity-server-store,
  `factory_job_policy.rs`), and where the Agent's comparison of two of them
  agrees with the server's own algebra.
-/
import OctaCity.Agent.GrantSubset
import OctaCity.Factory.PermissionAlgebra
import Mathlib.Algebra.Order.BigOperators.Group.List

namespace OctaCity.Agent

open Factory (FactoryDigest ImmutableReference CommandArgumentPattern CommandPermission
  MountPermission FactoryPath FactoryPermissionSet MountMode ascending mem_crossIntersection)
open Factory.FactoryPermissionSet (pushPermissions releasePermissions pushPermissions_built
  releasePermissions_built)
open Finset Lib List

/-! ## The projection -/

/-- Sixty-four lowercase hexadecimal digits, the most significant first. -/
def hexDigest (digest : FactoryDigest) : String :=
  String.ofList ((List.range 64).reverse.map fun i => Nat.digitChar (digest.value / 16 ^ i % 16))

def wireReference (reference : ImmutableReference) : FactoryImmutableReferenceV3 :=
  ⟨reference.identity.value, reference.version.value, hexDigest reference.digest⟩

def wireArgument : CommandArgumentPattern → FactoryCommandArgumentV3
  | .exact value => .exact value
  | .any => .any maxFactoryCommandArgumentBytes

def wireCommand (command : CommandPermission) : FactoryCommandPermissionV3 :=
  ⟨wireReference command.executable, command.arguments.map wireArgument⟩

def wireMount (mount : MountPermission) : FactoryMountPermissionV3 :=
  ⟨mount.root.value, mount.mode⟩

/-- The fields of the set, each collection in canonical order. -/
def projection (permissions : FactoryPermissionSet) : FactoryPermissionSetV3 :=
  { plugins := (ascending permissions.plugins).map wireReference
    executables := (ascending permissions.executables).map wireReference
    tools := (ascending permissions.tools).map wireReference
    commands := (ascending permissions.commands).map wireCommand
    maxDescendants := permissions.maxDescendants
    mounts := (ascending permissions.mounts).map wireMount
    networkHosts := ascending permissions.networkHosts
    secretProfiles := (ascending permissions.secretProfiles).map (·.value)
    workloadIdentityProfiles := (ascending permissions.workloadIdentityProfiles).map (·.value)
    resources :=
      { cpuMillis := permissions.resources.cpuMillis
        memoryBytes := permissions.resources.memoryBytes
        diskBytes := permissions.resources.diskBytes
        processCount := permissions.resources.processCount
        elapsedMillis := permissions.resources.elapsedMillis }
    outputs :=
      { kinds := (ascending permissions.outputs.kinds).map (·.value)
        maxArtifactCount := permissions.outputs.maxArtifactCount
        maxArtifactBytes := permissions.outputs.maxArtifactBytes
        maxReportCount := permissions.outputs.maxReportCount
        maxReportBytes := permissions.outputs.maxReportBytes } }

/-- The projection a Job is signed with, if it passes the wire's own checks. -/
def factoryJobPermissions (canonicalIp : String → Bool) (permissions : FactoryPermissionSet) :
    Except String FactoryPermissionSetV3 := do
  (projection permissions).validate canonicalIp
  .ok (projection permissions)

/-! ## One grant within another -/

theorem mem_map_sort {α β : Type} [LinearOrder α] {s : Finset α} {f : α → β} {b : β} :
    b ∈ (s.sort (· ≤ ·)).map f ↔ ∃ a ∈ s, f a = b := by
  simp

theorem map_sort_subset {α β : Type} [LinearOrder α] {s t : Finset α} (h : s ⊆ t) (f : α → β) :
    (s.sort (· ≤ ·)).map f ⊆ (t.sort (· ≤ ·)).map f :=
  map_subset f fun _ hmem => (mem_sort _).mpr (h ((mem_sort _).mp hmem))

/-- What two arguments share is within the second, when the first is within the protocol's bound. -/
theorem wireArgument_isWithin {left right both : CommandArgumentPattern}
    (h : left.intersection right = some both) (hbytes : left.bytes ≤ maxFactoryCommandArgumentBytes) :
    (wireArgument both).isWithin (wireArgument right) = true := by
  cases left with
  | any =>
    cases right with
    | any =>
      cases h
      exact decide_eq_true (Nat.le_refl maxFactoryCommandArgumentBytes)
    | exact value =>
      cases h
      exact decide_eq_true rfl
  | exact value =>
    cases right with
    | any =>
      cases h
      exact decide_eq_true hbytes
    | exact other =>
      simp only [CommandArgumentPattern.intersection, Option.ite_none_right_eq_some] at h
      obtain ⟨rfl, h⟩ := h
      cases h
      exact decide_eq_true rfl

theorem wireArguments_areWithin {lefts rights boths : List CommandArgumentPattern}
    (h : listMeet CommandArgumentPattern.intersection lefts rights = some boths)
    (hbytes : ∀ left ∈ lefts, left.bytes ≤ maxFactoryCommandArgumentBytes) :
    List.Forall₂ (fun inner outer => inner.isWithin outer = true) (boths.map wireArgument)
      (rights.map wireArgument) := by
  induction lefts generalizing rights boths with
  | nil =>
    cases rights with
    | nil =>
      cases h
      exact .nil
    | cons right rights => cases h
  | cons left lefts ih =>
    cases rights with
    | nil => cases h
    | cons right rights =>
      obtain ⟨both, hboth, h⟩ := Option.bind_eq_some_iff.mp h
      obtain ⟨rest, hrest, rfl⟩ := Option.map_eq_some_iff.mp h
      exact .cons (wireArgument_isWithin hboth (hbytes left mem_cons_self))
        (ih hrest fun other hmem => hbytes other (mem_cons_of_mem _ hmem))

theorem wireCommand_isWithin {left right both : CommandPermission}
    (h : left.intersection right = some both) (hbdd : left.Bounded) :
    commandIsWithin (wireCommand both) (wireCommand right) = true := by
  obtain ⟨hsame, hexec, hargs⟩ := CommandPermission.intersection_eq_some.mp h
  refine commandIsWithin_iff.mpr ⟨?_, wireArguments_areWithin hargs fun argument hmem => ?_⟩
  · rw [wireCommand, wireCommand, hexec, hsame]
  · calc argument.bytes ≤ Factory.argumentBytes left.arguments :=
          le_sum_of_mem (mem_map_of_mem hmem)
      _ ≤ maxFactoryCommandArgumentBytes := hbdd.bytes

/-- No canonical path starts with two separators. -/
theorem path_not_doubled (path : FactoryPath) : ¬['/', '/'] <+: path.value.toList := by
  rintro ⟨rest, hrest⟩
  have hcanon := path.canonical
  simp only [Factory.isCanonicalPath, decide_eq_true_eq] at hcanon
  obtain ⟨-, -, -, -, -, -, hroot | hsegs⟩ := hcanon
  · rw [hroot] at hrest
    have := congrArg List.length hrest
    simp at this
  · have hsplit : path.value.toList.splitOn '/' = [[]] ++ ([[]] ++ rest.splitOn '/') := by
      rw [← hrest]
      exact (splitOn_append_cons_self [] ('/' :: rest)).trans
        (congrArg _ (splitOn_append_cons_self [] rest))
    exact (hsegs [] (by rw [hsplit]; simp)).1 rfl

/-- The wire's comparison of roots is the server's, but for the file system's root. -/
theorem pathContains_value_iff {root path : FactoryPath} :
    pathContains root.value path.value = true ↔
      root.contains path = true ∧ (root.value = "/" → path.value = "/") := by
  rw [pathContains_iff, FactoryPath.contains_iff]
  constructor
  · rintro (h | h)
    · refine ⟨.inl ?_, fun hroot => h.trans hroot⟩
      cases root
      cases path
      cases h
      rfl
    · refine ⟨.inr (.inr h), fun hroot => absurd h ?_⟩
      rw [hroot]
      exact path_not_doubled path
  · rintro ⟨rfl | hroot | h, himp⟩
    · exact .inl rfl
    · exact .inl ((himp hroot).trans hroot.symm)
    · exact .inr h

theorem wireMount_isWithin_iff {left right both : MountPermission}
    (h : left.intersection right = some both) :
    mountIsWithin (wireMount both) (wireMount right) = true ↔
      (right.root.value = "/" → both.root.value = "/") := by
  obtain ⟨hroot, hmode⟩ := MountPermission.intersection_within h
  have hmodes : (decide ((wireMount both).mode = .readOnly) ||
      decide ((wireMount right).mode = .readWrite)) = true := by
    rw [Bool.or_eq_true, decide_eq_true_iff, decide_eq_true_iff]
    exact hmode
  rw [mountIsWithin, Bool.and_eq_true, and_iff_left hmodes]
  exact pathContains_value_iff.trans (and_iff_right hroot)

/-! ## One set within another -/

/-- The second set mounts the whole file system and the first one a directory below it. -/
def MountsBelowRoot (a c : FactoryPermissionSet) : Prop :=
  (∃ mount ∈ c.mounts, mount.root.value = "/") ∧ ∃ mount ∈ a.mounts, mount.root.value ≠ "/"

/-- A directory other than the root shares itself with the root. -/
theorem intersection_root {mount root : MountPermission} (hroot : root.root.value = "/")
    (hmount : mount.root.value ≠ "/") :
    ∃ both, mount.intersection root = some both ∧ both.root = mount.root := by
  have hoff : mount.root.contains root.root = false := by
    rw [Bool.eq_false_iff]
    intro hcont
    obtain hsame | hmounted | hprefix := FactoryPath.contains_iff.mp hcont
    · exact hmount (hsame ▸ hroot)
    · exact hmount hmounted
    · -- Below a named directory no path is as short as the root.
      have hlen := hprefix.length_le
      have hpos := length_pos_of_ne_nil mount.root.value_ne_empty
      rw [hroot, String.toList_append, length_append] at hlen
      have hone : "/".toList.length = 1 := rfl
      omega
  have hover : root.root.contains mount.root = true := FactoryPath.contains_iff.mpr (.inr (.inl hroot))
  refine ⟨⟨mount.root, if mount.mode = .readOnly ∨ root.mode = .readOnly then .readOnly
    else .readWrite⟩, ?_, rfl⟩
  simp [MountPermission.intersection, hoff, hover]

section

variable {canonicalIp : String → Bool} {a c : FactoryPermissionSet}

/-- Every shared mount is within one of the second set's unless that is the root. -/
theorem shared_mounts_within (hbelow : ¬MountsBelowRoot a c) {both : MountPermission}
    (hboth : both ∈ (a.intersection c).mounts) :
    ∃ grant ∈ c.mounts, mountIsWithin (wireMount both) (wireMount grant) = true := by
  obtain ⟨mount, hmount, grant, hgrant, hmeet⟩ := mem_crossIntersection.mp hboth
  refine ⟨grant, hgrant, (wireMount_isWithin_iff hmeet).mpr fun hroot => ?_⟩
  by_contra hbothRoot
  -- A shared root other than `/` is the first set's own mount.
  refine hbelow ⟨⟨grant, hgrant, hroot⟩, mount, hmount, fun hmountRoot => ?_⟩
  have hcont : mount.root.contains grant.root = true :=
    FactoryPath.contains_iff.mpr (.inr (.inl hmountRoot))
  simp only [MountPermission.intersection, hcont, if_true, Option.some.injEq] at hmeet
  exact hbothRoot (hmeet ▸ hroot)

/-- The separate mounts of a set that mounts `/` are that mount alone. -/
theorem eq_of_mounts_root (hc : c.Valid canonicalIp) {root grant : MountPermission}
    (hmem : root ∈ c.mounts) (hroot : root.root.value = "/") (hgrant : grant ∈ c.mounts) :
    grant = root := by
  by_contra hne
  exact hc.separate grant hgrant root hmem hne
    (.inr (FactoryPath.contains_iff.mpr (.inr (.inl hroot))))

theorem shared_mounts_within_iff (hc : c.Valid canonicalIp) :
    (∀ both ∈ (a.intersection c).mounts, ∃ grant ∈ c.mounts,
      mountIsWithin (wireMount both) (wireMount grant) = true) ↔ ¬MountsBelowRoot a c := by
  refine ⟨?_, fun hbelow _ hboth => shared_mounts_within hbelow hboth⟩
  rintro hwith ⟨⟨root, hmem, hroot⟩, mount, hmount, hne⟩
  obtain ⟨both, hmeet, hsame⟩ := intersection_root hroot hne
  have hshared : both ∈ (a.intersection c).mounts :=
    mem_crossIntersection.mpr ⟨mount, hmount, root, hmem, hmeet⟩
  obtain ⟨grant, hgrant, hgranted⟩ := hwith both hshared
  rw [eq_of_mounts_root hc hmem hroot hgrant, wireMount_isWithin_iff hmeet, hsame] at hgranted
  exact hne (hgranted hroot)

/-- The categories other than the mounts, of an intersection within the second set. -/
theorem grantedWithin_intersection (ha : a.Valid canonicalIp)
    (hmounts : ∀ both ∈ (a.intersection c).mounts, ∃ grant ∈ c.mounts,
      mountIsWithin (wireMount both) (wireMount grant) = true) :
    GrantedWithin (projection (a.intersection c)) (projection c) where
  plugins := map_sort_subset inter_subset_right _
  executables := map_sort_subset inter_subset_right _
  tools := map_sort_subset inter_subset_right _
  commands command hmem := by
    obtain ⟨both, hboth, rfl⟩ := mem_map_sort.mp hmem
    obtain ⟨left, hleft, right, hright, hmeet⟩ := mem_crossIntersection.mp hboth
    exact ⟨_, mem_map_sort.mpr ⟨right, hright, rfl⟩,
      wireCommand_isWithin hmeet (ha.patterns left hleft)⟩
  descendants := Nat.min_le_right _ _
  mounts mount hmem := by
    obtain ⟨both, hboth, rfl⟩ := mem_map_sort.mp hmem
    obtain ⟨grant, hgrant, hwith⟩ := hmounts both hboth
    exact ⟨_, mem_map_sort.mpr ⟨grant, hgrant, rfl⟩, hwith⟩
  networkHosts _ hmem := by
    have hshared := mem_inter.mp ((mem_sort _).mp hmem)
    exact (mem_sort _).mpr hshared.2
  secretProfiles := map_sort_subset inter_subset_right _
  workloadIdentityProfiles := map_sort_subset inter_subset_right _
  resources := by
    simp [resourcesFit, projection, FactoryPermissionSet.intersection,
      Factory.FactoryResourceLimits.intersection]
  kinds := map_sort_subset inter_subset_right _
  maxArtifactCount := Nat.min_le_right _ _
  maxArtifactBytes := Nat.min_le_right _ _
  maxReportCount := Nat.min_le_right _ _
  maxReportBytes := Nat.min_le_right _ _

/-- An intersection is within the second set unless that one mounts `/` for directories below. -/
theorem verifyGrantSubset_intersection_iff (ha : a.Valid canonicalIp) (hc : c.Valid canonicalIp) :
    verifyGrantSubset (projection (a.intersection c)) (projection c) = .ok () ↔
      ¬MountsBelowRoot a c := by
  rw [← shared_mounts_within_iff hc, verifyGrantSubset_eq_ok]
  refine ⟨fun h both hboth => ?_, grantedWithin_intersection ha⟩
  obtain ⟨grant, hgrant, hwith⟩ := h.mounts _ (mem_map_sort.mpr ⟨both, hboth, rfl⟩)
  obtain ⟨mount, hmount, rfl⟩ := mem_map_sort.mp hgrant
  exact ⟨mount, hmount, hwith⟩

/-- What can be signed mounts no `/`. -/
theorem not_mountsBelowRoot_of_signed {wire : FactoryPermissionSetV3}
    (h : factoryJobPermissions canonicalIp c = .ok wire) : ¬MountsBelowRoot a c := by
  rintro ⟨⟨root, hmem, hroot⟩, -⟩
  have hvalid := FactoryPermissionSetV3.validate_canonical (check_eq_ok.mp h).1
  exact portableAbsolutePath_ne_root
    (hvalid.mounts _ (mem_map_sort.mpr ⟨root, hmem, rfl⟩)) hroot

end

/-- What the Agent's check accepts grants nothing more, to any action; and it accepts what the server
derives, except below a mounted `/`, which cannot be signed. -/
theorem verifyGrantSubset_sound_and_agrees (canonicalIp : String → Bool) :
    (∀ requested granted : FactoryPermissionSetV3, verifyGrantSubset requested granted = .ok () →
      (∀ action, requested.grants action = true → granted.grants action = true) ∧
      ∀ action : CanonicalFactoryToolActionV3 canonicalIp,
        action.isPermittedBy requested = .ok true →
        action.isPermittedBy granted = (granted.validate canonicalIp).map fun _ => true) ∧
    ∀ a c : FactoryPermissionSet, a.Built canonicalIp → c.Built canonicalIp →
      (verifyGrantSubset (projection (a.intersection c)) (projection c) = .ok () ↔
        ¬MountsBelowRoot a c) ∧ (a.isNoBroaderThan c = true →
        (verifyGrantSubset (projection a) (projection c) = .ok () ↔ ¬MountsBelowRoot a c)) ∧
      ∀ wire, factoryJobPermissions canonicalIp c = .ok wire → ¬MountsBelowRoot a c := by
  refine ⟨fun requested granted h => ?_, fun a c ha hc => ?_⟩
  · have hwith := verifyGrantSubset_eq_ok.mp h
    refine ⟨fun action => hwith.grants, fun action hact => ?_⟩
    have hgranted := hwith.granted_action (CanonicalFactoryToolActionV3.isPermittedBy_iff.mp hact).2
    cases hvalid : granted.validate canonicalIp with
    | error message => rw [CanonicalFactoryToolActionV3.isPermittedBy, hvalid]; rfl
    | ok _ => exact CanonicalFactoryToolActionV3.isPermittedBy_iff.mpr ⟨hvalid, hgranted⟩
  · have hagrees := verifyGrantSubset_intersection_iff (FactoryPermissionSet.built_iff.mp ha)
      (FactoryPermissionSet.built_iff.mp hc)
    refine ⟨hagrees, fun hle => ?_, fun wire => not_mountsBelowRoot_of_signed⟩
    rwa [of_decide_eq_true hle] at hagrees

/-! ## Below the root -/

/-- The whole file system to read, and nothing else. -/
def rootDraft : Factory.FactoryPermissionDraft :=
  { plugins := [], executables := [], tools := [], commands := [], maxDescendants := 0
    mounts := [⟨⟨"/", by decide⟩, .readOnly⟩], networkHosts := [], secretProfiles := []
    workloadIdentityProfiles := [], resources := {}, outputs := {} }

def rootPermissions : FactoryPermissionSet := { mounts := {⟨⟨"/", by decide⟩, .readOnly⟩} }

theorem rootPermissions_built : rootPermissions.Built fun _ => false :=
  ⟨rootDraft, ⟨by decide, by decide, by decide, [], by decide⟩, by decide⟩

/-- What two sets with their own patterns and mount modes share is within the second, for the
comparison and for every action. -/
theorem verifyGrantSubset_sound_and_agrees_push :
    verifyGrantSubset (projection (pushPermissions.intersection releasePermissions))
      (projection releasePermissions) = .ok () ∧
    ∀ action, (projection (pushPermissions.intersection releasePermissions)).grants action = true →
      (projection releasePermissions).grants action = true := by
  obtain ⟨hsound, hagrees⟩ := verifyGrantSubset_sound_and_agrees fun _ => false
  have hroots : ∀ mount ∈ releasePermissions.mounts, mount.root.value ≠ "/" := by
    decide +kernel
  have hwith := (hagrees _ _ pushPermissions_built releasePermissions_built).1.mpr
    fun ⟨⟨mount, hmem, hroot⟩, _⟩ => hroots mount hmem hroot
  exact ⟨hwith, (hsound _ _ hwith).1⟩

/-- `/work` within `/`, which the server grants and the Agent's comparison refuses. -/
theorem intersection_below_root_refused :
    ¬∀ (canonicalIp : String → Bool) (a c : FactoryPermissionSet),
      a.Built canonicalIp → c.Built canonicalIp →
        verifyGrantSubset (projection (a.intersection c)) (projection c) = .ok () := by
  intro hclaim
  have hbelow : MountsBelowRoot pushPermissions rootPermissions :=
    ⟨⟨_, Finset.mem_singleton_self _, rfl⟩, _, Finset.mem_singleton_self _, by decide⟩
  exact (verifyGrantSubset_intersection_iff (FactoryPermissionSet.built_iff.mp pushPermissions_built)
    (FactoryPermissionSet.built_iff.mp rootPermissions_built)).mp
      (hclaim _ _ _ pushPermissions_built rootPermissions_built) hbelow

end OctaCity.Agent
