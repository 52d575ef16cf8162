/-
  OctaCity.Factory.PermissionAlgebra

  Intersections of permission sets, read as what they grant.  Command patterns
  and mounts meet in one grant or not at all, so the cross products of the two
  categories grant what both sets grant, commute and associate.
-/
import OctaCity.Factory.PermissionSets
import OctaCity.Lib.Meets

namespace OctaCity.Factory

open FactoryPath Lib List

/-! ## Command patterns -/

open CommandArgumentPattern in
theorem argumentMeets : Meets intersection
    (fun pattern argument => pattern.allows argument = true) where
  shared left right argument := by
    cases left with
    | any =>
      cases right <;> simp [intersection, allows]
    | exact value =>
      cases right with
      | any => simp [intersection, allows]
      | exact other =>
        -- Two exact arguments are shared only when they are the same.
        by_cases hsame : value = other
        · simp [intersection, allows, hsame]
        · simp only [intersection, allows, hsame,
            if_false, reduceCtorEq, false_and, exists_false, decide_eq_true_eq, false_iff]
          rintro ⟨rfl, rfl⟩
          exact hsame rfl
  inhabited pattern := by
    cases pattern with
    | exact value => exact ⟨value, by simp [allows]⟩
    | any => exact ⟨"", rfl⟩
  separated left right hsame := by
    -- An exact pattern refuses a longer argument, which `any` allows.
    have hlonger : ∀ value : String, value ≠ value ++ "x" := by
      intro value h
      have := congrArg (fun text => text.toList.length) h
      simp at this
    cases left with
    | exact value =>
      cases right with
      | exact other =>
        have := (hsame value).mp (by simp [allows])
        simp only [allows, decide_eq_true_eq] at this
        rw [this]
      | any =>
        have := (hsame (value ++ "x")).mpr rfl
        simp only [allows, decide_eq_true_eq] at this
        exact absurd this (hlonger value)
    | any =>
      cases right with
      | exact value =>
        have := (hsame (value ++ "x")).mp rfl
        simp only [allows, decide_eq_true_eq] at this
        exact absurd this (hlonger value)
      | any => rfl

theorem CommandPermission.intersection_eq_some {left right both : CommandPermission} :
    left.intersection right = some both ↔
      left.executable = right.executable ∧ both.executable = left.executable ∧
        listMeet CommandArgumentPattern.intersection left.arguments right.arguments =
          some both.arguments := by
  unfold CommandPermission.intersection
  split
  · rename_i hdiffer
    constructor
    · intro h
      cases h
    · rintro ⟨hexec, -, hargs⟩
      exact absurd (length_of_listMeet hargs)
        (hdiffer.resolve_left fun h => h hexec)
  · rename_i hsame
    rw [not_or, not_not, not_not] at hsame
    rw [listMeet_zip hsame.2, Option.map_eq_some_iff]
    constructor
    · rintro ⟨arguments, hargs, rfl⟩
      exact ⟨hsame.1, rfl, hargs⟩
    · rintro ⟨-, hexec, hargs⟩
      refine ⟨both.arguments, hargs, ?_⟩
      rw [← hexec]

theorem commandMeets : Meets CommandPermission.intersection
    (fun command (line : ImmutableReference × List String) =>
      command.allows line.1 line.2 = true) where
  shared left right line := by
    simp only [CommandPermission.allows_iff, CommandPermission.intersection_eq_some]
    have hshared := argumentMeets.list.shared left.arguments right.arguments line.2
    constructor
    · rintro ⟨both, ⟨hexec, hboth, hargs⟩, hline, hallow⟩
      have := hshared.mp ⟨both.arguments, hargs, hallow⟩
      exact ⟨⟨hboth.symm.trans hline, this.1⟩,
        (hexec.symm.trans hboth.symm).trans hline, this.2⟩
    · rintro ⟨⟨hleft, hleftAllows⟩, hright, hrightAllows⟩
      obtain ⟨arguments, hargs, hallow⟩ := hshared.mpr ⟨hleftAllows, hrightAllows⟩
      exact ⟨⟨left.executable, arguments⟩, ⟨hleft.trans hright.symm, rfl, hargs⟩, hleft,
        hallow⟩
  inhabited command := by
    obtain ⟨arguments, hallow⟩ := argumentMeets.exists_forall₂ command.arguments
    exact ⟨(command.executable, arguments), CommandPermission.allows_iff.mpr ⟨rfl, hallow⟩⟩
  separated left right hsame := by
    simp only [CommandPermission.allows_iff] at hsame
    obtain ⟨arguments, hallow⟩ := argumentMeets.exists_forall₂ left.arguments
    have hexec : right.executable = left.executable :=
      ((hsame (left.executable, arguments)).mp ⟨rfl, hallow⟩).1
    have hargs : left.arguments = right.arguments :=
      argumentMeets.list.separated _ _ fun line => by
        have := hsame (left.executable, line)
        simpa [hexec] using this
    cases left
    cases right
    cases hexec
    cases hargs
    rfl

/-! ## Mounts -/

theorem FactoryPath.contains_self (path : FactoryPath) : path.contains path = true :=
  contains_iff.mpr (.inl rfl)

/-- A text that starts with two directories starts with one inside the other. -/
theorem FactoryPath.contains_or {left right path : FactoryPath}
    (hleft : left.contains path = true) (hright : right.contains path = true) :
    left.contains right = true ∨ right.contains left = true := by
  rw [contains_iff] at hleft hright
  rcases hleft with rfl | hroot | hleft
  · exact .inr (contains_iff.mpr hright)
  · exact .inl (contains_iff.mpr (.inr (.inl hroot)))
  rcases hright with rfl | hroot | hright
  · exact .inl (contains_iff.mpr (.inr (.inr hleft)))
  · exact .inr (contains_iff.mpr (.inr (.inl hroot)))
  -- Both directories, with their separators, start the path.
  have hinside : ∀ {outer inner : FactoryPath},
      (outer.value ++ "/").toList <+: path.value.toList →
      (inner.value ++ "/").toList <+: path.value.toList →
      outer.value.toList.length < inner.value.toList.length → outer.contains inner = true := by
    intro outer inner houter hinner hlen
    refine contains_iff.mpr (.inr (.inr ?_))
    refine prefix_of_prefix_length_le houter
      (List.IsPrefix.trans ?_ hinner) ?_
    · rw [String.toList_append]
      exact prefix_append _ _
    · rw [String.toList_append, length_append]
      exact hlen
  rcases lt_trichotomy left.value.toList.length right.value.toList.length with
    hlt | heq | hgt
  · exact .inl (hinside hleft hright hlt)
  · have hsame : (left.value ++ "/").toList = (right.value ++ "/").toList := by
      refine List.IsPrefix.eq_of_length (prefix_of_prefix_length_le hleft hright ?_) ?_ <;>
        simp [String.toList_append, heq]
    rw [String.toList_append, String.toList_append] at hsame
    have hvalue : left.value = right.value :=
      String.toList_injective (append_cancel_right hsame)
    refine .inl (contains_iff.mpr (.inl ?_))
    cases left
    cases right
    cases hvalue
    rfl
  · exact .inr (hinside hright hleft hgt)

/-- Directories that contain one another are the same. -/
theorem FactoryPath.contains_antisymm {left right : FactoryPath}
    (hleft : left.contains right = true) (hright : right.contains left = true) : left = right := by
  have hlonger : ∀ {outer inner : FactoryPath},
      (outer.value ++ "/").toList <+: inner.value.toList →
      outer.value.toList.length < inner.value.toList.length := by
    intro outer inner h
    have := h.length_le
    rw [String.toList_append, length_append] at this
    exact this
  have hroot : ∀ {path : FactoryPath}, path.value = "/" → path.value.toList.length = 1 := by
    intro path h
    rw [h]
    rfl
  have hne : ∀ path : FactoryPath, 0 < path.value.toList.length := fun path =>
    length_pos_of_ne_nil path.value_ne_empty
  rw [contains_iff] at hleft hright
  rcases hleft with rfl | hleft | hleft
  · rfl
  · rcases hright with rfl | hright | hright
    · rfl
    · cases left
      cases right
      cases hleft
      cases hright
      rfl
    · have := hlonger hright
      have := hroot hleft
      have := hne right
      omega
  · rcases hright with rfl | hright | hright
    · rfl
    · have := hlonger hleft
      have := hroot hright
      have := hne left
      omega
    · have := hlonger hleft
      have := hlonger hright
      omega

theorem MountPermission.allows_iff {mount : MountPermission} {path : FactoryPath}
    {mode : MountMode} : mount.allows path mode = true ↔
      mount.root.contains path = true ∧ (mode = .readOnly ∨ mount.mode = .readWrite) :=
  decide_eq_true_iff

theorem mountMeets : Meets MountPermission.intersection
    (fun mount (access : FactoryPath × MountMode) =>
      mount.allows access.1 access.2 = true) where
  shared left right access := by
    simp only [MountPermission.allows_iff]
    -- Writing needs both mounts to be writable.
    have hmode : ∀ mode : MountMode,
        (mode = .readOnly ∨ (if left.mode = .readOnly ∨ right.mode = .readOnly then
            MountMode.readOnly else .readWrite) = .readWrite) ↔
          (mode = .readOnly ∨ left.mode = .readWrite) ∧
            (mode = .readOnly ∨ right.mode = .readWrite) := by
      intro mode
      cases left.mode <;> cases right.mode <;> simp
    unfold MountPermission.intersection
    dsimp only
    split
    · rename_i hinner
      simp only [Option.some.injEq, exists_eq_left', hmode]
      constructor
      · rintro ⟨hpath, hleft, hright⟩
        exact ⟨⟨contains_trans hinner hpath, hleft⟩, hpath, hright⟩
      · rintro ⟨⟨-, hleft⟩, hpath, hright⟩
        exact ⟨hpath, hleft, hright⟩
    · split
      · rename_i hinner
        simp only [Option.some.injEq, exists_eq_left', hmode]
        constructor
        · rintro ⟨hpath, hleft, hright⟩
          exact ⟨⟨hpath, hleft⟩, contains_trans hinner hpath, hright⟩
        · rintro ⟨⟨hpath, hleft⟩, -, hright⟩
          exact ⟨hpath, hleft, hright⟩
      · rename_i hleft hright
        constructor
        · rintro ⟨both, hboth, -⟩
          cases hboth
        · rintro ⟨⟨hleftPath, -⟩, hrightPath, -⟩
          rcases contains_or hleftPath hrightPath with h | h
          · exact absurd h hleft
          · exact absurd h hright
  inhabited mount :=
    ⟨(mount.root, .readOnly), MountPermission.allows_iff.mpr
      ⟨mount.root.contains_self, .inl rfl⟩⟩
  separated left right hsame := by
    simp only [MountPermission.allows_iff] at hsame
    have hroot : left.root = right.root := by
      refine contains_antisymm ?_ ?_
      · exact ((hsame (right.root, .readOnly)).mpr ⟨right.root.contains_self, .inl rfl⟩).1
      · exact ((hsame (left.root, .readOnly)).mp ⟨left.root.contains_self, .inl rfl⟩).1
    have hwritable : left.mode = .readWrite ↔ right.mode = .readWrite := by
      have := hsame (left.root, .readWrite)
      simpa [hroot, contains_self] using this
    have hmode : left.mode = right.mode := by
      cases hleft : left.mode <;> cases hright : right.mode <;> simp_all
    cases left
    cases right
    cases hroot
    cases hmode
    rfl

/-! ## What intersections grant -/

theorem FactoryPermissionSet.grants_inter (left right : FactoryPermissionSet)
    (action : FactoryAction) :
    (left.intersection right).grants action = (left.grants action && right.grants action) := by
  rw [Bool.eq_iff_iff, Bool.and_eq_true]
  cases action with
  | command executable arguments =>
    simp only [FactoryPermissionSet.grants, decide_eq_true_eq]
    exact commandMeets.crossMeet_allows left.commands right.commands (executable, arguments)
  | file path mode =>
    simp only [FactoryPermissionSet.grants, decide_eq_true_eq]
    exact mountMeets.crossMeet_allows left.mounts right.mounts (path, mode)
  | amount resource quantity =>
    simp only [FactoryPermissionSet.grants, decide_eq_true_eq]
    cases resource <;> exact le_min_iff
  | plugin | executable | tool | host | secretProfile | workloadIdentityProfile | outputKind =>
    simp [FactoryPermissionSet.grants, FactoryPermissionSet.intersection,
      FactoryOutputPermissions.intersection]

/-- Agent-local grants and the categories the selected backend can enforce. -/
structure LocalPermissionCeiling where
  grants : FactoryPermissionSet
  enforceable : Finset PermissionCategory

def LocalPermissionCeiling.canEnforce (ceiling : LocalPermissionCeiling)
    (category : PermissionCategory) : Bool :=
  category ∈ ceiling.enforceable

def resolveFactoryPermissions (projectPolicy configuration taskEnvelope : FactoryPermissionSet)
    (ceiling : LocalPermissionCeiling) : Except PermissionError FactoryPermissionSet :=
  match PermissionCategory.all.find? fun category => !ceiling.canEnforce category with
  | some category => .error (.unenforceablePermission category)
  | none =>
    .ok (((projectPolicy.intersection configuration).intersection taskEnvelope).intersection
      ceiling.grants)

/-- An intersection grants exactly what both sets grant; resolved authority grants exactly what
    the project policy, the configuration, the task envelope and the local ceiling all grant. -/
theorem FactoryPermissionSet.intersection_is_conjunction :
    (∀ (left right : FactoryPermissionSet) (action : FactoryAction),
        (left.intersection right).grants action = true ↔
          left.grants action = true ∧ right.grants action = true) ∧
      ∀ (projectPolicy configuration taskEnvelope resolved : FactoryPermissionSet)
        (ceiling : LocalPermissionCeiling),
        resolveFactoryPermissions projectPolicy configuration taskEnvelope ceiling = .ok resolved →
          ∀ action : FactoryAction, resolved.grants action = true ↔
            projectPolicy.grants action = true ∧ configuration.grants action = true ∧
              taskEnvelope.grants action = true ∧ ceiling.grants.grants action = true := by
  constructor
  · intro left right action
    rw [grants_inter, Bool.and_eq_true]
  · intro projectPolicy configuration taskEnvelope resolved ceiling hresd action
    unfold resolveFactoryPermissions at hresd
    split at hresd
    · cases hresd
    · cases hresd
      simp only [grants_inter, Bool.and_eq_true, and_assoc]

/-! ## Comparing sets -/

namespace FactoryPermissionSet

theorem resources_comm (left right : FactoryResourceLimits) :
    left.intersection right = right.intersection left := by
  simp only [FactoryResourceLimits.intersection, min_comm]

theorem resources_assoc (a b c : FactoryResourceLimits) :
    (a.intersection b).intersection c = a.intersection (b.intersection c) := by
  simp only [FactoryResourceLimits.intersection, min_assoc]

theorem outputs_comm (left right : FactoryOutputPermissions) :
    left.intersection right = right.intersection left := by
  simp only [FactoryOutputPermissions.intersection, min_comm, Finset.inter_comm]

theorem outputs_assoc (a b c : FactoryOutputPermissions) :
    (a.intersection b).intersection c = a.intersection (b.intersection c) := by
  simp only [FactoryOutputPermissions.intersection, min_assoc, Finset.inter_assoc]

theorem intersection_comm (left right : FactoryPermissionSet) :
    left.intersection right = right.intersection left := by
  have hcmds := commandMeets.crossMeet_comm left.commands right.commands
  have hmounts := mountMeets.crossMeet_comm left.mounts right.mounts
  simp only [intersection, Finset.inter_comm, min_comm, resources_comm left.resources,
    outputs_comm left.outputs, FactoryPermissionSet.mk.injEq, true_and, and_true]
  exact ⟨hcmds, hmounts⟩

theorem intersection_assoc (a b c : FactoryPermissionSet) :
    (a.intersection b).intersection c = a.intersection (b.intersection c) := by
  have hcmds := commandMeets.crossMeet_assoc a.commands b.commands c.commands
  have hmounts := mountMeets.crossMeet_assoc a.mounts b.mounts c.mounts
  simp only [intersection, Finset.inter_assoc, min_assoc, resources_assoc, outputs_assoc,
    FactoryPermissionSet.mk.injEq, true_and, and_true]
  exact ⟨hcmds, hmounts⟩

/-- Outside commands and mounts, meeting with a set twice is meeting with it once. -/
theorem intersection_absorb_iff (a b : FactoryPermissionSet) :
    (a.intersection b).intersection b = a.intersection b ↔ crossMeet CommandPermission.intersection
          (crossMeet CommandPermission.intersection a.commands b.commands) b.commands =
        crossMeet CommandPermission.intersection a.commands b.commands ∧
      crossMeet MountPermission.intersection
          (crossMeet MountPermission.intersection a.mounts b.mounts) b.mounts =
        crossMeet MountPermission.intersection a.mounts b.mounts := by
  simp only [intersection, FactoryResourceLimits.intersection,
    FactoryOutputPermissions.intersection, Finset.inter_assoc, Finset.inter_self, min_assoc,
    min_self, FactoryPermissionSet.mk.injEq, true_and, and_true]
  rfl

theorem intersection_self_iff (a : FactoryPermissionSet) : a.intersection a = a ↔
      MeetClosed CommandPermission.intersection a.commands ∧
        MeetClosed MountPermission.intersection a.mounts := by
  rw [← commandMeets.crossMeet_self_iff, ← mountMeets.crossMeet_self_iff]
  obtain ⟨plugins, executables, tools, commands, maxDescendants, mounts, networkHosts,
    secretProfiles, workloadIdentityProfiles, resources, outputs⟩ := a
  obtain ⟨cpuMillis, memoryBytes, diskBytes, processCount, elapsedMillis⟩ := resources
  obtain ⟨kinds, maxArtifactCount, maxArtifactBytes, maxReportCount, maxReportBytes⟩ := outputs
  simp only [intersection, FactoryResourceLimits.intersection,
    FactoryOutputPermissions.intersection, Finset.inter_self, min_self,
    FactoryPermissionSet.mk.injEq, true_and, and_true]
  rfl

/-- The separate mounts of an accepted set only meet themselves. -/
theorem Valid.mounts_closed {canonicalIp : String → Bool} {a : FactoryPermissionSet}
    (h : a.Valid canonicalIp) : MeetClosed MountPermission.intersection a.mounts := by
  intro mount hmount other hother both hboth
  by_cases hsame : mount = other
  · subst hsame
    rw [mountMeets.self] at hboth
    cases hboth
    exact hmount
  · -- Mounts that meet overlap.
    refine absurd ?_ (h.separate mount hmount other hother hsame)
    unfold MountPermission.intersection at hboth
    dsimp only at hboth
    split at hboth
    · exact .inl ‹_›
    · split at hboth
      · exact .inr ‹_›
      · cases hboth

/-- What a preorder with the intersection as a lower bound satisfies, for three sets. -/
structure OrderLaws (a b c : FactoryPermissionSet) : Prop where
  refl : a.isNoBroaderThan a = true
  trans : a.isNoBroaderThan b = true → b.isNoBroaderThan c = true →
    a.isNoBroaderThan c = true
  left : (a.intersection b).isNoBroaderThan a = true
  right : (a.intersection b).isNoBroaderThan b = true
  comm : a.intersection b = b.intersection a
  assoc : (a.intersection b).intersection c = a.intersection (b.intersection c)
  idem : a.intersection a = a

/-- What two patterns of the first set share is what one of its patterns allows, and what one of
    them shares with two patterns of the second set is what some pattern shares with one. -/
structure CommandsClosed (a b : FactoryPermissionSet) : Prop where
  own : ∀ first ∈ a.commands, ∀ second ∈ a.commands,
    (∃ line : ImmutableReference × List String,
      first.allows line.1 line.2 = true ∧ second.allows line.1 line.2 = true) →
    ∃ both ∈ a.commands, ∀ line : ImmutableReference × List String,
      both.allows line.1 line.2 = true ↔
        first.allows line.1 line.2 = true ∧ second.allows line.1 line.2 = true
  shared : ∀ command ∈ a.commands, ∀ first ∈ b.commands, ∀ second ∈ b.commands,
    (∃ line : ImmutableReference × List String, command.allows line.1 line.2 = true ∧
      first.allows line.1 line.2 = true ∧ second.allows line.1 line.2 = true) →
    ∃ command' ∈ a.commands, ∃ other ∈ b.commands,
      ∀ line : ImmutableReference × List String,
        command'.allows line.1 line.2 = true ∧ other.allows line.1 line.2 = true ↔
          command.allows line.1 line.2 = true ∧ first.allows line.1 line.2 = true ∧
            second.allows line.1 line.2 = true

/-- The laws of three sets in this order need what the first two list. -/
theorem orderLaws_roles_iff {canonicalIp : String → Bool} {a b c : FactoryPermissionSet}
    (ha : a.Built canonicalIp) (hb : b.Built canonicalIp) :
    OrderLaws a b c ↔ CommandsClosed a b := by
  have hmounts : MeetClosed MountPermission.intersection a.mounts := (built_iff.mp ha).mounts_closed
  have hmounts' : crossMeet MountPermission.intersection
      (crossMeet MountPermission.intersection a.mounts b.mounts) b.mounts =
        crossMeet MountPermission.intersection a.mounts b.mounts := by
    rw [mountMeets.crossMeet_assoc,
      mountMeets.crossMeet_self_iff.mpr (built_iff.mp hb).mounts_closed]
  have hown := commandMeets.meetClosed_iff (s := a.commands)
  have hshared := commandMeets.crossMeet_absorb_allows_iff (s := a.commands) (t := b.commands)
  constructor
  · intro h
    have hright := of_decide_eq_true h.right
    exact ⟨hown.mp ((intersection_self_iff a).mp h.idem).1,
      hshared.mp ((intersection_absorb_iff a b).mp hright).1⟩
  · intro h
    have hidem : a.intersection a = a := (intersection_self_iff a).mpr ⟨hown.mpr h.own, hmounts⟩
    refine ⟨decide_eq_true hidem, fun hab hbc => decide_eq_true ?_, decide_eq_true ?_,
      decide_eq_true ?_, intersection_comm a b, intersection_assoc a b c, hidem⟩
    · have hab := of_decide_eq_true hab
      have hbc := of_decide_eq_true hbc
      calc a.intersection c = (a.intersection b).intersection c := by rw [hab]
        _ = a.intersection (b.intersection c) := intersection_assoc a b c
        _ = a := by rw [hbc, hab]
    · calc (a.intersection b).intersection a
          = a.intersection (a.intersection b) := intersection_comm _ _
        _ = (a.intersection a).intersection b := (intersection_assoc a a b).symm
        _ = a.intersection b := by rw [hidem]
    · exact (intersection_absorb_iff a b).mpr ⟨hshared.mpr h.shared, hmounts'⟩

/-- For three sets that `try_new` accepts, the laws hold in all their roles exactly when the
    overlaps of command patterns are themselves listed, in each set and between any two. -/
theorem orderLaws_iff {canonicalIp : String → Bool} {a b c : FactoryPermissionSet}
    (h : ∀ x ∈ [a, b, c], x.Built canonicalIp) :
    (∀ x ∈ [a, b, c], ∀ y ∈ [a, b, c], ∀ z ∈ [a, b, c], OrderLaws x y z) ↔
      ∀ x ∈ [a, b, c], ∀ y ∈ [a, b, c], CommandsClosed x y := by
  constructor
  · intro hlaws x hx y hy
    exact (orderLaws_roles_iff (h x hx) (h y hy)).mp (hlaws x hx y hy x hx)
  · intro hclos x hx y hy z _
    exact (orderLaws_roles_iff (h x hx) (h y hy)).mpr (hclos x hx y hy)

/-! ## A set broader than itself -/

def sampleExecutable : ImmutableReference := ⟨⟨"git"⟩, ⟨"1"⟩, ⟨7⟩⟩

/-- `git push *` and `git * main`. -/
def overlappingDraft : FactoryPermissionDraft :=
  { plugins := [], executables := [sampleExecutable], tools := []
    commands := [⟨sampleExecutable, [.exact "push", .any]⟩, ⟨sampleExecutable, [.any, .exact "main"]⟩]
    maxDescendants := 0, mounts := [], networkHosts := [], secretProfiles := []
    workloadIdentityProfiles := [], resources := {}, outputs := {} }

/-- The two patterns overlap in `git push main`, which the intersection adds. -/
theorem overlapping_patterns_are_broader :
    ∃ permissions, FactoryPermissionSet.tryNew overlappingDraft = .ok permissions ∧
      permissions.isNoBroaderThan permissions = false ∧
      permissions.intersection permissions ≠ permissions :=
  ⟨{ executables := {sampleExecutable}
     commands := {⟨sampleExecutable, [.exact "push", .any]⟩,
       ⟨sampleExecutable, [.any, .exact "main"]⟩} }, by decide, by decide,
    by decide⟩

/-- Authority in every category, with these command patterns. -/
def gitDraft (patterns : List (List CommandArgumentPattern)) (mode : MountMode) :
    FactoryPermissionDraft :=
  { plugins := [⟨⟨"review"⟩, ⟨"1"⟩, ⟨8⟩⟩], executables := [sampleExecutable]
    tools := [⟨⟨"diff"⟩, ⟨"1"⟩, ⟨9⟩⟩], commands := patterns.map (⟨sampleExecutable, ·⟩)
    maxDescendants := 4, mounts := [⟨⟨"/work", by decide⟩, mode⟩], networkHosts := ["example.org"]
    secretProfiles := [⟨"deploy"⟩], workloadIdentityProfiles := [⟨"ci"⟩]
    resources := ⟨2000, 1024, 4096, 16, 60000⟩, outputs := ⟨{⟨"report"⟩}, 2, 4096, 1, 512⟩ }

def gitPermissions (patterns : List (List CommandArgumentPattern)) (mode : MountMode) :
    FactoryPermissionSet :=
  { plugins := {⟨⟨"review"⟩, ⟨"1"⟩, ⟨8⟩⟩}, executables := {sampleExecutable}
    tools := {⟨⟨"diff"⟩, ⟨"1"⟩, ⟨9⟩⟩}
    commands := (patterns.map (CommandPermission.mk sampleExecutable)).toFinset
    maxDescendants := 4, mounts := {⟨⟨"/work", by decide⟩, mode⟩}, networkHosts := {"example.org"}
    secretProfiles := {⟨"deploy"⟩}, workloadIdentityProfiles := {⟨"ci"⟩}
    resources := ⟨2000, 1024, 4096, 16, 60000⟩, outputs := ⟨{⟨"report"⟩}, 2, 4096, 1, 512⟩ }

def pushPermissions : FactoryPermissionSet := gitPermissions [[.exact "push", .any]] .readWrite

/-- The two overlapping patterns with their overlap. -/
def releasePermissions : FactoryPermissionSet :=
  gitPermissions [[.exact "push", .any], [.any, .exact "main"], [.exact "push", .exact "main"]]
    .readOnly

def mainPermissions : FactoryPermissionSet := gitPermissions [[.any, .exact "main"]] .readWrite

theorem pushPermissions_built : pushPermissions.Built fun _ => false :=
  ⟨gitDraft [[.exact "push", .any]] .readWrite,
    ⟨by decide, by decide +kernel, by decide, [⟨"report"⟩], by decide⟩, by decide +kernel⟩

theorem releasePermissions_built : releasePermissions.Built fun _ => false :=
  ⟨gitDraft [[.exact "push", .any], [.any, .exact "main"], [.exact "push", .exact "main"]] .readOnly,
    ⟨by decide, by decide +kernel, by decide, [⟨"report"⟩], by decide⟩, by decide +kernel⟩

theorem mainPermissions_built : mainPermissions.Built fun _ => false :=
  ⟨gitDraft [[.any, .exact "main"]] .readWrite,
    ⟨by decide, by decide +kernel, by decide, [⟨"report"⟩], by decide⟩, by decide +kernel⟩

/-- With their overlap listed, the overlapping patterns break no law in any role. -/
theorem orderLaws_push : CommandsClosed pushPermissions pushPermissions ∧
    CommandsClosed releasePermissions pushPermissions ∧
      CommandsClosed pushPermissions mainPermissions := by
  have hbounds : ∀ x ∈ [pushPermissions, releasePermissions, mainPermissions],
      ∀ y ∈ [pushPermissions, releasePermissions, mainPermissions],
        x.isNoBroaderThan x = true ∧ (x.intersection y).isNoBroaderThan x = true ∧
          (x.intersection y).isNoBroaderThan y = true ∧ x.intersection x = x := by
    decide +kernel
  have htrans : ∀ x ∈ [pushPermissions, releasePermissions, mainPermissions],
      ∀ y ∈ [pushPermissions, releasePermissions, mainPermissions],
        ∀ z ∈ [pushPermissions, releasePermissions, mainPermissions],
          x.isNoBroaderThan y = true → y.isNoBroaderThan z = true → x.isNoBroaderThan z = true := by
    decide +kernel
  have hbuilt : ∀ x ∈ [pushPermissions, releasePermissions, mainPermissions],
      x.Built fun _ => false := by
    simp [pushPermissions_built, releasePermissions_built, mainPermissions_built]
  have hclosed : ∀ x ∈ [pushPermissions, releasePermissions, mainPermissions],
      ∀ y ∈ [pushPermissions, releasePermissions, mainPermissions], CommandsClosed x y := by
    refine (orderLaws_iff hbuilt).mp fun x hx y hy z hz => ?_
    obtain ⟨hrefl, hleft, hright, hidem⟩ := hbounds x hx y hy
    exact ⟨hrefl, htrans x hx y hy z hz, hleft, hright, intersection_comm x y,
      intersection_assoc x y z, hidem⟩
  exact ⟨hclosed _ (by simp) _ (by simp), hclosed _ (by simp) _ (by simp),
    hclosed _ (by simp) _ (by simp)⟩

/-- Three policies and a fully enforcing Agent resolve to authority for the one command line
    that all of them grant, and for no write. -/
theorem intersection_is_conjunction_resolved : ∃ resolved,
    resolveFactoryPermissions pushPermissions releasePermissions mainPermissions
        ⟨pushPermissions, PermissionCategory.all.toFinset⟩ = .ok resolved ∧
      resolved.grants (.command sampleExecutable ["push", "main"]) = true ∧
      resolved.grants (.command sampleExecutable ["push", "next"]) = false ∧
      resolved.grants (.file ⟨"/work/file", by decide⟩ .readWrite) = false := by
  have hresd : resolveFactoryPermissions pushPermissions releasePermissions mainPermissions
      ⟨pushPermissions, PermissionCategory.all.toFinset⟩ =
        .ok (((pushPermissions.intersection releasePermissions).intersection
          mainPermissions).intersection pushPermissions) := rfl
  have hgrant := intersection_is_conjunction.2 _ _ _ _ _ hresd
  refine ⟨_, hresd, (hgrant _).mpr (by decide +kernel), ?_, ?_⟩
  · exact Bool.eq_false_iff.mpr fun h => absurd ((hgrant _).mp h).2.2.1 (by decide +kernel)
  · exact Bool.eq_false_iff.mpr fun h => absurd ((hgrant _).mp h).2.1 (by decide +kernel)

end FactoryPermissionSet

end OctaCity.Factory
