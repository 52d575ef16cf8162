/-
  OctaCity.Factory.Grants

  What a permission set allows, action by action.  A set is compared with an
  enclosing one by intersecting the two; here the comparison is read as a
  statement about every concrete action, so that it composes along any chain
  of enclosing sets.
-/
import OctaCity.Factory.Permission

namespace OctaCity.Factory

open List

/-! ## Actions -/

/-- One resource ceiling of an execution. -/
inductive FactoryResource
  | cpuMillis
  | memoryBytes
  | diskBytes
  | processCount
  | elapsedMillis
  | descendants
  | artifactCount
  | artifactBytes
  | reportCount
  | reportBytes

/-- One concrete use of authority. -/
inductive FactoryAction
  | plugin (reference : ImmutableReference)
  | executable (reference : ImmutableReference)
  | tool (reference : ImmutableReference)
  | command (executable : ImmutableReference) (arguments : List String)
  | file (path : FactoryPath) (mode : MountMode)
  | host (name : String)
  | secretProfile (key : FactoryKey)
  | workloadIdentityProfile (key : FactoryKey)
  | outputKind (kind : FactoryKey)
  | amount (resource : FactoryResource) (quantity : Nat)

/-- The argument is allowed at the position. -/
def CommandArgumentPattern.allows : CommandArgumentPattern → String → Bool
  | .exact value, argument => value = argument
  | .any, _ => true

/-- The pattern matches the command line, argument by argument. -/
def CommandPermission.allows (command : CommandPermission) (executable : ImmutableReference)
    (arguments : List String) : Bool :=
  command.executable = executable ∧ command.arguments.length = arguments.length ∧
    ∀ pair ∈ command.arguments.zip arguments, pair.1.allows pair.2 = true

/-- Reading needs a mount, writing one that may be written. -/
def MountPermission.allows (mount : MountPermission) (path : FactoryPath) (mode : MountMode) :
    Bool :=
  mount.root.contains path ∧ (mode = .readOnly ∨ mount.mode = .readWrite)

def FactoryPermissionSet.ceiling (permissions : FactoryPermissionSet) : FactoryResource → Nat
  | .cpuMillis => permissions.resources.cpuMillis
  | .memoryBytes => permissions.resources.memoryBytes
  | .diskBytes => permissions.resources.diskBytes
  | .processCount => permissions.resources.processCount
  | .elapsedMillis => permissions.resources.elapsedMillis
  | .descendants => permissions.maxDescendants
  | .artifactCount => permissions.outputs.maxArtifactCount
  | .artifactBytes => permissions.outputs.maxArtifactBytes
  | .reportCount => permissions.outputs.maxReportCount
  | .reportBytes => permissions.outputs.maxReportBytes

/-- The set allows the action. -/
def FactoryPermissionSet.grants (permissions : FactoryPermissionSet) : FactoryAction → Bool
  | .plugin reference => reference ∈ permissions.plugins
  | .executable reference => reference ∈ permissions.executables
  | .tool reference => reference ∈ permissions.tools
  | .command executable arguments =>
    ∃ command ∈ permissions.commands, command.allows executable arguments = true
  | .file path mode => ∃ mount ∈ permissions.mounts, mount.allows path mode = true
  | .host name => name ∈ permissions.networkHosts
  | .secretProfile key => key ∈ permissions.secretProfiles
  | .workloadIdentityProfile key => key ∈ permissions.workloadIdentityProfiles
  | .outputKind kind => kind ∈ permissions.outputs.kinds
  | .amount resource quantity => quantity ≤ permissions.ceiling resource

/-! ## Intersections -/

theorem mem_crossIntersection {α : Type} [DecidableEq α] {left right : Finset α}
    {intersect : α → α → Option α} {grant : α} : grant ∈ crossIntersection left right intersect ↔
      ∃ a ∈ left, ∃ b ∈ right, intersect a b = some grant := by
  simp only [crossIntersection, Finset.mem_biUnion, Finset.mem_product, Option.mem_toFinset,
    Option.mem_def, Prod.exists]
  constructor
  · rintro ⟨a, b, ⟨ha, hb⟩, hgrant⟩
    exact ⟨a, ha, b, hb, hgrant⟩
  · rintro ⟨a, ha, b, hb, hgrant⟩
    exact ⟨a, b, ⟨ha, hb⟩, hgrant⟩

theorem CommandArgumentPattern.allows_of_intersection {left right both : CommandArgumentPattern}
    (h : left.intersection right = some both) {argument : String}
    (hallows : both.allows argument = true) : right.allows argument = true := by
  cases left with
  | any =>
    cases right with
    | any => rfl
    | exact value =>
      cases h
      exact hallows
  | exact value =>
    cases right with
    | any => rfl
    | exact other =>
      simp only [CommandArgumentPattern.intersection] at h
      split at h
      · rename_i heq
        cases h
        rwa [← heq]
      · cases h

variable {executable : ImmutableReference} {arguments : List String} {path : FactoryPath}
  {left right both : MountPermission}

theorem CommandPermission.allows_iff {command : CommandPermission} :
    command.allows executable arguments = true ↔ command.executable = executable ∧
      List.Forall₂ (fun pattern argument => pattern.allows argument = true) command.arguments
        arguments := by
  rw [CommandPermission.allows, decide_eq_true_eq, forall₂_iff_zip]
  simp only [Prod.forall]

theorem CommandPermission.allows_of_intersection {left right both : CommandPermission}
    (h : left.intersection right = some both) (hallows : both.allows executable arguments = true) :
    right.allows executable arguments = true := by
  unfold CommandPermission.intersection at h
  split at h
  · cases h
  rename_i hsame
  rw [not_or, not_not, not_not] at hsame
  obtain ⟨patterns, hpatterns, hboth⟩ := Option.map_eq_some_iff.mp h
  subst hboth
  rw [CommandPermission.allows_iff] at hallows ⊢
  obtain ⟨hexec, hallow⟩ := hallows
  refine ⟨hsame.1 ▸ hexec, ?_⟩
  -- The patterns were combined position by position.
  have hcombined : ∀ (ls rs : List CommandArgumentPattern) (ps : List CommandArgumentPattern)
      (as : List String), ls.length = rs.length →
      ((ls.zip rs).mapM fun (pair : CommandArgumentPattern × CommandArgumentPattern) =>
        pair.1.intersection pair.2) = some ps →
      List.Forall₂ (fun pattern argument => pattern.allows argument = true) ps as →
      List.Forall₂ (fun pattern argument => pattern.allows argument = true) rs as := by
    intro ls
    induction ls with
    | nil =>
      intro rs ps as hlen hmap hall
      cases rs with
      | cons _ _ => cases hlen
      | nil =>
        cases hmap
        exact hall
    | cons l ls ih =>
      intro rs ps as hlen hmap hall
      cases rs with
      | nil => cases hlen
      | cons r rs =>
        rw [zip_cons_cons, mapM_cons] at hmap
        obtain ⟨p, hp, hmap⟩ := Option.bind_eq_some_iff.mp hmap
        obtain ⟨rest, hrest, hmap⟩ := Option.bind_eq_some_iff.mp hmap
        cases hmap
        cases hall with
        | cons hhead htail =>
          exact .cons (CommandArgumentPattern.allows_of_intersection hp hhead)
            (ih rs rest _ (Nat.succ.inj hlen) hrest htail)
  exact hcombined left.arguments right.arguments patterns arguments hsame.2 hpatterns hallow

/-! ## Paths -/

theorem FactoryPath.contains_iff {root other : FactoryPath} :
    root.contains other = true ↔ root = other ∨ root.value = "/" ∨
      (root.value ++ "/").toList <+: other.value.toList := by
  simp [FactoryPath.contains, isPrefixOf_iff_prefix, or_assoc]

theorem FactoryPath.value_ne_empty (path : FactoryPath) : path.value.toList ≠ [] := by
  have hcanon := path.canonical
  simp only [isCanonicalPath, decide_eq_true_eq] at hcanon
  intro hempty
  exact hcanon.1 (String.toList_eq_nil_iff.mp hempty)

/-- Directories below a covered directory are covered. -/
theorem FactoryPath.contains_trans {outer inner : FactoryPath}
    (hinner : outer.contains inner = true) (hpath : inner.contains path = true) :
    outer.contains path = true := by
  rw [FactoryPath.contains_iff] at hinner hpath ⊢
  rcases hinner with rfl | hroot | hinner
  · exact hpath
  · exact Or.inr (Or.inl hroot)
  rcases hpath with rfl | hroot | hpath
  · exact Or.inr (Or.inr hinner)
  · -- Only an empty path ends before the root's only separator.
    exfalso
    have hpos := length_pos_of_ne_nil outer.value_ne_empty
    have hlen := hinner.length_le
    rw [hroot, String.toList_append, length_append] at hlen
    have hone : "/".toList.length = 1 := rfl
    omega
  · refine Or.inr (Or.inr (hinner.trans ?_))
    refine List.IsPrefix.trans ?_ hpath
    rw [String.toList_append]
    exact prefix_append _ _

/-- What two mounts share lies in the second one and may be written only if that one may. -/
theorem MountPermission.intersection_within (h : left.intersection right = some both) :
    right.root.contains both.root = true ∧ (both.mode = .readOnly ∨ right.mode = .readWrite) := by
  have hshape : both.mode = (if left.mode = .readOnly ∨ right.mode = .readOnly then .readOnly
      else .readWrite) ∧ right.root.contains both.root = true := by
    unfold MountPermission.intersection at h
    by_cases hleft : left.root.contains right.root = true
    · simp only [hleft, if_true, Option.some.injEq] at h
      rw [← h]
      exact ⟨rfl, FactoryPath.contains_iff.mpr (Or.inl rfl)⟩
    · by_cases hright : right.root.contains left.root = true
      · simp only [hleft, hright, if_true, Bool.false_eq_true, if_false, Option.some.injEq] at h
        rw [← h]
        exact ⟨rfl, hright⟩
      · simp [hleft, hright] at h
  refine ⟨hshape.2, ?_⟩
  cases hright : right.mode with
  | readWrite => exact .inr rfl
  | readOnly => exact .inl (by simp [hshape.1, hright])

theorem MountPermission.allows_of_intersection
    (h : left.intersection right = some both) {mode : MountMode}
    (hallows : both.allows path mode = true) : right.allows path mode = true := by
  simp only [MountPermission.allows, decide_eq_true_eq] at hallows ⊢
  obtain ⟨hpath, hmode⟩ := hallows
  obtain ⟨hroot, hwith⟩ := MountPermission.intersection_within h
  refine ⟨FactoryPath.contains_trans hroot hpath, hmode.imp_right fun hwrite => ?_⟩
  exact hwith.resolve_left fun hread => MountMode.noConfusion (hread.symm.trans hwrite)

/-- A set that is no broader than another grants nothing the other does not. -/
theorem FactoryPermissionSet.grants_of_isNoBroaderThan {permissions enclosing : FactoryPermissionSet}
    (h : permissions.isNoBroaderThan enclosing = true) {action : FactoryAction}
    (hgrants : permissions.grants action = true) : enclosing.grants action = true := by
  rw [FactoryPermissionSet.isNoBroaderThan, decide_eq_true_eq] at h
  rw [← h] at hgrants
  cases action with
  | command executable arguments =>
    obtain ⟨both, hboth, hallows⟩ := of_decide_eq_true hgrants
    obtain ⟨_, -, right, hright, hintersect⟩ := mem_crossIntersection.mp hboth
    exact decide_eq_true
      ⟨right, hright, CommandPermission.allows_of_intersection hintersect hallows⟩
  | file path mode =>
    obtain ⟨both, hboth, hallows⟩ := of_decide_eq_true hgrants
    obtain ⟨_, -, right, hright, hintersect⟩ := mem_crossIntersection.mp hboth
    exact decide_eq_true
      ⟨right, hright, MountPermission.allows_of_intersection hintersect hallows⟩
  | amount resource quantity =>
    simp only [FactoryPermissionSet.grants, decide_eq_true_eq] at hgrants ⊢
    refine le_trans hgrants ?_
    cases resource <;> exact min_le_right _ _
  | plugin | executable | tool | host | secretProfile | workloadIdentityProfile | outputKind =>
    simp only [FactoryPermissionSet.grants, FactoryPermissionSet.intersection,
      FactoryOutputPermissions.intersection, Finset.mem_inter, decide_eq_true_eq] at hgrants ⊢
    exact hgrants.2

end OctaCity.Factory
