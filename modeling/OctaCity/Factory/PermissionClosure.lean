/-
  OctaCity.Factory.PermissionClosure

  Which intersections of accepted permission sets are accepted again.  The
  bounds of every category but commands and mounts survive, mounts stay
  separate and commands stay listed; what can be exceeded is the number of
  overlaps of the two cross products and the bytes of a combined pattern.
-/
import OctaCity.Factory.PermissionAlgebra

namespace OctaCity.Factory

open Finset Lib MountPermission Nat

/-! ## Patterns and mounts -/

/-- Bytes of the arguments that either pattern fixes, position by position. -/
def fixedBytes (left right : List CommandArgumentPattern) : Nat :=
  ((left.zip right).map fun (pair : CommandArgumentPattern × CommandArgumentPattern) =>
    max pair.1.bytes pair.2.bytes).sum

theorem bytes_of_intersection {left right both : CommandArgumentPattern}
    (h : left.intersection right = some both) : both.bytes = max left.bytes right.bytes := by
  cases left with
  | any =>
    cases right <;> cases h <;> simp [CommandArgumentPattern.bytes]
  | exact value =>
    cases right with
    | any =>
      cases h
      simp [CommandArgumentPattern.bytes]
    | exact other =>
      simp only [CommandArgumentPattern.intersection] at h
      split at h
      · rename_i hsame
        cases h
        simp [CommandArgumentPattern.bytes, hsame]
      · cases h

theorem argumentBytes_of_listMeet {left right both : List CommandArgumentPattern}
    (h : listMeet CommandArgumentPattern.intersection left right = some both) :
    both.length = left.length ∧ argumentBytes both = fixedBytes left right := by
  induction left generalizing right both with
  | nil =>
    cases right with
    | nil =>
      cases h
      exact ⟨rfl, rfl⟩
    | cons other rest => cases h
  | cons pattern left ih =>
    cases right with
    | nil => cases h
    | cons other right =>
      obtain ⟨head, hhead, h⟩ := Option.bind_eq_some_iff.mp h
      obtain ⟨rest, hrest, rfl⟩ := Option.map_eq_some_iff.mp h
      obtain ⟨hlen, hbytes⟩ := ih hrest
      refine ⟨by rw [List.length_cons, List.length_cons, hlen], ?_⟩
      show head.bytes + argumentBytes rest = max pattern.bytes other.bytes + fixedBytes left right
      rw [bytes_of_intersection hhead, hbytes]

/-- Where two mounts meet, one contains the other's root, and so does each of them. -/
theorem MountPermission.contains_of_intersection {left right both : MountPermission}
    (h : left.intersection right = some both) :
    left.root.contains both.root = true ∧ right.root.contains both.root = true := by
  have hallow := (mountMeets.eq_some_iff.mp h (both.root, .readOnly)).mp
    (allows_iff.mpr ⟨both.root.contains_self, .inl rfl⟩)
  exact ⟨(allows_iff.mp hallow.1).1, (allows_iff.mp hallow.2).1⟩

/-- Mounts inside separate mounts are separate. -/
theorem MountPermission.overlaps_of_inner {outer outer' inner inner' : MountPermission}
    (hinner : outer.root.contains inner.root = true)
    (hinner' : outer'.root.contains inner'.root = true) (h : inner.Overlaps inner') :
    outer.Overlaps outer' := by
  rcases h with h | h
  · exact FactoryPath.contains_or (FactoryPath.contains_trans hinner h) hinner'
  · exact FactoryPath.contains_or hinner (FactoryPath.contains_trans hinner' h)

/-! ## Accepted intersections -/

namespace FactoryPermissionSet

variable {canonicalIp : String → Bool} {a b : FactoryPermissionSet}

/-- The overlaps of two sets fit the bounds of one. -/
structure OverlapsFit (a b : FactoryPermissionSet) : Prop where
  commands : (overlaps (fun command (line : ImmutableReference × List String) =>
    command.allows line.1 line.2 = true) a.commands b.commands).ncard ≤
      maxPermissionEntriesPerCategory
  mounts : (overlaps (fun mount (access : FactoryPath × MountMode) =>
    mount.allows access.1 access.2 = true) a.mounts b.mounts).ncard ≤
      maxPermissionEntriesPerCategory
  bytes : ∀ first ∈ a.commands, ∀ second ∈ b.commands,
    (∃ executable arguments, first.allows executable arguments = true ∧
      second.allows executable arguments = true) →
    fixedBytes first.arguments second.arguments ≤ maxCommandArgumentBytes

theorem mem_commands_intersection {command : CommandPermission} :
    command ∈ (a.intersection b).commands ↔
      ∃ first ∈ a.commands, ∃ second ∈ b.commands, first.intersection second = some command :=
  mem_crossMeet

theorem mem_mounts_intersection {mount : MountPermission} : mount ∈ (a.intersection b).mounts ↔
      ∃ first ∈ a.mounts, ∃ second ∈ b.mounts, first.intersection second = some mount :=
  mem_crossMeet

theorem Valid.separate_intersection (ha : a.Valid canonicalIp) (hb : b.Valid canonicalIp)
    {mount other : MountPermission} (hmount : mount ∈ (a.intersection b).mounts)
    (hother : other ∈ (a.intersection b).mounts) (hne : mount ≠ other) : ¬mount.Overlaps other := by
  intro hoverlaps
  obtain ⟨first, hfirst, second, hsnd, hmeet⟩ := mem_mounts_intersection.mp hmount
  obtain ⟨first', hfirst', second', hsnd', hmeet'⟩ := mem_mounts_intersection.mp hother
  obtain ⟨hin, hin₂⟩ := contains_of_intersection hmeet
  obtain ⟨hin', hin₂'⟩ := contains_of_intersection hmeet'
  -- Both mounts come from the same pair, so they are the same mount.
  have hsame : first = first' := by
    by_contra hdiffer
    exact ha.separate first hfirst first' hfirst' hdiffer
      (overlaps_of_inner hin hin' hoverlaps)
  have hsame₂ : second = second' := by
    by_contra hdiffer
    exact hb.separate second hsnd second' hsnd' hdiffer
      (overlaps_of_inner hin₂ hin₂' hoverlaps)
  subst hsame hsame₂
  rw [hmeet] at hmeet'
  exact hne (Option.some.inj hmeet')

theorem Valid.intersection_iff (ha : a.Valid canonicalIp) (hb : b.Valid canonicalIp) :
    (a.intersection b).Valid canonicalIp ↔ a.OverlapsFit b := by
  have hinter : ∀ {α : Type} [DecidableEq α] {s t : Finset α},
      s.card ≤ maxPermissionEntriesPerCategory →
      (s ∩ t).card ≤ maxPermissionEntriesPerCategory := fun h =>
    (card_le_card inter_subset_left).trans h
  have hcmds := commandMeets.card_crossMeet a.commands b.commands
  have hmounts := mountMeets.card_crossMeet a.mounts b.mounts
  constructor
  · intro h
    refine ⟨hcmds ▸ h.commands, hmounts ▸ h.mounts, ?_⟩
    rintro first hfirst second hsnd ⟨executable, arguments, hallow⟩
    obtain ⟨both, hboth, -⟩ := (commandMeets.shared first second (executable, arguments)).mpr hallow
    have hbdd := h.patterns both
      (mem_commands_intersection.mpr ⟨first, hfirst, second, hsnd, hboth⟩)
    obtain ⟨-, -, hargs⟩ := CommandPermission.intersection_eq_some.mp hboth
    rw [← (argumentBytes_of_listMeet hargs).2]
    exact hbdd.bytes
  · intro h
    refine
      { plugins := hinter ha.plugins, executables := hinter ha.executables
        tools := hinter ha.tools, commands := hcmds.trans_le h.commands
        mounts := hmounts.trans_le h.mounts, networkHosts := hinter ha.networkHosts
        secretProfiles := hinter ha.secretProfiles
        workloadIdentityProfiles := hinter ha.workloadIdentityProfiles
        maxDescendants := (min_le_left _ _).trans ha.maxDescendants
        listed := fun command hmem => ?_
        patterns := fun command hmem => ?_
        separate := fun mount hmount other hother => ha.separate_intersection hb hmount hother
        hosts := fun host hmem => ha.hosts host (mem_inter.mp hmem).1
        resources := ?_, outputs := ?_ }
    · obtain ⟨first, hfirst, second, hsnd, hboth⟩ := mem_commands_intersection.mp hmem
      obtain ⟨hexec, hkept, -⟩ := CommandPermission.intersection_eq_some.mp hboth
      refine mem_inter.mpr ⟨?_, ?_⟩
      · rw [hkept]
        exact ha.listed first hfirst
      · rw [hkept, hexec]
        exact hb.listed second hsnd
    · obtain ⟨first, hfirst, second, hsnd, hboth⟩ := mem_commands_intersection.mp hmem
      obtain ⟨-, -, hargs⟩ := CommandPermission.intersection_eq_some.mp hboth
      obtain ⟨hlen, hbytes⟩ := argumentBytes_of_listMeet hargs
      obtain ⟨⟨executable, arguments⟩, hallow⟩ := commandMeets.inhabited command
      refine ⟨hlen.trans_le (ha.patterns first hfirst).arguments, ?_⟩
      rw [hbytes]
      exact h.bytes first hfirst second hsnd
        ⟨executable, arguments, (commandMeets.eq_some_iff.mp hboth _).mp hallow⟩
    · exact ⟨(min_le_left _ _).trans ha.resources.cpuMillis,
        (min_le_left _ _).trans ha.resources.memoryBytes,
        (min_le_left _ _).trans ha.resources.diskBytes,
        (min_le_left _ _).trans ha.resources.processCount,
        (min_le_left _ _).trans ha.resources.elapsedMillis⟩
    · exact ⟨hinter ha.outputs.kinds, (min_le_left _ _).trans ha.outputs.maxArtifactCount,
        (min_le_left _ _).trans ha.outputs.maxReportCount,
        (min_le_left _ _).trans ha.outputs.maxArtifactBytes,
        (min_le_left _ _).trans ha.outputs.maxReportBytes⟩

/-- The intersection of two accepted sets is accepted, and is restored from its own encoding,
    exactly when their overlaps fit the bounds of one set. -/
theorem restored_iff (ha : a.Built canonicalIp) (hb : b.Built canonicalIp) :
    (a.intersection b).Valid canonicalIp ∧
        decode canonicalIp (a.intersection b).encode = .ok (a.intersection b) ↔
      a.OverlapsFit b := by
  rw [decode_encode_iff, and_self]
  exact (built_iff.mp ha).intersection_iff (built_iff.mp hb)

/-! ## A pattern that grows too long -/

/-- A text within the bound on one argument. -/
def longArgument : String := String.ofList (List.replicate 4000 'a')

theorem utf8Len_replicate (n : Nat) : String.utf8Len (List.replicate n 'a') = n := by
  induction n with
  | zero => rfl
  | succ n ih =>
    rw [List.replicate_succ, String.utf8Len_cons, ih]
    rfl

theorem longArgument_bytes : longArgument.utf8ByteSize = 4000 :=
  (String.utf8ByteSize_ofList _).trans (utf8Len_replicate 4000)

def firstFixed : CommandPermission :=
  ⟨sampleExecutable, [.exact longArgument, .exact longArgument, .exact longArgument,
    .any, .any, .any]⟩

def lastFixed : CommandPermission :=
  ⟨sampleExecutable, [.any, .any, .any,
    .exact longArgument, .exact longArgument, .exact longArgument]⟩

def onlyCommand (command : CommandPermission) : FactoryPermissionSet :=
  { executables := {command.executable}, commands := {command} }

theorem onlyCommand_built {command : CommandPermission} (h : command.Bounded) :
    (onlyCommand command).Built canonicalIp := by
  refine built_iff.mpr
    { plugins := zero_le _, executables := (card_singleton _).trans_le (by decide)
      tools := zero_le _, commands := (card_singleton _).trans_le (by decide)
      mounts := zero_le _, networkHosts := zero_le _
      secretProfiles := zero_le _, workloadIdentityProfiles := zero_le _
      maxDescendants := zero_le _, listed := fun other hmem => ?_
      patterns := fun other hmem => ?_, separate := fun mount hmem => ?_
      hosts := fun host hmem => ?_
      resources := ⟨zero_le _, zero_le _, zero_le _, zero_le _, zero_le _⟩
      outputs := ⟨zero_le _, zero_le _, zero_le _, zero_le _, zero_le _⟩ }
  · rw [mem_singleton.mp hmem]
    exact mem_singleton_self _
  · rwa [mem_singleton.mp hmem]
  · exact absurd hmem (notMem_empty mount)
  · exact absurd hmem (notMem_empty host)

theorem fixed_bounded : firstFixed.Bounded ∧ lastFixed.Bounded := by
  refine ⟨⟨by decide, ?_⟩, ⟨by decide, ?_⟩⟩ <;>
    simp [firstFixed, lastFixed, argumentBytes, CommandArgumentPattern.bytes, longArgument_bytes,
      maxCommandArgumentBytes]

/-- Each pattern fixes three arguments of 4000 bytes; their overlap fixes all six, which is more
    than a pattern may. -/
theorem combined_pattern_is_not_restored : (onlyCommand firstFixed).Built (fun _ => false) ∧
      (onlyCommand lastFixed).Built (fun _ => false) ∧
        decode (fun _ => false) ((onlyCommand firstFixed).intersection (onlyCommand lastFixed)).encode ≠
          .ok ((onlyCommand firstFixed).intersection (onlyCommand lastFixed)) := by
  refine ⟨onlyCommand_built fixed_bounded.1, onlyCommand_built fixed_bounded.2, fun hrestored => ?_⟩
  have hvalid := decode_encode_iff.mp hrestored
  have hmeet : firstFixed.intersection lastFixed = some ⟨sampleExecutable,
      [.exact longArgument, .exact longArgument, .exact longArgument, .exact longArgument,
        .exact longArgument, .exact longArgument]⟩ := rfl
  have hbdd := hvalid.patterns _ (mem_commands_intersection.mpr
    ⟨firstFixed, mem_singleton_self _, lastFixed, mem_singleton_self _, hmeet⟩)
  have hbytes := hbdd.bytes
  simp [argumentBytes, CommandArgumentPattern.bytes, longArgument_bytes,
    maxCommandArgumentBytes] at hbytes

/-- Two sets with different patterns and mount modes, and what both grant, are restored. -/
theorem restored_iff_push :
    (pushPermissions.intersection releasePermissions).Valid (fun _ => false) ∧
      decode (fun _ => false) (pushPermissions.intersection releasePermissions).encode =
        .ok (pushPermissions.intersection releasePermissions) := by
  refine (restored_iff pushPermissions_built releasePermissions_built).mpr ⟨?_, ?_, ?_⟩
  · rw [← commandMeets.card_crossMeet]
    decide +kernel
  · rw [← mountMeets.card_crossMeet]
    decide +kernel
  · have hbytes : ∀ first ∈ pushPermissions.commands, ∀ second ∈ releasePermissions.commands,
        fixedBytes first.arguments second.arguments ≤ maxCommandArgumentBytes := by
      decide +kernel
    exact fun first hfirst second hsnd _ => hbytes first hfirst second hsnd

end FactoryPermissionSet

end OctaCity.Factory
