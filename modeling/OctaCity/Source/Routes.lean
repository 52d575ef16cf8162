/-
  OctaCity.Source.Routes

  Which targets cover an input.  A group publication is compared with the
  current inputs only, so two groups may share a member; an input stays on at
  most one route exactly when no publication groups an enabled input that
  another current group has as a member.
-/
import OctaCity.Source.Configuration

namespace OctaCity.Source

open Factory Lib List

namespace SourceTables

variable {tables tables' : SourceTables} {project id : Nat} {target : WorkSourceScanTarget}
  {input member : WorkSourceInput} {group : WorkSourceGroup}

/-! ## Current versions -/

/-- Versions of one identity belong to one Project, and members were published. -/
structure Sound (tables : SourceTables) : Prop where
  oneInput : Versioned WorkSourceInput.id WorkSourceInput.projectId WorkSourceInput.version
    tables.inputs
  oneGroup : Versioned WorkSourceGroup.id WorkSourceGroup.projectId WorkSourceGroup.version
    tables.groups
  members : ∀ group ∈ tables.groups, ∀ member ∈ group.members, member ∈ tables.inputs

theorem currentInput?_mem (h : tables.currentInput? project id = some input) :
    input ∈ tables.inputs ∧ input.projectId = project ∧ input.id = id := by
  have hsel := selected_of_newest h
  exact ⟨mem_of_newest h, of_decide_eq_true hsel⟩

theorem currentGroup?_mem (h : tables.currentGroup? project id = some group) :
    group ∈ tables.groups ∧ group.projectId = project ∧ group.id = id := by
  have hsel := selected_of_newest h
  exact ⟨mem_of_newest h, of_decide_eq_true hsel⟩

/-- A version that is current among more rows was current among fewer. -/
theorem currentInput?_of_subset (hs : tables'.Sound)
    (hsub : ∀ row ∈ tables.inputs, row ∈ tables'.inputs) (hmem : input ∈ tables.inputs)
    (h : tables'.currentInput? project id = some input) :
    tables.currentInput? project id = some input := by
  obtain ⟨hmem', hproj, hid⟩ := currentInput?_mem h
  refine newest_eq_some hmem (decide_eq_true ⟨hproj, hid⟩) ?_ ?_
  · intro row hrow hsel
    exact le_of_newest h (hsub row hrow) hsel
  · intro row hrow hsel heq
    obtain ⟨-, hrowId⟩ := of_decide_eq_true hsel
    exact (hs.oneInput row (hsub row hrow) input hmem' (hrowId.trans hid.symm)).2 heq

theorem isUpToDate_iff : tables.isUpToDate project group = true ↔
    ∀ member ∈ group.members, tables.currentInput? project member.id = some member := by
  unfold isUpToDate
  rw [all_eq_true]
  exact forall₂_congr fun _ _ => decide_eq_true_iff

theorem isGrouped_iff : tables.isGrouped project id = true ↔
    ∃ group ∈ tables.groups, tables.currentGroup? project group.id = some group ∧
      ∃ member ∈ group.members, member.id = id := by
  unfold isGrouped
  rw [any_eq_true]
  exact exists_congr fun _ => and_congr_right fun _ => decide_eq_true_iff

/-! ## Accepted targets -/

variable {version : Nat} {request : PublishWorkSources} {checks : PublicationChecks}

theorem requireCurrent_input : tables.requireCurrent project (.input id version) = .ok () ↔
      ∃ input, tables.currentInput? project id = some input ∧ input.version = version ∧
        input.definition.enabled = true ∧ tables.isGrouped project id = false := by
  unfold requireCurrent currentInput
  rw [bind_eq_ok]
  refine exists_congr fun input => ?_
  rw [okOr_eq_ok, guard_eq_ok, guard_eq_ok]
  simp only [not_or, not_not, ne_eq, Bool.not_eq_true, Bool.not_eq_false, and_true, and_assoc]

theorem requireCurrent_group : tables.requireCurrent project (.group id version) = .ok () ↔
      ∃ group, tables.currentGroup? project id = some group ∧ group.version = version ∧
        tables.isUpToDate project group = true ∧
        group.members.any (·.definition.enabled) = true := by
  unfold requireCurrent
  rw [bind_eq_ok]
  refine exists_congr fun group => ?_
  rw [okOr_eq_ok, guard_eq_ok, guard_eq_ok, guard_eq_ok]
  simp only [not_not, ne_eq, and_true]

/-- The listing and the check of a claim agree. -/
theorem mem_scanTargets_iff :
    target ∈ tables.scanTargets project ↔ tables.requireCurrent project target = .ok () := by
  unfold scanTargets
  rw [mem_append, mem_map, mem_map]
  cases target with
  | input id version =>
    rw [requireCurrent_input]
    constructor
    · rintro (⟨input, hinput, heq⟩ | ⟨group, -, heq⟩)
      · cases heq
        obtain ⟨hcur, hen, hgrouped⟩ := of_decide_eq_true (mem_filter.mp hinput).2
        exact ⟨input, hcur, rfl, hen, Bool.not_eq_true _ ▸ hgrouped⟩
      · cases heq
    · rintro ⟨input, hcur, rfl, hen, hgrouped⟩
      obtain ⟨hmem, -, rfl⟩ := currentInput?_mem hcur
      refine .inl ⟨input, mem_filter.mpr ⟨hmem, decide_eq_true ⟨hcur, hen, ?_⟩⟩, rfl⟩
      rw [hgrouped]
      exact Bool.false_ne_true
  | group id version =>
    rw [requireCurrent_group]
    constructor
    · rintro (⟨input, -, heq⟩ | ⟨group, hgroup, heq⟩)
      · cases heq
      · cases heq
        obtain ⟨hcur, hen, hutd⟩ := of_decide_eq_true (mem_filter.mp hgroup).2
        exact ⟨group, hcur, rfl, hutd, hen⟩
    · rintro ⟨group, hcur, rfl, hutd, hen⟩
      obtain ⟨hmem, -, rfl⟩ := currentGroup?_mem hcur
      exact .inr ⟨group, mem_filter.mpr
        ⟨hmem, decide_eq_true ⟨hcur, hen, hutd⟩⟩, rfl⟩

/-! ## Routes -/

/-- A target that is listed and accepted and has an input among its members. -/
structure Covers (tables : SourceTables) (project : Nat) (target : WorkSourceScanTarget)
    (input : WorkSourceInput) : Prop where
  listed : target ∈ tables.scanTargets project
  accepted : tables.requireCurrent project target = .ok ()
  member : ∃ members, tables.scanMembers project target = .ok members ∧ input ∈ members

/-- Every enabled current input is covered by at most one target. -/
def SelectedOnce (tables : SourceTables) : Prop :=
  ∀ project input, tables.currentInput? project input.id = some input →
    input.definition.enabled = true →
    ∀ target other, tables.Covers project target input → tables.Covers project other input →
      target = other

/-- A group that a scan accepts. -/
def IsRunning (tables : SourceTables) (project : Nat) (group : WorkSourceGroup) : Prop :=
  tables.currentGroup? project group.id = some group ∧ tables.isUpToDate project group = true

theorem Covers.of_input (h : tables.Covers project (.input id version) input) :
    tables.currentInput? project id = some input ∧ input.version = version ∧
      tables.isGrouped project id = false := by
  obtain ⟨found, hcur, hversion, -, hgrouped⟩ := requireCurrent_input.mp h.accepted
  obtain ⟨members, hmems, hmem⟩ := h.member
  obtain ⟨row, hrow, heq⟩ := bind_eq_ok.mp hmems
  cases heq
  rw [mem_singleton.mp hmem]
  cases hcur.symm.trans (okOr_eq_ok.mp hrow)
  exact ⟨hcur, hversion, hgrouped⟩

theorem scanMembers_group (hs : tables.Sound)
    (hcur : tables.currentGroup? project id = some group) (hversion : group.version = version) :
    tables.scanMembers project (.group id version) = .ok group.members := by
  obtain ⟨hmem, hproj, hid⟩ := currentGroup?_mem hcur
  refine bind_eq_ok.mpr ⟨group, okOr_eq_ok.mpr ?_, rfl⟩
  cases hfind : tables.groups.find? fun row =>
      row.projectId = project ∧ row.id = id ∧ row.version = version with
  | none =>
    have hnone := List.find?_eq_none.mp hfind group hmem
    exact absurd (decide_eq_true ⟨hproj, hid, hversion⟩) hnone
  | some row =>
    have hsel := List.find?_some hfind
    obtain ⟨-, hrowId, hrowVersion⟩ := of_decide_eq_true hsel
    have hrow := mem_of_find?_eq_some hfind
    rw [(hs.oneGroup row hrow group hmem (hrowId.trans hid.symm)).2
      (hrowVersion.trans hversion.symm)]

theorem Covers.of_group (hs : tables.Sound) (h : tables.Covers project (.group id version) input) :
    ∃ group, tables.IsRunning project group ∧ group.id = id ∧ group.version = version ∧
      input ∈ group.members := by
  obtain ⟨group, hcur, hversion, hutd, -⟩ := requireCurrent_group.mp h.accepted
  obtain ⟨members, hmems, hmem⟩ := h.member
  rw [scanMembers_group hs hcur hversion] at hmems
  cases hmems
  obtain ⟨-, -, hid⟩ := currentGroup?_mem hcur
  rw [← hid] at hcur
  exact ⟨group, ⟨hcur, hutd⟩, hid, hversion, hmem⟩

theorem covers_group (hs : tables.Sound) (hrun : tables.IsRunning project group)
    (hmember : input ∈ group.members) (hen : input.definition.enabled = true) :
    tables.Covers project (.group group.id group.version) input := by
  have hacc : tables.requireCurrent project (.group group.id group.version) = .ok () :=
    requireCurrent_group.mpr ⟨group, hrun.1, rfl, hrun.2,
      any_eq_true.mpr ⟨input, hmember, hen⟩⟩
  exact ⟨mem_scanTargets_iff.mpr hacc, hacc, group.members,
    scanMembers_group hs hrun.1 rfl, hmember⟩

/-- Two routes of one input are two groups with a common member. -/
theorem selectedOnce_iff (hs : tables.Sound) : tables.SelectedOnce ↔
    ∀ project group other, tables.IsRunning project group → tables.IsRunning project other →
      ∀ input ∈ group.members, input.definition.enabled = true → input ∈ other.members →
        group = other := by
  constructor
  · intro honce project group other hgroup hother input hmember hen hshared
    have hcur := isUpToDate_iff.mp hgroup.2 input hmember
    have hsame := honce project input hcur hen _ _ (covers_group hs hgroup hmember hen)
      (covers_group hs hother hshared hen)
    injection hsame with hid
    have hfirst := hgroup.1
    rw [hid] at hfirst
    exact Option.some.inj (hfirst.symm.trans hother.1)
  · intro hgroups project input hcur hen target other htgt hother
    cases target with
    | input id version =>
      obtain ⟨hfirst, rfl, hgrouped⟩ := htgt.of_input
      obtain ⟨-, -, rfl⟩ := currentInput?_mem hfirst
      cases other with
      | input id' version' =>
        obtain ⟨hsnd, rfl, -⟩ := hother.of_input
        obtain ⟨-, -, rfl⟩ := currentInput?_mem hsnd
        rfl
      | group id' version' =>
        obtain ⟨group, hrun, -, -, hmember⟩ := hother.of_group hs
        -- A member of a group is no target of its own.
        rw [isGrouped_iff.mpr ⟨group, (currentGroup?_mem hrun.1).1, hrun.1, input, hmember,
          rfl⟩] at hgrouped
        cases hgrouped
    | group id version =>
      obtain ⟨group, hrun, rfl, rfl, hmember⟩ := htgt.of_group hs
      cases other with
      | input id' version' =>
        obtain ⟨hsnd, rfl, hgrouped⟩ := hother.of_input
        obtain ⟨-, -, rfl⟩ := currentInput?_mem hsnd
        rw [isGrouped_iff.mpr ⟨group, (currentGroup?_mem hrun.1).1, hrun.1, input, hmember,
          rfl⟩] at hgrouped
        cases hgrouped
      | group id' version' =>
        obtain ⟨second, hsnd, rfl, rfl, hshared⟩ := hother.of_group hs
        rw [hgroups project group second hrun hsnd input hmember hen hshared]

/-! ## Publications -/

/-- The tables once the inputs of a publication are added. -/
def withInputs (tables : SourceTables) (request : PublishWorkSources) : SourceTables :=
  { tables with inputs := tables.inputs ++ request.inputs.map (·.input) }

/-- A publication groups no enabled input that another running group has as a member. -/
def Exclusive (tables : SourceTables) (request : PublishWorkSources) : Prop :=
  ∀ change, request.group = some change →
    ∀ other, (tables.withInputs request).IsRunning request.projectId other →
      other.id ≠ change.group.id →
      ∀ input ∈ change.group.members, input.definition.enabled = true → input ∉ other.members

theorem validate_eq_ok (h : request.validate = .ok ()) :
    (∀ change ∈ request.inputs, change.input.projectId = request.projectId ∧
      IsNext change.input.version change.expectedVersion) ∧
      ∀ change, request.group = some change → change.group.projectId = request.projectId ∧
        IsNext change.group.version change.expectedVersion := by
  unfold PublishWorkSources.validate at h
  obtain ⟨-, h⟩ := guard_eq_ok.mp h
  obtain ⟨-, h⟩ := guard_eq_ok.mp h
  obtain ⟨hinputs, h⟩ := guard_eq_ok.mp h
  obtain ⟨hgroup, -⟩ := guard_eq_ok.mp h
  constructor
  · intro change hchange
    by_contra hnot
    exact hinputs ⟨change, hchange, Classical.not_and_iff_not_or_not.mp hnot⟩
  · intro change hchange
    by_contra hnot
    exact hgroup ⟨change, hchange, Classical.not_and_iff_not_or_not.mp hnot⟩

section

variable (hs : tables.Sound)

include hs

theorem publishInput_eq_ok {change : WorkSourceInputChange}
    (hproj : change.input.projectId = project)
    (hnext : IsNext change.input.version change.expectedVersion)
    (h : publishInput project checks tables change = .ok tables') :
    tables' = { tables with inputs := tables.inputs ++ [change.input] } ∧ tables'.Sound := by
  unfold publishInput at h
  dsimp only at h
  obtain ⟨-, h⟩ := guard_eq_ok.mp h
  obtain ⟨hcur, h⟩ := guard_eq_ok.mp h
  obtain ⟨-, h⟩ := guard_eq_ok.mp h
  obtain ⟨-, h⟩ := guard_eq_ok.mp h
  cases h
  obtain ⟨hexp, howner⟩ := not_or.mp hcur
  refine ⟨rfl, ?_, hs.oneGroup, ?_⟩
  · refine hs.oneInput.append fun row hrow hid => ?_
    rw [hproj]
    exact hs.oneInput.earlier (not_not.mp hexp) howner hnext.1 hrow hid
  · intro group hgroup member hmember
    exact mem_append_left _ (hs.members group hgroup member hmember)

theorem foldlM_publishInput_eq_ok {changes : List WorkSourceInputChange}
    (hchanges : ∀ change ∈ changes, change.input.projectId = project ∧
      IsNext change.input.version change.expectedVersion)
    (h : changes.foldlM (publishInput project checks) tables = .ok tables') :
    tables' = { tables with inputs := tables.inputs ++ changes.map (·.input) } ∧
      tables'.Sound := by
  induction changes generalizing tables with
  | nil =>
    cases h
    exact ⟨by rw [map_nil, append_nil], hs⟩
  | cons change rest ih =>
    rw [foldlM_cons] at h
    obtain ⟨next, hfirst, hrest⟩ := bind_eq_ok.mp h
    obtain ⟨hproj, hnext⟩ := hchanges change (mem_cons_self ..)
    obtain ⟨rfl, hsound⟩ := publishInput_eq_ok hs hproj hnext hfirst
    obtain ⟨hlast, hsound'⟩ := ih hsound
      (fun other hother => hchanges other (mem_cons_of_mem _ hother)) hrest
    refine ⟨?_, hsound'⟩
    rw [hlast]
    dsimp only
    rw [append_assoc, map_cons, singleton_append]

theorem publishGroup_eq_ok {change : WorkSourceGroupChange}
    (hproj : change.group.projectId = project)
    (hnext : IsNext change.group.version change.expectedVersion)
    (h : tables.publishGroup project checks change = .ok tables') :
    tables' = { tables with groups := tables.groups ++ [change.group] } ∧ tables'.Sound ∧
      tables.isUpToDate project change.group = true ∧
      ∀ row ∈ tables.groups, row.id = change.group.id → row.version < change.group.version := by
  unfold publishGroup at h
  dsimp only at h
  obtain ⟨hcur, h⟩ := guard_eq_ok.mp h
  obtain ⟨hmems, h⟩ := guard_eq_ok.mp h
  obtain ⟨-, h⟩ := guard_eq_ok.mp h
  cases h
  obtain ⟨hexp, howner⟩ := not_or.mp hcur
  have hutd : ∀ member ∈ change.group.members,
      tables.currentInput? project member.id = some member := by
    intro member hmember
    by_contra hnot
    exact hmems ⟨member, hmember, .inr hnot⟩
  have hearl : ∀ row ∈ tables.groups, row.id = change.group.id →
      row.projectId = project ∧ row.version < change.group.version := fun row hrow hid =>
    hs.oneGroup.earlier (not_not.mp hexp) howner hnext.1 hrow hid
  refine ⟨rfl, ⟨hs.oneInput, ?_, ?_⟩, isUpToDate_iff.mpr hutd,
    fun row hrow hid => (hearl row hrow hid).2⟩
  · refine hs.oneGroup.append fun row hrow hid => ?_
    rw [hproj]
    exact hearl row hrow hid
  · intro group hgroup member hmember
    rcases mem_append.mp hgroup with hgroup | hgroup
    · exact hs.members group hgroup member hmember
    · rw [mem_singleton.mp hgroup] at hmember
      exact (currentInput?_mem (hutd member hmember)).1

/-- What a publication adds: its inputs, then its group. -/
theorem publish_eq_ok (h : tables.publish request checks = .ok tables') :
    tables'.Sound ∧ (request.group = none ∧ tables' = tables.withInputs request ∨
      ∃ change, request.group = some change ∧ change.group.projectId = request.projectId ∧
        tables' = { tables.withInputs request with groups := tables.groups ++ [change.group] } ∧
        (tables.withInputs request).isUpToDate request.projectId change.group = true ∧
        ∀ row ∈ tables.groups, row.id = change.group.id → row.version < change.group.version) := by
  obtain ⟨hvalid, h⟩ := check_eq_ok.mp h
  obtain ⟨-, h⟩ := guard_eq_ok.mp h
  obtain ⟨next, hinputs, h⟩ := bind_eq_ok.mp h
  obtain ⟨hchanges, hgroup⟩ := validate_eq_ok hvalid
  obtain ⟨rfl, hsound⟩ := foldlM_publishInput_eq_ok hs hchanges hinputs
  split at h
  · rename_i hnone
    cases h
    exact ⟨hsound, .inl ⟨hnone, rfl⟩⟩
  · rename_i change hsome
    obtain ⟨hproj, hnext⟩ := hgroup change hsome
    obtain ⟨hlast, hsound', hutd, hbelow⟩ := publishGroup_eq_ok hsound hproj hnext h
    exact ⟨hsound', .inr ⟨change, hsome, hproj, hlast, hutd, hbelow⟩⟩

/-- Adding inputs starts no group. -/
theorem isRunning_of_withInputs (hs' : (tables.withInputs request).Sound)
    (h : (tables.withInputs request).IsRunning project group) : tables.IsRunning project group := by
  refine ⟨h.1, isUpToDate_iff.mpr fun member hmember => ?_⟩
  have hgroup : group ∈ tables.groups := (currentGroup?_mem h.1).1
  exact currentInput?_of_subset hs' (fun row hrow => mem_append_left _ hrow)
    (hs.members group hgroup member hmember) (isUpToDate_iff.mp h.2 member hmember)

/-- An input stays on one route exactly when the publication is exclusive. -/
theorem publish_selectedOnce (honce : tables.SelectedOnce)
    (h : tables.publish request checks = .ok tables') :
    tables'.SelectedOnce ↔ tables.Exclusive request := by
  obtain ⟨hs', ⟨hnone, rfl⟩ | ⟨change, hchange, hproj, rfl, hutd, hbelow⟩⟩ :=
    publish_eq_ok hs h
  · rw [selectedOnce_iff hs']
    constructor
    · intro _ change hchange
      rw [hnone] at hchange
      cases hchange
    · intro _ project group other hgroup hother
      exact (selectedOnce_iff hs).mp honce project group other
        (isRunning_of_withInputs hs hs' hgroup) (isRunning_of_withInputs hs hs' hother)
  · have hinputs : (tables.withInputs request).Sound :=
      ⟨hs'.oneInput, hs.oneGroup, fun group hgroup member hmember =>
        mem_append_left _ (hs.members group hgroup member hmember)⟩
    -- Every other group runs as it did before the group was added.
    have hcur : ∀ {project id}, id ≠ change.group.id →
        currentGroup? { tables.withInputs request with groups := tables.groups ++ [change.group] }
          project id = (tables.withInputs request).currentGroup? project id := by
      intro project id hne
      exact newest_append_of_not (decide_eq_false fun hsel => hne hsel.2.symm)
    have hpubd : IsRunning
        { tables.withInputs request with groups := tables.groups ++ [change.group] }
        request.projectId change.group := by
      refine ⟨newest_append_of_lt (decide_eq_true ⟨hproj, rfl⟩) ?_, hutd⟩
      intro row hrow hsel
      exact hbelow row hrow (of_decide_eq_true hsel).2
    rw [selectedOnce_iff hs']
    constructor
    · intro hgroups published hpublishedEq other hother hne input hmember hen hshared
      cases hchange.symm.trans hpublishedEq
      have hrun : IsRunning
          { tables.withInputs request with groups := tables.groups ++ [change.group] }
          request.projectId other := ⟨(hcur hne).trans hother.1, hother.2⟩
      have hsame := hgroups _ _ _ hpubd hrun input hmember hen hshared
      exact hne (congrArg WorkSourceGroup.id hsame).symm
    · intro hexclusive project group other hgroup hother input hmember hen hshared
      have hnew : ∀ {row : WorkSourceGroup}, IsRunning
          { tables.withInputs request with groups := tables.groups ++ [change.group] } project row →
          row.id = change.group.id → project = request.projectId ∧ row = change.group := by
        intro row hrow hid
        obtain ⟨hmem, howned, -⟩ := currentGroup?_mem hrow.1
        have hlast := mem_append_right tables.groups (mem_singleton_self change.group)
        have hsame : project = request.projectId := by
          rw [← howned, ← hproj]
          exact (hs'.oneGroup row hmem change.group hlast hid).1
        refine ⟨hsame, ?_⟩
        have hfound := hrow.1
        rw [hsame, hid] at hfound
        exact Option.some.inj (hfound.symm.trans hpubd.1)
      by_cases hfirst : group.id = change.group.id <;> by_cases hsnd : other.id = change.group.id
      · rw [(hnew hgroup hfirst).2, (hnew hother hsnd).2]
      · obtain ⟨rfl, rfl⟩ := hnew hgroup hfirst
        exact absurd hshared (hexclusive change hchange other
          ⟨(hcur hsnd).symm.trans hother.1, hother.2⟩ hsnd input hmember hen)
      · obtain ⟨rfl, rfl⟩ := hnew hother hsnd
        exact absurd hmember (hexclusive change hchange group
          ⟨(hcur hfirst).symm.trans hgroup.1, hgroup.2⟩ hfirst input hshared hen)
      · exact (selectedOnce_iff hs).mp honce project group other
          (isRunning_of_withInputs hs hinputs ⟨(hcur hfirst).symm.trans hgroup.1, hgroup.2⟩)
          (isRunning_of_withInputs hs hinputs ⟨(hcur hsnd).symm.trans hother.1, hother.2⟩)
          input hmember hen hshared

end

end SourceTables

end OctaCity.Source
