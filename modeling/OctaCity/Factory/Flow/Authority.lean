/-
  OctaCity.Factory.Flow.Authority

  Authority along chains of subflow calls.  Admission compares neighbours only: a
  node with its definition, a called definition with the calling node, every
  definition with the admission limits.
-/
import OctaCity.Factory.Grants
import OctaCity.Factory.Flow.Sequences

namespace OctaCity.Factory.Flow

open FactoryPermissionSet Lib

section Authority

variable {checks : DefinitionChecks} {closure : PinnedFlowDefinitionClosure}
  {limits : FlowAdmissionLimits} {definition : FlowDefinition}

/-! ## Neighbours -/

/-- What admission compares at one node. -/
structure NodeAuthority (closure : PinnedFlowDefinitionClosure) (definition : FlowDefinition)
    (node : FlowNodeDefinition) : Prop where
  budget : node.budget.Within definition.execution.budget
  permissions : node.permissions.isNoBroaderThan definition.execution.permissions = true
  call : ∀ reference, node.subflow = some reference →
    ∃ child, closure.definition reference = some child ∧
      child.execution.permissions.isNoBroaderThan node.permissions = true

/-- What admission compares at one definition. -/
structure DefinitionAuthority (closure : PinnedFlowDefinitionClosure)
    (limits : FlowAdmissionLimits) (definition : FlowDefinition) : Prop where
  budget : definition.execution.budget.Within limits.budget
  permissions : definition.execution.permissions.isNoBroaderThan limits.permissions = true
  node : ∀ node ∈ definition.nodes, NodeAuthority closure definition node

theorem NodeAuthority.of_validateNode {node : FlowNodeDefinition}
    (h : validateNode closure definition node = .ok ()) : NodeAuthority closure definition node := by
  unfold validateNode at h
  split at h
  · cases h
  rename_i hbud
  obtain ⟨hperms, h⟩ := guard_eq_ok.mp h
  refine ⟨BudgetLimit.firstExcess_eq_none.mp hbud, not_not.mp hperms, ?_⟩
  intro reference hsflow
  rw [hsflow] at h
  obtain ⟨child, hchild, hcontract⟩ := bind_eq_ok.mp h
  unfold validateSubflowContract at hcontract
  obtain ⟨hcontract, -⟩ := guard_eq_ok.mp hcontract
  rw [not_or, not_or, not_or, not_not, not_not, not_not] at hcontract
  exact ⟨child, okOr_eq_ok.mp hchild, hcontract.2.2.1⟩

theorem DefinitionAuthority.of_validateDefinition
    (h : validateDefinition checks closure limits definition = .ok ()) :
    DefinitionAuthority closure limits definition := by
  unfold validateDefinition at h
  obtain ⟨_, -, h⟩ := bind_eq_ok.mp h
  obtain ⟨_, hbounds, h⟩ := bind_eq_ok.mp h
  obtain ⟨_, -, h⟩ := bind_eq_ok.mp h
  obtain ⟨-, h⟩ := guard_eq_ok.mp h
  obtain ⟨-, h⟩ := guard_eq_ok.mp h
  obtain ⟨_, -, h⟩ := bind_eq_ok.mp h
  obtain ⟨-, h⟩ := guard_eq_ok.mp h
  obtain ⟨-, h⟩ := guard_eq_ok.mp h
  obtain ⟨_, -, h⟩ := bind_eq_ok.mp h
  obtain ⟨-, h⟩ := guard_eq_ok.mp h
  obtain ⟨-, h⟩ := guard_eq_ok.mp h
  obtain ⟨_, -, hnodes⟩ := bind_eq_ok.mp h
  unfold validateDefinitionBounds at hbounds
  split at hbounds
  · cases hbounds
  rename_i hbud
  obtain ⟨-, hbounds⟩ := guard_eq_ok.mp hbounds
  obtain ⟨hperms, -⟩ := guard_eq_ok.mp hbounds
  rw [not_or, not_not] at hperms
  refine ⟨BudgetLimit.firstExcess_eq_none.mp hbud, hperms.2, ?_⟩
  intro node hnode
  exact NodeAuthority.of_validateNode (forM_eq_ok.mp hnodes node hnode)

theorem DefinitionAuthority.of_new {validated : ValidatedFlowDefinitionClosure}
    (h : ValidatedFlowDefinitionClosure.new checks closure limits = .ok validated)
    {reference : FlowDefinitionRef} (hdef : closure.definition reference = some definition) :
    DefinitionAuthority closure limits definition := by
  unfold ValidatedFlowDefinitionClosure.new at h
  obtain ⟨_, hdefinitions, -⟩ := bind_eq_ok.mp h
  have hmem := (PinnedFlowDefinitionClosure.definition_mem hdef).1
  exact .of_validateDefinition (forM_eq_ok.mp hdefinitions definition hmem)

/-! ## Chains of calls -/

/-- The definition is reached from the root through the calls whose permission
    sets, and those of the definitions around them, are listed innermost first. -/
inductive CallChain (closure : PinnedFlowDefinitionClosure) :
    FlowDefinition → List FactoryPermissionSet → Prop
  | root {definition : FlowDefinition} (hdef : closure.definition closure.root = some definition) :
      CallChain closure definition [definition.execution.permissions]
  | call {parent child : FlowDefinition} {node : FlowNodeDefinition}
      {reference : FlowDefinitionRef} {enclosing : List FactoryPermissionSet}
      (hpar : CallChain closure parent enclosing) (hnode : node ∈ parent.nodes)
      (hsflow : node.subflow = some reference)
      (hchild : closure.definition reference = some child) :
      CallChain closure child (child.execution.permissions :: node.permissions :: enclosing)

theorem CallChain.pinned {enclosing : List FactoryPermissionSet}
    (h : CallChain closure definition enclosing) :
    ∃ reference, closure.definition reference = some definition := by
  cases h with
  | root hdef => exact ⟨_, hdef⟩
  | call _ _ _ hchild => exact ⟨_, hchild⟩

/-- What a definition grants is granted by everything around it. -/
theorem CallChain.grants {enclosing : List FactoryPermissionSet}
    (hauth : ∀ reference definition, closure.definition reference = some definition →
      DefinitionAuthority closure limits definition)
    (h : CallChain closure definition enclosing) {action : FactoryAction}
    (hgrant : definition.execution.permissions.grants action = true) :
    ∀ permissions ∈ enclosing, permissions.grants action = true := by
  induction h with
  | root hdef =>
    intro permissions hmem
    rw [List.mem_singleton.mp hmem]
    exact hgrant
  | @call parent child node reference enclosing hpar hnode hsflow hchild ih =>
    obtain ⟨parentReference, hparentDef⟩ := hpar.pinned
    have hneighbours := (hauth parentReference parent hparentDef).node node hnode
    obtain ⟨called, hcalled, hcall⟩ := hneighbours.call reference hsflow
    rw [hchild] at hcalled
    cases hcalled
    -- The call grants what the child does, and the parent what the call does.
    have hnodeGrants := grants_of_isNoBroaderThan hcall hgrant
    have hparentGrants :=
      grants_of_isNoBroaderThan hneighbours.permissions hnodeGrants
    intro permissions hmem
    rcases List.mem_cons.mp hmem with rfl | hmem
    · exact hgrant
    rcases List.mem_cons.mp hmem with rfl | hmem
    · exact hnodeGrants
    · exact ih hparentGrants permissions hmem

/-- However deep it is called, a node of an admitted closure has a budget within the
    admission budget and grants only what everything around it grants. -/
theorem nested_authority_never_widens {validated : ValidatedFlowDefinitionClosure}
    (h : ValidatedFlowDefinitionClosure.new checks closure limits = .ok validated)
    {enclosing : List FactoryPermissionSet} (hchain : CallChain closure definition enclosing)
    {node : FlowNodeDefinition} (hnode : node ∈ definition.nodes) :
    node.budget.Within limits.budget ∧ ∀ action, node.permissions.grants action = true →
        limits.permissions.grants action = true ∧
        ∀ permissions ∈ enclosing, permissions.grants action = true := by
  have hauth : ∀ reference found, closure.definition reference = some found →
      DefinitionAuthority closure limits found :=
    fun reference found hfound => .of_new h hfound
  obtain ⟨reference, hdef⟩ := hchain.pinned
  have hdefinition := hauth reference definition hdef
  have hneighbours := hdefinition.node node hnode
  refine ⟨hneighbours.budget.trans hdefinition.budget, ?_⟩
  intro action hgrant
  have hdefGrants :=
    grants_of_isNoBroaderThan hneighbours.permissions hgrant
  exact ⟨grants_of_isNoBroaderThan hdefinition.permissions hdefGrants,
    hchain.grants hauth hdefGrants⟩

end Authority

/-! ## A call with narrowed authority -/

namespace Narrowed

/-- One command pattern and one mount. -/
def authority (arguments : List CommandArgumentPattern) (root : FactoryPath) (mode : MountMode) :
    FactoryPermissionSet :=
  { commands := {⟨Diamond.okOutcome.schema, arguments⟩}, mounts := {⟨root, mode⟩} }

def source : FactoryPath := ⟨"/src", by decide +kernel⟩

def application : FactoryPath := ⟨"/src/app", by decide +kernel⟩

def rootAuthority : FactoryPermissionSet := authority [.any, .any] source .readWrite

def callAuthority : FactoryPermissionSet :=
  authority [.exact "build", .any] application .readWrite

def childAuthority : FactoryPermissionSet :=
  authority [.exact "build", .exact "app"] application .readOnly

def child : FlowDefinition :=
  { Nested.child with
    nodes := [{ Diamond.node "work" .join with permissions := childAuthority }]
    execution := ⟨Diamond.budget, childAuthority, 4⟩ }

def definition : FlowDefinition :=
  { Nested.definition with
    nodes := Nested.definition.nodes.map fun node =>
      if node.subflow.isSome then { node with permissions := callAuthority } else node
    execution := ⟨Diamond.budget, rootAuthority, 4⟩ }

def closure : PinnedFlowDefinitionClosure :=
  ⟨Diamond.reference, [definition, child], by decide +kernel, by decide +kernel, by decide +kernel,
    by decide +kernel⟩

def limits : FlowAdmissionLimits := { Diamond.limits with permissions := rootAuthority }

/-- Building the application below `/src` is allowed by all around the called node. -/
theorem called_node_authority : ∃ enclosing, CallChain closure child enclosing ∧
    enclosing = [childAuthority, callAuthority, rootAuthority] ∧
    ∀ permissions ∈ enclosing,
      permissions.grants (.command Diamond.okOutcome.schema ["build", "app"]) = true ∧
      permissions.grants (.file application .readOnly) = true := by
  have hroot : closure.definition closure.root = some definition := by decide
  have hchild : closure.definition Nested.childReference = some child := by decide
  have hcall : ∃ node ∈ definition.nodes, node.subflow = some Nested.childReference ∧
      node.permissions = callAuthority := by decide
  obtain ⟨call, hcall, hsflow, hperms⟩ := hcall
  have hchain : CallChain closure child [childAuthority, callAuthority, rootAuthority] := by
    rw [← hperms]
    exact .call (.root hroot) hcall hsflow hchild
  refine ⟨_, hchain, rfl, ?_⟩
  have hnew : ∃ validated, ValidatedFlowDefinitionClosure.new Diamond.checks.toDefinitionChecks
      closure limits = .ok validated := ⟨⟨closure, limits, 5, 2⟩, by decide +kernel⟩
  obtain ⟨validated, hnew⟩ := hnew
  have hauth := (nested_authority_never_widens hnew hchain
    (List.mem_singleton_self { Diamond.node "work" .join with permissions := childAuthority })).2
  intro permissions hmem
  exact ⟨(hauth (.command Diamond.okOutcome.schema ["build", "app"])
      (by decide)).2 permissions hmem,
    (hauth (.file application .readOnly) (by decide)).2 permissions hmem⟩

end Narrowed

end OctaCity.Factory.Flow
