/-
  OctaCity.Placement.Routes

  The Agent's side of placement: the execution routes its composition installs
  and advertises, the route a Job is run on, and the admission of a managed Job
  against that route.
-/
import OctaCity.Lib.FirstMatch
import OctaCity.Placement.Matching

namespace OctaCity.Placement

open Lib

/-! ## Routes -/

inductive JobError
  | invalid (message : String)
  | executionModeUnavailable (mode : ExecutionMode)
  | runtimeUnavailable (mode : RuntimeMode)

/-- One operator-selected provider route of the provider-neutral contract. -/
structure ExecutionBackendRoute where
  capability : ExecutionCapability
  environment : String
  factoryEnforcement : Finset FactoryEnforcementCapability

namespace ExecutionBackendRoute

def provider (route : ExecutionBackendRoute) : ExecutionProviderId := route.capability.provider

def new (capability : ExecutionCapability) (environment : String) :
    Except JobError ExecutionBackendRoute :=
  match capability.validate with
  | .error message => .error (.invalid message)
  | .ok () => .ok ⟨capability, environment, ∅⟩

/-- Records semantic Factory controls proved by backend conformance. -/
def withFactoryEnforcement (route : ExecutionBackendRoute)
    (capabilities : List FactoryEnforcementCapability) : Except JobError ExecutionBackendRoute :=
  if capabilities.toFinset.card ≠ capabilities.length then
    .error (.invalid "Factory enforcement capabilities must not contain duplicates")
  else .ok { route with factoryEnforcement := capabilities.toFinset }

end ExecutionBackendRoute

/-- One call of `add_execution`. -/
structure ExecutionRouteConfig where
  capability : ExecutionCapability
  environmentIdentity : String
  factoryEnforcement : Option (List FactoryEnforcementCapability)
  workspaceAnchor : Bool
  controlledTools : Bool

structure BackendAssembly where
  routes : List ExecutionBackendRoute
  executions : List ExecutionCapability
  factoryExecutions : List FactoryExecutionCapability
  health : List BackendHealth

def readyExecution (capability : ExecutionCapability) : BackendHealth :=
  ⟨capability.provider.asStr, some capability, .ready⟩

namespace BackendAssembly

def default : BackendAssembly := ⟨[], [], [], []⟩

def addExecution (assembly : BackendAssembly) (config : ExecutionRouteConfig) :
    Except JobError BackendAssembly := do
  let route ← ExecutionBackendRoute.new config.capability config.environmentIdentity
  let enforced := match config.factoryEnforcement with
    | some capabilities => route.withFactoryEnforcement capabilities
    | none => .ok route
  let route ← enforced
  .ok
    { routes := assembly.routes ++ [route]
      executions := assembly.executions ++ [config.capability]
      factoryExecutions := assembly.factoryExecutions ++
        (config.factoryEnforcement.map fun enforcement =>
          ⟨config.workspaceAnchor, config.controlledTools, config.capability,
            enforcement⟩).toList
      health := assembly.health ++ [readyExecution config.capability] }

/-- All configured routes, added in turn. -/
def addExecutions (assembly : BackendAssembly) (configs : List ExecutionRouteConfig) :
    Except JobError BackendAssembly :=
  configs.foldlM addExecution assembly

end BackendAssembly

/-! ## Selection -/

structure JobExecutor where
  /-- Modes a legacy backend is installed for. -/
  backends : List RuntimeMode
  executionBackends : Table ExecutionBackendRoute.provider

/-- Enables explicitly configured provider-neutral execution routes. -/
def JobExecutor.withExecutionBackends (backends : List RuntimeMode)
    (routes : List ExecutionBackendRoute) : Except JobError JobExecutor := do
  let executionBackends ← Table.collect (fun route : ExecutionBackendRoute =>
    .invalid s!"execution provider '{route.provider.asStr}' is configured more than once") routes
  .ok ⟨backends, executionBackends⟩

structure ExecutionEvidence where
  provider : ExecutionProviderId
  target : ExecutionTarget

structure SelectedBackend where
  /-- The concrete provider and target, absent for a legacy runtime. -/
  evidence : Option ExecutionEvidence
  environment : Option String
  factoryEnforcement : Finset FactoryEnforcementCapability

def RuntimeTarget.mode : RuntimeTarget → RuntimeMode
  | .native _ => .native
  | .oci _ _ _ => .oci

def JobExecutor.selectBackend (executor : JobExecutor) (runtime : JobRuntimePolicy) :
    Except JobError SelectedBackend :=
  match runtime with
  | .legacy target =>
    if target.mode ∈ executor.backends then .ok ⟨none, none, ∅⟩
    else .error (.runtimeUnavailable target.mode)
  | .current target =>
    match executor.executionBackends.rows.find? fun route => route.capability.satisfies target with
    | none => .error (.executionModeUnavailable target.mode)
    | some route =>
      .ok
        { evidence := some ⟨route.capability.provider, target⟩
          environment := some route.environment
          factoryEnforcement := route.factoryEnforcement }

/-! ## Admission of managed work -/

inductive FactoryPreflightError
  | disabled
  | invalidLocalGrants
  | invalidSignedIntent
  | protectedInputTransfer
  | protectedInputMount
  | plugin
  | executable
  | tool
  | command
  | descendants
  | mount
  | network
  | secretProfile
  | workloadIdentityProfile
  | resources
  | outputs
  | backendCapability
  | toolAuthorizationUnavailable
  | toolchainDrift
  | changeSetCaptureUnavailable
  | changeSetMaterializationUnavailable

/-- The outcome of a check that does not look at the selected backend. -/
structure PreflightCheck where
  outcome : Except FactoryPreflightError Unit
  other : outcome ≠ .error .backendCapability

/-- One admission decision: the checks before and after the one of the backend. -/
structure FactoryAdmission where
  authority : List PreflightCheck
  requiredEnforcement : List FactoryEnforcementCapability
  backendCapabilities : Finset FactoryEnforcementCapability
  toolchain : List PreflightCheck

/-- Checks run in order, up to the first that fails. -/
def runChecks (checks : List PreflightCheck) : Except FactoryPreflightError Unit :=
  checks.forM PreflightCheck.outcome

def FactoryAdmission.authorize (admission : FactoryAdmission) :
    Except FactoryPreflightError Unit := do
  runChecks admission.authority
  if admission.requiredEnforcement.any (fun capability =>
      capability ∉ admission.backendCapabilities) then
    .error .backendCapability
  else runChecks admission.toolchain

end OctaCity.Placement
