/-
  OctaCity.Placement.Selection

  Placement against selection.  The scheduler accepts an Agent when some route
  satisfies the target, has the required controls and is available; the Agent
  runs the Job on the first route, by provider identity, that satisfies the
  target.
-/
import OctaCity.Placement.Routes

namespace OctaCity.Placement

open BackendAssembly Lib List

/-! ## What is installed -/

namespace ExecutionRouteConfig

variable (config : ExecutionRouteConfig)

def provider : ExecutionProviderId := config.capability.provider

/-- The installed route. -/
def route : ExecutionBackendRoute :=
  ⟨config.capability, config.environmentIdentity, (config.factoryEnforcement.getD []).toFinset⟩

/-- The advertised Factory entry, if the route has one. -/
def factoryExecution : Option FactoryExecutionCapability :=
  config.factoryEnforcement.map fun enforcement =>
    ⟨config.workspaceAnchor, config.controlledTools, config.capability, enforcement⟩

end ExecutionRouteConfig

theorem BackendAssembly.addExecution_eq_ok {assembly assembly' : BackendAssembly}
    {config : ExecutionRouteConfig} (h : assembly.addExecution config = .ok assembly') :
    assembly'.routes = assembly.routes ++ [config.route] ∧
      assembly'.executions = assembly.executions ++ [config.capability] ∧
      assembly'.factoryExecutions =
        assembly.factoryExecutions ++ config.factoryExecution.toList := by
  unfold addExecution at h
  obtain ⟨route, hroute, h⟩ := bind_eq_ok.mp h
  dsimp only at h
  obtain ⟨installed, hinst, h⟩ := bind_eq_ok.mp h
  cases h
  have hnew : route = ⟨config.capability, config.environmentIdentity, ∅⟩ := by
    unfold ExecutionBackendRoute.new at hroute
    split at hroute
    · cases hroute
    · cases hroute
      rfl
  refine ⟨?_, rfl, rfl⟩
  have hinst : installed = config.route := by
    unfold ExecutionRouteConfig.route
    cases henf : config.factoryEnforcement with
    | none =>
      rw [henf] at hinst
      cases hinst
      exact hnew
    | some capabilities =>
      rw [henf] at hinst
      dsimp only at hinst
      unfold ExecutionBackendRoute.withFactoryEnforcement at hinst
      split at hinst
      · cases hinst
      · cases hinst
        rw [hnew]
        rfl
  rw [hinst]

/-- An assembly holds one route, one inventory entry and at most one Factory entry for each
    configured route. -/
theorem BackendAssembly.addExecutions_eq_ok {assembly assembly' : BackendAssembly}
    {configs : List ExecutionRouteConfig} (h : assembly.addExecutions configs = .ok assembly') :
    assembly'.routes = assembly.routes ++ configs.map (·.route) ∧
      assembly'.executions = assembly.executions ++ configs.map (·.capability) ∧
      assembly'.factoryExecutions =
        assembly.factoryExecutions ++ configs.filterMap (·.factoryExecution) := by
  unfold addExecutions at h
  induction configs generalizing assembly with
  | nil =>
    cases h
    simp
  | cons config rest ih =>
    rw [foldlM_cons] at h
    obtain ⟨next, hnext, h⟩ := bind_eq_ok.mp h
    obtain ⟨hroutes, hexecs, hfact⟩ := addExecution_eq_ok hnext
    obtain ⟨hroutes', hexecs', hfact'⟩ := ih h
    refine ⟨?_, ?_, ?_⟩
    · rw [hroutes', hroutes, append_assoc]
      rfl
    · rw [hexecs', hexecs, append_assoc]
      rfl
    · rw [hfact', hfact, append_assoc]
      cases hentry : config.factoryExecution <;> simp [hentry]

/-! ## Admission -/

theorem runChecks_other {checks : List PreflightCheck} :
    runChecks checks ≠ .error .backendCapability := by
  induction checks with
  | nil => exact nofun
  | cons check rest ih =>
    show (check.outcome >>= fun _ => runChecks rest) ≠ _
    cases hout : check.outcome with
    | error error =>
      intro h
      have hother := check.other
      rw [hout] at hother
      exact hother h
    | ok _ => exact ih

/-- Admission misses a backend capability exactly when every check of the signed authority passed
    and the selected backend lacks a required one. -/
theorem FactoryAdmission.authorize_backend {admission : FactoryAdmission} :
    admission.authorize = .error .backendCapability ↔ runChecks admission.authority = .ok () ∧
        ∃ capability ∈ admission.requiredEnforcement,
          capability ∉ admission.backendCapabilities := by
  unfold FactoryAdmission.authorize
  cases hauth : runChecks admission.authority with
  | error error =>
    have hother : error ≠ .backendCapability := by
      rintro rfl
      exact runChecks_other hauth
    constructor
    · intro h
      exact absurd (Except.error.inj h) hother
    · rintro ⟨h, -⟩
      cases h
  | ok _ =>
    show (if _ then _ else _) = _ ↔ _
    split
    · rename_i hmiss
      simpa [any_eq_true] using hmiss
    · rename_i hcompl
      constructor
      · exact fun h => absurd h runChecks_other
      · rintro ⟨-, hmiss⟩
        exact absurd (by simpa [any_eq_true] using hmiss) hcompl

/-! ## Placement and selection -/

/-- The snapshot reports the provider's backend as unavailable. -/
def HostSnapshot.ReportsUnavailable (snapshot : HostSnapshot) (provider : ExecutionProviderId) :
    Prop :=
  ∃ health ∈ snapshot.backends,
    health.backend = provider.asStr ∧ health.status = .unavailable

/-- What a Job needs of the backend it is run on. -/
structure SelectedBackend.Runs (inventory : AgentInventory) (snapshot : HostSnapshot)
    (template : JobSpecTemplate) (target : ExecutionTarget) (selected : SelectedBackend)
    (execution : ExecutionCapability) : Prop where
  advertised : execution ∈ inventory.executions
  evidence : selected.evidence = some ⟨execution.provider, target⟩
  satisfies : execution.satisfies target = true
  enforcement : ∀ capability ∈ template.requiredFactoryEnforcement.getD [],
    capability ∈ selected.factoryEnforcement
  admitted : ∀ admission : FactoryAdmission,
    admission.requiredEnforcement = template.requiredFactoryEnforcement.getD [] →
    admission.backendCapabilities = selected.factoryEnforcement →
    admission.authorize ≠ .error .backendCapability
  workspaceAnchor : template.requiresFactoryWorkspaceAnchor = true →
    ∃ entry ∈ inventory.factoryExecutions,
      entry.execution = execution ∧ entry.workspaceAnchor = true
  controlledTools : template.requiredToolControl.isSome = true →
    ∃ entry ∈ inventory.factoryExecutions,
      entry.execution = execution ∧ entry.controlledTools = true
  available : ¬snapshot.ReportsUnavailable execution.provider

/-- The configured route lacks nothing the template requires, and is not reported as
    unavailable. -/
structure ExecutionRouteConfig.Serves (snapshot : HostSnapshot) (template : JobSpecTemplate)
    (config : ExecutionRouteConfig) : Prop where
  enforcement : ∀ capability ∈ template.requiredFactoryEnforcement.getD [],
    capability ∈ config.factoryEnforcement.getD []
  workspaceAnchor : template.requiresFactoryWorkspaceAnchor = true →
    config.factoryEnforcement.isSome = true ∧ config.workspaceAnchor = true
  controlledTools : template.requiredToolControl.isSome = true →
    config.factoryEnforcement.isSome = true ∧ config.controlledTools = true
  available : ¬snapshot.ReportsUnavailable config.provider

section

variable {configs : List ExecutionRouteConfig} {assembly : BackendAssembly}
  {executor : JobExecutor} {backends : List RuntimeMode} {inventory : AgentInventory}
  {snapshot : HostSnapshot} {template : JobSpecTemplate} {target : ExecutionTarget}

section

variable (hasm : BackendAssembly.default.addExecutions configs = .ok assembly)
  (hexecutor : JobExecutor.withExecutionBackends backends assembly.routes = .ok executor)

include hasm hexecutor

/-- The routes of an executor are the configured ones. -/
theorem mem_executionBackends {route : ExecutionBackendRoute} :
    route ∈ executor.executionBackends.rows ↔ ∃ config ∈ configs, config.route = route := by
  obtain ⟨table, htable, h⟩ := bind_eq_ok.mp hexecutor
  cases h
  rw [Table.mem_collect htable, (addExecutions_eq_ok hasm).1]
  simp [BackendAssembly.default]

theorem providers_nodup : (configs.map (·.provider)).Nodup := by
  obtain ⟨table, htable, -⟩ := bind_eq_ok.mp hexecutor
  have hperm := Table.insertAll_eq_ok htable
  rw [(addExecutions_eq_ok hasm).1] at hperm
  have hkeys := (hperm.map ExecutionBackendRoute.provider).nodup_iff.mp table.keys_nodup
  simp only [BackendAssembly.default, Table.empty, nil_append, append_nil,
    map_map] at hkeys
  exact hkeys

end

theorem mem_factoryExecutions (hnodup : (configs.map (·.provider)).Nodup)
    {config : ExecutionRouteConfig} (hconfig : config ∈ configs)
    {entry : FactoryExecutionCapability} :
    entry ∈ configs.filterMap (·.factoryExecution) ∧ entry.execution = config.capability ↔
      config.factoryExecution = some entry := by
  have hexec : ∀ other : ExecutionRouteConfig, other.factoryExecution = some entry →
      entry.execution = other.capability := by
    intro other hother
    obtain ⟨enforcement, -, rfl⟩ := Option.map_eq_some_iff.mp hother
    rfl
  rw [mem_filterMap]
  constructor
  · rintro ⟨⟨other, hother, hentry⟩, hsame⟩
    have hprovider : other.provider = config.provider := by
      unfold ExecutionRouteConfig.provider
      rw [← hexec other hentry, hsame]
    rwa [inj_on_of_nodup_map hnodup hother hconfig hprovider] at hentry
  · intro hentry
    exact ⟨⟨config, hconfig, hentry⟩, hexec config hentry⟩

/-- A control is advertised for a route exactly when the route was configured with it. -/
theorem advertises_iff (hnodup : (configs.map (·.provider)).Nodup) {config : ExecutionRouteConfig}
    (hconfig : config ∈ configs) {control : FactoryExecutionCapability → Bool} {configured : Bool}
    (hcontrol : ∀ entry, config.factoryExecution = some entry → control entry = configured) :
    (∃ entry ∈ configs.filterMap (·.factoryExecution),
        entry.execution = config.capability ∧ control entry = true) ↔
      config.factoryEnforcement.isSome = true ∧ configured = true := by
  constructor
  · rintro ⟨entry, hmem, hexec, htrue⟩
    have hentry := (mem_factoryExecutions hnodup hconfig).mp ⟨hmem, hexec⟩
    refine ⟨?_, (hcontrol entry hentry).symm.trans htrue⟩
    obtain ⟨enforcement, hsome, -⟩ := Option.map_eq_some_iff.mp hentry
    rw [hsome]
    rfl
  · rintro ⟨hsome, htrue⟩
    obtain ⟨enforcement, hsome⟩ := Option.isSome_iff_exists.mp hsome
    have hentry : config.factoryExecution = some ⟨config.workspaceAnchor,
        config.controlledTools, config.capability, enforcement⟩ := by
      unfold ExecutionRouteConfig.factoryExecution
      rw [hsome]
      rfl
    obtain ⟨hmem, hexec⟩ := (mem_factoryExecutions hnodup hconfig).mpr hentry
    exact ⟨_, hmem, hexec, (hcontrol _ hentry).trans htrue⟩

/-- What a route needs and what its selection gives are the same. -/
theorem runs_iff_serves (hasm : BackendAssembly.default.addExecutions configs = .ok assembly)
    (hnodup : (configs.map (·.provider)).Nodup)
    (hexecs : inventory.executions = assembly.executions)
    (hfact : inventory.factoryExecutions = assembly.factoryExecutions)
    {config : ExecutionRouteConfig} (hconfig : config ∈ configs)
    (hsat : config.capability.satisfies target = true) :
    SelectedBackend.Runs inventory snapshot template target
        ⟨some ⟨config.provider, target⟩, some config.environmentIdentity,
          config.route.factoryEnforcement⟩ config.capability ↔ config.Serves snapshot template := by
  have hents : inventory.factoryExecutions = configs.filterMap (·.factoryExecution) := by
    rw [hfact, (addExecutions_eq_ok hasm).2.2]
    rfl
  have hanch := @advertises_iff _ hnodup config hconfig
    FactoryExecutionCapability.workspaceAnchor config.workspaceAnchor (by
      intro entry hentry
      obtain ⟨enforcement, -, rfl⟩ := Option.map_eq_some_iff.mp hentry
      rfl)
  have htools := @advertises_iff _ hnodup config hconfig
    FactoryExecutionCapability.controlledTools config.controlledTools (by
      intro entry hentry
      obtain ⟨enforcement, -, rfl⟩ := Option.map_eq_some_iff.mp hentry
      rfl)
  have hmem : ∀ capability, capability ∈ config.route.factoryEnforcement ↔
      capability ∈ config.factoryEnforcement.getD [] := fun _ => mem_toFinset
  constructor
  · intro h
    refine ⟨fun capability hreq => (hmem capability).mp (h.enforcement capability hreq),
      fun hreq => hanch.mp ?_, fun hreq => htools.mp ?_, h.available⟩
    · rw [← hents]
      exact h.workspaceAnchor hreq
    · rw [← hents]
      exact h.controlledTools hreq
  · intro h
    have hcarries : ∀ capability ∈ template.requiredFactoryEnforcement.getD [],
        capability ∈ config.route.factoryEnforcement := fun capability hreq =>
      (hmem capability).mpr (h.enforcement capability hreq)
    refine ⟨?_, rfl, hsat, hcarries, ?_, fun hreq => ?_, fun hreq => ?_, h.available⟩
    · rw [hexecs, (addExecutions_eq_ok hasm).2.1]
      exact mem_append_right _ (mem_map_of_mem hconfig)
    · intro admission hreqd hcaps hfails
      obtain ⟨-, capability, hreq, hmiss⟩ := FactoryAdmission.authorize_backend.mp hfails
      rw [hreqd] at hreq
      rw [hcaps] at hmiss
      exact hmiss (hcarries capability hreq)
    · rw [hents]
      exact hanch.mpr (h.workspaceAnchor hreq)
    · rw [hents]
      exact htools.mpr (h.controlledTools hreq)

/-- The route of a placed Job satisfies the target, has every required control and is available
    exactly when every route that satisfies the target but lacks something comes, in provider order,
    after one that lacks nothing. -/
theorem placed_runs_iff {cacheActionKeyFormat executionContractVersion : Nat}
    {requirements : JobRequirements} (hruntime : template.policy.runtime = .current target)
    (hasm : BackendAssembly.default.addExecutions configs = .ok assembly)
    (hexecutor : JobExecutor.withExecutionBackends backends assembly.routes = .ok executor)
    (hexecs : inventory.executions = assembly.executions)
    (hfact : inventory.factoryExecutions = assembly.factoryExecutions)
    (hplace : isCompatibleWithContract inventory snapshot requirements cacheActionKeyFormat
      template executionContractVersion = true) :
    (∃ selected execution, executor.selectBackend template.policy.runtime = .ok selected ∧
        selected.Runs inventory snapshot template target execution) ↔
      ∀ config ∈ configs, config.capability.satisfies target = true →
        ¬config.Serves snapshot template →
        ∃ other ∈ configs, other.capability.satisfies target = true ∧
          other.Serves snapshot template ∧ other.provider < config.provider := by
  have hnodup := providers_nodup hasm hexecutor
  have hrows : ∀ {route : ExecutionBackendRoute}, route ∈ executor.executionBackends.rows ↔
      ∃ config ∈ configs, config.route = route := mem_executionBackends hasm hexecutor
  -- Placement rests on a satisfying route, so the search finds one.
  obtain ⟨execution, hadvt, hsatisfied, -⟩ := isCompatibleWithContract_route hruntime hplace
  rw [hexecs, (addExecutions_eq_ok hasm).2.1] at hadvt
  obtain ⟨placed, hplacedMem, rfl⟩ := mem_map.mp
    ((mem_append.mp hadvt).resolve_left not_mem_nil)
  cases hfound : executor.executionBackends.rows.find?
      (fun route => route.capability.satisfies target) with
  | none =>
    have hmiss := List.find?_eq_none.mp hfound placed.route
      (hrows.mpr ⟨placed, hplacedMem, rfl⟩)
    exact absurd hsatisfied hmiss
  | some route =>
    obtain ⟨config, hconfig, rfl⟩ := hrows.mp (mem_of_find?_eq_some hfound)
    have hmatch : config.route.capability.satisfies target = true :=
      @List.find?_some _ (fun route : ExecutionBackendRoute => route.capability.satisfies target)
        _ _ hfound
    have hsels : executor.selectBackend template.policy.runtime =
        .ok ⟨some ⟨config.provider, target⟩, some config.environmentIdentity,
          config.route.factoryEnforcement⟩ := by
      rw [hruntime]
      simp only [JobExecutor.selectBackend, hfound]
      rfl
    have hserves : SelectedBackend.Runs inventory snapshot template target
          ⟨some ⟨config.provider, target⟩, some config.environmentIdentity,
            config.route.factoryEnforcement⟩ config.capability ↔
        config.Serves snapshot template :=
      runs_iff_serves hasm hnodup hexecs hfact hconfig hmatch
    -- A route of the executor belongs to one configuration only.
    have huniq : ∀ other ∈ configs, other.route = config.route → other = config :=
      fun other hother hsame => inj_on_of_nodup_map hnodup hother hconfig
        (congrArg ExecutionBackendRoute.provider hsame)
    have hfirst := Table.first_match_iff hfound
      (q := fun route => ∃ other ∈ configs, other.route = route ∧ other.Serves snapshot template)
    constructor
    · rintro ⟨selected, execution, hsel, hruns⟩
      rw [hsels] at hsel
      cases hsel
      have hexec : execution = config.capability := by
        have hother := hruns.advertised
        rw [hexecs, (addExecutions_eq_ok hasm).2.1] at hother
        obtain ⟨other, hmem, rfl⟩ := mem_map.mp
          ((mem_append.mp hother).resolve_left not_mem_nil)
        have hprovider : config.provider = other.provider :=
          congrArg ExecutionEvidence.provider (Option.some.inj hruns.evidence)
        rw [inj_on_of_nodup_map hnodup hmem hconfig hprovider.symm]
      subst hexec
      have hall := hfirst.mp ⟨config, hconfig, rfl, hserves.mp hruns⟩
      intro bad hbad hbadMatch hbadLacks
      obtain ⟨good, hgood, hgoodMatch, ⟨other, hother, rfl, hotherServes⟩, hlt⟩ :=
        hall bad.route (hrows.mpr ⟨bad, hbad, rfl⟩) hbadMatch (by
          rintro ⟨other, hother, hsame, hotherServes⟩
          have : other = bad := inj_on_of_nodup_map hnodup hother hbad
            (congrArg ExecutionBackendRoute.provider hsame)
          exact hbadLacks (this ▸ hotherServes))
      exact ⟨other, hother, hgoodMatch, hotherServes, hlt⟩
    · intro hall
      obtain ⟨other, hother, hsame, hotherServes⟩ := hfirst.mpr (by
        intro route hmem hrouteMatch hlacks
        obtain ⟨bad, hbad, rfl⟩ := hrows.mp hmem
        obtain ⟨good, hgood, hgoodMatch, hgoodServes, hlt⟩ :=
          hall bad hbad hrouteMatch fun hserves => hlacks ⟨bad, hbad, rfl, hserves⟩
        exact ⟨good.route, hrows.mpr ⟨good, hgood, rfl⟩, hgoodMatch,
          ⟨good, hgood, rfl, hgoodServes⟩, hlt⟩)
      rw [huniq other hother hsame] at hotherServes
      exact ⟨_, _, hsels, hserves.mpr hotherServes⟩

end

/-! ## A route that is placed on and one that is run -/

def samplePlatform : PlatformSpec := ⟨.macos, .arm64⟩

def sampleCapability (provider : String) : ExecutionCapability :=
  { provider := ⟨provider⟩, mode := .isolation, hostPlatform := samplePlatform
    targetPlatform := samplePlatform, guarantees := guaranteesFor .isolation
    immutableImages := true }

/-- An isolation provider without any Factory control, as composition adds it. -/
def appleVfRoute : ExecutionRouteConfig :=
  ⟨sampleCapability "apple-vf-isolation", "apple-vf", none, false, false⟩

/-- An isolation provider with every Factory control. -/
def containerdRoute : ExecutionRouteConfig :=
  ⟨sampleCapability "containerd", "linux-vm", some allEnforcement, false, false⟩

def sampleTarget : ExecutionTarget :=
  { mode := .isolation, hostPlatform := samplePlatform, targetPlatform := samplePlatform
    requiredGuarantees := guaranteesFor .isolation
    immutableImage := some ("registry.test/runner@sha256:" ++
      "0123456789abcdef0123456789abcdef0123456789abcdef0123456789abcdef") }

def sampleTemplate : JobSpecTemplate :=
  { sourceFree := true
    execution := .managed ⟨none, none, allEnforcement⟩
    policy :=
      { source := ⟨"git", "1.0.0", "00"⟩
        octa := ⟨"1.0.0", "00", 3, 4, 5, Table.empty⟩
        runtime := .current sampleTarget
        cache := false } }

def sampleRequirements : JobRequirements :=
  { capabilities := ∅, labels := Table.empty, minimumCpuMillis := 1000
    minimumMemoryBytes := 1024, minimumDiskBytes := 1024, runtimeClass := .isolation
    operatingSystem := .macos, architecture := .arm64, hostPlatform := some samplePlatform
    requiredGuarantees := guaranteesFor .isolation }

def sampleAssembly (configs : List ExecutionRouteConfig) : BackendAssembly :=
  { routes := configs.map (·.route)
    executions := configs.map (·.capability)
    factoryExecutions := configs.filterMap (·.factoryExecution)
    health := configs.map fun config => readyExecution config.capability }

def sampleInventory (configs : List ExecutionRouteConfig) : AgentInventory :=
  { executionContract := ⟨1, 4⟩, labels := Table.empty, hostPlatform := samplePlatform
    runtimes := [], executions := (sampleAssembly configs).executions
    factoryExecutions := (sampleAssembly configs).factoryExecutions
    octa := ⟨"1.0.0", "00", [3], [4], [5], [], []⟩
    sourcePlugins := [], cache := none }

def sampleSnapshot (configs : List ExecutionRouteConfig) : HostSnapshot :=
  ⟨2000, 4096, 4096, (sampleAssembly configs).health⟩

/-- With every route healthy, the Job is placed for the sake of `containerd`, is run on
    `apple-vf-isolation`, and is refused there. -/
theorem placed_on_unenforcing_route : ∃ executor,
      BackendAssembly.default.addExecutions [appleVfRoute, containerdRoute] =
          .ok (sampleAssembly [appleVfRoute, containerdRoute]) ∧
        JobExecutor.withExecutionBackends []
            (sampleAssembly [appleVfRoute, containerdRoute]).routes = .ok executor ∧
        isCompatibleWithContract (sampleInventory [appleVfRoute, containerdRoute])
            (sampleSnapshot [appleVfRoute, containerdRoute]) sampleRequirements 1 sampleTemplate
            4 = true ∧
        ∃ selected, executor.selectBackend sampleTemplate.policy.runtime = .ok selected ∧
          FactoryAdmission.authorize ⟨[], allEnforcement, selected.factoryEnforcement, []⟩ =
            .error .backendCapability := by
  refine ⟨⟨[], ⟨[appleVfRoute.route, containerdRoute.route], by decide +kernel⟩⟩, rfl, rfl,
    by decide +kernel, _, rfl, ?_⟩
  rw [FactoryAdmission.authorize_backend]
  exact ⟨rfl, .pluginIdentity, by decide, by decide⟩

/-- A second provider of the same target without controls, behind `containerd`. -/
def kataRoute : ExecutionRouteConfig := ⟨sampleCapability "kata", "kata-vm", none, false, false⟩

/-- With the uncontrolled route second in provider order, the Job runs on the controlled one. -/
theorem placed_runs_iff_containerd : ∃ executor : JobExecutor,
      ∃ selected execution, executor.selectBackend sampleTemplate.policy.runtime = .ok selected ∧
        selected.Runs (sampleInventory [kataRoute, containerdRoute])
          (sampleSnapshot [kataRoute, containerdRoute]) sampleTemplate sampleTarget execution := by
  have hplace : isCompatibleWithContract (sampleInventory [kataRoute, containerdRoute])
      (sampleSnapshot [kataRoute, containerdRoute]) sampleRequirements 1 sampleTemplate 4 =
        true := by
    decide +kernel
  have hserves : containerdRoute.Serves (sampleSnapshot [kataRoute, containerdRoute])
      sampleTemplate := by
    refine ⟨fun _ hreq => hreq, nofun, nofun, ?_⟩
    rintro ⟨health, hhealth, -, hstatus⟩
    simp only [sampleSnapshot, sampleAssembly, map_cons, map_nil, mem_cons,
      not_mem_nil, or_false] at hhealth
    rcases hhealth with rfl | rfl <;> cases hstatus
  have hasm : BackendAssembly.default.addExecutions [kataRoute, containerdRoute] =
      .ok (sampleAssembly [kataRoute, containerdRoute]) := rfl
  refine ⟨⟨[], ⟨[containerdRoute.route, kataRoute.route], by decide +kernel⟩⟩,
    (placed_runs_iff rfl hasm rfl rfl rfl hplace).mpr ?_⟩
  intro config hconfig _ hlacks
  rcases mem_pair.mp hconfig with rfl | rfl
  · exact ⟨containerdRoute, by simp, by decide +kernel, hserves, by decide +kernel⟩
  · exact absurd hserves hlacks

end OctaCity.Placement
