/-
  OctaCity.Placement.Composition

  The execution routes one Agent process composes.  Every provider is installed
  at most once and the two isolation engines exist on different hosts, so a
  target is satisfied by at most one route, and the route the scheduler placed
  the Job for is the one the Agent runs it on.
-/
import OctaCity.Placement.Selection

namespace OctaCity.Placement

open Lib List

/-! ## Configured providers -/

/-- Operator-selected isolation; each provider keeps its environment identity. -/
inductive IsolationProviderConfig
  | containerd (environmentIdentity : String)
  | appleVf (environmentIdentity : String)

inductive VirtualizationProviderConfig
  | microsandbox (environmentIdentity : String)

/-- The enabled runtimes that install execution routes; the legacy ones install none. -/
inductive ValidatedRuntimeConfig
  | host (environmentIdentity : String)
  | isolation (providers : List IsolationProviderConfig)
  | virtualization (providers : List VirtualizationProviderConfig)

/-- What composition finds where the Agent runs. -/
structure CompositionHost where
  platform : PlatformSpec
  controlledToolsInstalled : Bool
  /-- The installed guest agent is qualified for selected-source visibility. -/
  selectedSourceVisibility : Bool

inductive CompositionError
  | unavailable (message : String)
  | job (error : JobError)

def executionCapability (provider : String) (mode : ExecutionMode)
    (hostPlatform targetPlatform : PlatformSpec) : ExecutionCapability :=
  ⟨⟨provider⟩, mode, hostPlatform, targetPlatform, guaranteesFor mode, true⟩

section

variable (host : CompositionHost)

def hostRoute (environmentIdentity : String) : ExecutionRouteConfig :=
  ⟨⟨⟨"host"⟩, .host, host.platform, host.platform, guaranteesFor .host, false⟩,
    environmentIdentity, none, false, false⟩

/-- The engines are built for one operating system each; elsewhere their constructor fails. -/
def IsolationProviderConfig.route :
    IsolationProviderConfig → Except CompositionError ExecutionRouteConfig
  | .containerd environmentIdentity =>
    if host.platform.os ≠ .linux then
      .error (.unavailable
        "containerd process isolation is currently implemented only for Linux agents")
    else
      .ok ⟨executionCapability "containerd" .isolation host.platform host.platform,
        environmentIdentity, some allEnforcement, false, false⟩
  | .appleVf environmentIdentity =>
    if host.platform ≠ ⟨.macos, .arm64⟩ then
      .error (.unavailable "Apple VF isolation requires an Apple Silicon macOS agent")
    else
      .ok ⟨executionCapability "apple-vf-isolation" .isolation host.platform ⟨.linux, .arm64⟩,
        environmentIdentity, none, false, false⟩

def guestPlatform : PlatformSpec → Option PlatformSpec
  | ⟨.macos, .amd64⟩ => none
  | platform => some ⟨.linux, platform.architecture⟩

def VirtualizationProviderConfig.route :
    VirtualizationProviderConfig → Except CompositionError ExecutionRouteConfig
  | .microsandbox environmentIdentity =>
    match guestPlatform host.platform with
    | none => .error (.unavailable ("Microsandbox execution is unsupported on macos-x86_64; " ++
        "supported hosts are Linux x86_64/aarch64, macOS aarch64, and Windows x86_64/aarch64 with WHP"))
    | some guest =>
      .ok ⟨executionCapability "microsandbox" .virtualization host.platform guest,
        environmentIdentity,
        some (allEnforcement ++
          if host.selectedSourceVisibility then [.sourceVisibilityV1] else []),
        true, host.controlledToolsInstalled⟩

def BackendAssembly.addRoute (assembly : BackendAssembly)
    (route : Except CompositionError ExecutionRouteConfig) :
    Except CompositionError BackendAssembly := do
  let config ← route
  (assembly.addExecution config).mapError .job

def BackendAssembly.addRuntime (assembly : BackendAssembly) :
    ValidatedRuntimeConfig → Except CompositionError BackendAssembly
  | .host environmentIdentity => assembly.addRoute (.ok (hostRoute host environmentIdentity))
  | .isolation providers =>
    providers.foldlM (fun assembly provider => assembly.addRoute (provider.route host)) assembly
  | .virtualization providers =>
    providers.foldlM (fun assembly provider => assembly.addRoute (provider.route host)) assembly

/-- The executor and what the Agent advertises of it. -/
structure ExecutorAssembly where
  executor : JobExecutor
  executions : List ExecutionCapability
  factoryExecutions : List FactoryExecutionCapability

/-- `legacy` are the modes of the legacy backends. -/
def buildExecutor (legacy : List RuntimeMode) (runtimes : List ValidatedRuntimeConfig) :
    Except CompositionError ExecutorAssembly := do
  let assembly ← runtimes.foldlM (BackendAssembly.addRuntime host) .default
  let executor ← (JobExecutor.withExecutionBackends legacy assembly.routes).mapError .job
  .ok ⟨executor, assembly.executions, assembly.factoryExecutions⟩

end

/-- The inventory `Components::load` registers: `build_inventory` leaves both lists empty, and an
    Agent without local Factory permissions advertises no Factory entry. -/
def ExecutorAssembly.advertise (built : ExecutorAssembly) (factoryPermissions : Bool)
    (inventory : AgentInventory) : AgentInventory :=
  let factoryExecutions := if factoryPermissions then built.factoryExecutions else []
  { inventory with
    executions := built.executions
    factoryExecutions
    executionContract :=
      ⟨inventory.executionContract.min,
        if factoryExecutions.isEmpty then inventory.executionContract.max
        else executionContractV4⟩ }

/-- The check of `HostSnapshot::validate_shape` on the reported names. -/
def HostSnapshot.validateShape (snapshot : HostSnapshot) : Except String Unit :=
  if (snapshot.backends.map (·.backend)).Nodup then .ok ()
  else .error "backend health entries must not contain duplicates"

/-! ## One provider for each mode -/

/-- The provider composition installs on a host for one mode. -/
def modeProvider (platform : PlatformSpec) : ExecutionMode → ExecutionProviderId
  | .host => ⟨"host"⟩
  | .isolation => if platform.os = .linux then ⟨"containerd"⟩ else ⟨"apple-vf-isolation"⟩
  | .virtualization => ⟨"microsandbox"⟩

/-- The route belongs to the provider of its mode. -/
def ExecutionRouteConfig.OfMode (platform : PlatformSpec) (config : ExecutionRouteConfig) : Prop :=
  config.provider = modeProvider platform config.capability.mode

/-- The second assembly is the first with routes added, each of the provider of its mode. -/
def BackendAssembly.Installs (platform : PlatformSpec) (assembly assembly' : BackendAssembly) :
    Prop :=
  ∃ configs, assembly.addExecutions configs = .ok assembly' ∧
    ∀ config ∈ configs, config.OfMode platform

section

variable {host : CompositionHost} {config : ExecutionRouteConfig}
  {assembly assembly' assembly'' : BackendAssembly}

theorem IsolationProviderConfig.route_ofMode {provider : IsolationProviderConfig}
    (h : provider.route host = .ok config) : config.OfMode host.platform := by
  cases provider with
  | containerd environmentIdentity =>
    dsimp only [route] at h
    split at h
    · cases h
    · rename_i hlinux
      cases h
      exact (if_pos (not_not.mp hlinux)).symm
  | appleVf environmentIdentity =>
    dsimp only [route] at h
    split at h
    · cases h
    · rename_i hmac
      cases h
      have hother : host.platform.os ≠ .linux := by
        rw [not_not.mp hmac]
        decide
      exact (if_neg hother).symm

theorem VirtualizationProviderConfig.route_ofMode {provider : VirtualizationProviderConfig}
    (h : provider.route host = .ok config) : config.OfMode host.platform := by
  cases provider with
  | microsandbox environmentIdentity =>
    dsimp only [route] at h
    split at h
    · cases h
    · cases h
      rfl

namespace BackendAssembly

theorem Installs.trans (h : assembly.Installs host.platform assembly')
    (h' : assembly'.Installs host.platform assembly'') :
    assembly.Installs host.platform assembly'' := by
  obtain ⟨configs, hadded, hmodes⟩ := h
  obtain ⟨configs', hadded', hmodes'⟩ := h'
  refine ⟨configs ++ configs', ?_, ?_⟩
  · unfold addExecutions at hadded hadded' ⊢
    rw [foldlM_append, hadded]
    exact hadded'
  · intro config hconfig
    exact (mem_append.mp hconfig).elim (hmodes config) (hmodes' config)

theorem addRoute_installs {route : Except CompositionError ExecutionRouteConfig}
    (hroute : ∀ config, route = .ok config → config.OfMode host.platform)
    (h : assembly.addRoute route = .ok assembly') : assembly.Installs host.platform assembly' := by
  obtain ⟨config, hconfig, h⟩ := bind_eq_ok.mp h
  refine ⟨[config], ?_, by simpa using hroute config hconfig⟩
  unfold addExecutions
  rw [foldlM_cons, mapError_eq_ok.mp h]
  rfl

/-- What every step installs, the whole loop installs. -/
theorem foldlM_installs {α : Type} {step : BackendAssembly → α → Except CompositionError
    BackendAssembly} (hstep : ∀ {assembly assembly' a}, step assembly a = .ok assembly' →
      assembly.Installs host.platform assembly') {xs : List α}
    (h : xs.foldlM step assembly = .ok assembly') : assembly.Installs host.platform assembly' := by
  induction xs generalizing assembly with
  | nil =>
    cases h
    exact ⟨[], rfl, nofun⟩
  | cons a rest ih =>
    rw [foldlM_cons] at h
    obtain ⟨next, hnext, h⟩ := bind_eq_ok.mp h
    exact (hstep hnext).trans (ih h)

theorem addRuntime_installs {runtime : ValidatedRuntimeConfig}
    (h : assembly.addRuntime host runtime = .ok assembly') :
    assembly.Installs host.platform assembly' := by
  cases runtime with
  | host environmentIdentity =>
    refine addRoute_installs ?_ h
    intro config hconfig
    cases hconfig
    rfl
  | isolation providers =>
    exact foldlM_installs
      (fun hadded => addRoute_installs (fun _ => IsolationProviderConfig.route_ofMode) hadded) h
  | virtualization providers =>
    exact foldlM_installs
      (fun hadded => addRoute_installs (fun _ => VirtualizationProviderConfig.route_ofMode) hadded) h

end BackendAssembly

/-- Two routes of one mode are of one provider, and a provider has one route. -/
theorem eq_of_satisfies {configs : List ExecutionRouteConfig} {target : ExecutionTarget}
    (hnodup : (configs.map (·.provider)).Nodup)
    (hmodes : ∀ config ∈ configs, config.OfMode host.platform) {other : ExecutionRouteConfig}
    (hconfig : config ∈ configs) (hother : other ∈ configs)
    (hsat : config.capability.satisfies target = true)
    (hsat' : other.capability.satisfies target = true) : config = other := by
  have hmode : ∀ {capability : ExecutionCapability}, capability.satisfies target = true →
      capability.mode = target.mode := by
    intro capability h
    simp only [ExecutionCapability.satisfies, Bool.and_eq_true, decide_eq_true_eq] at h
    exact h.1.1.1.1.2
  apply inj_on_of_nodup_map hnodup hconfig hother
  rw [hmodes config hconfig, hmodes other hother, hmode hsat, hmode hsat']

end

/-! ## The placed Job runs -/

section

variable {host : CompositionHost} {legacy : List RuntimeMode}
  {runtimes : List ValidatedRuntimeConfig} {built : ExecutorAssembly} {inventory : AgentInventory}
  {snapshot : HostSnapshot} {template : JobSpecTemplate} {target : ExecutionTarget}

/-- With one satisfying route, that is the one the Agent selects. -/
theorem JobExecutor.selectBackend_of_unique {executor : JobExecutor}
    {route : ExecutionBackendRoute} (hroute : route ∈ executor.executionBackends.rows)
    (hsat : route.capability.satisfies target = true)
    (huniq : ∀ other ∈ executor.executionBackends.rows,
      other.capability.satisfies target = true → other = route) :
    executor.selectBackend (.current target) =
      .ok ⟨some ⟨route.provider, target⟩, some route.environment, route.factoryEnforcement⟩ := by
  cases hfound : executor.executionBackends.rows.find?
      (fun route => route.capability.satisfies target) with
  | none => exact absurd hsat (List.find?_eq_none.mp hfound route hroute)
  | some found =>
    have hfirst := huniq found (mem_of_find?_eq_some hfound)
      (@List.find?_some _ (fun route : ExecutionBackendRoute => route.capability.satisfies target)
        _ _ hfound)
    simp only [selectBackend, hfound, hfirst]
    rfl

/-- A distinctly named backend that is reported available is not reported unavailable. -/
theorem HostSnapshot.available_of_mem (hsnap : snapshot.validateShape = .ok ())
    {health : BackendHealth} (hhealth : health ∈ snapshot.backends)
    (hstatus : health.status ≠ .unavailable) {provider : ExecutionProviderId}
    (hprovider : health.backend = provider.asStr) : ¬snapshot.ReportsUnavailable provider := by
  rintro ⟨other, hother, hname, hunavailable⟩
  have hnodup : (snapshot.backends.map (·.backend)).Nodup := by
    unfold HostSnapshot.validateShape at hsnap
    split at hsnap
    · assumption
    · cases hsnap
  have hsame := inj_on_of_nodup_map hnodup hother hhealth (hname.trans hprovider.symm)
  exact hstatus (hsame ▸ hunavailable)

theorem JobSpecTemplate.managed_of_control (h : template.requiresFactoryWorkspaceAnchor = true ∨
    template.requiredToolControl.isSome = true) :
    ∃ required, template.requiredFactoryEnforcement = some required := by
  unfold requiresFactoryWorkspaceAnchor requiredToolControl at h
  unfold requiredFactoryEnforcement
  cases hexec : template.execution with
  | ordinary => simp [hexec] at h
  | managed managed => exact ⟨_, rfl⟩

/-- A selected backend that enforces what its advertised entry says runs what the matcher accepted
    the entry for. -/
theorem SelectedBackend.runs_of_matches {selected : SelectedBackend}
    {execution : ExecutionCapability} (hadvt : execution ∈ inventory.executions)
    (hevid : selected.evidence = some ⟨execution.provider, target⟩)
    (hsat : execution.satisfies target = true)
    (hmatch : factoryEnforcementMatches inventory execution template.requiredFactoryEnforcement
      template.requiresFactoryWorkspaceAnchor template.requiredToolControl.isSome = true)
    (hcarries : ∀ entry ∈ inventory.factoryExecutions, entry.execution = execution →
      ∀ capability ∈ entry.enforcement, capability ∈ selected.factoryEnforcement)
    (havailable : ¬snapshot.ReportsUnavailable execution.provider) :
    selected.Runs inventory snapshot template target execution := by
  have hentry : ∀ required, template.requiredFactoryEnforcement = some required → _ :=
    fun required hreqd => factoryEnforcementMatches_entry (hreqd ▸ hmatch)
  have henf : ∀ capability ∈ template.requiredFactoryEnforcement.getD [],
      capability ∈ selected.factoryEnforcement := by
    intro capability hreq
    cases hreqd : template.requiredFactoryEnforcement with
    | none => simp [hreqd] at hreq
    | some required =>
      rw [hreqd] at hreq
      obtain ⟨entry, hlist, hexec, -, -, hall⟩ := hentry required hreqd
      exact hcarries entry hlist hexec capability (hall capability hreq)
  refine ⟨hadvt, hevid, hsat, henf, ?_, ?_, ?_, havailable⟩
  · intro admission hreqd hcaps hfails
    obtain ⟨-, capability, hreq, hmiss⟩ := FactoryAdmission.authorize_backend.mp hfails
    rw [hreqd] at hreq
    rw [hcaps] at hmiss
    exact hmiss (henf capability hreq)
  · intro hanch
    obtain ⟨required, hreqd⟩ := JobSpecTemplate.managed_of_control (.inl hanch)
    obtain ⟨entry, hlist, hexec, hcontrol, -⟩ := hentry required hreqd
    exact ⟨entry, hlist, hexec, hcontrol hanch⟩
  · intro htools
    obtain ⟨required, hreqd⟩ := JobSpecTemplate.managed_of_control (.inr htools)
    obtain ⟨entry, hlist, hexec, -, hcontrol, -⟩ := hentry required hreqd
    exact ⟨entry, hlist, hexec, hcontrol htools⟩

/-- The Job the scheduler places on a composed Agent runs on the route the Agent selects. -/
theorem composed_runs {requirements : JobRequirements} {factoryPermissions : Bool}
    {cacheActionKeyFormat executionContractVersion : Nat}
    (hbuilt : buildExecutor host legacy runtimes = .ok built)
    (hsnap : snapshot.validateShape = .ok ())
    (hruntime : template.policy.runtime = .current target)
    (hplace : isCompatibleWithContract (built.advertise factoryPermissions inventory) snapshot
      requirements cacheActionKeyFormat template executionContractVersion = true) :
    ∃ selected execution, built.executor.selectBackend template.policy.runtime = .ok selected ∧
      selected.Runs (built.advertise factoryPermissions inventory) snapshot template target
        execution := by
  obtain ⟨assembly, hadded, h⟩ := bind_eq_ok.mp hbuilt
  obtain ⟨executor, hexecutor, h⟩ := bind_eq_ok.mp h
  cases h
  rw [mapError_eq_ok] at hexecutor
  obtain ⟨configs, hasm, hmodes⟩ :=
    BackendAssembly.foldlM_installs BackendAssembly.addRuntime_installs hadded
  obtain ⟨-, hexecs, hents⟩ := BackendAssembly.addExecutions_eq_ok hasm
  have hnodup := providers_nodup hasm hexecutor
  have hrows : ∀ {route : ExecutionBackendRoute}, route ∈ executor.executionBackends.rows ↔
      ∃ config ∈ configs, config.route = route := mem_executionBackends hasm hexecutor
  obtain ⟨execution, hadvt, hsat, hmatch, health, hhealth, hname, -, hstatus⟩ :=
    isCompatibleWithContract_route hruntime hplace
  have hmem : execution ∈ configs.map (·.capability) := by
    have hlist : execution ∈ assembly.executions := hadvt
    simpa [hexecs, BackendAssembly.default] using hlist
  obtain ⟨placed, hplacedMem, rfl⟩ := mem_map.mp hmem
  -- No other configured route satisfies the target, so the Agent selects the placed one.
  have hsel := @JobExecutor.selectBackend_of_unique target executor placed.route
    (hrows.mpr ⟨placed, hplacedMem, rfl⟩) hsat (by
      intro other hother hotherSatisfies
      obtain ⟨config, hconfig, rfl⟩ := hrows.mp hother
      rw [eq_of_satisfies hnodup hmodes hconfig hplacedMem hotherSatisfies hsat])
  rw [hruntime]
  refine ⟨_, placed.capability, hsel, SelectedBackend.runs_of_matches hadvt rfl
    hsat hmatch ?_ (HostSnapshot.available_of_mem hsnap hhealth hstatus hname)⟩
  intro entry hlist hexec capability hcarried
  have hconfigured : entry ∈ configs.filterMap (·.factoryExecution) := by
    have hlist : entry ∈ if factoryPermissions then assembly.factoryExecutions else [] := hlist
    split at hlist
    · simpa [hents, BackendAssembly.default] using hlist
    · cases hlist
  obtain ⟨enforcement, hsome, rfl⟩ := Option.map_eq_some_iff.mp
    ((mem_factoryExecutions hnodup hplacedMem).mp ⟨hconfigured, hexec⟩)
  show capability ∈ (placed.factoryEnforcement.getD []).toFinset
  rw [hsome]
  exact mem_toFinset.mpr hcarried

end

/-! ## A host with a route of every mode -/

def linuxHost : CompositionHost := ⟨⟨.linux, .amd64⟩, true, true⟩

def linuxConfigs : List ExecutionRouteConfig :=
  [⟨executionCapability "containerd" .isolation ⟨.linux, .amd64⟩ ⟨.linux, .amd64⟩, "shared",
      some allEnforcement, false, false⟩,
    hostRoute linuxHost "bare",
    ⟨executionCapability "microsandbox" .virtualization ⟨.linux, .amd64⟩ ⟨.linux, .amd64⟩, "guest",
      some (allEnforcement ++ [.sourceVisibilityV1]), true, true⟩]

def linuxBuilt : ExecutorAssembly :=
  { executor := ⟨[], ⟨linuxConfigs.map (·.route), by decide +kernel⟩⟩
    executions := [1, 0, 2].filterMap fun i => linuxConfigs[i]?.map (·.capability)
    factoryExecutions := linuxConfigs.filterMap (·.factoryExecution) }

def guestTarget : ExecutionTarget :=
  { sampleTarget with
    mode := .virtualization
    hostPlatform := ⟨.linux, .amd64⟩
    targetPlatform := ⟨.linux, .amd64⟩
    requiredGuarantees := guaranteesFor .virtualization }

def guestTemplate : JobSpecTemplate :=
  { sampleTemplate with
    execution := .managed ⟨some ".", some ⟨"reader", "read"⟩, allEnforcement⟩
    policy :=
      { sampleTemplate.policy with
        octa := ⟨"1.0.0", "00", 3, 4, 5, ⟨[("reader", "11")], by decide⟩⟩
        runtime := .current guestTarget } }

def guestRequirements : JobRequirements :=
  { sampleRequirements with
    runtimeClass := .virtualization
    operatingSystem := .linux
    architecture := .amd64
    hostPlatform := some ⟨.linux, .amd64⟩
    requiredGuarantees := guaranteesFor .virtualization }

def linuxInventory : AgentInventory :=
  { sampleInventory [] with
    executionContract := ⟨1, 2⟩
    octa := ⟨"1.0.0", "00", [3], [4], [5], [], [⟨"reader", 5, ["linux-x86_64"], "11", ["read"]⟩]⟩ }

/-- The process route is reported as unavailable. -/
def linuxSnapshot : HostSnapshot :=
  ⟨2000, 4096, 4096, linuxConfigs.map fun config =>
    if config.provider = ⟨"containerd"⟩ then
      ⟨"containerd", some config.capability, .unavailable⟩
    else readyExecution config.capability⟩

/-- A Job with a workspace anchor and a controlled tool runs on the third route. -/
theorem composed_runs_microsandbox : ∃ selected execution,
      linuxBuilt.executor.selectBackend guestTemplate.policy.runtime = .ok selected ∧
        selected.Runs (linuxBuilt.advertise true linuxInventory) linuxSnapshot guestTemplate
          guestTarget execution :=
  @composed_runs linuxHost [] [.host "bare", .isolation [.containerd "shared"],
    .virtualization [.microsandbox "guest"]] linuxBuilt linuxInventory linuxSnapshot guestTemplate
    guestTarget guestRequirements true 1 4 rfl rfl rfl (by decide +kernel)

end OctaCity.Placement
