/-
  OctaCity.Factory.DecisionSignal.Consumption

  Deterministic consumption of signals and the receipts it leaves
  (octacity-server-factory, `decision_signal/consumption.rs`).

  Main result: `consumed_validateIntegrity`, a receipt that one of the three
  consumers made passes its own check.
-/
import OctaCity.Factory.DecisionSignal.Contract

namespace OctaCity.Factory

open Lib

/-- Deterministic disposition after consuming a non-authoritative signal. -/
inductive DecisionSignalDisposition
  | route (route : FactoryKey)
  | profile (candidate : FactoryKey)
  | allow
  | deny
  | escalate

inductive DecisionSignalConsumptionKind
  | shadow
  | advisory
  | boundedControl
  | fallback

def DecisionSignalConsumptionKind.asStr : DecisionSignalConsumptionKind → String
  | .shadow => "shadow"
  | .advisory => "advisory"
  | .boundedControl => "bounded_control"
  | .fallback => "fallback"

/-- Immutable deterministic outcome of consuming one observation. -/
structure DecisionSignalConsumption where
  baseline : DecisionSignalDisposition
  recommendation : Option DecisionSignalDisposition
  finalDisposition : DecisionSignalDisposition
  kind : DecisionSignalConsumptionKind

/-- Mapping from finite answers to authority-narrowing tool dispositions. -/
structure ToolRiskChoiceMapping where
  choices : DecisionSignalChoices
  dispositions : List (FactoryKey × DecisionSignalDisposition)

def ToolRiskChoiceMapping.disposition (mapping : ToolRiskChoiceMapping) (choice : FactoryKey) :
    Option DecisionSignalDisposition :=
  mapping.dispositions.lookup choice

/-- Binds a provider observation to its consuming disposition. -/
structure DecisionSignalReceipt where
  id : DecisionSignalReceiptId
  request : DecisionSignalProviderRequest
  state : DecisionSignalState
  usage : BudgetUsage
  result : Option DecisionSignalProviderResult
  consumption : DecisionSignalConsumption
  receiptDigest : FactoryDigest

/-! ## Digests -/

def dispositionTexts : DecisionSignalDisposition → List String
  | .route route => ["route", route.value]
  | .profile candidate => ["profile", candidate.value]
  | .allow => ["allow"]
  | .deny => ["deny"]
  | .escalate => ["escalate"]

def encodeConsumption (consumption : DecisionSignalConsumption) : List UInt8 :=
  separated (dispositionTexts consumption.baseline ++
    (consumption.recommendation.elim [""] dispositionTexts) ++
    dispositionTexts consumption.finalDisposition ++ [consumption.kind.asStr])

section

variable (library : SignalLibrary)

def digestReceipt (id : DecisionSignalReceiptId) (request : DecisionSignalProviderRequest)
    (state : DecisionSignalState) (usage : BudgetUsage)
    (result : Option DecisionSignalProviderResult) (consumption : DecisionSignalConsumption) :
    FactoryDigest :=
  library.sha256 "octacity.decision-signal.receipt.v1"
    [bigEndian 16 id.uuid, digestBytes request.digest, utf8Bytes state.asStr, encodeUsage usage,
      result.elim (List.replicate 32 0) fun result => digestBytes result.resultDigest,
      encodeConsumption consumption]

/-- Revalidates the restored receipt and its embedded request. -/
def DecisionSignalReceipt.validateIntegrity (receipt : DecisionSignalReceipt) :
    Except DecisionSignalError Unit := do
  receipt.request.validateIntegrity library
  let resultIsValid : Bool := match receipt.result with
    | some result =>
      receipt.state = .completed && receipt.usage = result.usage && result.isValidFor receipt.request
    | none => receipt.state ≠ .completed
  if resultIsValid = false ∨ receipt.receiptDigest ≠ digestReceipt library receipt.id
      receipt.request receipt.state receipt.usage receipt.result receipt.consumption then
    .error (.invalidDecisionSignal "receipt integrity")
  else .ok ()

/-! ## Consumption -/

structure NormalizedObservation where
  state : DecisionSignalState
  usage : BudgetUsage
  result : Option DecisionSignalProviderResult

def ensureObservedFailure : DecisionSignalProviderObservation → Except DecisionSignalError Unit
  | .failure observed =>
    if observed.usage = none then .error (.invalidDecisionSignal "unobserved provider outcome")
    else .ok ()
  | .result _ => .ok ()

def normalizeObservation (request : DecisionSignalProviderRequest) :
    DecisionSignalProviderObservation → NormalizedObservation
  | .result observed =>
    if observed.isValidFor request then ⟨.completed, observed.usage, some observed⟩
    else if request.request.purpose = .profileSelection ∧ observed.hasMeasuredUsageFor request then
      ⟨.invalid, observed.usage, none⟩
    else ⟨.invalid, {}, none⟩
  | .failure observed =>
    -- Unobserved failures are rejected before normalization.
    if observed.isValidFor request then ⟨observed.state, observed.usage.getD {}, none⟩
    else ⟨.invalid, {}, none⟩

def DecisionSignalFallback.disposition : DecisionSignalFallback → DecisionSignalDisposition
  | .deny => .deny
  | .escalate => .escalate

def buildReceipt (id : DecisionSignalReceiptId) (request : DecisionSignalProviderRequest)
    (observation : NormalizedObservation) (baseline : DecisionSignalDisposition)
    (recommendation : Option DecisionSignalDisposition) : DecisionSignalReceipt :=
  let (finalDisposition, kind) := match request.mode with
    | .shadow => (baseline, DecisionSignalConsumptionKind.shadow)
    | .advisory => (baseline, DecisionSignalConsumptionKind.advisory)
    | .boundedControl => match recommendation with
      | some disposition => (disposition, DecisionSignalConsumptionKind.boundedControl)
      | none => (request.fallback.disposition, DecisionSignalConsumptionKind.fallback)
  let consumption : DecisionSignalConsumption :=
    ⟨baseline, recommendation, finalDisposition, kind⟩
  { id, request, consumption
    state := observation.state, usage := observation.usage, result := observation.result
    receiptDigest := digestReceipt library id request observation.state observation.usage
      observation.result consumption }

/-- The consuming answer, where the threshold accepts its probabilities. -/
def acceptedChoice (request : DecisionSignalProviderRequest) (normalized : NormalizedObservation) :
    Option FactoryKey :=
  ((normalized.result.bind (·.consumingChoice request)).filter fun choice =>
    request.threshold.accepts choice.2.1 choice.2.2).map Prod.fst

def DecisionSignalProviderRequest.choices (request : DecisionSignalProviderRequest) :
    Except DecisionSignalError DecisionSignalChoices :=
  okOr request.input.choices .noFiniteConsumingQuestion

def consumeFiniteSignal (id : DecisionSignalReceiptId) (request : DecisionSignalProviderRequest)
    (observation : DecisionSignalProviderObservation) (baseline : FactoryKey)
    (purpose : DecisionSignalPurpose) (disposition : FactoryKey → DecisionSignalDisposition) :
    Except DecisionSignalError DecisionSignalReceipt :=
  if request.request.purpose ≠ purpose then .error (.invalidDecisionSignal "finite signal baseline")
  else do
    let choices ← request.choices
    if choices.contains baseline = false then .error (.invalidDecisionSignal "finite signal baseline")
    else do
      ensureObservedFailure observation
      let normalized := normalizeObservation request observation
      let recommendation := (acceptedChoice request normalized).map disposition
      .ok (buildReceipt library id request normalized (disposition baseline) recommendation)

/-- Consumes a routing signal without permitting an undeclared route. -/
def consumeRoutingSignal (id : DecisionSignalReceiptId) (request : DecisionSignalProviderRequest)
    (observation : DecisionSignalProviderObservation) (baselineRoute : FactoryKey) :
    Except DecisionSignalError DecisionSignalReceipt :=
  consumeFiniteSignal library id request observation baselineRoute .routing .route

/-- The result observed, where its usage was measured for the request. -/
def DecisionSignalProviderObservation.measuredFor (request : DecisionSignalProviderRequest) :
    DecisionSignalProviderObservation → Bool
  | .result observed => observed.hasMeasuredUsageFor request
  | .failure _ => false

/-- Consumes only a declared profile key. -/
def consumeProfileSelectionSignal (id : DecisionSignalReceiptId)
    (request : DecisionSignalProviderRequest) (observation : DecisionSignalProviderObservation)
    (baselineCandidate : FactoryKey) : Except DecisionSignalError DecisionSignalReceipt :=
  if observation.isValidFor request = false ∧ observation.measuredFor request = false then
    .error (.invalidDecisionSignal "unobserved profile outcome")
  else
    consumeFiniteSignal library id request observation baselineCandidate .profileSelection .profile

/-- Consumes a tool-risk signal of an already authorized action. -/
def consumeToolRiskSignal (id : DecisionSignalReceiptId) (request : DecisionSignalProviderRequest)
    (observation : DecisionSignalProviderObservation) (mapping : ToolRiskChoiceMapping) :
    Except DecisionSignalError DecisionSignalReceipt :=
  if request.request.purpose ≠ .toolRisk then .error (.invalidDecisionSignal "tool-risk purpose")
  else do
    let choices ← request.choices
    if mapping.choices ≠ choices then .error (.invalidDecisionSignal "tool-risk purpose")
    else do
      ensureObservedFailure observation
      let normalized := normalizeObservation request observation
      let recommendation := (acceptedChoice request normalized).bind mapping.disposition
      .ok (buildReceipt library id request normalized .allow recommendation)

/-! ## The check of a consumed receipt -/

/-- `DecisionSignalProviderFailure::new` refuses a failure that says it completed. -/
def DecisionSignalProviderObservation.Terminal : DecisionSignalProviderObservation → Prop
  | .result _ => True
  | .failure observed => observed.state ≠ .completed

/-- A receipt one of the three consumers made of an accepted request. -/
def Consumed (receipt : DecisionSignalReceipt) : Prop :=
  ∃ request profile capability input threshold deadline accepted id observation,
    DecisionSignalProviderRequest.new library request profile capability input threshold deadline =
      .ok accepted ∧
    observation.Terminal ∧
    ((∃ baseline, consumeRoutingSignal library id accepted observation baseline = .ok receipt) ∨
      (∃ baseline,
        consumeProfileSelectionSignal library id accepted observation baseline = .ok receipt) ∨
      ∃ mapping, consumeToolRiskSignal library id accepted observation mapping = .ok receipt)

/-- State, usage and result of an observation agree the way a receipt needs them. -/
def NormalizedObservation.Coherent (observation : NormalizedObservation)
    (request : DecisionSignalProviderRequest) : Prop :=
  match observation.result with
  | some result => observation.state = .completed ∧ observation.usage = result.usage ∧
      result.isValidFor request = true
  | none => observation.state ≠ .completed

variable {request : DecisionSignalProviderRequest}
  {observation : DecisionSignalProviderObservation} {id : DecisionSignalReceiptId}
  {receipt : DecisionSignalReceipt}

theorem normalizeObservation_coherent (hterm : ∀ observed, observation = .failure observed →
      observed.isValidFor request = true → observed.state ≠ .completed) :
    (normalizeObservation request observation).Coherent request := by
  cases observation with
  | result observed =>
    by_cases hvalid : observed.isValidFor request = true
    · simp [normalizeObservation, NormalizedObservation.Coherent, hvalid]
    · simp only [normalizeObservation, if_neg hvalid]
      split <;> simp [NormalizedObservation.Coherent]
  | failure observed =>
    by_cases hvalid : observed.isValidFor request = true
    · simp [normalizeObservation, NormalizedObservation.Coherent, hvalid,
        hterm observed rfl hvalid]
    · simp [normalizeObservation, NormalizedObservation.Coherent, hvalid]

variable {library}

theorem buildReceipt_validateIntegrity {observation : NormalizedObservation}
    (hreq : request.validateIntegrity library = .ok ()) (hcoh : observation.Coherent request)
    (baseline : DecisionSignalDisposition) (recommendation : Option DecisionSignalDisposition) :
    (buildReceipt library id request observation baseline recommendation).validateIntegrity library =
      .ok () := by
  obtain ⟨state, usage, result⟩ := observation
  refine bind_eq_ok.mpr ⟨(), hreq, ?_⟩
  cases result with
  | none =>
    have hstate : state ≠ .completed := hcoh
    simp [buildReceipt, hstate]
  | some result =>
    obtain ⟨rfl, rfl, hvalid⟩ : state = .completed ∧ usage = result.usage ∧
      result.isValidFor request = true := hcoh
    simp [buildReceipt, hvalid]

/-- A finite consumer that succeeds has built its receipt from a declared baseline. -/
theorem consumeFiniteSignal_eq_ok {baseline : FactoryKey} {purpose : DecisionSignalPurpose}
    {disposition : FactoryKey → DecisionSignalDisposition}
    (h : consumeFiniteSignal library id request observation baseline purpose disposition =
      .ok receipt) :
    (∃ choices, request.input.choices = some choices ∧ choices.contains baseline = true) ∧
      receipt = buildReceipt library id request (normalizeObservation request observation)
        (disposition baseline)
        ((acceptedChoice request (normalizeObservation request observation)).map disposition) := by
  unfold consumeFiniteSignal at h
  split at h
  · cases h
  · obtain ⟨choices, hchoices, h⟩ := bind_eq_ok.mp h
    split at h
    · cases h
    · rename_i hbaseline
      obtain ⟨_, _, h⟩ := bind_eq_ok.mp h
      exact ⟨⟨choices, okOr_eq_ok.mp hchoices, by simpa using hbaseline⟩, (Except.ok.inj h).symm⟩

theorem consumeToolRiskSignal_eq_ok {mapping : ToolRiskChoiceMapping}
    (h : consumeToolRiskSignal library id request observation mapping = .ok receipt) :
    (∃ choices, request.input.choices = some choices) ∧
      receipt = buildReceipt library id request (normalizeObservation request observation) .allow
        ((acceptedChoice request (normalizeObservation request observation)).bind
          mapping.disposition) := by
  unfold consumeToolRiskSignal at h
  split at h
  · cases h
  · obtain ⟨choices, hchoices, h⟩ := bind_eq_ok.mp h
    split at h
    · cases h
    · obtain ⟨_, _, h⟩ := bind_eq_ok.mp h
      exact ⟨⟨choices, okOr_eq_ok.mp hchoices⟩, (Except.ok.inj h).symm⟩

/-- Every consumed receipt passes its own check. -/
theorem consumed_validateIntegrity
    (hcons : Consumed library receipt) : receipt.validateIntegrity library = .ok () := by
  obtain ⟨request, profile, capability, input, threshold, deadline, accepted, id, observation,
    hacc, hterm, hconsumer⟩ := hcons
  have hbuilt : ∃ baseline recommendation, receipt = buildReceipt library id accepted
      (normalizeObservation accepted observation) baseline recommendation := by
    rcases hconsumer with ⟨baseline, h⟩ | ⟨baseline, h⟩ | ⟨mapping, h⟩
    · exact ⟨_, _, (consumeFiniteSignal_eq_ok h).2⟩
    · exact ⟨_, _, (consumeFiniteSignal_eq_ok (guard_eq_ok.mp h).2).2⟩
    · exact ⟨_, _, (consumeToolRiskSignal_eq_ok h).2⟩
  obtain ⟨baseline, recommendation, rfl⟩ := hbuilt
  exact buildReceipt_validateIntegrity (DecisionSignalProviderRequest.new_integrity hacc)
    (normalizeObservation_coherent fun _ heq _ => by rw [heq] at hterm; exact hterm)
    baseline recommendation

end

end OctaCity.Factory
