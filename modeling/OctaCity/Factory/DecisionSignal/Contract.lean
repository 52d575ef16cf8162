/-
  OctaCity.Factory.DecisionSignal.Contract

  Provider requests and the results bound to them (octacity-server-factory,
  `decision_signal/contract.rs`, the request of `execution.rs` and the profile
  of `configuration.rs`).
-/
import OctaCity.Factory.DecisionSignal.Question

namespace OctaCity.Factory

open Lib

/-- Configured authority of a signal relative to deterministic policy. -/
inductive DecisionSignalMode
  | shadow
  | advisory
  | boundedControl

def DecisionSignalMode.asStr : DecisionSignalMode → String
  | .shadow => "shadow"
  | .advisory => "advisory"
  | .boundedControl => "bounded_control"

/-- Fail-closed disposition of an unusable signal. -/
inductive DecisionSignalFallback
  | deny
  | escalate

def DecisionSignalFallback.asStr : DecisionSignalFallback → String
  | .deny => "deny"
  | .escalate => "escalate"

/-- Terminal classification of one request. -/
inductive DecisionSignalState
  | completed
  | timedOut
  | invalid
  | unavailable
  | cancelled
  deriving DecidableEq

def DecisionSignalState.asStr : DecisionSignalState → String
  | .completed => "completed"
  | .timedOut => "timed_out"
  | .invalid => "invalid"
  | .unavailable => "unavailable"
  | .cancelled => "cancelled"

/-- Provider-neutral request for one bounded, non-authoritative signal. -/
structure DecisionSignalRequest where
  id : DecisionSignalRequestId
  nodeAttemptId : NodeAttemptId
  frozenInputDigest : FactoryDigest
  runId : FactoryRunId
  subject : WorkSubject
  purpose : DecisionSignalPurpose
  inputDigest : FactoryDigest
  policyDigest : FactoryDigest
  budget : BudgetLimit

/-- Immutable purpose-specific signal selection. -/
structure DecisionSignalProfile where
  purpose : DecisionSignalPurpose
  provider : ImmutableReference
  adapter : ImmutableReference
  model : ImmutableReference
  questionSet : ImmutableReference
  policy : ImmutableReference
  mode : DecisionSignalMode
  fallback : DecisionSignalFallback
  budget : BudgetLimit
  routes : Option DecisionSignalRouteSet

/-- Bounded request limits of one exact provider and model. -/
structure DecisionSignalProviderLimits where
  maxInputBytes : Nat
  maxQuestions : Nat
  maxChoices : Nat

/-- Exact capability advertised by one provider adapter and model pair. -/
structure DecisionSignalProviderCapability where
  provider : ImmutableReference
  adapter : ImmutableReference
  model : ImmutableReference
  probabilitySemantics : ImmutableReference
  dataHandling : ImmutableReference
  supportedPurposes : List DecisionSignalPurpose
  supportedInputMedia : List DecisionSignalInputMedia
  supportedQuestionKinds : List DecisionSignalQuestionKind
  limits : DecisionSignalProviderLimits
  budgetCeiling : BudgetLimit

/-- Purpose-specific calibrated threshold. -/
structure DecisionSignalThreshold where
  purpose : DecisionSignalPurpose
  probabilitySemantics : ImmutableReference
  calibration : ImmutableReference
  minimumProbability : DecisionSignalProbability
  minimumMargin : DecisionSignalProbability
  profileQualification : Option FactoryDigest

def DecisionSignalThreshold.accepts (threshold : DecisionSignalThreshold)
    (selected runnerUp : DecisionSignalProbability) : Bool :=
  threshold.minimumProbability.partsPerMillion ≤ selected.partsPerMillion &&
    threshold.minimumMargin.partsPerMillion ≤ selected.partsPerMillion - runnerUp.partsPerMillion

/-- Canonical provider-neutral request sent through the signal seam. -/
structure DecisionSignalProviderRequest where
  request : DecisionSignalRequest
  provider : ImmutableReference
  adapter : ImmutableReference
  model : ImmutableReference
  questionSet : ImmutableReference
  policy : ImmutableReference
  probabilitySemantics : ImmutableReference
  dataHandling : ImmutableReference
  input : DecisionSignalProviderInput
  threshold : DecisionSignalThreshold
  mode : DecisionSignalMode
  fallback : DecisionSignalFallback
  deadline : Timestamp
  digest : FactoryDigest

/-! ## Digests -/

def digestBytes (digest : FactoryDigest) : List UInt8 := bigEndian 32 digest.value

def encodeReferenceText (reference : ImmutableReference) : List UInt8 :=
  separated (referenceTexts reference)

def encodeBudgetLimit (limit : BudgetLimit) : List UInt8 :=
  separated [toString limit.maxAttempts, toString limit.maxElapsedMillis, toString limit.maxTokens,
    toString limit.maxCostMicroUnits, toString limit.maxOutputBytes]

/-- `Display` of a cost. -/
def BudgetCost.toText (cost : BudgetCost) : String :=
  if cost.unpriced then "unknown(known_micro_units=" ++ toString cost.knownMicroUnits ++ ")"
  else toString cost.knownMicroUnits

def encodeUsage (usage : BudgetUsage) : List UInt8 :=
  separated [toString usage.attempts, toString usage.elapsedMillis, toString usage.tokens,
    usage.costMicroUnits.toText, toString usage.outputBytes]

def encodeThreshold (threshold : DecisionSignalThreshold) : List UInt8 :=
  separated ([toString threshold.minimumProbability.partsPerMillion,
    toString threshold.minimumMargin.partsPerMillion] ++
      (threshold.profileQualification.map FactoryDigest.toText).toList)

/-- An `i64` in two's complement. -/
def encodeMillis (timestamp : Timestamp) : List UInt8 :=
  bigEndian 8 (timestamp.unixMillis % 2 ^ 64).toNat

section

variable (library : SignalLibrary)

def profileQualificationDigest (provider adapter model questions policy : ImmutableReference)
    (input : DecisionSignalProviderInput) (threshold : DecisionSignalThreshold) : FactoryDigest :=
  library.sha256 "octacity.decision-signal.profile-qualification.v1"
    [encodeReferenceText provider, encodeReferenceText adapter, encodeReferenceText model,
      encodeReferenceText questions, encodeReferenceText policy,
      library.criteriaBytes
        { questions := input.questions, consumingQuestion := input.consumingQuestion
          purpose := threshold.purpose, probabilitySemantics := threshold.probabilitySemantics
          calibration := threshold.calibration
          minimumProbability := threshold.minimumProbability
          minimumMargin := threshold.minimumMargin }]

def digestProviderRequest (request : DecisionSignalProviderRequest) : FactoryDigest :=
  library.sha256 "octacity.decision-signal.request.v2"
    [bigEndian 16 request.request.id.uuid, bigEndian 16 request.request.nodeAttemptId.uuid,
      digestBytes request.request.frozenInputDigest, bigEndian 16 request.request.runId.uuid,
      utf8Bytes request.request.purpose.asStr, digestBytes request.input.digest,
      digestBytes request.request.policyDigest, encodeReferenceText request.provider,
      encodeReferenceText request.adapter, encodeReferenceText request.model,
      encodeReferenceText request.questionSet, encodeReferenceText request.policy,
      encodeReferenceText request.probabilitySemantics, encodeReferenceText request.dataHandling,
      encodeReferenceText request.threshold.calibration, encodeBudgetLimit request.request.budget,
      encodeThreshold request.threshold, utf8Bytes request.mode.asStr,
      utf8Bytes request.fallback.asStr, encodeMillis request.deadline]

/-- Revalidates request, input and policy digests after restoration. -/
def DecisionSignalProviderRequest.validateIntegrity (request : DecisionSignalProviderRequest) :
    Except DecisionSignalError Unit :=
  if request.request.inputDigest ≠ request.input.digest ∨
      request.request.policyDigest ≠ request.policy.digest ∨
      (request.request.purpose = .profileSelection ∧ request.threshold.profileQualification ≠
        some (profileQualificationDigest library request.provider request.adapter request.model
          request.questionSet request.policy request.input request.threshold)) ∨
      request.digest ≠ digestProviderRequest library request then
    .error (.invalidDecisionSignal "provider request integrity")
  else .ok ()

end

/-! ## Requests -/

def routingInputMatchesProfile (purpose : DecisionSignalPurpose)
    (routes : Option DecisionSignalRouteSet) (input : DecisionSignalProviderInput) : Bool :=
  match purpose, routes, input.routingState with
  | .routing, some routes, some state =>
    routes.state = state && input.choices = some routes.choices
  | .toolRisk, none, none | .profileSelection, none, none => true
  | _, _, _ => false

def DecisionSignalQuestion.choiceCount (question : DecisionSignalQuestion) : Nat :=
  match question.domain with
  | .finiteChoice choices => choices.choices.length
  | .boundedScore _ => 0

/-- Constructs a request only when profile and capability agree exactly. -/
def DecisionSignalProviderRequest.new (library : SignalLibrary) (request : DecisionSignalRequest)
    (profile : DecisionSignalProfile) (capability : DecisionSignalProviderCapability)
    (input : DecisionSignalProviderInput) (threshold : DecisionSignalThreshold)
    (deadline : Timestamp) : Except DecisionSignalError DecisionSignalProviderRequest :=
  if request.purpose ≠ profile.purpose ∨
      request.purpose ∉ capability.supportedPurposes ∨
      profile.provider ≠ capability.provider ∨
      profile.adapter ≠ capability.adapter ∨
      profile.model ≠ capability.model ∨
      request.inputDigest ≠ input.digest ∨
      request.policyDigest ≠ profile.policy.digest ∨
      routingInputMatchesProfile request.purpose profile.routes input = false ∨
      threshold.purpose ≠ request.purpose ∨
      threshold.probabilitySemantics ≠ capability.probabilitySemantics ∨
      input.media ∉ capability.supportedInputMedia ∨
      (∃ question ∈ input.questions,
        question.domain.kind ∉ capability.supportedQuestionKinds) ∨
      capability.limits.maxInputBytes < min input.stateDocument.value.utf8ByteSize (2 ^ 32 - 1) ∨
      capability.limits.maxQuestions < min input.questions.length (2 ^ 16 - 1) ∨
      (∃ question ∈ input.questions, question.isFinite ∧
        capability.limits.maxChoices < min question.choiceCount (2 ^ 16 - 1)) ∨
      request.budget.fitsWithin profile.budget = false ∨
      profile.budget.fitsWithin capability.budgetCeiling = false ∨
      request.budget.fitsWithin capability.budgetCeiling = false then
    .error (.invalidDecisionSignal "provider request capability")
  else do
    let unsealed : DecisionSignalProviderRequest :=
      { request, input, threshold, deadline
        provider := capability.provider, adapter := capability.adapter
        model := capability.model, questionSet := profile.questionSet, policy := profile.policy
        probabilitySemantics := capability.probabilitySemantics
        dataHandling := capability.dataHandling
        mode := profile.mode, fallback := profile.fallback, digest := ⟨0⟩ }
    let sealed := { unsealed with digest := digestProviderRequest library unsealed }
    sealed.validateIntegrity library
    .ok sealed

theorem DecisionSignalProviderRequest.new_integrity {library : SignalLibrary}
    {request : DecisionSignalRequest} {profile : DecisionSignalProfile}
    {capability : DecisionSignalProviderCapability} {input : DecisionSignalProviderInput}
    {threshold : DecisionSignalThreshold} {deadline : Timestamp}
    {accepted : DecisionSignalProviderRequest}
    (h : new library request profile capability input threshold deadline = .ok accepted) :
    accepted.validateIntegrity library = .ok () := by
  unfold new at h
  split at h
  · cases h
  · obtain ⟨_, hvalid, h⟩ := bind_eq_ok.mp h
    cases h
    exact hvalid

/-! ## Results -/

/-- Typed value returned for one exact versioned question. -/
inductive DecisionSignalAnswerValue
  | finiteChoice (selected : FactoryKey)
      (selectedProbability runnerUpProbability : DecisionSignalProbability)
  | boundedScore (score : Int) (confidence : DecisionSignalProbability)

/-- One provider answer bound to the exact question definition. -/
structure DecisionSignalAnswer where
  question : ImmutableReference
  value : DecisionSignalAnswerValue

/-- Schema-valid typed result returned by a provider adapter. -/
structure DecisionSignalProviderResult where
  requestId : DecisionSignalRequestId
  provider : ImmutableReference
  adapter : ImmutableReference
  model : ImmutableReference
  probabilitySemantics : ImmutableReference
  answers : List DecisionSignalAnswer
  usage : BudgetUsage
  resultDigest : FactoryDigest

def encodeAnswer (answer : DecisionSignalAnswer) : List UInt8 :=
  separated (referenceTexts answer.question ++
    match answer.value with
    | .finiteChoice selected selectedProbability runnerUpProbability =>
      ["choice", selected.value, toString selectedProbability.partsPerMillion,
        toString runnerUpProbability.partsPerMillion]
    | .boundedScore score confidence =>
      ["score", toString score, toString confidence.partsPerMillion])

def digestProviderResult (library : SignalLibrary) (requestId : DecisionSignalRequestId)
    (provider adapter model semantics : ImmutableReference) (answers : List DecisionSignalAnswer)
    (usage : BudgetUsage) : FactoryDigest :=
  library.sha256 "octacity.decision-signal.result.v1"
    ([bigEndian 16 requestId.uuid, encodeReferenceText provider, encodeReferenceText adapter,
      encodeReferenceText model, encodeReferenceText semantics, encodeUsage usage] ++
        answers.map encodeAnswer)

/-- Constructs a structurally valid result. -/
def DecisionSignalProviderResult.new (library : SignalLibrary)
    (requestId : DecisionSignalRequestId)
    (provider adapter model probabilitySemantics : ImmutableReference)
    (answers : List DecisionSignalAnswer) (usage : BudgetUsage) :
    Except DecisionSignalError DecisionSignalProviderResult :=
  if answers = [] ∨ maxDecisionSignalQuestions < answers.length then
    .error (.invalidDecisionSignal "provider answers")
  else if ¬(answers.map (·.question.identity)).Nodup then
    .error (.invalidDecisionSignal "provider answers")
  else
    .ok
      { requestId, provider, adapter, model, probabilitySemantics, answers, usage
        resultDigest := digestProviderResult library requestId provider adapter model
          probabilitySemantics answers usage }

def answerMatchesQuestion (answer : DecisionSignalAnswer) (question : DecisionSignalQuestion) :
    Bool :=
  answer.question = question.reference &&
    match answer.value, question.domain with
    | .finiteChoice selected selectedProbability runnerUpProbability, .finiteChoice choices =>
      choices.contains selected &&
        runnerUpProbability.partsPerMillion ≤ selectedProbability.partsPerMillion
    | .boundedScore score _, .boundedScore domain => domain.contains score
    | _, _ => false

def answersMatchQuestions (answers : List DecisionSignalAnswer)
    (questions : List DecisionSignalQuestion) : Bool :=
  answers.length = questions.length &&
    (answers.zip questions).all fun (answer, question) => answerMatchesQuestion answer question

namespace DecisionSignalProviderResult

/-- Measured usage belongs to this exact operation, whatever the answers are. -/
def hasMeasuredUsageFor (result : DecisionSignalProviderResult)
    (request : DecisionSignalProviderRequest) : Bool :=
  result.requestId = request.request.id && result.provider = request.provider &&
    result.adapter = request.adapter && result.model = request.model &&
    result.probabilitySemantics = request.probabilitySemantics &&
    (result.usage.validate request.request.budget).isOk

def isValidFor (result : DecisionSignalProviderResult)
    (request : DecisionSignalProviderRequest) : Bool :=
  result.hasMeasuredUsageFor request && answersMatchQuestions result.answers request.input.questions

/-- The answer to the consuming question, with both probabilities. -/
def consumingChoice (result : DecisionSignalProviderResult)
    (request : DecisionSignalProviderRequest) :
    Option (FactoryKey × DecisionSignalProbability × DecisionSignalProbability) :=
  result.answers.findSome? fun answer =>
    if answer.question.identity ≠ request.input.consumingQuestion then none
    else match answer.value with
      | .finiteChoice selected selectedProbability runnerUpProbability =>
        some (selected, selectedProbability, runnerUpProbability)
      | .boundedScore _ _ => none

end DecisionSignalProviderResult

/-- Secret-safe terminal provider failure bound to one request and model. -/
structure DecisionSignalProviderFailure where
  requestId : DecisionSignalRequestId
  provider : ImmutableReference
  adapter : ImmutableReference
  model : ImmutableReference
  state : DecisionSignalState
  usage : Option BudgetUsage

def DecisionSignalProviderFailure.isValidFor (failure : DecisionSignalProviderFailure)
    (request : DecisionSignalProviderRequest) : Bool :=
  failure.requestId = request.request.id && failure.provider = request.provider &&
    failure.adapter = request.adapter && failure.model = request.model &&
    failure.usage.any fun usage => (usage.validate request.request.budget).isOk

/-- Provider observation accepted by the consumption policy. -/
inductive DecisionSignalProviderObservation
  | result (result : DecisionSignalProviderResult)
  | failure (failure : DecisionSignalProviderFailure)

def DecisionSignalProviderObservation.isValidFor (request : DecisionSignalProviderRequest) :
    DecisionSignalProviderObservation → Bool
  | .result observed => observed.isValidFor request
  | .failure observed => observed.isValidFor request

end OctaCity.Factory
