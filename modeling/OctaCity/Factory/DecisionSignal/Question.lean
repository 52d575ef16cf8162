/-
  OctaCity.Factory.DecisionSignal.Question

  Versioned questions and the bounded input a provider is shown
  (octacity-server-factory, `decision_signal/question.rs`).  An input carries
  the digest that was calculated when it was constructed.
-/
import OctaCity.Factory.Subject
import OctaCity.Factory.PermissionDigest
import OctaCity.Lib.Json

namespace OctaCity.Factory

open Lib

/-- Permitted non-authoritative Decision Signal seam. -/
inductive DecisionSignalPurpose
  | routing
  | toolRisk
  | profileSelection
  deriving DecidableEq

def DecisionSignalPurpose.asStr : DecisionSignalPurpose → String
  | .routing => "routing"
  | .toolRisk => "tool_risk"
  | .profileSelection => "profile_selection"

/-- The errors signal contracts raise. -/
inductive DecisionSignalError
  | invalidDecisionSignal (field : String)
  | collectionLimitExceeded (collection : String)
  | invalidText
  /-- The `expect` on the finite domain of the consuming question. -/
  | noFiniteConsumingQuestion

def maxDecisionSignalChoices : Nat := 32
def maxDecisionSignalQuestions : Nat := 32

/-- Probability in millionths. -/
structure DecisionSignalProbability where
  partsPerMillion : Nat

/-- Finite answer domain retained in request order. -/
structure DecisionSignalChoices where
  choices : List FactoryKey
  deriving DecidableEq

def DecisionSignalChoices.tryNew (choices : List FactoryKey) :
    Except DecisionSignalError DecisionSignalChoices :=
  if choices.length < 2 ∨ maxDecisionSignalChoices < choices.length then
    .error (.collectionLimitExceeded "Decision Signal choices")
  else if ¬choices.Nodup then .error (.invalidDecisionSignal "duplicate choice")
  else .ok ⟨choices⟩

def DecisionSignalChoices.contains (choices : DecisionSignalChoices) (choice : FactoryKey) : Bool :=
  choices.choices.contains choice

/-- Finite outgoing routes declared for one immutable lifecycle state. -/
structure DecisionSignalRouteSet where
  state : FactoryKey
  choices : DecisionSignalChoices

inductive DecisionSignalInputMedia
  | canonicalJson
  | utf8Text
  deriving DecidableEq

inductive DecisionSignalQuestionKind
  | finiteChoice
  | boundedScore
  deriving DecidableEq

/-- Inclusive finite integer score domain. -/
structure DecisionSignalScoreDomain where
  minimum : Int
  maximum : Int

def DecisionSignalScoreDomain.contains (domain : DecisionSignalScoreDomain) (score : Int) : Bool :=
  domain.minimum ≤ score && score ≤ domain.maximum

inductive DecisionSignalQuestionDomain
  | finiteChoice (choices : DecisionSignalChoices)
  | boundedScore (domain : DecisionSignalScoreDomain)

def DecisionSignalQuestionDomain.kind : DecisionSignalQuestionDomain → DecisionSignalQuestionKind
  | .finiteChoice _ => .finiteChoice
  | .boundedScore _ => .boundedScore

/-- One finite choice and the boundary description shown to a provider. -/
structure DecisionSignalChoiceCriterion where
  choice : FactoryKey
  description : FactoryText

inductive DecisionSignalQuestionCriteria
  | finiteChoice (criteria : List DecisionSignalChoiceCriterion)
  | boundedScore (criteria : List FactoryText)

/-- One exact versioned question and its finite answer domain. -/
structure DecisionSignalQuestion where
  reference : ImmutableReference
  instructions : FactoryText
  domain : DecisionSignalQuestionDomain
  criteria : DecisionSignalQuestionCriteria

def criteriaMatchDomain : DecisionSignalQuestionDomain → DecisionSignalQuestionCriteria → Bool
  | .finiteChoice choices, .finiteChoice criteria => choices.choices = criteria.map (·.choice)
  | .boundedScore domain, .boundedScore criteria =>
    (criteria.length : Int) = domain.maximum - domain.minimum + 1
  | _, _ => false

def DecisionSignalQuestion.new (reference : ImmutableReference) (instructions : FactoryText)
    (domain : DecisionSignalQuestionDomain) (criteria : DecisionSignalQuestionCriteria) :
    Except DecisionSignalError DecisionSignalQuestion :=
  if criteriaMatchDomain domain criteria then .ok ⟨reference, instructions, domain, criteria⟩
  else .error (.invalidDecisionSignal "question criteria")

/-! ## Digests -/

/-- What the qualification of a profile is serialized from. -/
structure ProfileCriteria where
  questions : List DecisionSignalQuestion
  consumingQuestion : FactoryKey
  purpose : DecisionSignalPurpose
  probabilitySemantics : ImmutableReference
  calibration : ImmutableReference
  minimumProbability : DecisionSignalProbability
  minimumMargin : DecisionSignalProbability

/-- The hash, and what serde_json makes of values. -/
structure SignalLibrary where
  /-- `FactoryDigest::sha256` -/
  sha256 : String → List (List UInt8) → FactoryDigest
  /-- `serde_json::to_vec` of profile criteria -/
  criteriaBytes : ProfileCriteria → List UInt8
  /-- A document parsed as JSON and written again -/
  canonicalJson : String → Option String

/-- The lowest digits of a number in hexadecimal, the highest first. -/
def hexDigits : Nat → Nat → List Char
  | 0, _ => []
  | width + 1, n => hexDigits width (n / 16) ++ [Json.hexDigit (n % 16)]

/-- `Display` of a digest. -/
def FactoryDigest.toText (digest : FactoryDigest) : String := String.ofList (hexDigits 64 digest.value)

/-- Texts with a NUL between them. -/
def separated (texts : List String) : List UInt8 :=
  utf8Bytes (String.intercalate "\x00" texts)

/-- The texts a reference is written as. -/
def referenceTexts (reference : ImmutableReference) : List String :=
  [reference.identity.value, reference.version.value, reference.digest.toText]

def encodeQuestion (question : DecisionSignalQuestion) : List UInt8 :=
  separated (referenceTexts question.reference ++ [question.instructions.value] ++
    match question.domain, question.criteria with
    | .finiteChoice choices, .finiteChoice criteria =>
      "choice" :: (choices.choices.zip criteria).flatMap fun (choice, criterion) =>
        [choice.value, criterion.description.value]
    | .boundedScore domain, .boundedScore criteria =>
      ["score", toString domain.minimum, toString domain.maximum] ++ criteria.map (·.value)
    -- Unreachable: construction matches the criteria against the domain.
    | _, _ => [])

def DecisionSignalInputMedia.asStr : DecisionSignalInputMedia → String
  | .canonicalJson => "canonical-json"
  | .utf8Text => "utf8-text"

section

variable (library : SignalLibrary)

def digestProviderInput (media : DecisionSignalInputMedia) (document : FactoryText)
    (questions : List DecisionSignalQuestion) (consumingQuestion : FactoryKey)
    (routingState : Option FactoryKey) : FactoryDigest :=
  library.sha256 "octacity.decision-signal.input.v1"
    ([utf8Bytes media.asStr, utf8Bytes document.value, utf8Bytes consumingQuestion.value,
      utf8Bytes (routingState.elim "" (·.value))] ++ questions.map encodeQuestion)

def FactoryText.new (value : String) : Except DecisionSignalError FactoryText :=
  if h : isBoundedText maxFactoryTextBytes value = true then .ok ⟨value, h⟩ else .error .invalidText

def canonicalizeStateDocument (media : DecisionSignalInputMedia) (document : FactoryText) :
    Except DecisionSignalError FactoryText :=
  match media with
  | .utf8Text => .ok document
  | .canonicalJson =>
    match library.canonicalJson document.value with
    | none => .error (.invalidDecisionSignal "canonical JSON input")
    | some canonical => FactoryText.new canonical

/-- Bounded provider input with no provider-specific message or wire type. -/
structure DecisionSignalProviderInput where
  media : DecisionSignalInputMedia
  stateDocument : FactoryText
  questions : List DecisionSignalQuestion
  consumingQuestion : FactoryKey
  routingState : Option FactoryKey
  digest : FactoryDigest

def DecisionSignalQuestion.isFinite (question : DecisionSignalQuestion) : Bool :=
  question.domain.kind = .finiteChoice

def DecisionSignalProviderInput.new (media : DecisionSignalInputMedia) (stateDocument : FactoryText)
    (questions : List DecisionSignalQuestion) (consumingQuestion : FactoryKey)
    (routingState : Option FactoryKey) : Except DecisionSignalError DecisionSignalProviderInput :=
  if questions = [] ∨ maxDecisionSignalQuestions < questions.length then
    .error (.invalidDecisionSignal "question count")
  else if ¬(questions.map (·.reference.identity)).Nodup ∨
      ¬questions.any fun question =>
        question.reference.identity = consumingQuestion && question.isFinite then
    .error (.invalidDecisionSignal "consuming question")
  else do
    let stateDocument ← canonicalizeStateDocument library media stateDocument
    .ok
      { media, stateDocument, questions, consumingQuestion, routingState
        digest := digestProviderInput library media stateDocument questions consumingQuestion
          routingState }

end

/-- The finite domain whose answer deterministic policy consumes. -/
def DecisionSignalProviderInput.choices (input : DecisionSignalProviderInput) :
    Option DecisionSignalChoices :=
  (input.questions.find? fun question => question.reference.identity = input.consumingQuestion).bind
    fun question => match question.domain with
      | .finiteChoice choices => some choices
      | .boundedScore _ => none

end OctaCity.Factory
