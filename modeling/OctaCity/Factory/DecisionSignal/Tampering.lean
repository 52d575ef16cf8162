/-
  OctaCity.Factory.DecisionSignal.Tampering

  What the digest of a stored receipt protects (octacity-server-factory,
  `decision_signal/consumption.rs` and `contract.rs`).  A receipt digest covers
  the request by the request's digest and the result by the result's digest, and
  the request digest covers the input by the input's digest.
-/
import OctaCity.Factory.DecisionSignal.Consumption
import Mathlib.Tactic.DeriveCountable

namespace OctaCity.Factory

open Lib

section

variable (library : SignalLibrary)

/-- No other value that passes the check has the receipt's digest. -/
def DecisionSignalReceipt.TamperEvident (receipt : DecisionSignalReceipt) : Prop :=
  ∀ restored : DecisionSignalReceipt, restored.receiptDigest = receipt.receiptDigest →
    restored.validateIntegrity library = .ok () → restored = receipt

/-- The receipt about another subject, of another state document, under the stored digests. -/
def DecisionSignalReceipt.forge (receipt : DecisionSignalReceipt) (subject : WorkSubject)
    (document : FactoryText) : DecisionSignalReceipt :=
  { receipt with
    request :=
      { receipt.request with
        request := { receipt.request.request with subject }
        input := { receipt.request.input with stateDocument := document } } }

/-- No check reads the subject or the state document. -/
theorem DecisionSignalReceipt.forge_validateIntegrity (receipt : DecisionSignalReceipt)
    (subject : WorkSubject) (document : FactoryText) :
    (receipt.forge subject document).validateIntegrity library =
      receipt.validateIntegrity library :=
  rfl

/-- A subject other than the given one: an input of the project with another digest. -/
def WorkSubject.other : WorkSubject → WorkSubject
  | .repository subject => .projectInput subject.projectId ⟨0⟩
  | .projectInput projectId inputDigest =>
    .projectInput projectId (if inputDigest = ⟨0⟩ then ⟨1⟩ else ⟨0⟩)

theorem WorkSubject.other_ne (subject : WorkSubject) : subject.other ≠ subject := by
  cases subject with
  | repository subject => simp [WorkSubject.other]
  | projectInput projectId inputDigest =>
    by_cases h : inputDigest = ⟨0⟩
    · simp [WorkSubject.other, h]
    · simp [WorkSubject.other, h, Ne.symm h]

/-- A consumed receipt passes its check, and so does one that only differs from it in the
subject, which its digest does not cover. -/
theorem consumed_never_tamperEvident {receipt : DecisionSignalReceipt}
    (hcons : Consumed library receipt) :
    receipt.validateIntegrity library = .ok () ∧ ¬receipt.TamperEvident library := by
  have hvalid := consumed_validateIntegrity hcons
  refine ⟨hvalid, fun hevident => ?_⟩
  let restored := receipt.forge receipt.request.request.subject.other
    receipt.request.input.stateDocument
  have hrestored : restored.validateIntegrity library = .ok () :=
    (receipt.forge_validateIntegrity library _ _).trans hvalid
  have hsame : restored = receipt := hevident restored rfl hrestored
  have hsubject : receipt.request.request.subject.other = receipt.request.request.subject :=
    congrArg (·.request.request.subject) hsame
  exact WorkSubject.other_ne _ hsubject

end

/-! ## A routing receipt -/

namespace ReceiptSample

def reference (name : String) : ImmutableReference := ⟨⟨name⟩, ⟨"1"⟩, ⟨7⟩⟩

def choices : DecisionSignalChoices := ⟨[⟨"fast"⟩, ⟨"slow"⟩]⟩

def routes : DecisionSignalRouteSet := ⟨⟨"triage"⟩, choices⟩

def question : DecisionSignalQuestion :=
  { reference := reference "route"
    instructions := ⟨"Choose a route", by decide⟩
    domain := .finiteChoice choices
    criteria := .finiteChoice [⟨⟨"fast"⟩, ⟨"A small change", by decide⟩⟩,
      ⟨⟨"slow"⟩, ⟨"Any other change", by decide⟩⟩] }

def budget : BudgetLimit :=
  { maxAttempts := 1, maxElapsedMillis := 1000, maxTokens := 100, maxCostMicroUnits := 100,
    maxOutputBytes := 100 }

def capability : DecisionSignalProviderCapability :=
  { provider := reference "provider", adapter := reference "adapter", model := reference "model"
    probabilitySemantics := reference "semantics", dataHandling := reference "handling"
    supportedPurposes := [.routing], supportedInputMedia := [.utf8Text]
    supportedQuestionKinds := [.finiteChoice]
    limits := ⟨1000, 1, 2⟩, budgetCeiling := budget }

def profile : DecisionSignalProfile :=
  { purpose := .routing, provider := reference "provider", adapter := reference "adapter"
    model := reference "model", questionSet := reference "questions", policy := reference "policy"
    mode := .boundedControl, fallback := .escalate, budget, routes := some routes }

def threshold : DecisionSignalThreshold :=
  { purpose := .routing, probabilitySemantics := reference "semantics"
    calibration := reference "calibration", minimumProbability := ⟨600000⟩
    minimumMargin := ⟨100000⟩, profileQualification := none }

variable (library : SignalLibrary)

def input : DecisionSignalProviderInput :=
  { media := .utf8Text, stateDocument := ⟨"A change of two files", by decide⟩
    questions := [question], consumingQuestion := ⟨"route"⟩, routingState := some ⟨"triage"⟩
    digest := digestProviderInput library .utf8Text ⟨"A change of two files", by decide⟩ [question]
      ⟨"route"⟩ (some ⟨"triage"⟩) }

def request : DecisionSignalRequest :=
  { id := .ofSucc 0, nodeAttemptId := .ofSucc 1, frozenInputDigest := ⟨3⟩
    runId := .ofSucc 3, subject := .projectInput (.ofSucc 4) ⟨6⟩, purpose := .routing
    inputDigest := (input library).digest, policyDigest := ⟨7⟩, budget }

def unsealed : DecisionSignalProviderRequest :=
  { request := request library, provider := reference "provider", adapter := reference "adapter"
    model := reference "model", questionSet := reference "questions", policy := reference "policy"
    probabilitySemantics := reference "semantics", dataHandling := reference "handling"
    input := input library, threshold, mode := .boundedControl, fallback := .escalate
    deadline := ⟨100⟩, digest := ⟨0⟩ }

def accepted : DecisionSignalProviderRequest :=
  { unsealed library with digest := digestProviderRequest library (unsealed library) }

theorem new_accepted : DecisionSignalProviderRequest.new library (request library) profile capability
    (input library) threshold ⟨100⟩ = .ok (accepted library) := by
  have hintegrity : (accepted library).validateIntegrity library = .ok () := if_neg (by
    rintro (h | h | ⟨h, _⟩ | h)
    · exact h rfl
    · exact h rfl
    · cases h
    · exact h rfl)
  refine (if_neg ?_).trans (bind_eq_ok.mpr ⟨(), hintegrity, rfl⟩)
  simp [request, profile, capability, input, threshold, question, choices, budget, reference,
    DecisionSignalQuestionDomain.kind, DecisionSignalQuestion.choiceCount, BudgetLimit.fitsWithin]
  exact ⟨rfl, by decide, by decide⟩

def result : DecisionSignalProviderResult :=
  { requestId := .ofSucc 0, provider := reference "provider", adapter := reference "adapter"
    model := reference "model", probabilitySemantics := reference "semantics"
    answers := [⟨reference "route", .finiteChoice ⟨"fast"⟩ ⟨900000⟩ ⟨100000⟩⟩]
    usage := { attempts := 1, elapsedMillis := 20, tokens := 40, outputBytes := 10 }
    resultDigest := digestProviderResult library (.ofSucc 0) (reference "provider")
      (reference "adapter") (reference "model") (reference "semantics")
      [⟨reference "route", .finiteChoice ⟨"fast"⟩ ⟨900000⟩ ⟨100000⟩⟩]
      { attempts := 1, elapsedMillis := 20, tokens := 40, outputBytes := 10 } }

def receipt : DecisionSignalReceipt :=
  buildReceipt library ⟨8, by decide⟩ (accepted library)
    ⟨.completed, (result library).usage, some (result library)⟩ (.route ⟨"slow"⟩)
    (some (.route ⟨"fast"⟩))

theorem consumed : Consumed library (receipt library) :=
  ⟨request library, profile, capability, input library, threshold, ⟨100⟩, accepted library,
    ⟨8, by decide⟩, .result (result library), new_accepted library, trivial,
    .inl ⟨⟨"slow"⟩, rfl⟩⟩

/-- A hash that keeps its whole input. -/
def hash (domain : String) (fields : List (List UInt8)) : FactoryDigest :=
  ⟨Encodable.encode (domain.toList.map Char.toNat, fields.map (List.map UInt8.toNat))⟩

theorem hash_injective : Function.Injective2 hash := by
  intro domain domain' fields fields' h
  obtain ⟨hdomain, hflds⟩ := Prod.mk.inj (Encodable.encode_injective (FactoryDigest.mk.inj h))
  have hchar : Function.Injective Char.toNat := fun _ _ => Char.toNat_inj.mp
  have hbyte : Function.Injective UInt8.toNat := fun _ _ => UInt8.toNat_inj.mp
  exact ⟨String.toList_inj.mp (hchar.list_map hdomain), hbyte.list_map.list_map hflds⟩

end ReceiptSample

/-- A consumed routing receipt has the digest of another value that passes its check. -/
theorem consumed_never_tamperEvident_routing :
    ∃ library, (ReceiptSample.receipt library).validateIntegrity library = .ok () ∧
      ¬(ReceiptSample.receipt library).TamperEvident library :=
  ⟨⟨ReceiptSample.hash, fun _ => [], some⟩,
    consumed_never_tamperEvident _ (ReceiptSample.consumed _)⟩

instance instCountableString : Countable String :=
  Function.Injective.countable (f := fun text : String => text.toList.map Char.toNat) fun _ _ h =>
    String.toList_inj.mp (Function.Injective.list_map (fun _ _ => Char.toNat_inj.mp) h)

deriving instance Countable for FactoryKey, FactoryText, FactoryDigest, ImmutableReference,
  DecisionSignalChoices, DecisionSignalScoreDomain, DecisionSignalQuestionDomain,
  DecisionSignalChoiceCriterion, DecisionSignalQuestionCriteria, DecisionSignalPurpose,
  DecisionSignalProbability, DecisionSignalQuestion, ProfileCriteria

/-- Injective hashes and serializations, which the stored digests would need. -/
theorem exists_injective_library : ∃ library : SignalLibrary,
    Function.Injective2 library.sha256 ∧ Function.Injective library.criteriaBytes := by
  obtain ⟨code, hcode⟩ := exists_injective_nat ProfileCriteria
  refine ⟨⟨ReceiptSample.hash, fun criteria => List.replicate (code criteria) 0, some⟩,
    ReceiptSample.hash_injective, fun criteria criteria' h => hcode ?_⟩
  simpa using congrArg List.length h

/-- With an injective hash and serialization, the sample receipt has the digest of the receipt
about another input of its project and of another state document. -/
theorem routing_receipt_not_tamperEvident :
    ¬∀ library : SignalLibrary, Function.Injective2 library.sha256 →
      Function.Injective library.criteriaBytes → ∀ receipt, Consumed library receipt →
        receipt.validateIntegrity library = .ok () ∧ receipt.TamperEvident library := by
  intro hclaim
  obtain ⟨library, hsha, hcriteria⟩ := exists_injective_library
  have hevident := (hclaim library hsha hcriteria _ (ReceiptSample.consumed library)).2
  have hvalid : (ReceiptSample.receipt library).validateIntegrity library = .ok () :=
    consumed_validateIntegrity (ReceiptSample.consumed library)
  let restored := (ReceiptSample.receipt library).forge (.projectInput ⟨5, by decide⟩ ⟨60⟩)
    ⟨"A change of all files", by decide⟩
  have hrestored : restored = ReceiptSample.receipt library := hevident restored rfl hvalid
  cases congrArg (·.request.request.subject) hrestored

end OctaCity.Factory
