/-
  OctaCity.Store.CompletionFacts

  When the facts of a completion fit the audit metadata: the texts its types
  bound always do, an image reference does up to 512 bytes.
-/
import OctaCity.Store.Completion

namespace OctaCity.Store

open Lib List Orchestrator
open Placement (PlatformSpec ExecutionGuarantee ExecutionTarget)

/-! ## Values that fit -/

/-- Text of at most `limit` bytes without control characters. -/
def PrintableWithin (limit : Nat) (text : String) : Prop :=
  text.utf8ByteSize ≤ limit ∧ ∀ c ∈ text.toList, 32 ≤ c.toNat

instance (limit : Nat) (text : String) : Decidable (PrintableWithin limit text) :=
  decidable_of_iff (text.utf8ByteSize ≤ limit ∧ text.toList.all fun c => decide (32 ≤ c.toNat))
    (by simp [PrintableWithin])

/-- Bytes of a value of the metadata. -/
abbrev factSize (value : Json) : Nat := Json.size (fun _ => "") value

/-- A value that is safe at its depth, within a bound of its bytes. -/
abbrev Fits (depth bound : Nat) (value : Json) : Prop :=
  safeValue depth value = true ∧ factSize value ≤ bound

variable {depth bound : Nat}

theorem PrintableWithin.fits {limit : Nat} {text : String} (h : PrintableWithin limit text)
    (hlimit : limit ≤ maxAuditMetadataStringBytes) (hdepth : depth ≤ maxAuditMetadataDepth) :
    Fits depth (2 * limit + 2) (.string text) := by
  have hzero : Char.ofNat 0 ∉ text.toList := fun hmem => absurd (h.2 _ hmem) (by decide)
  refine ⟨by simp [safeValue, hdepth, h.1.trans hlimit, hzero], ?_⟩
  exact (Json.encodeString_size_le h.2).trans (by have := h.1; omega)

theorem fits_countJson (count : Nat) : Fits 1 80 (countJson count) :=
  ⟨rfl, show (Json.encodeNumber (fun _ => "") (.posInt _)).utf8ByteSize ≤ 80 from
    Json.encodeNumber_posInt_size_le _⟩

theorem fits_optionJson {α : Type} {toJson : α → Json} {value : Option α}
    (hdepth : depth ≤ maxAuditMetadataDepth) (hnull : 4 ≤ bound)
    (h : ∀ x, value = some x → Fits depth bound (toJson x)) :
    Fits depth bound (optionJson toJson value) := by
  cases value with
  | none =>
    exact ⟨by simpa [optionJson, safeValue] using hdepth,
      (show factSize .null ≤ 4 by decide).trans hnull⟩
  | some x => exact h x rfl

/-- An object fits by its names and by bounds of its values. -/
theorem fits_object {fields : List (String × Json)} (names : List String) {bounds : List Nat}
    (hnames : fields.map Prod.fst = names) (hkeys : ∀ name ∈ names, safeKey name = true)
    (hdepth : depth ≤ maxAuditMetadataDepth)
    (hbound : 2 + (names.map fun name => (Json.encodeString name).utf8ByteSize + 2).sum +
      bounds.sum ≤ bound)
    (h : List.Forall₂ (fun field bound => Fits (depth + 1) bound field.2) fields bounds) :
    Fits depth bound (.object fields) := by
  subst hnames
  suffices hflds : safeFields (depth + 1) fields = true ∧
      (fields.map fun field => (Json.encodeString field.1).utf8ByteSize + 1 +
        Json.size (fun _ => "") field.2).sum + fields.length ≤
          ((fields.map Prod.fst).map fun name => (Json.encodeString name).utf8ByteSize + 2).sum +
            bounds.sum by
    refine ⟨by simpa [safeValue, hdepth] using hflds.1, ?_⟩
    rw [factSize, Json.encode_object_size]
    omega
  clear hbound
  induction h with
  | nil => exact ⟨rfl, le_rfl⟩
  | cons hfield _ ih =>
    rw [map_cons, forall_mem_cons] at hkeys
    obtain ⟨hsafe, hsize⟩ := ih hkeys.2
    refine ⟨by simp only [safeFields, hkeys.1, hfield.1, hsafe, Bool.and_self], ?_⟩
    have hvalue := hfield.2
    simp only [factSize, map_cons, sum_cons, length_cons] at hvalue hsize ⊢
    omega

/-! ## The values of a completion -/

theorem fits_platformJson (platform : PlatformSpec) : Fits 3 41 (platformJson platform) := by
  obtain ⟨os, architecture⟩ := platform
  cases os <;> cases architecture <;> decide

theorem safe_items {items : List Json} :
    safeItems depth items = true ↔ ∀ item ∈ items, safeValue depth item = true := by
  induction items with
  | nil => simp [safeItems]
  | cons item items ih => simp [safeItems, ih]

theorem fits_guaranteesJson (guarantees : Finset ExecutionGuarantee) :
    Fits 3 111 (guaranteesJson guarantees) := by
  let all : List ExecutionGuarantee := [.filesystemIsolation, .processIsolation, .networkIsolation,
    .resourceIsolation, .hardwareVirtualization]
  let text (guarantee : ExecutionGuarantee) : Json := .string (executionGuarantee guarantee)
  let items := (all.filter (· ∈ guarantees)).map text
  have hsum : (items.map factSize).sum ≤ 105 :=
    (((filter_sublist.map text).map factSize).sum_le_sum fun _ _ => Nat.zero_le _).trans
      (by decide)
  have hlen : items.length ≤ 5 := by
    rw [length_map]
    exact length_filter_le _ _
  have hsize : factSize (guaranteesJson guarantees) =
      2 + (items.map factSize).sum + (items.length - 1) := Json.encode_array_size _
  refine ⟨?_, by omega⟩
  rw [guaranteesJson, safeValue, Bool.and_eq_true, safe_items]
  refine ⟨by decide, fun item hitem => ?_⟩
  obtain ⟨guarantee, -, rfl⟩ := mem_map.mp hitem
  cases guarantee <;> decide

theorem fits_targetJson {target : ExecutionTarget}
    (himage : ∀ image, target.immutableImage = some image → PrintableWithin 512 image) :
    Fits 2 1400 (targetJson target) := by
  have hmode : Fits 3 16 (.string (executionMode target.mode)) := by
    cases target.mode <;> decide
  unfold targetJson
  cases hcase : target.immutableImage with
  | none =>
    exact fits_object ["host_platform", "mode", "required_guarantees", "target_platform"] rfl
      (by decide) (by decide) (by decide) (.cons (fits_platformJson _) (.cons hmode
      (.cons (fits_guaranteesJson _) (.cons (fits_platformJson _) .nil))))
  | some image =>
    exact fits_object
      ["host_platform", "immutable_image", "mode", "required_guarantees", "target_platform"] rfl
      (by decide) (by decide) (by decide) (.cons (fits_platformJson _)
      (.cons ((himage image hcase).fits le_rfl (by decide)) (.cons hmode
      (.cons (fits_guaranteesJson _) (.cons (fits_platformJson _) .nil)))))

theorem fits_evidenceJson {evidence : ExecutionEvidence}
    (hprovider : PrintableWithin 256 evidence.provider)
    (himage : ∀ image, evidence.target.immutableImage = some image → PrintableWithin 512 image) :
    Fits 1 1950 (evidenceJson evidence) :=
  fits_object ["provider", "target"] rfl (by decide) (by decide) (by decide)
    (.cons (hprovider.fits (by decide) (by decide)) (.cons (fits_targetJson himage) .nil))

theorem hyphenated_fits (uuid : Nat) : Fits 1 290 (.string (hyphenated uuid)) := by
  have hlen := Json.utf8ByteSize_le_length (hyphenated uuid)
  rw [hyphenated_length] at hlen
  suffices hprint : PrintableWithin 144 (hyphenated uuid) from hprint.fits (by decide) (by decide)
  refine ⟨hlen, fun c hc => ?_⟩
  have hdigit : ∀ n < 16, 32 ≤ (Json.hexDigit n).toNat := by decide
  have hdash : 32 ≤ '-'.toNat := by decide
  simp only [hyphenated, String.toList_ofList, mem_append, mem_cons, mem_map] at hc
  obtain (((⟨i, -, rfl⟩ | rfl | ⟨i, -, rfl⟩) | rfl | ⟨i, -, rfl⟩) | rfl | ⟨i, -, rfl⟩) | rfl | ⟨i, -, rfl⟩ :=
    hc
  all_goals first | exact hdash | exact hdigit _ (Nat.mod_lt _ (by decide))

theorem fits_attemptState (state : AttemptState) : Fits 1 11 (.string (attemptState state)) := by
  cases state <;> decide

theorem fits_buildState (state : BuildState) : Fits 1 11 (.string (buildState state)) := by
  cases state <;> decide

/-! ## Acceptance -/

/-- The texts of a completion are what `IdempotencyKey` and `ExecutionProviderId` admit, and
    its image reference, if any, is short enough for an audit fact. -/
structure JobCompletion.Auditable (request : JobCompletion) : Prop where
  completionId : PrintableWithin 128 request.completionId
  provider : ∀ evidence, request.execution = some evidence → PrintableWithin 256 evidence.provider
  image : ∀ evidence, request.execution = some evidence →
    ∀ image, evidence.target.immutableImage = some image → PrintableWithin 512 image

theorem isAuditMetadata_object {fields : List (String × Json)}
    (hcount : fields.length ≤ maxAuditMetadataEntries)
    (hfits : Fits 0 maxAuditMetadataBytes (.object fields)) :
    isAuditMetadata (.object fields) = true := by
  simp only [isAuditMetadata, Bool.and_eq_true, decide_eq_true_eq]
  exact ⟨⟨hcount, hfits.1⟩, hfits.2⟩

/-- The facts of a completion are audit metadata, whatever the outcome is. -/
theorem facts_accepted {request : JobCompletion} (h : request.Auditable)
    (outcome : CompletionDisposition) : isAuditMetadata (request.facts outcome) = true := by
  have hcount : 10 ≤ maxAuditMetadataEntries := by decide
  have hkind : Fits 1 11 (.string (completionKind request.kind)) := by
    cases request.kind with
    | failed _ => exact (show Fits 1 11 (.string "failed") by decide)
    | succeeded | timedOut | cancelled => decide
  have hclass : ∀ text, failureClass request.kind = some text → Fits 1 16 (.string text) := by
    intro text htext
    cases hcase : request.kind with
    | failed failure => rw [hcase] at htext; cases failure <;> cases htext <;> decide
    | timedOut => rw [hcase] at htext; cases htext; decide
    | succeeded | cancelled => rw [hcase] at htext; cases htext
  exact isAuditMetadata_object hcount <| fits_object ["attempt_state", "build_state",
    "completion_id", "execution", "failure_class", "final_sequence", "kind", "lease_id",
    "ready_job_count", "skipped_job_count"] rfl (by decide) (by decide) (by decide)
    (.cons (fits_attemptState _) (.cons (fits_buildState _)
    (.cons (h.completionId.fits (by decide) (by decide))
    (.cons (fits_optionJson (by decide) (by decide) fun evidence hsome =>
      fits_evidenceJson (h.provider evidence hsome) (h.image evidence hsome))
    (.cons (fits_optionJson (by decide) (by decide) hclass)
    (.cons (fits_optionJson (by decide) (by decide) fun sequence _ => fits_countJson sequence)
    (.cons hkind (.cons (hyphenated_fits _) (.cons (fits_countJson _)
    (.cons (fits_countJson _) .nil))))))))))

theorem orchestratorFact_accepted (outcome : CompletionDisposition) :
    isAuditMetadata outcome.orchestratorFact = true := by
  have hcount : 5 ≤ maxAuditMetadataEntries := by decide
  exact isAuditMetadata_object hcount <| fits_object ["attempt_state", "build_state", "job_id",
    "ready_job_count", "skipped_job_count"] rfl (by decide) (by decide) (by decide)
    (.cons (fits_attemptState _) (.cons (fits_buildState _) (.cons (hyphenated_fits _)
    (.cons (fits_countJson _) (.cons (fits_countJson _) .nil)))))

/-- A completion whose facts fit is committed. -/
theorem StoreState.commitCompletion_isOk {request : JobCompletion} (h : request.Auditable)
    (s : StoreState) (origin : CompletionOrigin) (outcome : CompletionDisposition) :
    s.commitCompletion origin request outcome = .ok (s.recordCompletion origin request outcome) := by
  obtain ⟨orchestrated, horchestrated⟩ := Option.isSome_iff_exists.mp
    (AuditMetadata.tryNew_isSome.trans (orchestratorFact_accepted outcome))
  obtain ⟨metadata, hmeta⟩ := Option.isSome_iff_exists.mp
    (AuditMetadata.tryNew_isSome.trans (facts_accepted h outcome))
  simp [commitCompletion, okOr, horchestrated, hmeta, bind, Except.bind]

end OctaCity.Store
