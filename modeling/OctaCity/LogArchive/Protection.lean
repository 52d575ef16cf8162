/-
  OctaCity.LogArchive.Protection

  What the output streams of a prepared batch still tell: no query of a URL, and
  no protected value without a `*`.
-/
import OctaCity.LogArchive.Frames

namespace OctaCity.LogArchive

open Domain Lib List Option Runner Store

/-! ## The redactor's values -/

variable {values : List Bytes}

theorem mem_admitValues {total : Nat} {kept kept' : List ProtectedValue}
    (h : admitValues values total kept = some kept') (bytes : Bytes) :
    (∃ value ∈ kept', value.val = bytes) ↔ (∃ value ∈ kept, value.val = bytes) ∨ bytes ∈ values := by
  induction values generalizing total kept with
  | nil =>
    cases h
    simp
  | cons value values ih =>
    unfold admitValues at h
    split at h
    · cases h
    · rename_i hne
      split at h
      · cases h
      · split at h
        · cases h
        · split at h
          · rename_i hkept
            rw [ih h, mem_cons]
            have hkept' : ∃ v ∈ kept, v.val = value := by simpa using hkept
            constructor
            · rintro (hold | hnew)
              · exact .inl hold
              · exact .inr (.inr hnew)
            · rintro (hold | rfl | hnew)
              · exact .inl hold
              · exact .inl hkept'
              · exact .inr hnew
          · rw [ih h, mem_cons]
            simp only [mem_append, mem_singleton, or_and_right, exists_or]
            constructor
            · rintro ((hold | ⟨_, rfl, rfl⟩) | hnew)
              · exact .inl hold
              · exact .inr (.inl rfl)
              · exact .inr (.inr hnew)
            · rintro (hold | rfl | hnew)
              · exact .inl (.inl hold)
              · exact .inl (.inr ⟨_, rfl, rfl⟩)
              · exact .inr hnew

/-- A redactor masks exactly the values it was built from. -/
theorem LogRedactor.mem_new {redactor : LogRedactor}
    (h : LogRedactor.new values = some redactor) (bytes : Bytes) :
    (∃ value ∈ redactor.protectedValues, value.val = bytes) ↔ bytes ∈ values := by
  obtain ⟨kept, hkept, rfl⟩ := map_eq_some_iff.mp h
  simpa only [mem_mergeSort, not_mem_nil, false_and, exists_false, false_or] using
    mem_admitValues hkept bytes

/-! ## The streams of a batch -/

/-- The bytes of a batch's frames of one stream. -/
def streamBytes (stream : BuildLogStream) (events : List AttemptEventEnvelope) :
    Except ArchiveFault Bytes := do
  let frames ← outputFrames 0 events
  .ok (frameBytes stream frames)

theorem streamBytes_eq {stream : BuildLogStream} {events : List AttemptEventEnvelope}
    {frames : List OutputFrame} (h : outputFrames 0 events = .ok frames) :
    streamBytes stream events = .ok (frameBytes stream frames) := by
  rw [streamBytes, h]
  rfl

/-- The bytes hold none of the values and no query, and redaction leaves them as they are. -/
structure Guarded (values : List Bytes) (redactor : LogRedactor) (bytes : Bytes) : Prop where
  values : ∀ value ∈ values, ¬ value <:+: bytes
  queries : ∀ scheme ∈ schemes, QueriesMasked scheme bytes
  stable : redactor.redact bytes = some bytes

theorem guarded_redact {redactor : LogRedactor} {bytes bytes' : Bytes}
    (hnew : LogRedactor.new values = some redactor) (hstar : ∀ value ∈ values, starByte ∉ value)
    (h : redactor.redact bytes = some bytes') : Guarded values redactor bytes' := by
  have havoid : ∀ value ∈ redactor.protectedValues, ¬value.val <:+: bytes' :=
    redact_avoids (fun value hmem => hstar _ ((redactor.mem_new hnew _).mp ⟨value, hmem, rfl⟩)) h
  have hqueries := redactor.queriesMasked_redact h
  refine ⟨fun value hmem => ?_, hqueries, redactor.redact_unchanged havoid hqueries⟩
  obtain ⟨protectedValue, hprotected, rfl⟩ := (redactor.mem_new hnew value).mpr hmem
  exact havoid protectedValue hprotected

/-- No index is out of range and every loop ends, and the prepared streams hold no query of a URL.
Where no value has a `*`, they hold no protected value, and another redaction changes nothing. -/
theorem protects_starless (rules : ChunkRules) {values : List Bytes} {redactor : LogRedactor}
    (hnew : LogRedactor.new values = some redactor) (events : List AttemptEventEnvelope)
    (durableThrough : UInt64) (jobId : JobId) :
    (∀ bytes, ∃ bytes', redactor.redact bytes = some bytes' ∧ bytes'.length = bytes.length) ∧
    prepareLogArchive rules events durableThrough jobId redactor ≠ .error .panic ∧
    ∀ prepared, prepareLogArchive rules events durableThrough jobId redactor = .ok prepared →
      ∀ stream, ∃ bytes, streamBytes stream prepared.events = .ok bytes ∧
        (∀ scheme ∈ schemes, QueriesMasked scheme bytes) ∧
        ((∀ value ∈ values, starByte ∉ value) → Guarded values redactor bytes) := by
  have hsafe := safe_prepareLogArchive rules events durableThrough jobId redactor
  refine ⟨redactor.redact_total, hsafe, fun prepared h stream => ?_⟩
  obtain ⟨frames, frames', hfrms, -⟩ := prepareLogArchive_eq_ok h
  have hredact := hfrms.redact stream
  exact ⟨_, streamBytes_eq hfrms.after, redactor.queriesMasked_redact hredact,
    fun hstar => guarded_redact hnew hstar hredact⟩

/-! ## Samples -/

namespace Sample

/-- A line of a stream. -/
def output (stream : String) (sequence : UInt64) (text : String) : AttemptEventEnvelope where
  jobId := "00000000-0000-0000-0000-000000000001"
  attempt := 1
  leaseId := "00000000-0000-0000-0000-000000000002"
  fencingToken := String.ofList (List.replicate 64 '1')
  streamSequence := sequence
  occurredAtUnixMs := 1
  kind := .runner {
    schemaVersion := 4
    sequence := sequence
    timestamp := "2026-09-24T00:00:00Z"
    category := "execution"
    data := [("type", .string "output"), ("stream", .string stream),
      ("payload", .object [("format", .string "line"), ("data", .string text)])] }

def line : UInt64 → String → AttemptEventEnvelope := output "stdout"

/-- No chunk is made of events that are durable already, so no identity is asked for. -/
def rules : ChunkRules where
  digest _ := ""
  identities _ _ _ _ _ := none
  chunkIdText _ := ""

def starred : ProtectedValue := ⟨stringBytes "pa*", by decide⟩

def token : ProtectedValue := ⟨stringBytes "token-secret", by decide⟩

end Sample

theorem new_singleton {value : ProtectedValue}
    (hlen : value.val.length ≤ maxProtectedValueBytes) :
    LogRedactor.new [value.val] = some ⟨[value]⟩ := by
  have htotal : maxProtectedValueBytes ≤ maxProtectedTotalBytes := by decide
  have hsize : ¬(value.val.length > maxProtectedValueBytes ∨
      ([] : List ProtectedValue).length ≥ maxProtectedValues) := by
    rintro (hlong | hmany)
    · omega
    · exact absurd hmany (by decide)
  have hadmit : admitValues [value.val] 0 [] = some [value] := by
    rw [admitValues, dif_neg value.property, if_neg hsize, if_neg (by omega), if_neg (by simp), admitValues]
    rfl
  rw [LogRedactor.new, hadmit, map_some, mergeSort_singleton]

/-- The value `pa*` is completed by the fill of its own occurrence, behind the bytes `pa`. -/
theorem masked_value_completed_again :
    ∃ redactor prepared bytes, LogRedactor.new [stringBytes "pa*"] = some redactor ∧
      prepareLogArchive Sample.rules [Sample.line 1 "papa*"] 1 ⟨1⟩ redactor = .ok prepared ∧
      streamBytes .stdout prepared.events = .ok bytes ∧ stringBytes "pa*" <:+: bytes := by
  have hnew := new_singleton (show Sample.starred.val.length ≤ maxProtectedValueBytes by decide)
  have hres : ((prepareLogArchive Sample.rules [Sample.line 1 "papa*"] 1 ⟨1⟩
      ⟨[Sample.starred]⟩).toOption.bind fun prepared =>
        (streamBytes .stdout prepared.events).toOption) = some (stringBytes "pa***") := by
    decide
  obtain ⟨prepared, hprepd, hbytes⟩ := bind_eq_some_iff.mp hres
  exact ⟨_, prepared, _, hnew, toOption_eq_some.mp hprepd, toOption_eq_some.mp hbytes,
    [], stringBytes "**", by decide⟩

/-- A secret on two lines, and the query of a URL. -/
theorem protects_starless_secret :
    ∃ redactor prepared, LogRedactor.new [stringBytes "token-secret"] = some redactor ∧
      prepareLogArchive Sample.rules [Sample.line 1 "a token-", Sample.line 2 "secret http://h?s b"]
        2 ⟨1⟩ redactor = .ok prepared ∧
      ∀ stream, ∃ bytes, streamBytes stream prepared.events = .ok bytes ∧
        Guarded [stringBytes "token-secret"] redactor bytes := by
  have hnew := new_singleton (show Sample.token.val.length ≤ maxProtectedValueBytes by decide)
  have hres : (prepareLogArchive Sample.rules
      [Sample.line 1 "a token-", Sample.line 2 "secret http://h?s b"] 2 ⟨1⟩
      ⟨[Sample.token]⟩).toOption.isSome = true := by
    decide
  obtain ⟨prepared, hprepd⟩ := isSome_iff_exists.mp hres
  have hprepd := toOption_eq_some.mp hprepd
  refine ⟨_, prepared, hnew, hprepd, fun stream => ?_⟩
  obtain ⟨bytes, hbytes, -, hguard⟩ :=
    (protects_starless Sample.rules hnew _ 2 ⟨1⟩).2.2 prepared hprepd stream
  exact ⟨bytes, hbytes, hguard (by decide)⟩

end OctaCity.LogArchive
