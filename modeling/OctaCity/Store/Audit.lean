/-
  OctaCity.Store.Audit

  The bounded JSON object an audit fact keeps (octacity-server-audit
  `metadata.rs`), and execution evidence as it is written there.
-/
import OctaCity.Lib.Json
import OctaCity.Store.Requests

namespace OctaCity.Store

open Lib
open Placement (PlatformOs PlatformArchitecture PlatformSpec ExecutionMode ExecutionGuarantee
  ExecutionTarget containsText)

/-! ## Metadata -/

/-- Maximum encoded bytes retained in one audit metadata object. -/
def maxAuditMetadataBytes : Nat := 4 * 1024

/-- Maximum top-level entries retained in one audit metadata object. -/
def maxAuditMetadataEntries : Nat := 32

def maxAuditMetadataDepth : Nat := 4

def maxAuditMetadataStringBytes : Nat := 512

def sensitiveKey (key : String) : Bool :=
  key ∈ ["authorization", "credential", "credential_hash", "credential_secret", "password",
      "private_key", "raw_body", "request_body", "secret", "signature", "signing_key", "token",
      "webhook_secret"] ||
    containsText "presigned".toList key.toList

/-- The names `safe_value` lets through. -/
def safeKey (key : String) : Bool :=
  key ≠ "" && key.utf8ByteSize ≤ 64 && !sensitiveKey key &&
    key.toList.all fun c => c.isLower || c.isDigit || c = '_'

mutual

/-- `safe_value`, for a value `depth` levels below the object. -/
def safeValue (depth : Nat) : Json → Bool
  | .null | .bool _ | .number _ => depth ≤ maxAuditMetadataDepth
  | .string text =>
    depth ≤ maxAuditMetadataDepth && text.utf8ByteSize ≤ maxAuditMetadataStringBytes &&
      !text.toList.contains (Char.ofNat 0)
  | .array items => depth ≤ maxAuditMetadataDepth && safeItems (depth + 1) items
  | .object fields => depth ≤ maxAuditMetadataDepth && safeFields (depth + 1) fields

def safeItems (depth : Nat) : List Json → Bool
  | [] => true
  | item :: items => safeValue depth item && safeItems depth items

def safeFields (depth : Nat) : List (String × Json) → Bool
  | [] => true
  | (key, value) :: fields => safeKey key && safeValue depth value && safeFields depth fields

end

/-- The checks of `AuditMetadata::try_new`; no audit fact of the Build store holds a float. -/
def isAuditMetadata : Json → Bool
  | .object fields =>
    fields.length ≤ maxAuditMetadataEntries && safeValue 0 (.object fields) &&
      Json.size (fun _ => "") (.object fields) ≤ maxAuditMetadataBytes
  | _ => false

/-- Bounded JSON object containing only explicitly selected non-sensitive facts. -/
structure AuditMetadata where
  value : Json
  accepted : isAuditMetadata value = true

def AuditMetadata.tryNew (value : Json) : Option AuditMetadata :=
  if h : isAuditMetadata value = true then some ⟨value, h⟩ else none

theorem AuditMetadata.tryNew_isSome {value : Json} :
    (tryNew value).isSome = isAuditMetadata value := by
  unfold tryNew
  split <;> simp_all

/-! ## Evidence -/

def platformOs : PlatformOs → String
  | .linux => "linux"
  | .windows => "windows"
  | .macos => "macos"

def platformArchitecture : PlatformArchitecture → String
  | .amd64 => "amd64"
  | .arm64 => "arm64"

def executionMode : ExecutionMode → String
  | .host => "host"
  | .isolation => "isolation"
  | .virtualization => "virtualization"

def executionGuarantee : ExecutionGuarantee → String
  | .filesystemIsolation => "filesystem_isolation"
  | .processIsolation => "process_isolation"
  | .networkIsolation => "network_isolation"
  | .resourceIsolation => "resource_isolation"
  | .hardwareVirtualization => "hardware_virtualization"

def platformJson (platform : PlatformSpec) : Json :=
  .object [("architecture", .string (platformArchitecture platform.architecture)),
    ("os", .string (platformOs platform.os))]

/-- The guarantees in the order of their declaration, as a `BTreeSet` lists them. -/
def guaranteesJson (guarantees : Finset ExecutionGuarantee) : Json :=
  .array <| ([.filesystemIsolation, .processIsolation, .networkIsolation, .resourceIsolation,
      .hardwareVirtualization].filter (· ∈ guarantees)).map (.string <| executionGuarantee ·)

/-- `immutable_image` is left out when there is none. -/
def targetJson (target : ExecutionTarget) : Json :=
  .object <| [("host_platform", platformJson target.hostPlatform)] ++
    (target.immutableImage.map fun image => ("immutable_image", Json.string image)).toList ++
    [("mode", .string (executionMode target.mode)),
      ("required_guarantees", guaranteesJson target.requiredGuarantees),
      ("target_platform", platformJson target.targetPlatform)]

def evidenceJson (evidence : ExecutionEvidence) : Json :=
  .object [("provider", .string evidence.provider), ("target", targetJson evidence.target)]

/-- `Option` values are `null` when absent. -/
def optionJson {α : Type} (toJson : α → Json) : Option α → Json
  | none => .null
  | some value => toJson value

/-- A 64-bit count or sequence. -/
def countJson (count : Nat) : Json := .number (.posInt (UInt64.ofNat count))

/-- The hyphenated text of an identity. -/
def hyphenated (uuid : Nat) : String :=
  let digits (start count : Nat) : List Char :=
    (List.range count).map fun i => Json.hexDigit (uuid / 16 ^ (31 - (start + i)) % 16)
  String.ofList (digits 0 8 ++ '-' :: digits 8 4 ++ '-' :: digits 12 4 ++ '-' :: digits 16 4 ++
    '-' :: digits 20 12)

theorem hyphenated_length (uuid : Nat) : (hyphenated uuid).length = 36 := by
  simp only [hyphenated, String.length_ofList, List.length_append, List.length_cons, List.length_map,
    List.length_range]

end OctaCity.Store
