/-
  OctaCity.ChangeSet.Policy

  Fail-closed validation of untrusted candidate paths and Git blobs.  What Git
  and the materialized workspace answer about a candidate is a record of the
  answers.  Rust searches a `str` for an ASCII separator in its UTF-8 bytes, and
  so do the checks of separators here; characters are only decoded to tell
  control characters.
-/
import OctaCity.Agent.PermissionWire
import OctaCity.Lib.PathWalk
import OctaCity.Runner.Redaction

namespace OctaCity.ChangeSet

open Agent (maxFactoryPathBytes)
open Factory (isControl)
open Lib List
open Runner (Bytes stringBytes stringFromUtf8)

/-! ## Policy -/

/-- Explicit handling of binary changed blobs. -/
inductive ChangeSetBinaryPolicyV3
  | reject
  | allow
  deriving DecidableEq

/-- Built-in secret detector selected by immutable capture policy. -/
inductive ChangeSetSecretPatternV3
  | pemPrivateKey
  | awsAccessKeyId
  | gitHubToken
  | openAiApiKey

/-- Signed fail-closed policy for one trusted ChangeSet capture. -/
structure ChangeSetCapturePolicyV3 where
  allowedPathPrefixes : List String
  forbiddenControlPaths : List String
  maxChangedPaths : UInt32
  maxFileBytes : UInt64
  maxTotalBytes : UInt64
  allowEmpty : Bool
  binaryPolicy : ChangeSetBinaryPolicyV3
  forbiddenSecretPatterns : List ChangeSetSecretPatternV3

/-- Secret-safe reason that an untrusted candidate was rejected. -/
inductive CapturePolicyViolation
  | workspaceOwnership
  | workspaceBoundary
  | baseMismatch
  | path
  | controlFile
  | symlink
  | submodule
  | changedPathCount
  | fileSize
  | totalBytes
  | mode
  | binary
  | secret
  | emptyChange
  deriving DecidableEq

/-- A violation of the policy, or Git itself failed in the named step. -/
inductive CaptureError
  | policy (violation : CapturePolicyViolation)
  | provider (step : String)
  deriving DecidableEq

/-- One changed path and its exact Git modes. -/
structure ChangedPath where
  status : String
  path : String
  oldMode : String
  newMode : String
  contentSha256 : Option String

/-! ## Checks of one path -/

def validatePortablePath (path : String) : Except CaptureError Unit :=
  let bytes := stringBytes path
  if bytes = [] ∨ maxFactoryPathBytes < bytes.length ∨ bytes.head? = some 47 ∨
      bytes.getLast? = some 47 ∨ 92 ∈ bytes ∨ 58 ∈ bytes ∨ 0 ∈ bytes ∨ path.toList.any isControl ∨
      (splitSlash bytes).any (fun segment => segment = [] ∨ segment = [46] ∨ segment = [46, 46]) then
    .error (.policy .path)
  else .ok ()

/-- The whole tree, the path itself or a directory above it. -/
def pathMatchesPrefix (path pathPrefix : String) : Bool :=
  pathPrefix = "." || path = pathPrefix ||
    (stringBytes pathPrefix ++ [47]).isPrefixOf (stringBytes path)

def validateMode (mode : String) : Except CaptureError Unit :=
  if mode = "000000" ∨ mode = "100644" ∨ mode = "100755" ∨ mode = "120000" then .ok ()
  else if mode = "160000" then .error (.policy .submodule)
  else .error (.policy .mode)

def validateChangedPath (changed : ChangedPath) (policy : ChangeSetCapturePolicyV3) :
    Except CaptureError Unit := do
  if changed.status ∉ ["A", "D", "M", "T"] then throw (.policy .path)
  validatePortablePath changed.path
  if !policy.allowedPathPrefixes.any (pathMatchesPrefix changed.path) then throw (.policy .path)
  if policy.forbiddenControlPaths.any (pathMatchesPrefix changed.path) then
    throw (.policy .controlFile)
  [changed.oldMode, changed.newMode].forM validateMode

/-- One segment of a target, applied to the segments that are resolved so far. -/
def resolveSegment (resolved : List Bytes) (segment : Bytes) : Except CaptureError (List Bytes) :=
  if segment = [] ∨ segment = [46] then .ok resolved
  else if segment = [46, 46] then
    if resolved = [] then .error (.policy .symlink) else .ok resolved.dropLast
  else .ok (resolved ++ [segment])

/-- A target is resolved by its own text alone, from the directory its link is in. -/
def validateSymlinkTarget (path : String) (bytes : Bytes) : Except CaptureError Unit :=
  match stringFromUtf8 bytes with
  | none => .error (.policy .symlink)
  | some target => do
    if bytes = [] ∨ bytes.head? = some 47 ∨ 92 ∈ bytes ∨ 58 ∈ bytes ∨ 0 ∈ bytes ∨
        target.toList.any isControl then
      throw (.policy .symlink)
    let _ ← (splitSlash bytes).foldlM resolveSegment (splitSlash (stringBytes path)).dropLast
    return ()

/-! ## Checks of one blob -/

def isBinary (bytes : Bytes) : Bool := 0 ∈ bytes || (stringFromUtf8 bytes).isNone

def contains (haystack needle : Bytes) : Bool := needle ≠ [] ∧ needle <:+: haystack

/-- Some prefix stands in the text with enough allowed bytes right after it. -/
def prefixedToken (bytes : Bytes) (prefixes : List Bytes) (suffixLength : Nat)
    (allowed : UInt8 → Bool) : Bool :=
  prefixes.any fun before => bytes.tails.any fun rest =>
    before.length + suffixLength ≤ rest.length && before.isPrefixOf rest &&
      ((rest.drop before.length).take suffixLength).all allowed

def isAsciiUppercase (byte : UInt8) : Bool := 65 ≤ byte && byte ≤ 90
def isAsciiDigit (byte : UInt8) : Bool := 48 ≤ byte && byte ≤ 57
def isAsciiLowercase (byte : UInt8) : Bool := 97 ≤ byte && byte ≤ 122

def awsKeyByte (byte : UInt8) : Bool := isAsciiUppercase byte || isAsciiDigit byte

def tokenByte (byte : UInt8) : Bool :=
  isAsciiUppercase byte || isAsciiLowercase byte || isAsciiDigit byte || byte = 95 || byte = 45

def matchesSecret (pattern : ChangeSetSecretPatternV3) (bytes : Bytes) : Bool :=
  match pattern with
  | .pemPrivateKey =>
    contains bytes (stringBytes "-----BEGIN") && contains bytes (stringBytes "PRIVATE KEY-----")
  | .awsAccessKeyId =>
    prefixedToken bytes [stringBytes "AKIA", stringBytes "ASIA"] 16 awsKeyByte
  | .gitHubToken =>
    prefixedToken bytes (["ghp_", "gho_", "ghu_", "ghs_", "ghr_", "github_pat_"].map stringBytes) 20
      tokenByte
  | .openAiApiKey =>
    prefixedToken bytes [stringBytes "sk-proj-", stringBytes "sk-svcacct-"] 20 tokenByte ||
      prefixedToken bytes [stringBytes "sk-"] 32 tokenByte

/-! ## The candidate -/

/-- What Git and the workspace answer about one candidate; texts come trimmed. -/
structure CandidateValidation where
  base : String
  /-- `merge-base --is-ancestor`. -/
  isAncestor : Except CaptureError Unit
  /-- `rev-parse` of the candidate's parent. -/
  parent : Except CaptureError String
  /-- The ownership and the kind of the entry in the workspace. -/
  materializedOwner : String → Except CaptureError Unit
  /-- `cat-file -s`, a number of bytes if it is one. -/
  blobSize : String → Except CaptureError (Option UInt64)
  /-- `cat-file blob`, at most so many bytes. -/
  blob : String → UInt64 → Except CaptureError Bytes
  sha256 : Bytes → String

structure CandidateInspection where
  containsBinary : Bool
  fileSizes : String → Option UInt64

/-- The variables of the loop over the changed paths, and the paths it went over. -/
structure Inspected where
  totalBytes : UInt64
  inspection : CandidateInspection
  changedPaths : List ChangedPath

def checkedAdd (a b : UInt64) : Option UInt64 :=
  if a.toNat + b.toNat < UInt64.size then some (a + b) else none

section

variable (validation : CandidateValidation) (policy : ChangeSetCapturePolicyV3)

/-- Whether a binary blob was met, now or before; the target of a link is none. -/
def inspectBlob (changed : ChangedPath) (bytes : Bytes) (containsBinary : Bool) :
    Except CaptureError Bool :=
  if changed.newMode = "120000" then do
    validateSymlinkTarget changed.path bytes
    return containsBinary
  else if isBinary bytes then
    if policy.binaryPolicy = .reject then .error (.policy .binary) else .ok true
  else .ok containsBinary

def inspectChange (state : Inspected) (changed : ChangedPath) : Except CaptureError Inspected := do
  validateChangedPath changed policy
  if changed.newMode = "000000" then
    return { state with changedPaths := state.changedPaths ++ [changed] }
  validation.materializedOwner changed.path
  let size ← okOr (← validation.blobSize changed.path) (.policy .fileSize)
  if policy.maxFileBytes < size then throw (.policy .fileSize)
  let totalBytes ← okOr (checkedAdd state.totalBytes size) (.policy .totalBytes)
  if policy.maxTotalBytes < totalBytes then throw (.policy .totalBytes)
  let bytes ← validation.blob changed.path policy.maxFileBytes
  if bytes.length ≠ size.toNat then throw (.policy .fileSize)
  let containsBinary ← inspectBlob policy changed bytes state.inspection.containsBinary
  if policy.forbiddenSecretPatterns.any (matchesSecret · bytes) then throw (.policy .secret)
  return {
    totalBytes
    inspection :=
      { containsBinary
        fileSizes := fun path =>
          if path = changed.path then some size else state.inspection.fileSizes path }
    changedPaths :=
      state.changedPaths ++ [{ changed with contentSha256 := some (validation.sha256 bytes) }] }

/-- The inspection with the changed paths as they are after it. -/
def validateCandidate (changedPaths : List ChangedPath) :
    Except CaptureError (CandidateInspection × List ChangedPath) := do
  if changedPaths = [] && !policy.allowEmpty then throw (.policy .emptyChange)
  if policy.maxChangedPaths.toNat < changedPaths.length then throw (.policy .changedPathCount)
  validation.isAncestor.mapError fun _ => .policy .baseMismatch
  if (← validation.parent) ≠ validation.base then throw (.policy .baseMismatch)
  let state ← changedPaths.foldlM (inspectChange validation policy) ⟨0, ⟨false, fun _ => none⟩, []⟩
  return (state.inspection, state.changedPaths)

end

/-! ## What is accepted -/

/-- A changed path that both checks accept, with the bytes of its blob. -/
structure Accepted (policy : ChangeSetCapturePolicyV3) (blob : String → Bytes)
    (changed : ChangedPath) : Prop where
  path : validateChangedPath changed policy = .ok ()
  target : changed.newMode = "120000" → validateSymlinkTarget changed.path (blob changed.path) = .ok ()

section

variable (validation : CandidateValidation) (policy : ChangeSetCapturePolicyV3)
  (changed : ChangedPath)

/-- The bytes a change leaves at its path; a deletion leaves none. -/
def blobOf (path : String) : Bytes :=
  (validation.blob path policy.maxFileBytes).toOption.getD []

def sizeOf : Nat :=
  if changed.newMode = "000000" then 0 else (blobOf validation policy changed.path).length

/-- The change as it is captured. -/
def captured : ChangedPath :=
  if changed.newMode = "000000" then changed
  else { changed with
    contentSha256 := some (validation.sha256 (blobOf validation policy changed.path)) }

/-- The bytes of a change are allowed. -/
structure Clean : Prop where
  small : sizeOf validation policy changed ≤ policy.maxFileBytes.toNat
  text : changed.newMode ∉ ["000000", "120000"] → policy.binaryPolicy = .reject →
    isBinary (blobOf validation policy changed.path) = false
  secret : changed.newMode ≠ "000000" →
    ∀ pattern ∈ policy.forbiddenSecretPatterns,
      matchesSecret pattern (blobOf validation policy changed.path) = false

end

section

variable {validation : CandidateValidation} {policy : ChangeSetCapturePolicyV3}
  {changed : ChangedPath}

theorem checkedAdd_eq_some {a b c : UInt64} (h : checkedAdd a b = some c) :
    c.toNat = a.toNat + b.toNat := by
  unfold checkedAdd at h
  split at h
  · cases h
    rw [UInt64.toNat_add]
    exact Nat.mod_eq_of_lt ‹_›
  · cases h

theorem inspectBlob_eq_ok {bytes : Bytes} {before after : Bool}
    (h : inspectBlob policy changed bytes before = .ok after) :
    (changed.newMode = "120000" → validateSymlinkTarget changed.path bytes = .ok ()) ∧
      (changed.newMode ≠ "120000" → policy.binaryPolicy = .reject → isBinary bytes = false) := by
  unfold inspectBlob at h
  split at h
  · rename_i hlink
    exact ⟨fun _ => (check_eq_ok.mp h).1, absurd hlink⟩
  · rename_i hlink
    refine ⟨fun h => absurd h hlink, fun _ hreject => Bool.of_not_eq_true fun hbinary => ?_⟩
    rw [if_pos hbinary, if_pos hreject] at h
    cases h

theorem inspectChange_eq_ok {state state' : Inspected}
    (h : inspectChange validation policy state changed = .ok state') :
    Accepted policy (blobOf validation policy) changed ∧ Clean validation policy changed ∧
      state'.totalBytes.toNat = state.totalBytes.toNat + sizeOf validation policy changed ∧
      (state.totalBytes ≤ policy.maxTotalBytes → state'.totalBytes ≤ policy.maxTotalBytes) ∧
      state'.changedPaths = state.changedPaths ++ [captured validation policy changed] := by
  obtain ⟨hpath, h⟩ := check_eq_ok.mp h
  by_cases hdel : changed.newMode = "000000"
  · rw [if_pos hdel] at h
    cases h
    refine ⟨⟨hpath, ?_⟩, ⟨?_, ?_, absurd hdel⟩, ?_, id, ?_⟩ <;>
      simp [sizeOf, captured, hdel]
  · rw [if_neg hdel] at h
    obtain ⟨-, h⟩ := check_eq_ok.mp h
    obtain ⟨reported, -, h⟩ := bind_eq_ok.mp h
    obtain ⟨size, -, h⟩ := bind_eq_ok.mp h
    obtain ⟨hsmall, h⟩ := guard_eq_ok.mp h
    obtain ⟨total, htotal, h⟩ := bind_eq_ok.mp h
    obtain ⟨hlimit, h⟩ := guard_eq_ok.mp h
    obtain ⟨bytes, hbytes, h⟩ := bind_eq_ok.mp h
    obtain ⟨hlen, h⟩ := guard_eq_ok.mp h
    obtain ⟨binary, hbinary, h⟩ := bind_eq_ok.mp h
    obtain ⟨hsecret, h⟩ := guard_eq_ok.mp h
    cases h
    obtain rfl : blobOf validation policy changed.path = bytes := by rw [blobOf, hbytes]; rfl
    obtain ⟨htgt, htext⟩ := inspectBlob_eq_ok hbinary
    have hsize : sizeOf validation policy changed = size.toNat :=
      (if_neg hdel).trans (not_not.mp hlen)
    refine ⟨⟨hpath, htgt⟩, ⟨?_, ?_, fun _ => by simpa using hsecret⟩, ?_,
      fun _ => UInt64.not_lt.mp hlimit, ?_⟩
    · rw [hsize]
      exact UInt64.not_lt.mp hsmall
    · exact fun hmode => htext fun hlink => hmode (by simp [hlink])
    · rw [hsize, checkedAdd_eq_some (okOr_eq_ok.mp htotal)]
    · rw [captured, if_neg hdel]

theorem inspectChanges_eq_ok {changes : List ChangedPath} {state state' : Inspected}
    (h : changes.foldlM (inspectChange validation policy) state = .ok state') :
    (∀ changed ∈ changes, Accepted policy (blobOf validation policy) changed ∧
        Clean validation policy changed) ∧ state'.totalBytes.toNat =
        state.totalBytes.toNat + (changes.map (sizeOf validation policy)).sum ∧
      (state.totalBytes ≤ policy.maxTotalBytes → state'.totalBytes ≤ policy.maxTotalBytes) ∧
      state'.changedPaths = state.changedPaths ++ changes.map (captured validation policy) := by
  induction changes generalizing state with
  | nil =>
    cases h
    simp
  | cons changed rest ih =>
    obtain ⟨next, hnext, hrest⟩ := bind_eq_ok.mp h
    obtain ⟨hacc, hclean, htotal, hlimit, hpaths⟩ := inspectChange_eq_ok hnext
    obtain ⟨hall, htotals, hlimits, hcaptured⟩ := ih hrest
    refine ⟨forall_mem_cons.mpr ⟨⟨hacc, hclean⟩, hall⟩, ?_, hlimits ∘ hlimit, ?_⟩
    · rw [htotals, htotal, map_cons, sum_cons, Nat.add_assoc]
    · rw [hcaptured, hpaths, map_cons, append_assoc]
      rfl

/-- Every change of a valid candidate is accepted and clean, on the bytes it is captured with, and
all of them together are within the limit. -/
theorem validateCandidate_accepts {changes captures : List ChangedPath}
    {inspection : CandidateInspection}
    (h : validateCandidate validation policy changes = .ok (inspection, captures)) :
    changes.length ≤ policy.maxChangedPaths.toNat ∧ validation.parent = .ok validation.base ∧
      (∀ changed ∈ changes, Accepted policy (blobOf validation policy) changed ∧
        Clean validation policy changed) ∧
      (changes.map (sizeOf validation policy)).sum ≤ policy.maxTotalBytes.toNat ∧
      captures = changes.map (captured validation policy) := by
  obtain ⟨-, h⟩ := guard_eq_ok.mp h
  obtain ⟨hcount, h⟩ := guard_eq_ok.mp h
  obtain ⟨-, -, h⟩ := bind_eq_ok.mp h
  obtain ⟨parent, hpar, h⟩ := bind_eq_ok.mp h
  obtain ⟨hbase, h⟩ := guard_eq_ok.mp h
  obtain ⟨state, hloop, h⟩ := bind_eq_ok.mp h
  cases h
  obtain ⟨hall, htotal, hlimit, hcaptured⟩ := inspectChanges_eq_ok hloop
  refine ⟨not_lt.mp hcount, by rw [hpar, not_not.mp hbase], hall, ?_, hcaptured⟩
  rw [← Nat.zero_add (List.sum _), ← show (0 : UInt64).toNat = 0 from rfl, ← htotal]
  exact hlimit (UInt64.zero_le)

end

/-! # Trees of revisions

The tree of a revision as Git lists it, file by file, and as a checkout of it
resolves paths.  Directories are implied by the paths below them.
-/

open StateTransition (Reaches)

structure TreeEntry where
  path : List Bytes
  mode : String
  content : Bytes
  deriving DecidableEq

/-- The files, links and submodules of a revision: none stands below another one. -/
structure RepositoryTree where
  entries : List TreeEntry
  separate : ∀ entry ∈ entries, ∀ other ∈ entries, entry.path <+: other.path → entry = other

/-- A submodule is a directory that the tree has nothing in. -/
def TreeEntry.node (entry : TreeEntry) : Node Bytes :=
  if entry.mode = "160000" then .directory
  else if entry.mode = "120000" then .ofTarget entry.content
  else .file

namespace RepositoryTree

variable (tree : RepositoryTree)

def find (path : List Bytes) : Option TreeEntry := tree.entries.find? (·.path = path)

def node (path : List Bytes) : Option (Node Bytes) :=
  match tree.find path with
  | some entry => some entry.node
  | none => if tree.entries.any (path.isPrefixOf ·.path) then some .directory else none

variable {tree}

theorem find_eq_some {path : List Bytes} {entry : TreeEntry} :
    tree.find path = some entry ↔ entry ∈ tree.entries ∧ entry.path = path := by
  constructor
  · intro h
    exact ⟨mem_of_find?_eq_some h, by simpa using List.find?_some h⟩
  · rintro ⟨hmem, rfl⟩
    cases hfind : tree.find entry.path with
    | none =>
      have hnone := List.find?_eq_none.mp hfind entry hmem
      simp at hnone
    | some other =>
      have hother : other.path = entry.path := by simpa using List.find?_some hfind
      rw [tree.separate other (mem_of_find?_eq_some hfind) entry hmem (by rw [hother])]

/-- Something stands at a path exactly when an entry has it as its path or below it. -/
theorem node_ne_none {path : List Bytes} :
    tree.node path ≠ none ↔ ∃ entry ∈ tree.entries, path <+: entry.path := by
  unfold node
  split
  · rename_i entry hfind
    obtain ⟨hmem, hpath⟩ := find_eq_some.mp hfind
    simp only [ne_eq, reduceCtorEq, not_false_eq_true, true_iff]
    exact ⟨entry, hmem, by rw [hpath]⟩
  · simp

theorem node_parent {directory : List Bytes} {name : Bytes}
    (h : tree.node (directory ++ [name]) ≠ none) : tree.node directory = some .directory := by
  obtain ⟨entry, hmem, hbelow⟩ := node_ne_none.mp h
  have habove : directory <+: entry.path := (prefix_append _ _).trans hbelow
  have hnone : tree.find directory = none := by
    rw [Option.eq_none_iff_forall_ne_some]
    intro other hfind
    obtain ⟨hother, hpath⟩ := find_eq_some.mp hfind
    have hsame := tree.separate other hother entry hmem (by rw [hpath]; exact habove)
    rw [← hsame, hpath] at hbelow
    have hlen := hbelow.length_le
    simp at hlen
  rw [node, hnone]
  simp only [any_eq_true, isPrefixOf_iff_prefix]
  exact if_pos ⟨entry, hmem, habove⟩

variable (tree)

/-- The tree as paths are resolved in it, checked out under a directory with others above it. -/
def files : FileTree Bytes where
  lookup := tree.node
  closed := false
  parents _ _ h _ := node_parent h

/-- No path of names leads out of the tree. -/
def Confined : Prop :=
  ∀ path : List Bytes, ¬Reaches tree.files.step (.inside [] (path.map .name)) .outside

end RepositoryTree

/-- The candidate has the blobs of the changed paths in place of what the base has there. -/
def Results (base candidate : RepositoryTree) (changes : List ChangedPath) (blob : String → Bytes) :
    Prop :=
  ∀ path, candidate.find path =
    match changes.find? (fun changed => splitSlash (stringBytes changed.path) = path) with
    | none => base.find path
    | some changed =>
      if changed.newMode = "000000" then none
      else some ⟨path, changed.newMode, blob changed.path⟩

/-- Some change is of this path. -/
def Changes (changes : List ChangedPath) (path : List Bytes) : Prop :=
  ∃ changed ∈ changes, splitSlash (stringBytes changed.path) = path

end OctaCity.ChangeSet
