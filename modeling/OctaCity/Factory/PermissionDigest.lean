/-
  OctaCity.Factory.PermissionDigest

  The bytes a permission set is hashed as.  Every section starts with its label,
  every text and set with its length, and numbers have the width of their type, so
  the sections can be read back one after the other.
-/
import OctaCity.Factory.PermissionAlgebra
import OctaCity.Lib.Delimited
import Mathlib.Algebra.Order.BigOperators.Group.List

namespace OctaCity.Factory

open Lib List

/-! ## Encoding -/

def encodeCount (value : Nat) : List UInt8 := bigEndian 8 value

def utf8Bytes (value : String) : List UInt8 := value.toByteArray.data.toList

def encodeText (value : String) : List UInt8 :=
  encodeCount (utf8Bytes value).length ++ utf8Bytes value

def encodeReference (reference : ImmutableReference) : List UInt8 :=
  encodeText reference.identity.value ++ encodeText reference.version.value ++
    bigEndian 32 reference.digest.value

/-- A set in canonical order, after its size. -/
def encodeSet {α : Type} [LinearOrder α] (encode : α → List UInt8) (values : Finset α) :
    List UInt8 :=
  encodeCount values.card ++ (ascending values).flatMap encode

def encodeReferences (category : String) (references : Finset ImmutableReference) : List UInt8 :=
  encodeText category ++ encodeSet encodeReference references

def encodeTexts {α : Type} [LinearOrder α] (category : String) (asStr : α → String)
    (values : Finset α) : List UInt8 :=
  encodeText category ++ encodeSet (fun value => encodeText (asStr value)) values

def encodeArgument : CommandArgumentPattern → List UInt8
  | .exact value => 1 :: encodeText value
  | .any => [0]

def encodeCommand (command : CommandPermission) : List UInt8 :=
  encodeReference command.executable ++ encodeCount command.arguments.length ++
    command.arguments.flatMap encodeArgument

def encodeMode : MountMode → UInt8
  | .readOnly => 0
  | .readWrite => 1

def encodeMount (mount : MountPermission) : List UInt8 :=
  encodeText mount.root.value ++ [encodeMode mount.mode]

/-- The bytes assembled before hashing. -/
def FactoryPermissionSet.encoded (permissions : FactoryPermissionSet) : List UInt8 :=
  encodeReferences "plugins" permissions.plugins ++
  encodeReferences "executables" permissions.executables ++
  encodeReferences "tools" permissions.tools ++
  encodeText "commands" ++ encodeSet encodeCommand permissions.commands ++
  encodeText "descendants" ++ bigEndian 4 permissions.maxDescendants ++
  encodeText "mounts" ++ encodeSet encodeMount permissions.mounts ++
  encodeTexts "network" id permissions.networkHosts ++
  encodeTexts "secrets" FactoryKey.value permissions.secretProfiles ++
  encodeTexts "identities" FactoryKey.value permissions.workloadIdentityProfiles ++
  encodeText "resources" ++
  bigEndian 4 permissions.resources.cpuMillis ++
  bigEndian 8 permissions.resources.memoryBytes ++
  bigEndian 8 permissions.resources.diskBytes ++
  bigEndian 4 permissions.resources.processCount ++
  bigEndian 8 permissions.resources.elapsedMillis ++
  encodeText "outputs" ++
  encodeSet (fun kind => encodeText (FactoryKey.value kind)) permissions.outputs.kinds ++
  bigEndian 4 permissions.outputs.maxArtifactCount ++
  bigEndian 8 permissions.outputs.maxArtifactBytes ++
  bigEndian 4 permissions.outputs.maxReportCount ++
  bigEndian 8 permissions.outputs.maxReportBytes

/-- The canonical digest, for a hash of a domain and length-delimited fields. -/
def FactoryPermissionSet.digest (sha256 : String → List (List UInt8) → FactoryDigest)
    (permissions : FactoryPermissionSet) : FactoryDigest :=
  sha256 "octacity.factory.permission-set.v1" [permissions.encoded]

/-! ## Values of the source's types -/

/-- A text that fits in memory. -/
def TextFits (value : String) : Prop := value.utf8ByteSize < 256 ^ 8

instance (value : String) : Decidable (TextFits value) := inferInstanceAs (Decidable (_ < _))

structure ImmutableReference.Fits (reference : ImmutableReference) : Prop where
  identity : TextFits reference.identity.value
  version : TextFits reference.version.value
  digest : reference.digest.value < 256 ^ 32

def CommandArgumentPattern.Fits : CommandArgumentPattern → Prop
  | .exact value => TextFits value
  | .any => True

structure CommandPermission.Fits (command : CommandPermission) : Prop where
  executable : command.executable.Fits
  count : command.arguments.length < 256 ^ 8
  arguments : ∀ argument ∈ command.arguments, argument.Fits

structure SetFits {α : Type} (fits : α → Prop) (values : Finset α) : Prop where
  count : values.card < 256 ^ 8
  each : ∀ value ∈ values, fits value

/-- Every number fits the integer type it has in the source, every text and set fits memory. -/
structure FactoryPermissionSet.Fits (permissions : FactoryPermissionSet) : Prop where
  plugins : SetFits ImmutableReference.Fits permissions.plugins
  executables : SetFits ImmutableReference.Fits permissions.executables
  tools : SetFits ImmutableReference.Fits permissions.tools
  commands : SetFits CommandPermission.Fits permissions.commands
  maxDescendants : permissions.maxDescendants < 256 ^ 4
  mounts : SetFits (fun mount => TextFits mount.root.value) permissions.mounts
  networkHosts : SetFits TextFits permissions.networkHosts
  secretProfiles : SetFits (fun profile => TextFits profile.value) permissions.secretProfiles
  workloadIdentityProfiles :
    SetFits (fun profile => TextFits profile.value) permissions.workloadIdentityProfiles
  cpuMillis : permissions.resources.cpuMillis < 256 ^ 4
  memoryBytes : permissions.resources.memoryBytes < 256 ^ 8
  diskBytes : permissions.resources.diskBytes < 256 ^ 8
  processCount : permissions.resources.processCount < 256 ^ 4
  elapsedMillis : permissions.resources.elapsedMillis < 256 ^ 8
  kinds : SetFits (fun kind => TextFits kind.value) permissions.outputs.kinds
  maxArtifactCount : permissions.outputs.maxArtifactCount < 256 ^ 4
  maxArtifactBytes : permissions.outputs.maxArtifactBytes < 256 ^ 8
  maxReportCount : permissions.outputs.maxReportCount < 256 ^ 4
  maxReportBytes : permissions.outputs.maxReportBytes < 256 ^ 8

theorem TextFits.of_le {value : String} {bound : Nat} (h : value.utf8ByteSize ≤ bound)
    (hbound : bound < 256 ^ 8) : TextFits value := h.trans_lt hbound

theorem CommandPermission.Bounded.fits {command : CommandPermission} (h : command.Bounded)
    (hexec : command.executable.Fits) : command.Fits := by
  refine ⟨hexec, h.arguments.trans_lt (by decide), fun argument hmem => ?_⟩
  cases argument with
  | any => trivial
  | exact value =>
    have hbytes : value.utf8ByteSize ≤ argumentBytes command.arguments :=
      le_sum_of_mem (mem_map.mpr ⟨_, hmem, rfl⟩)
    exact TextFits.of_le (hbytes.trans h.bytes) (by decide)

theorem FactoryPath.fits (path : FactoryPath) : TextFits path.value := by
  have hcanon := path.canonical
  simp only [isCanonicalPath, decide_eq_true_eq] at hcanon
  exact TextFits.of_le hcanon.2.1 (by decide)

theorem SetFits.of_card {α : Type} {fits : α → Prop} {values : Finset α}
    (h : values.card ≤ maxPermissionEntriesPerCategory) (heach : ∀ value ∈ values, fits value) :
    SetFits fits values := ⟨h.trans_lt (by decide), heach⟩

/-- An accepted set fits as soon as its references, hosts and keys do. -/
theorem FactoryPermissionSet.Valid.fits {canonicalIp : String → Bool}
    {permissions : FactoryPermissionSet} (h : permissions.Valid canonicalIp)
    (hrefs : ∀ reference ∈ permissions.plugins ∪ (permissions.executables ∪ permissions.tools),
      reference.Fits) (hhosts : ∀ host ∈ permissions.networkHosts, TextFits host)
    (hkeys : ∀ key ∈ permissions.secretProfiles ∪ (permissions.workloadIdentityProfiles ∪
      permissions.outputs.kinds), TextFits key.value) : permissions.Fits := by
  simp only [Finset.mem_union] at hrefs hkeys
  exact
    { plugins := .of_card h.plugins fun reference hmem => hrefs reference (.inl hmem)
      executables :=
        .of_card h.executables fun reference hmem => hrefs reference (.inr (.inl hmem))
      tools := .of_card h.tools fun reference hmem => hrefs reference (.inr (.inr hmem))
      commands := .of_card h.commands fun command hmem =>
        (h.patterns command hmem).fits (hrefs _ (.inr (.inl (h.listed command hmem))))
      maxDescendants := h.maxDescendants.trans_lt (by decide)
      mounts := .of_card h.mounts fun mount _ => mount.root.fits
      networkHosts := .of_card h.networkHosts hhosts
      secretProfiles := .of_card h.secretProfiles fun key hmem => hkeys key (.inl hmem)
      workloadIdentityProfiles :=
        .of_card h.workloadIdentityProfiles fun key hmem => hkeys key (.inr (.inl hmem))
      cpuMillis := h.resources.cpuMillis.trans_lt (by decide)
      memoryBytes := h.resources.memoryBytes.trans_lt (by decide)
      diskBytes := h.resources.diskBytes.trans_lt (by decide)
      processCount := h.resources.processCount.trans_lt (by decide)
      elapsedMillis := h.resources.elapsedMillis.trans_lt (by decide)
      kinds := .of_card h.outputs.kinds fun key hmem => hkeys key (.inr (.inr hmem))
      maxArtifactCount := h.outputs.maxArtifactCount.trans_lt (by decide)
      maxArtifactBytes := h.outputs.maxArtifactBytes.trans_lt (by decide)
      maxReportCount := h.outputs.maxReportCount.trans_lt (by decide)
      maxReportBytes := h.outputs.maxReportBytes.trans_lt (by decide) }

/-! ## Reading the sections back -/

theorem delimited_count : Delimited encodeCount (· < 256 ^ 8) := delimited_bigEndian 8

theorem utf8Bytes_injective {left right : String} (h : utf8Bytes left = utf8Bytes right) :
    left = right :=
  String.toByteArray_inj.mp (ByteArray.ext (Array.toList_inj.mp h))

theorem delimited_text : Delimited encodeText TextFits :=
  delimited_count.text.comap utf8Bytes (fun _ h => h) fun _ _ => utf8Bytes_injective

theorem delimited_reference : Delimited encodeReference ImmutableReference.Fits := by
  rintro ⟨⟨identity⟩, ⟨version⟩, ⟨digest⟩⟩ ⟨⟨identity'⟩, ⟨version'⟩, ⟨digest'⟩⟩ ha hb r s h
  simp only [encodeReference, append_assoc] at h
  obtain ⟨hident, h⟩ := delimited_text ha.identity hb.identity h
  obtain ⟨hversion, h⟩ := delimited_text ha.version hb.version h
  obtain ⟨hdigest, hrest⟩ := delimited_bigEndian 32 ha.digest hb.digest h
  cases hident
  cases hversion
  cases hdigest
  exact ⟨rfl, hrest⟩

theorem delimited_argument : Delimited encodeArgument CommandArgumentPattern.Fits := by
  intro a b ha hb r s h
  cases a with
  | any =>
    cases b with
    | any => exact ⟨rfl, List.cons.inj h |>.2⟩
    | exact other => exact absurd (List.cons.inj h).1 (by decide)
  | exact value =>
    cases b with
    | any => exact absurd (List.cons.inj h).1 (by decide)
    | exact other =>
      obtain ⟨rfl, hrest⟩ := delimited_text ha hb (List.cons.inj h).2
      exact ⟨rfl, hrest⟩

theorem delimited_command : Delimited encodeCommand CommandPermission.Fits := by
  rintro ⟨executable, arguments⟩ ⟨executable', arguments'⟩ ha hb r s h
  simp only [encodeCommand, append_assoc] at h
  obtain ⟨hexec, h⟩ := delimited_reference ha.executable hb.executable h
  obtain ⟨hargs, hrest⟩ := delimited_count.counted delimited_argument
    (a := arguments) (b := arguments') ⟨ha.count, ha.arguments⟩ ⟨hb.count, hb.arguments⟩
    (by simpa only [append_assoc] using h)
  cases hexec
  cases hargs
  exact ⟨rfl, hrest⟩

theorem delimited_mount :
    Delimited encodeMount fun mount : MountPermission => TextFits mount.root.value := by
  rintro ⟨⟨root, hroot⟩, mode⟩ ⟨⟨root', hroot'⟩, mode'⟩ ha hb r s h
  simp only [encodeMount, append_assoc] at h
  obtain ⟨hpath, h⟩ := delimited_text ha hb h
  obtain ⟨hmode, hrest⟩ := Delimited.symbol trivial trivial h
  have hmodes : mode = mode' := by
    cases mode <;> cases mode' <;> first | rfl | exact absurd hmode (by decide)
  cases hpath
  cases hmodes
  exact ⟨rfl, hrest⟩

theorem delimited_set {α : Type} [LinearOrder α] {encode : α → List UInt8} {fits : α → Prop}
    (h : Delimited encode fits) : Delimited (encodeSet encode) (SetFits fits) := by
  intro a b ha hb r s hsame
  simp only [encodeSet, ← Finset.length_sort (α := α) (r := (· ≤ ·))] at hsame
  have hlists := delimited_count.counted h
    (a := a.sort (· ≤ ·)) (b := b.sort (· ≤ ·))
    ⟨by simpa using ha.count, fun value hvalue => ha.each value ((Finset.mem_sort _).mp hvalue)⟩
    ⟨by simpa using hb.count, fun value hvalue => hb.each value ((Finset.mem_sort _).mp hvalue)⟩
    hsame
  refine ⟨?_, hlists.2⟩
  calc a = (a.sort (· ≤ ·)).toFinset := (Finset.sort_toFinset a _).symm
    _ = b := by rw [hlists.1, Finset.sort_toFinset]

theorem delimited_references (category : String) :
    Delimited (encodeReferences category) (SetFits ImmutableReference.Fits) := by
  intro a b ha hb r s h
  simp only [encodeReferences, append_assoc, append_cancel_left_eq] at h
  exact delimited_set delimited_reference ha hb h

theorem delimited_texts {α : Type} [LinearOrder α] (category : String) {asStr : α → String}
    (hinj : ∀ a b, asStr a = asStr b → a = b) :
    Delimited (encodeTexts category asStr) (SetFits fun value => TextFits (asStr value)) := by
  intro a b ha hb r s h
  simp only [encodeTexts, append_assoc, append_cancel_left_eq] at h
  exact delimited_set (delimited_text.comap asStr (fun _ h => h) hinj) ha hb h

/-- Sets hashed as the same bytes are the same set. -/
theorem FactoryPermissionSet.encoded_injective {a b : FactoryPermissionSet} (ha : a.Fits)
    (hb : b.Fits) (h : a.encoded = b.encoded) : a = b := by
  have hkeys : Delimited (fun kind => encodeText (FactoryKey.value kind))
      fun kind => TextFits kind.value :=
    delimited_text.comap FactoryKey.value (fun _ h => h) fun _ _ => FactoryKey.eq_of_value
  replace h := congrArg (· ++ []) h
  unfold encoded at h
  simp only [append_assoc] at h
  obtain ⟨hplugins, h⟩ := delimited_references "plugins" ha.plugins hb.plugins h
  obtain ⟨hexecutables, h⟩ := delimited_references "executables" ha.executables hb.executables h
  obtain ⟨htools, h⟩ := delimited_references "tools" ha.tools hb.tools h
  rw [append_cancel_left_eq] at h
  obtain ⟨hcmds, h⟩ := delimited_set delimited_command ha.commands hb.commands h
  rw [append_cancel_left_eq] at h
  obtain ⟨hdescendants, h⟩ := delimited_bigEndian 4 ha.maxDescendants hb.maxDescendants h
  rw [append_cancel_left_eq] at h
  obtain ⟨hmounts, h⟩ := delimited_set delimited_mount ha.mounts hb.mounts h
  obtain ⟨hhosts, h⟩ := delimited_texts "network" (fun _ _ => id) ha.networkHosts hb.networkHosts h
  obtain ⟨hsecrets, h⟩ := delimited_texts "secrets" (fun _ _ => FactoryKey.eq_of_value) ha.secretProfiles
    hb.secretProfiles h
  obtain ⟨hids, h⟩ := delimited_texts "identities" (fun _ _ => FactoryKey.eq_of_value)
    ha.workloadIdentityProfiles hb.workloadIdentityProfiles h
  rw [append_cancel_left_eq] at h
  obtain ⟨hcpu, h⟩ := delimited_bigEndian 4 ha.cpuMillis hb.cpuMillis h
  obtain ⟨hmemory, h⟩ := delimited_bigEndian 8 ha.memoryBytes hb.memoryBytes h
  obtain ⟨hdisk, h⟩ := delimited_bigEndian 8 ha.diskBytes hb.diskBytes h
  obtain ⟨hprocesses, h⟩ := delimited_bigEndian 4 ha.processCount hb.processCount h
  obtain ⟨helapsed, h⟩ := delimited_bigEndian 8 ha.elapsedMillis hb.elapsedMillis h
  rw [append_cancel_left_eq] at h
  obtain ⟨hkinds, h⟩ := delimited_set hkeys ha.kinds hb.kinds h
  obtain ⟨hartifacts, h⟩ := delimited_bigEndian 4 ha.maxArtifactCount hb.maxArtifactCount h
  obtain ⟨hartifactBytes, h⟩ := delimited_bigEndian 8 ha.maxArtifactBytes hb.maxArtifactBytes h
  obtain ⟨hreports, h⟩ := delimited_bigEndian 4 ha.maxReportCount hb.maxReportCount h
  obtain ⟨hreportBytes, -⟩ := delimited_bigEndian 8 ha.maxReportBytes hb.maxReportBytes h
  obtain ⟨_, _, _, _, _, _, _, _, _, ⟨_, _, _, _, _⟩, ⟨_, _, _, _, _⟩⟩ := a
  obtain ⟨_, _, _, _, _, _, _, _, _, ⟨_, _, _, _, _⟩, ⟨_, _, _, _, _⟩⟩ := b
  cases hplugins
  cases hexecutables
  cases htools
  cases hcmds
  cases hdescendants
  cases hmounts
  cases hhosts
  cases hsecrets
  cases hids
  cases hcpu
  cases hmemory
  cases hdisk
  cases hprocesses
  cases helapsed
  cases hkinds
  cases hartifacts
  cases hartifactBytes
  cases hreports
  cases hreportBytes
  rfl

/-- Intersecting a set with itself leaves the bytes, so it leaves the set. -/
theorem FactoryPermissionSet.encoded_injective_push :
    pushPermissions.intersection pushPermissions = pushPermissions := by
  have hrefs : ∀ reference ∈ pushPermissions.plugins ∪
      (pushPermissions.executables ∪ pushPermissions.tools), TextFits reference.identity.value ∧
        TextFits reference.version.value ∧ reference.digest.value < 256 ^ 32 := by
    decide +kernel
  have hfits : pushPermissions.Fits :=
    (built_iff.mp pushPermissions_built).fits
      (fun reference hmem =>
        let ⟨hident, hversion, hdigest⟩ := hrefs reference hmem
        ⟨hident, hversion, hdigest⟩)
      (by decide +kernel) (by decide +kernel)
  have hsame : pushPermissions.intersection pushPermissions = pushPermissions := by decide
  exact encoded_injective (hsame ▸ hfits) hfits (congrArg encoded hsame)

end OctaCity.Factory
