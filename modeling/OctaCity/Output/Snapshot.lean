/-
  OctaCity.Output.Snapshot

  Deterministic snapshots of a declared output directory.  The file system is
  at rest while it is read; places in it are absolute, written from the canonical
  root of the output.  What the operating system decides is a part of it: in
  which order a directory is listed, and what a path is canonicalized to, if
  it is at all.  The archive format is a parameter where it bounds what a header
  can represent; owners, groups and times are zero in every header.
-/
import OctaCity.Agent.PermissionWire
import OctaCity.Lib.DepthFirst
import OctaCity.Lib.PathWalk
import OctaCity.Lib.Sorting
import OctaCity.Runner.Redaction

namespace OctaCity.Output

open Factory (isControl)
open Lib List
open Runner (Bytes stringBytes stringFromUtf8)

/-- Bytes by their values, so that texts are compared byte by byte. -/
scoped instance instLinearOrderUInt8 : LinearOrder UInt8 where
  le_refl a := UInt8.le_refl a
  le_trans _ _ _ := UInt8.le_trans
  lt_iff_le_not_ge a b := by
    rw [UInt8.not_le]
    exact ⟨fun h => ⟨UInt8.le_of_lt h, h⟩, fun h => h.2⟩
  le_antisymm _ _ := UInt8.le_antisymm
  le_total := UInt8.le_total
  toDecidableLE := inferInstance

/-! ## The file system -/

inductive Kind
  | directory
  | file (content : Bytes) (executable : Bool)
  | link (target : Bytes)
  | other
  deriving DecidableEq

/-- Devices and the like are no directories, as files are. -/
def Kind.node : Kind → Node Bytes
  | .directory => .directory
  | .file _ _ | .other => .file
  | .link target => .ofTarget target

/-- What stands at each place, and the names of a directory in the order it lists them. -/
structure DirectoryTree where
  kind : List Bytes → Option Kind
  readDir : List Bytes → List Bytes
  parents : ∀ directory name, kind (directory ++ [name]) ≠ none → kind directory = some .directory
  nodup : ∀ directory, (readDir directory).Nodup
  listed : ∀ directory name, kind directory = some .directory →
    (name ∈ readDir directory ↔ kind (directory ++ [name]) ≠ none)

/-- The whole file system, as paths are resolved in it. -/
def DirectoryTree.files (tree : DirectoryTree) : FileTree Bytes where
  lookup place := (tree.kind place).map Kind.node
  closed := true
  parents directory name h _ := by
    rw [tree.parents directory name (by simpa using h)]
    rfl

/-- What canonicalization returns is where the path leads. -/
structure FileSystem extends DirectoryTree where
  canonicalize : List Bytes → List (Segment Bytes) → Option (List Bytes)
  resolves : ∀ directory segments place, canonicalize directory segments = some place →
    toDirectoryTree.files.Resolves directory segments place

/-! ## Archives and links -/

inductive EntryType
  | regular
  | directory
  | symlink
  deriving DecidableEq

structure ArchiveEntry where
  path : List Bytes
  entryType : EntryType
  linkName : Bytes
  mode : Nat
  content : Bytes
  deriving DecidableEq

inductive OutputError
  | invalid (message : String)
  | invalidAt (before : String) (place : List Bytes) (after : String)
  | io (operation : String) (place : List Bytes)
  deriving DecidableEq

/-- Which paths and link names fit a header. -/
structure HeaderFormat where
  path : List Bytes → Bool
  linkName : Bytes → Bool

/-- The entries that were appended and the bytes that were written for them. -/
structure Archive where
  entries : List ArchiveEntry
  written : Nat
  deriving DecidableEq

def recordBytes : Nat := 512

/-- A header, and the content up to the next record. -/
def ArchiveEntry.size (entry : ArchiveEntry) : Nat :=
  recordBytes + (entry.content.length + (recordBytes - 1)) / recordBytes * recordBytes

def byteLimitError (maximumBytes : Nat) : OutputError :=
  .invalid ("staged output exceeds its signed byte limit of " ++ toString maximumBytes ++ " bytes")

section

variable (format : HeaderFormat) (maximumBytes : Nat)

def append (archive : Archive) (entry : ArchiveEntry) : Except OutputError Archive :=
  if !format.path entry.path then .error (.io "encode archive path" entry.path)
  else if maximumBytes < archive.written + entry.size then .error (byteLimitError maximumBytes)
  else .ok ⟨archive.entries ++ [entry], archive.written + entry.size⟩

/-- Two empty records end the archive. -/
def finish (archive : Archive) : Except OutputError Archive :=
  if maximumBytes < archive.written + 2 * recordBytes then .error (byteLimitError maximumBytes)
  else .ok { archive with written := archive.written + 2 * recordBytes }

def validatePortableComponent (value : String) : Except OutputError Unit :=
  let bytes := stringBytes value
  if bytes = [] ∨ 92 ∈ bytes ∨ 58 ∈ bytes ∨ 0 ∈ bytes ∨ value.toList.any isControl then
    .error (.invalid ("output path component '" ++ value ++ "' is not portable"))
  else .ok ()

/-- The components of a relative path: nothing is left of an empty one or of `.`. -/
def components (target : Bytes) : List Bytes :=
  (splitSlash target).filter fun component => component ≠ [] ∧ component ≠ [46]

def portableComponent (component : Bytes) : Except OutputError Unit :=
  if component = [46, 46] then .ok ()
  else
    match stringFromUtf8 component with
    | none => .error (.invalid "output symlink target is not UTF-8")
    | some value => validatePortableComponent value

def portableLinkTarget (target : Bytes) : Except OutputError Bytes := do
  (components target).forM portableComponent
  if components target = [] then throw (.invalid "output symlink target is empty")
  return [47].intercalate (components target)

/-- The target must lead below the root from where its link is. -/
def appendSymlink (fs : FileSystem) (root : List Bytes) (archive : Archive) (path : List Bytes)
    (target : Bytes) : Except OutputError Archive := do
  let place := root ++ path
  if target.head? = some 47 then
    throw (.invalidAt "output symlink '" place "' has an absolute target")
  let resolved ← okOr (fs.canonicalize place.dropLast ((splitSlash target).map Segment.parse))
    (.io "resolve symbolic link" place)
  if !root.isPrefixOf resolved then
    throw (.invalidAt "output symlink '" place "' escapes its artifact root")
  let linkName ← portableLinkTarget target
  if !format.linkName linkName then throw (.io "encode symbolic link" place)
  append format maximumBytes archive ⟨path, .symlink, linkName, 0o777, []⟩

/-! ## Traversal -/

structure DiscoveredEntry where
  archivePath : List Bytes
  name : Bytes
  deriving DecidableEq

variable (fs : FileSystem) (root : List Bytes) (maxEntries : Nat)

/-- One more entry, whatever its name is, counts against the budget of the whole archive.  The counter
is a word of a 64-bit host. -/
def discoverChild (relative : List Bytes) (found : List DiscoveredEntry × Nat) (name : Bytes) :
    Except OutputError (List DiscoveredEntry × Nat) := do
  if found.2 + 1 = 2 ^ 64 then throw (.invalid "archive entry count overflowed")
  if maxEntries < found.2 + 1 then
    throw (.invalid ("directory output exceeds " ++ toString maxEntries ++ " entries"))
  let text ← okOr (stringFromUtf8 name) (.invalid "output contains a non-UTF-8 path")
  validatePortableComponent text
  return (found.1 ++ [⟨relative ++ [name], name⟩], found.2 + 1)

/-- The children of a directory in the order of their names, with what was discovered so far. -/
def discoverChildren (relative : List Bytes) (discovered : Nat) :
    Except OutputError (List DiscoveredEntry × Nat) := do
  if fs.kind (root ++ relative) ≠ some .directory then throw (.io "read directory" (root ++ relative))
  let found ← (fs.readDir (root ++ relative)).foldlM (discoverChild maxEntries relative) ([], discovered)
  return (found.1.mergeSort fun left right => left.name ≤ right.name, found.2)

/-- The stack of the traversal, its top last. -/
structure Walk where
  pending : List DiscoveredEntry
  discovered : Nat
  archive : Archive

/-- One entry that was popped; the children of a directory are pushed in reverse. -/
def visit (child : DiscoveredEntry) (walk : Walk) : Except OutputError Walk :=
  match fs.kind (root ++ child.archivePath) with
  | none => .error (.io "inspect archive entry" (root ++ child.archivePath))
  | some (.link target) => do
    let archive ← appendSymlink format maximumBytes fs root walk.archive child.archivePath target
    return { walk with archive }
  | some .directory => do
    let archive ← append format maximumBytes walk.archive ⟨child.archivePath, .directory, [], 0o755, []⟩
    let (children, discovered) ← discoverChildren fs root maxEntries child.archivePath walk.discovered
    return ⟨walk.pending ++ children.reverse, discovered, archive⟩
  | some (.file content executable) => do
    let mode := if executable then 0o755 else 0o644
    let archive ← append format maximumBytes walk.archive ⟨child.archivePath, .regular, [], mode, content⟩
    return { walk with archive }
  | some .other =>
    .error (.invalidAt "output contains unsupported entry '" (root ++ child.archivePath) "'")

section Steps

variable {format maximumBytes fs root maxEntries}

variable {relative : List Bytes}

theorem discoverChild_eq_ok {found found' : List DiscoveredEntry × Nat}
    {name : Bytes} (h : discoverChild maxEntries relative found name = .ok found') :
    found' = (found.1 ++ [⟨relative ++ [name], name⟩], found.2 + 1) ∧ found.2 + 1 ≤ maxEntries := by
  obtain ⟨-, h⟩ := guard_eq_ok.mp h
  obtain ⟨hbud, h⟩ := guard_eq_ok.mp h
  obtain ⟨text, -, h⟩ := bind_eq_ok.mp h
  obtain ⟨-, h⟩ := check_eq_ok.mp h
  cases h
  exact ⟨rfl, Nat.le_of_not_lt hbud⟩

/-- Every name of the directory is found, within the budget. -/
theorem discover_eq_ok {names : List Bytes} {found found' : List DiscoveredEntry × Nat}
    (h : names.foldlM (discoverChild maxEntries relative) found = .ok found') :
    found' = (found.1 ++ names.map (fun name => ⟨relative ++ [name], name⟩), found.2 + names.length) ∧
      (0 < names.length → found.2 + names.length ≤ maxEntries) := by
  induction names generalizing found with
  | nil =>
    cases h
    simp
  | cons name names ih =>
    obtain ⟨next, hname, hrest⟩ := bind_eq_ok.mp h
    obtain ⟨rfl, hbud⟩ := discoverChild_eq_ok hname
    obtain ⟨rfl, hwith⟩ := ih hrest
    simp only [length_cons] at hwith ⊢
    refine ⟨by simp; omega, fun _ => ?_⟩
    by_cases hmore : 0 < names.length
    · have := hwith hmore
      omega
    · omega

/-- The names in a directory in their order; nothing else has any. -/
def childNames (fs : FileSystem) (place : List Bytes) : List Bytes :=
  if fs.kind place = some .directory then
    (fs.readDir place).mergeSort fun left right => left ≤ right
  else []

def childrenOf (fs : FileSystem) (root relative : List Bytes) : List DiscoveredEntry :=
  (childNames fs (root ++ relative)).map fun name => ⟨relative ++ [name], name⟩

theorem discoverChildren_eq_ok {discovered discovered' : Nat} {children : List DiscoveredEntry}
    (h : discoverChildren fs root maxEntries relative discovered = .ok (children, discovered')) :
    children = childrenOf fs root relative ∧ discovered' = discovered + children.length ∧
      (0 < children.length → discovered' ≤ maxEntries) := by
  obtain ⟨hdir, h⟩ := guard_eq_ok.mp h
  obtain ⟨found, hfound, h⟩ := bind_eq_ok.mp h
  obtain ⟨rfl, hwith⟩ := discover_eq_ok hfound
  cases h
  refine ⟨?_, by simp, by simpa using hwith⟩
  rw [childrenOf, childNames, if_pos (not_not.mp hdir), nil_append]
  exact (map_mergeSort (by simp)).symm

theorem append_eq_ok {archive archive' : Archive} {entry : ArchiveEntry}
    (h : append format maximumBytes archive entry = .ok archive') :
    archive'.entries = archive.entries ++ [entry] := by
  obtain ⟨-, h⟩ := guard_eq_ok.mp h
  obtain ⟨-, h⟩ := guard_eq_ok.mp h
  cases h
  rfl

theorem portableLinkTarget_eq_ok {target linkName : Bytes}
    (h : portableLinkTarget target = .ok linkName) :
    components target ≠ [] ∧ linkName = [47].intercalate (components target) := by
  obtain ⟨-, h⟩ := check_eq_ok.mp h
  obtain ⟨hcpts, h⟩ := guard_eq_ok.mp h
  cases h
  exact ⟨hcpts, rfl⟩

/-- What the archive has for a place below the root. -/
def archived (path : List Bytes) : Kind → Option ArchiveEntry
  | .directory => some ⟨path, .directory, [], 0o755, []⟩
  | .file content executable => some ⟨path, .regular, [], if executable then 0o755 else 0o644, content⟩
  | .link target => some ⟨path, .symlink, [47].intercalate (components target), 0o777, []⟩
  | .other => none

/-- A link that was checked: it is relative, is not only dots, and leads below the root. -/
structure LinkChecked (fs : FileSystem) (root path : List Bytes) (target : Bytes) : Prop where
  relative : target.head? ≠ some 47
  named : components target ≠ []
  leads : ∃ place, fs.canonicalize (root ++ path).dropLast
    ((splitSlash target).map Segment.parse) = some (root ++ place)

theorem appendSymlink_eq_ok {archive archive' : Archive} {path : List Bytes} {target : Bytes}
    (h : appendSymlink format maximumBytes fs root archive path target = .ok archive') :
    LinkChecked fs root path target ∧ archive'.entries =
      archive.entries ++ [⟨path, .symlink, [47].intercalate (components target), 0o777, []⟩] := by
  obtain ⟨hrelative, h⟩ := guard_eq_ok.mp h
  obtain ⟨resolved, hresd, h⟩ := bind_eq_ok.mp h
  obtain ⟨hbelow, h⟩ := guard_eq_ok.mp h
  obtain ⟨linkName, hname, h⟩ := bind_eq_ok.mp h
  obtain ⟨-, happend⟩ := guard_eq_ok.mp h
  obtain ⟨hnamed, rfl⟩ := portableLinkTarget_eq_ok hname
  rw [okOr_eq_ok] at hresd
  have hprefix : root <+: resolved := by simpa using hbelow
  obtain ⟨place, rfl⟩ := hprefix
  exact ⟨⟨hrelative, hnamed, place, hresd⟩, append_eq_ok happend⟩

/-- All that a visit does: one entry for what stands there, its children on the stack. -/
structure Visited (fs : FileSystem) (root : List Bytes) (maxEntries : Nat) (child : DiscoveredEntry)
    (walk walk' : Walk) (kind : Kind) (entry : ArchiveEntry) : Prop where
  found : fs.kind (root ++ child.archivePath) = some kind
  recorded : archived child.archivePath kind = some entry
  link : ∀ target, kind = .link target → LinkChecked fs root child.archivePath target
  appended : walk'.archive.entries = walk.archive.entries ++ [entry]
  pending : walk'.pending = walk.pending ++ (childrenOf fs root child.archivePath).reverse
  discovered : walk'.discovered = walk.discovered + (childrenOf fs root child.archivePath).length
  budget : 0 < (childrenOf fs root child.archivePath).length → walk'.discovered ≤ maxEntries

theorem childrenOf_of_not_directory
    (h : fs.kind (root ++ relative) ≠ some .directory) : childrenOf fs root relative = [] := by
  rw [childrenOf, childNames, if_neg h]
  rfl

theorem visit_eq_ok {child : DiscoveredEntry} {walk walk' : Walk}
    (h : visit format maximumBytes fs root maxEntries child walk = .ok walk') :
    ∃ kind entry, Visited fs root maxEntries child walk walk' kind entry := by
  unfold visit at h
  split at h
  · cases h
  · rename_i target hkind
    obtain ⟨archive, happend, h⟩ := bind_eq_ok.mp h
    obtain ⟨hlink, hents⟩ := appendSymlink_eq_ok happend
    have hleaf := childrenOf_of_not_directory (by rw [hkind]; nofun)
    cases h
    refine ⟨_, _, hkind, rfl, ?_, hents, ?_, ?_, ?_⟩
    · rintro _ ⟨⟩
      exact hlink
    all_goals simp [hleaf]
  · rename_i hkind
    obtain ⟨archive, happend, h⟩ := bind_eq_ok.mp h
    obtain ⟨⟨children, discovered⟩, hchildren, h⟩ := bind_eq_ok.mp h
    obtain ⟨rfl, rfl, hbud⟩ := discoverChildren_eq_ok hchildren
    cases h
    exact ⟨_, _, hkind, rfl, nofun, append_eq_ok happend, rfl, rfl, hbud⟩
  · rename_i content executable hkind
    obtain ⟨archive, happend, h⟩ := bind_eq_ok.mp h
    have hleaf := childrenOf_of_not_directory (by rw [hkind]; nofun)
    cases h
    refine ⟨_, _, hkind, rfl, nofun, append_eq_ok happend, ?_, ?_, ?_⟩
    all_goals simp [hleaf]
  · cases h

/-- Each visit takes one entry from the stack or from the budget. -/
theorem visit_decreases {child : DiscoveredEntry} {walk walk' : Walk}
    (hpop : walk.pending.getLast? = some child)
    (h : visit format maximumBytes fs root maxEntries child
      { walk with pending := walk.pending.dropLast } = .ok walk') :
    (maxEntries - walk'.discovered) + walk'.pending.length <
      (maxEntries - walk.discovered) + walk.pending.length := by
  obtain ⟨kind, entry, hvisd⟩ := visit_eq_ok h
  have hsome : 0 < walk.pending.length := by
    cases hwalk : walk.pending with
    | nil => simp [hwalk] at hpop
    | cons first rest => simp
  have hpend := congrArg List.length hvisd.pending
  simp only [length_append, length_dropLast, length_reverse] at hpend
  have hdisc := hvisd.discovered
  have hbud := hvisd.budget
  dsimp only at hdisc
  by_cases hchildren : 0 < (childrenOf fs root child.archivePath).length
  · have := hbud hchildren
    omega
  · omega

end Steps

/-- Pops an entry and visits it until the stack is empty. -/
def archiveEntries (walk : Walk) : Except OutputError Archive :=
  match _hpop : walk.pending.getLast? with
  | none => .ok walk.archive
  | some child =>
    match _hvisit : visit format maximumBytes fs root maxEntries child
        { walk with pending := walk.pending.dropLast } with
    | .error error => .error error
    | .ok walk' => archiveEntries walk'
termination_by (maxEntries - walk.discovered) + walk.pending.length
decreasing_by exact visit_decreases _hpop _hvisit

theorem archiveEntries_done (walk : Walk) (h : walk.pending = []) :
    archiveEntries format maximumBytes fs root maxEntries walk = .ok walk.archive := by
  rw [archiveEntries]
  split
  · rfl
  · rename_i child hpop
    rw [h] at hpop
    cases hpop

theorem archiveEntries_pop (walk : Walk) {rest : List DiscoveredEntry} {child : DiscoveredEntry}
    (h : walk.pending = rest ++ [child]) : archiveEntries format maximumBytes fs root maxEntries walk =
      (visit format maximumBytes fs root maxEntries child { walk with pending := rest }).bind
        (archiveEntries format maximumBytes fs root maxEntries) := by
  rw [archiveEntries]
  split
  · rename_i hnone
    rw [h] at hnone
    simp at hnone
  · rename_i child' hpop
    rw [h, List.getLast?_concat] at hpop
    cases hpop
    rw [h, dropLast_concat]
    split
    · rename_i error hvisit
      rw [hvisit]
      rfl
    · rename_i walk' hvisit
      rw [hvisit]
      rfl

def snapshotDirectory : Except OutputError Archive := do
  let (children, discovered) ← discoverChildren fs root maxEntries [] 0
  let archive ← archiveEntries format maximumBytes fs root maxEntries
    ⟨children.reverse, discovered, ⟨[], 0⟩⟩
  finish maximumBytes archive

end

/-! # What an archive lists

What a directory archive lists.  The stack of the traversal is the frontier of
a depth-first walk, so the entries come in the order of their paths, one for
each place below the root, however the directories list their names.

Main results: `canonical_of_snapshot`, `length_le_of_snapshot` and
`Canonical.unique`.
-/

/-- The entries are those of the places below the root, in the order of their paths: a directory
before what is in it, siblings by the bytes of their names. -/
structure Canonical (fs : FileSystem) (root : List Bytes) (entries : List ArchiveEntry) : Prop where
  ordered : entries.Pairwise fun entry other => entry.path < other.path
  recorded : ∀ entry ∈ entries, entry.path ≠ [] ∧
    ∃ kind, fs.kind (root ++ entry.path) = some kind ∧ archived entry.path kind = some entry
  complete : ∀ path, path ≠ [] → fs.kind (root ++ path) ≠ none → ∃ entry ∈ entries, entry.path = path

theorem archived_path {path : List Bytes} {kind : Kind} {entry : ArchiveEntry}
    (h : archived path kind = some entry) : entry.path = path := by
  cases kind <;> cases h <;> rfl

namespace Canonical

variable {fs fs' : FileSystem} {root : List Bytes} {entries entries' : List ArchiveEntry}

/-- An entry is in the archive exactly when it is what its place is archived as. -/
theorem mem_iff (h : Canonical fs root entries) {entry : ArchiveEntry} :
    entry ∈ entries ↔ entry.path ≠ [] ∧
      ∃ kind, fs.kind (root ++ entry.path) = some kind ∧ archived entry.path kind = some entry := by
  refine ⟨h.recorded entry, ?_⟩
  rintro ⟨hpath, kind, hkind, hentry⟩
  obtain ⟨other, hother, hsame⟩ := h.complete entry.path hpath (by rw [hkind]; nofun)
  obtain ⟨-, kind', hkind', hother'⟩ := h.recorded other hother
  rw [hsame, hkind] at hkind'
  cases hkind'
  rw [hsame, hentry] at hother'
  cases hother'
  exact hother

/-- Trees with the same places have the same archive. -/
theorem unique (h : Canonical fs root entries) (h' : Canonical fs' root entries')
    (hkind : fs'.kind = fs.kind) : entries' = entries := by
  have hmem : ∀ entry, entry ∈ entries' ↔ entry ∈ entries := by
    intro entry
    rw [h.mem_iff, h'.mem_iff, hkind]
  have hperm : entries'.Perm entries :=
    (perm_ext_iff_of_nodup (h'.ordered.imp fun hless hsame => by simp [hsame] at hless)
      (h.ordered.imp fun hless hsame => by simp [hsame] at hless)).mpr hmem
  refine hperm.eq_of_pairwise ?_ h'.ordered h.ordered
  intro entry other _ _ hless hmore
  exact absurd (hless.trans hmore) (lt_irrefl _)

end Canonical

/-! ## The invariant of the traversal -/

/-- The stack is the frontier behind the entries, everything discovered is on one of the two, and
the links among the entries were checked. -/
structure Progress (fs : FileSystem) (root : List Bytes) (maxEntries : Nat) (walk : Walk) : Prop where
  frontier : Frontier (fun path => fs.kind (root ++ path) ≠ none)
    (walk.archive.entries.map ArchiveEntry.path) (walk.pending.reverse.map DiscoveredEntry.archivePath)
  recorded : ∀ entry ∈ walk.archive.entries, ∃ kind, fs.kind (root ++ entry.path) = some kind ∧
    archived entry.path kind = some entry ∧
      ∀ target, kind = .link target → LinkChecked fs root entry.path target
  count : walk.archive.entries.length + walk.pending.length = walk.discovered
  budget : walk.discovered ≤ maxEntries

section

variable {format : HeaderFormat} {maximumBytes : Nat} {fs : FileSystem} {root : List Bytes}
  {maxEntries : Nat}

theorem parents (path : List Bytes) (name : Bytes) (h : fs.kind (root ++ (path ++ [name])) ≠ none) :
    fs.kind (root ++ path) = some .directory := by
  rw [← append_assoc] at h
  exact fs.parents (root ++ path) name h

theorem mem_childNames (place : List Bytes) (name : Bytes) :
    name ∈ childNames fs place ↔ fs.kind (place ++ [name]) ≠ none := by
  unfold childNames
  split
  · rename_i hdir
    rw [mem_mergeSort, fs.listed place name hdir]
  · rename_i hother
    simp only [not_mem_nil, false_iff, not_not]
    by_contra hchild
    exact hother (fs.parents place name hchild)

theorem childNames_sorted (place : List Bytes) : (childNames fs place).Pairwise (· < ·) := by
  unfold childNames
  split
  · have hsort := pairwise_mergeSort' (· ≤ ·) (fs.readDir place)
    have hnodup : ((fs.readDir place).mergeSort fun left right => left ≤ right).Nodup :=
      (mergeSort_perm _ _).nodup_iff.mpr (fs.nodup place)
    exact hsort.imp₂ (fun _ _ hle hne => lt_of_le_of_ne hle hne) hnodup
  · exact List.Pairwise.nil

theorem map_childrenOf (relative : List Bytes) :
    (childrenOf fs root relative).map DiscoveredEntry.archivePath =
      (childNames fs (root ++ relative)).map (relative ++ [·]) := by
  rw [childrenOf, map_map]
  rfl

theorem exists_parent (path : List Bytes) (name : Bytes) (_ : path ≠ [])
    (h : fs.kind (root ++ (path ++ [name])) ≠ none) : fs.kind (root ++ path) ≠ none := by
  rw [parents path name h]
  nofun

theorem progress_start {children : List DiscoveredEntry} {discovered : Nat}
    (h : discoverChildren fs root maxEntries [] 0 = .ok (children, discovered)) :
    Progress fs root maxEntries ⟨children.reverse, discovered, ⟨[], 0⟩⟩ where
  frontier := by
    obtain ⟨rfl, -, -⟩ := discoverChildren_eq_ok h
    rw [reverse_reverse, map_childrenOf]
    refine Frontier.start exists_parent (childNames_sorted _) fun name => ?_
    rw [mem_childNames, append_nil]
  recorded := by simp
  count := by
    obtain ⟨-, hdisc, -⟩ := discoverChildren_eq_ok h
    simp [hdisc]
  budget := by
    obtain ⟨-, hdisc, hbud⟩ := discoverChildren_eq_ok h
    by_cases hsome : 0 < children.length
    · exact hbud hsome
    · dsimp only
      omega

/-- A visit moves the top of the stack to the entries. -/
theorem Progress.visit {walk walk' : Walk} {child : DiscoveredEntry} {rest : List DiscoveredEntry}
    (h : Progress fs root maxEntries walk) (hpop : walk.pending = rest ++ [child])
    {kind : Kind} {entry : ArchiveEntry}
    (hvisd : Visited fs root maxEntries child { walk with pending := rest } walk' kind entry) :
    Progress fs root maxEntries walk' where
  frontier := by
    have hfrontier := h.frontier
    rw [hpop, reverse_append, map_append] at hfrontier
    have hnext := hfrontier.advance exists_parent (childNames_sorted (root ++ child.archivePath))
      fun name => by rw [mem_childNames, append_assoc]
    rw [hvisd.appended, hvisd.pending, map_append, map_singleton,
      archived_path hvisd.recorded, reverse_append, reverse_reverse, map_append,
      map_childrenOf]
    exact hnext
  recorded := by
    intro other hother
    rw [hvisd.appended, mem_append, mem_singleton] at hother
    obtain hother | rfl := hother
    · exact h.recorded other hother
    · rw [archived_path hvisd.recorded]
      exact ⟨kind, hvisd.found, hvisd.recorded, hvisd.link⟩
  count := by
    have hcount := h.count
    rw [hvisd.appended, hvisd.pending, hvisd.discovered]
    rw [hpop] at hcount
    simp only [length_append, length_singleton, length_reverse] at hcount ⊢
    omega
  budget := by
    have hbud := hvisd.budget
    have hdisc := hvisd.discovered
    have hbef := h.budget
    dsimp only at hdisc
    by_cases hchildren : 0 < (childrenOf fs root child.archivePath).length
    · exact hbud hchildren
    · omega

/-- The traversal ends with an empty stack. -/
theorem Progress.run {walk : Walk} {archive : Archive} (h : Progress fs root maxEntries walk)
    (hrun : archiveEntries format maximumBytes fs root maxEntries walk = .ok archive) :
    ∃ discovered, Progress fs root maxEntries ⟨[], discovered, archive⟩ := by
  induction walk using archiveEntries.induct format maximumBytes fs root maxEntries with
  | case1 walk hpop =>
    have hempty : walk.pending = [] := List.getLast?_eq_none_iff.mp hpop
    rw [archiveEntries_done _ _ _ _ _ walk hempty] at hrun
    cases hrun
    obtain ⟨pending, discovered, archive⟩ := walk
    subst hempty
    exact ⟨discovered, h⟩
  | case2 walk child hpop error hvisit =>
    obtain ⟨rest, hrest⟩ := List.getLast?_eq_some_iff.mp hpop
    rw [hrest, dropLast_concat] at hvisit
    rw [archiveEntries_pop _ _ _ _ _ walk hrest, hvisit] at hrun
    cases hrun
  | case3 walk child hpop walk' hvisit ih =>
    obtain ⟨rest, hrest⟩ := List.getLast?_eq_some_iff.mp hpop
    rw [hrest, dropLast_concat] at hvisit
    rw [archiveEntries_pop _ _ _ _ _ walk hrest, hvisit] at hrun
    obtain ⟨kind, entry, hvisd⟩ := visit_eq_ok hvisit
    exact ih (h.visit hrest hvisd) hrun

/-! ## The archive of a directory -/

section

variable {archive : Archive}
  (h : snapshotDirectory format maximumBytes fs root maxEntries = .ok archive)

include h

/-- What a successful snapshot knows about its entries. -/
theorem snapshotDirectory_eq_ok :
    ∃ discovered written, Progress fs root maxEntries ⟨[], discovered, ⟨archive.entries, written⟩⟩ := by
  obtain ⟨⟨children, discovered⟩, hchildren, h⟩ := bind_eq_ok.mp h
  obtain ⟨before, hrun, hfin⟩ := bind_eq_ok.mp h
  obtain ⟨-, hfin⟩ := guard_eq_ok.mp hfin
  cases hfin
  obtain ⟨discovered', hprog⟩ := (progress_start hchildren).run hrun
  exact ⟨discovered', before.written, hprog⟩

theorem canonical_of_snapshot : Canonical fs root archive.entries := by
  obtain ⟨discovered, written, hprog⟩ := snapshotDirectory_eq_ok h
  have hfrontier := hprog.frontier
  refine ⟨?_, ?_, ?_⟩
  · have hord := hfrontier.ordered
    rw [reverse_nil, map_nil, append_nil, pairwise_map] at hord
    exact hord
  · intro entry hentry
    obtain ⟨kind, hkind, hrecd, -⟩ := hprog.recorded entry hentry
    exact ⟨(hfrontier.mem_emitted.mp (mem_map_of_mem hentry)).1, kind, hkind, hrecd⟩
  · intro path hpath hexists
    exact mem_map.mp (hfrontier.mem_emitted.mpr ⟨hpath, hexists⟩)

theorem length_le_of_snapshot : archive.entries.length ≤ maxEntries := by
  obtain ⟨discovered, written, hprog⟩ := snapshotDirectory_eq_ok h
  have hcount := hprog.count
  have hbud := hprog.budget
  simp only [length_nil, Nat.add_zero] at hcount hbud
  omega

theorem linkChecked_of_snapshot {path : List Bytes} {target : Bytes} (hpath : path ≠ [])
    (hlink : fs.kind (root ++ path) = some (.link target)) : LinkChecked fs root path target := by
  obtain ⟨entry, hentry, hat⟩ :=
    (canonical_of_snapshot h).complete path hpath (by rw [hlink]; nofun)
  obtain ⟨discovered, written, hprog⟩ := snapshotDirectory_eq_ok h
  obtain ⟨kind, hkind, -, hchk⟩ := hprog.recorded entry hentry
  rw [hat, hlink] at hkind
  cases hkind
  rw [← hat]
  exact hchk target rfl

end

end

end OctaCity.Output
