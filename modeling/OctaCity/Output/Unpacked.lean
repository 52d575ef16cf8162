/-
  OctaCity.Output.Unpacked

  The links of a directory archive after it is unpacked somewhere else.  The check
  looks at where a target led in the workspace, the archive stores its text; the
  unpacked tree is a copy of what is below the root, so the two agree as long as
  the walk of the target does not leave through the root itself.
-/
import OctaCity.Output.Snapshot

namespace OctaCity.Output

open Lib List
open Lib.FileTree (Copies resolves_copy_iff)
open Runner (Bytes stringBytes)
open StateTransition (Reaches)

/-! ## The unpacked tree -/

def ArchiveEntry.node (entry : ArchiveEntry) : Node Bytes :=
  match entry.entryType with
  | .regular => .file
  | .directory => .directory
  | .symlink => .ofTarget entry.linkName

def entryNode (entries : List ArchiveEntry) (path : List Bytes) : Option (Node Bytes) :=
  (entries.find? (·.path = path)).map ArchiveEntry.node

/-- The directories above a path are all in the archive. -/
def DirectoriesLead (entries : List ArchiveEntry) (path : List Bytes) : Prop :=
  ∀ above ∈ path.dropLast.inits, above ≠ [] → entryNode entries above = some .directory

instance (entries : List ArchiveEntry) (path : List Bytes) : Decidable (DirectoriesLead entries path) :=
  inferInstanceAs (Decidable (∀ _ ∈ _, _))

/-- The archive in an empty directory, with whatever is above that directory. -/
def unpacked (entries : List ArchiveEntry) : FileTree Bytes where
  lookup path := if DirectoriesLead entries path then entryNode entries path else none
  closed := false
  parents directory n h hdir := by
    have hlead : DirectoriesLead entries (directory ++ [n]) := by
      by_contra hno
      exact h (if_neg hno)
    rw [DirectoriesLead, dropLast_concat] at hlead
    rw [if_pos, hlead directory (by simp) hdir]
    intro above habove hsome
    refine hlead above ?_ hsome
    rw [mem_inits] at habove ⊢
    exact habove.trans ( dropLast_prefix directory)

/-- The segments of a link's stored target. -/
def ArchiveEntry.segments (entry : ArchiveEntry) : List (Segment Bytes) :=
  (splitSlash entry.linkName).map Segment.parse

theorem tidy_parse (texts : List Bytes) : tidy (texts.map Segment.parse) =
    (texts.filter fun text => text ≠ [] ∧ text ≠ [46]).map Segment.parse := by
  induction texts with
  | nil => rfl
  | cons text texts ih =>
    rw [map_cons, filter_cons]
    by_cases hstay : text = [] ∨ text = [46]
    · have hparse : Segment.parse text = .stay := if_pos hstay
      rw [hparse, tidy, ih, if_neg]
      simp only [decide_eq_true_eq]
      tauto
    · rw [if_pos (by simp only [decide_eq_true_eq]; tauto), map_cons, ← ih]
      cases hparse : Segment.parse text with
      | stay =>
        rw [Segment.parse, if_neg hstay] at hparse
        split at hparse <;> cases hparse
      | up => rfl
      | name n => rfl

variable {target : Bytes} {path : List Bytes}

theorem splitSlash_portable (h : components target ≠ []) :
    splitSlash ([47].intercalate (components target)) = components target :=
  splitSlash_intercalate h fun _ hmem => not_mem_of_mem_splitSlash (mem_of_mem_filter hmem)

/-- The stored target is the text of the link without the segments that stay. -/
theorem segments_portable (h : components target ≠ []) :
    (splitSlash ([47].intercalate (components target))).map Segment.parse =
      tidy ((splitSlash target).map Segment.parse) := by
  rw [splitSlash_portable h, tidy_parse]
  rfl

theorem ofTarget_portable (hnamed : components target ≠ []) (hrelative : target.head? ≠ some 47) :
    Node.ofTarget ([47].intercalate (components target)) = (Node.ofTarget target).tidy := by
  have htgt : target ≠ [] := by
    rintro rfl
    exact hnamed rfl
  have hsegs := segments_portable hnamed
  obtain ⟨first, rest, hcpts⟩ := exists_cons_of_ne_nil hnamed
  have hfirst : first ∈ components target := by rw [hcpts]; exact mem_cons_self
  have hslash : 47 ∉ first := not_mem_of_mem_splitSlash (mem_of_mem_filter hfirst)
  have hsome : first ≠ [] := by
    have := of_mem_filter hfirst
    simp only [decide_eq_true_eq] at this
    exact this.1
  obtain ⟨byte, bytes, rfl⟩ := exists_cons_of_ne_nil hsome
  have hhead : ([47].intercalate (components target)).head? = some byte := by
    rw [hcpts]
    cases rest <;> simp [List.intercalate]
  have hbyte : byte ≠ 47 := by
    rintro rfl
    exact hslash mem_cons_self
  have hportable : [47].intercalate (components target) ≠ [] := by
    intro hnil
    rw [hnil] at hhead
    cases hhead
  rw [Node.ofTarget, if_neg hportable, hsegs, hhead, Node.ofTarget, if_neg htgt, Node.tidy]
  simp [hbyte, hrelative]

/-! ## The copy -/

/-- Every archived link resolves in the unpacked tree to the place it led to, and stays inside. -/
def SelfContained (fs : FileSystem) (root : List Bytes) (entries : List ArchiveEntry) : Prop :=
  ∀ entry ∈ entries, ∀ target, fs.kind (root ++ entry.path) = some (.link target) →
    ∃ place, fs.canonicalize (root ++ entry.path.dropLast)
        ((splitSlash target).map Segment.parse) = some (root ++ place) ∧
      (unpacked entries).Resolves entry.path.dropLast entry.segments place ∧
        ¬Reaches (unpacked entries).step (.inside entry.path.dropLast entry.segments) .outside

/-- No link below the root takes `..` at the root itself on the way to its target. -/
def KeepsInside (fs : FileSystem) (root : List Bytes) : Prop :=
  ∀ path target, path ≠ [] → fs.kind (root ++ path) = some (.link target) →
    ¬∃ rest, Reaches fs.files.step
      (.inside (root ++ path.dropLast) ((splitSlash target).map Segment.parse))
        (.inside root (.up :: rest))

section

variable {fs : FileSystem} {root : List Bytes} {entries : List ArchiveEntry}

theorem find_of_mem (h : Canonical fs root entries) {entry : ArchiveEntry} (hentry : entry ∈ entries) :
    entries.find? (·.path = entry.path) = some entry := by
  cases hfind : entries.find? (·.path = entry.path) with
  | none =>
    have hnone := List.find?_eq_none.mp hfind entry hentry
    simp at hnone
  | some other =>
    have hother : other.path = entry.path := by simpa using List.find?_some hfind
    obtain ⟨-, kind, hkind, hsame⟩ := h.recorded other (mem_of_find?_eq_some hfind)
    obtain ⟨-, kind', hkind', hsame'⟩ := h.recorded entry hentry
    rw [hother, hkind'] at hkind
    cases hkind
    rw [hother, hsame'] at hsame
    exact hsame.symm

section

variable (h : Canonical fs root entries)
  (hlinks : ∀ path target, path ≠ [] → fs.kind (root ++ path) = some (.link target) → LinkChecked fs
    root path target)

include h hlinks

/-- The archive has at each path what the source has there, with stored targets. -/
theorem entryNode_eq (hpath : path ≠ []) :
    entryNode entries path = (fs.files.lookup (root ++ path)).map Node.tidy := by
  show _ = ((fs.kind (root ++ path)).map Kind.node).map Node.tidy
  cases hkind : fs.kind (root ++ path) with
  | none =>
    have hnone : entries.find? (·.path = path) = none := by
      refine List.find?_eq_none.mpr fun entry hentry hsame => ?_
      obtain ⟨-, kind, hfound, -⟩ := h.recorded entry hentry
      rw [of_decide_eq_true hsame, hkind] at hfound
      cases hfound
    rw [entryNode, hnone]
    rfl
  | some kind =>
    obtain ⟨entry, hentry, rfl⟩ := h.complete path hpath (by rw [hkind]; nofun)
    obtain ⟨-, kind', hkind', harchived⟩ := h.recorded entry hentry
    rw [hkind] at hkind'
    cases hkind'
    rw [entryNode, find_of_mem h hentry]
    cases kind with
    | directory =>
      rw [← Option.some.inj harchived]
      rfl
    | file content executable =>
      rw [← Option.some.inj harchived]
      rfl
    | other => cases harchived
    | link target =>
      have hlink := hlinks entry.path target hpath hkind
      have hentry := Option.some.inj harchived
      have hnode : entry.node = .ofTarget ([47].intercalate (components target)) := by
        rw [← hentry]
        rfl
      rw [Option.map_some, hnode, ofTarget_portable hlink.named hlink.relative]
      rfl

/-- The unpacked tree is a copy of what is below the root. -/
theorem copies_of_canonical : Copies fs.files (unpacked entries) root where
  isOpen := rfl
  lookup directory n := by
    show (if DirectoriesLead entries (directory ++ [n]) then entryNode entries (directory ++ [n])
      else none) = _
    rw [entryNode_eq h hlinks (by simp)]
    split
    · rfl
    · rename_i hlead
      -- A directory above is missing, so nothing is there in the source either.
      cases hlook : fs.files.lookup (root ++ (directory ++ [n])) with
      | none => rfl
      | some node =>
        refine absurd (fun above habove hsome => ?_) hlead
        rw [dropLast_concat, mem_inits] at habove
        obtain ⟨rest, rfl⟩ := habove
        have hexists : fs.kind (root ++ ((above ++ rest) ++ [n])) ≠ none := by
          intro hnone
          have : fs.files.lookup (root ++ ((above ++ rest) ++ [n])) = none := by
            show (fs.kind _).map _ = _
            rw [hnone]
            rfl
          rw [this] at hlook
          cases hlook
        have habove : fs.kind (root ++ above) = some .directory := by
          clear hlook hlead
          induction rest using List.reverseRecOn generalizing n with
          | nil => exact parents above n (by simpa using hexists)
          | append_singleton rest m ih =>
            refine ih m ?_
            have := parents (above ++ (rest ++ [m])) n hexists
            rw [append_assoc, this]
            nofun
        rw [entryNode_eq h hlinks hsome]
        show ((fs.kind (root ++ above)).map Kind.node).map Node.tidy = _
        rw [habove]
        rfl
  relative directory n target := by
    intro hlook
    have hkind : (fs.kind (root ++ (directory ++ [n]))).map Kind.node = some (.link true target) :=
      hlook
    obtain ⟨kind, hfound, hnode⟩ := Option.map_eq_some_iff.mp hkind
    cases kind with
    | directory => cases hnode
    | file content executable => cases hnode
    | other => cases hnode
    | link text =>
      obtain ⟨habs, -⟩ := Node.ofTarget_eq_link hnode
      exact (hlinks _ text (by simp) hfound).relative (of_decide_eq_true habs.symm)

theorem selfContained_iff : SelfContained fs root entries ↔ KeepsInside fs root := by
  have hcopies := copies_of_canonical h hlinks
  have hentry : ∀ entry ∈ entries, ∀ target, fs.kind (root ++ entry.path) = some (.link target) →
      entry.segments = tidy ((splitSlash target).map Segment.parse) := by
    intro entry hmem target hkind
    obtain ⟨hpath, kind, hkind', harchived⟩ := h.recorded entry hmem
    rw [hkind] at hkind'
    cases hkind'
    rw [ArchiveEntry.segments, ← Option.some.inj harchived]
    exact segments_portable (hlinks entry.path target hpath hkind).named
  have hleads : ∀ path target, path ≠ [] → fs.kind (root ++ path) = some (.link target) →
      ∃ place, fs.canonicalize (root ++ path.dropLast) ((splitSlash target).map Segment.parse) =
        some (root ++ place) := by
    intro path target hpath hkind
    obtain ⟨place, hplace⟩ := (hlinks path target hpath hkind).leads
    rw [dropLast_append_of_ne_nil hpath] at hplace
    exact ⟨place, hplace⟩
  constructor
  · intro hself path target hpath hkind
    obtain ⟨entry, hmem, rfl⟩ := h.complete path hpath (by rw [hkind]; nofun)
    obtain ⟨place, hplace, hresolves, -⟩ := hself entry hmem target hkind
    rw [hentry entry hmem target hkind] at hresolves
    exact (resolves_copy_iff hcopies (fs.resolves _ _ _ hplace)).mp hresolves
  · intro hkeeps entry hmem target hkind
    have hpath := (h.recorded entry hmem).1
    obtain ⟨place, hplace⟩ := hleads entry.path target hpath hkind
    have hresolves := (resolves_copy_iff hcopies (fs.resolves _ _ _ hplace)).mpr
      (hkeeps entry.path target hpath hkind)
    rw [← hentry entry hmem target hkind] at hresolves
    exact ⟨place, hplace, hresolves, hresolves.not_outside⟩

end

end

/-- What a successful snapshot promises, and exactly when its links keep to the archive. -/
theorem archive_iff {format : HeaderFormat} {maximumBytes maxEntries : Nat} {fs : FileSystem}
    {root : List Bytes} {archive : Archive}
    (h : snapshotDirectory format maximumBytes fs root maxEntries = .ok archive) :
    (Canonical fs root archive.entries ∧ archive.entries.length ≤ maxEntries ∧
      (∀ fs' archive', fs'.kind = fs.kind →
        snapshotDirectory format maximumBytes fs' root maxEntries = .ok archive' →
          archive'.entries = archive.entries) ∧
        SelfContained fs root archive.entries) ↔ KeepsInside fs root := by
  have hcanon := canonical_of_snapshot h
  have hlinks : ∀ path target, path ≠ [] → fs.kind (root ++ path) = some (.link target) →
      LinkChecked fs root path target := fun _ _ hpath hkind => linkChecked_of_snapshot h hpath hkind
  rw [← selfContained_iff hcanon hlinks]
  constructor
  · rintro ⟨-, -, -, hself⟩
    exact hself
  · intro hself
    refine ⟨hcanon, length_le_of_snapshot h, ?_, hself⟩
    intro fs' archive' hkind h'
    exact hcanon.unique (canonical_of_snapshot h') hkind

/-! ## Listed trees -/

/-- A tree as the list of its places, each in a directory of the list. -/
structure Places where
  places : List (List Bytes × Kind)
  distinct : (places.map Prod.fst).Nodup
  above : ∀ place ∈ places, place.1 ≠ [] → (place.1.dropLast, Kind.directory) ∈ places

namespace Places

variable (tree : Places)

def kind (path : List Bytes) : Option Kind := (tree.places.find? (·.1 = path)).map Prod.snd

def readDir (directory : List Bytes) : List Bytes :=
  (tree.places.filter fun place => place.1 ≠ [] ∧ place.1.dropLast = directory).map (·.1.getLastD [])

variable {tree}

theorem kind_eq_some {kind : Kind} : tree.kind path = some kind ↔ (path, kind) ∈ tree.places := by
  rw [Places.kind, Option.map_eq_some_iff]
  constructor
  · rintro ⟨place, hfind, rfl⟩
    have hpath : place.1 = path := by simpa using List.find?_some hfind
    rw [← hpath]
    exact mem_of_find?_eq_some hfind
  · intro hmem
    cases hfind : tree.places.find? (·.1 = path) with
    | none =>
      have hnone := List.find?_eq_none.mp hfind _ hmem
      simp at hnone
    | some place =>
      have hpath : place.1 = path := by simpa using List.find?_some hfind
      have hsame : place = (path, kind) := inj_on_of_nodup_map tree.distinct
        (mem_of_find?_eq_some hfind) hmem hpath
      exact ⟨place, rfl, by rw [hsame]⟩

theorem kind_ne_none : tree.kind path ≠ none ↔ ∃ kind, (path, kind) ∈ tree.places := by
  simp only [← kind_eq_some, Option.ne_none_iff_exists']

theorem mem_readDir {directory : List Bytes} {name : Bytes} :
    name ∈ tree.readDir directory ↔ tree.kind (directory ++ [name]) ≠ none := by
  rw [kind_ne_none, readDir, mem_map]
  constructor
  · rintro ⟨⟨path, kind⟩, hmem, rfl⟩
    simp only [mem_filter, decide_eq_true_eq] at hmem
    obtain ⟨hmem, hpath, rfl⟩ := hmem
    refine ⟨kind, ?_⟩
    rw [getLastD_eq_getLast?, List.getLast?_eq_some_getLast hpath, Option.getD_some,
      dropLast_append_getLast hpath]
    exact hmem
  · rintro ⟨kind, hmem⟩
    exact ⟨(directory ++ [name], kind), by simpa using hmem, by simp⟩

theorem readDir_nodup (directory : List Bytes) : (tree.readDir directory).Nodup := by
  refine List.Nodup.map_on ?_ (tree.distinct.of_map.filter _)
  rintro ⟨path, kind⟩ hplace ⟨path', kind'⟩ hplace' hlast
  simp only [mem_filter, decide_eq_true_eq] at hplace hplace'
  obtain ⟨hmem, hpath, hdir⟩ := hplace
  obtain ⟨hmem', hpath', hdir'⟩ := hplace'
  simp only [getLastD_eq_getLast?, List.getLast?_eq_some_getLast hpath,
    List.getLast?_eq_some_getLast hpath', Option.getD_some] at hlast
  have hsame : path = path' := by
    rw [← dropLast_append_getLast hpath, ← dropLast_append_getLast hpath', hdir,
      hdir', hlast]
  exact inj_on_of_nodup_map tree.distinct hmem hmem' hsame

variable (tree)

def directoryTree : DirectoryTree where
  kind := tree.kind
  readDir := tree.readDir
  parents directory name h := by
    obtain ⟨kind, hmem⟩ := kind_ne_none.mp h
    have habove := tree.above _ hmem (by simp)
    rw [dropLast_concat] at habove
    exact kind_eq_some.mpr habove
  nodup := readDir_nodup
  listed _ _ _ := mem_readDir

/-- A file system that gives up on paths of more than so many steps. -/
def fileSystem (fuel : Nat) : FileSystem where
  toDirectoryTree := tree.directoryTree
  canonicalize := tree.directoryTree.files.resolve fuel
  resolves _ _ _ := FileTree.resolves_of_resolve

end Places

/-! ## A link by the name of its root -/

section Sample

def sampleFormat : HeaderFormat := ⟨fun _ => true, fun _ => true⟩

/-- The output `dist` and one directory in it with a link to that directory by name. -/
def sampleKept : FileSystem := Places.fileSystem
  { places :=
      [([], .directory), ([stringBytes "dist"], .directory),
        ([stringBytes "dist", stringBytes "d"], .directory),
        ([stringBytes "dist", stringBytes "d", stringBytes "l"], .link (stringBytes "../d"))]
    distinct := by decide
    above := by decide } 16

/-- The output `dist` with a link to itself by name. -/
def sampleNamed : FileSystem := Places.fileSystem
  { places :=
      [([], .directory), ([stringBytes "dist"], .directory),
        ([stringBytes "dist", stringBytes "l"], .link (stringBytes "../dist"))]
    distinct := by decide
    above := by decide } 16

def sampleArchive : Archive where
  entries := [⟨[stringBytes "l"], .symlink, stringBytes "../dist", 0o777, []⟩]
  written := 1536

theorem sampleNamed_snapshot :
    snapshotDirectory sampleFormat 4096 sampleNamed [stringBytes "dist"] 8 = .ok sampleArchive := by
  decide +kernel

def sampleKeptArchive : Archive where
  entries := [⟨[stringBytes "d"], .directory, [], 0o755, []⟩,
    ⟨[stringBytes "d", stringBytes "l"], .symlink, stringBytes "../d", 0o777, []⟩]
  written := 2048

theorem sampleKept_snapshot :
    snapshotDirectory sampleFormat 4096 sampleKept [stringBytes "dist"] 8 = .ok sampleKeptArchive := by
  decide +kernel

/-- Its link goes up from the directory it is in only. -/
theorem sampleKept_keepsInside : KeepsInside sampleKept [stringBytes "dist"] := by
  intro path target hpath hkind
  obtain ⟨rfl, rfl⟩ : path = [stringBytes "d", stringBytes "l"] ∧ target = stringBytes "../d" := by
    have hmem := Places.kind_eq_some.mp hkind
    simpa using hmem
  rintro ⟨rest, hup⟩
  have hwalk : ∀ {position next last : Position Bytes},
      sampleKept.files.step position = some next → position ≠ last →
        Reaches sampleKept.files.step position last → Reaches sampleKept.files.step next last := by
    intro position next last hstep hne hreach
    obtain hsame | ⟨next', hnext, hrest⟩ := Relation.ReflTransGen.cases_head hreach
    · exact absurd hsame hne
    · have hsame : next = next' := Option.some.inj (hstep.symm.trans hnext)
      rw [hsame]
      exact hrest
  have hpar : Reaches sampleKept.files.step
      (.inside [stringBytes "dist"] [.name (stringBytes "d")]) _ := hwalk rfl (by simp) hup
  have hback : Reaches sampleKept.files.step
      (.inside [stringBytes "dist", stringBytes "d"] []) _ := hwalk rfl (by simp) hpar
  obtain hsame | ⟨next, hnext, -⟩ := Relation.ReflTransGen.cases_head hback
  · simp at hsame
  · cases hnext

end Sample

theorem archive_iff_kept : Canonical sampleKept [stringBytes "dist"] sampleKeptArchive.entries ∧
    SelfContained sampleKept [stringBytes "dist"] sampleKeptArchive.entries := by
  obtain ⟨hcanon, -, -, hself⟩ := (archive_iff sampleKept_snapshot).mpr sampleKept_keepsInside
  exact ⟨hcanon, hself⟩

/-- `dist/l -> ../dist` is archived, and unpacked elsewhere it leads out of the directory. -/
theorem archived_link_leads_out :
    snapshotDirectory sampleFormat 4096 sampleNamed [stringBytes "dist"] 8 = .ok sampleArchive ∧
      ¬SelfContained sampleNamed [stringBytes "dist"] sampleArchive.entries := by
  refine ⟨sampleNamed_snapshot, fun hself => ?_⟩
  have hkeeps := (selfContained_iff (canonical_of_snapshot sampleNamed_snapshot)
    fun _ _ hpath hkind => linkChecked_of_snapshot sampleNamed_snapshot hpath hkind).mp hself
  exact hkeeps [stringBytes "l"] (stringBytes "../dist") (by simp) (by decide) ⟨_, .refl⟩

end OctaCity.Output
