/-
  OctaCity.ChangeSet.Links

  Where the links of an accepted candidate lead.  The check of a target takes its
  segments as they stand, so it is right about every target whose walk meets no
  other link; and links the change leaves alone are not looked at again, so they
  are fine as long as the directories on their way are those of the base.
-/
import OctaCity.ChangeSet.Policy

namespace OctaCity.ChangeSet

open Lib List RepositoryTree
open Lib.FileTree (Plain leaves_iff plain_of_reaches)
open Runner (Bytes stringBytes stringFromUtf8)
open StateTransition (Reaches)

/-! ## The check of a target -/

variable {path : String} {bytes : Bytes} {enters : List Bytes → Prop} {start : List Bytes}
  {consumed left : List (Segment Bytes)} {tree : RepositoryTree}

/-- The segments of an accepted target are resolved one after the other. -/
theorem validateSymlinkTarget_eq_ok
    (h : validateSymlinkTarget path bytes = .ok ()) : bytes.head? ≠ some 47 ∧
      ∃ resolved, (splitSlash bytes).foldlM resolveSegment (splitSlash (stringBytes path)).dropLast =
        .ok resolved := by
  unfold validateSymlinkTarget at h
  split at h
  · cases h
  · obtain ⟨hguard, h⟩ := guard_eq_ok.mp h
    obtain ⟨resolved, hresd, -⟩ := bind_eq_ok.mp h
    exact ⟨fun hhead => hguard (.inr (.inl hhead)), resolved, hresd⟩

variable {resolved : List Bytes} {text name : Bytes}

theorem resolveSegment_stay (h : Segment.parse text = .stay) :
    resolveSegment resolved text = .ok resolved := by
  unfold Segment.parse at h
  split at h
  · rename_i hstay
    rw [resolveSegment, if_pos hstay]
  · split at h <;> cases h

theorem resolveSegment_up (h : Segment.parse text = .up) : resolveSegment resolved text =
      if resolved = [] then .error (.policy .symlink) else .ok resolved.dropLast := by
  unfold Segment.parse at h
  split at h
  · cases h
  · rename_i hstay
    split at h
    · rename_i hup
      rw [resolveSegment, if_neg hstay, if_pos hup]
    · cases h

theorem resolveSegment_name
    (h : Segment.parse text = .name name) : resolveSegment resolved text = .ok (resolved ++ [name]) := by
  unfold Segment.parse at h
  split at h
  · cases h
  · rename_i hstay
    split at h
    · cases h
    · rename_i hup
      cases h
      rw [resolveSegment, if_neg hstay, if_neg hup]

/-- A plain walk goes where the check resolves its segments to. -/
theorem foldlM_resolveSegment {directory last : List Bytes}
    {texts : List Bytes} (h : Plain enters directory (texts.map Segment.parse) last) :
    texts.foldlM resolveSegment directory = .ok last := by
  generalize hsegs : texts.map Segment.parse = segments at h
  induction h generalizing texts with
  | done directory =>
    rw [map_eq_nil_iff] at hsegs
    rw [hsegs]
    rfl
  | stay _ ih =>
    obtain ⟨text, texts, rfl, htext, hrest⟩ := map_eq_cons_iff.mp hsegs
    rw [foldlM_cons, resolveSegment_stay htext]
    exact ih hrest
  | up _ ih =>
    obtain ⟨text, texts, rfl, htext, hrest⟩ := map_eq_cons_iff.mp hsegs
    rw [foldlM_cons, resolveSegment_up htext, if_neg (by simp), dropLast_concat]
    exact ih hrest
  | name _ _ ih =>
    obtain ⟨text, texts, rfl, htext, hrest⟩ := map_eq_cons_iff.mp hsegs
    rw [foldlM_cons, resolveSegment_name htext]
    exact ih hrest

/-- No accepted target goes up from the top along a plain walk. -/
theorem not_plain_to_top (h : validateSymlinkTarget path bytes = .ok ())
    (hpath : splitSlash (stringBytes path) = start ++ [name])
    (htgt : (splitSlash bytes).map Segment.parse = consumed ++ .up :: left) :
    ¬Plain enters start consumed [] := by
  intro hplain
  obtain ⟨-, resolved, hresd⟩ := validateSymlinkTarget_eq_ok h
  obtain ⟨before, after, hsplit, rfl, hafter⟩ := map_eq_append_iff.mp htgt
  obtain ⟨text, rest, rfl, htext, -⟩ := map_eq_cons_iff.mp hafter
  rw [hpath, dropLast_concat, hsplit, foldlM_append, foldlM_resolveSegment hplain] at hresd
  obtain ⟨top, htop, hresd⟩ := bind_eq_ok.mp hresd
  cases htop
  obtain ⟨next, hnext, -⟩ := bind_eq_ok.mp hresd
  rw [resolveSegment_up htext, if_pos rfl] at hnext
  cases hnext

/-! ## The links of a candidate -/

namespace RepositoryTree

variable {base candidate : RepositoryTree} {changes : List ChangedPath} {blob : String → Bytes}

variable {path : List Bytes} {absolute : Bool} {target : List (Segment Bytes)}

/-- What is left alone stands in the candidate as in the base. -/
theorem find_of_unchanged (h : Results base candidate changes blob)
    (hpath : ¬Changes changes path) : candidate.find path = base.find path := by
  have hnone : changes.find? (fun changed => splitSlash (stringBytes changed.path) = path) = none := by
    refine List.find?_eq_none.mpr fun changed hmem hsame => hpath ⟨changed, hmem, ?_⟩
    simpa using hsame
  rw [h path, hnone]

/-- Links come from entries. -/
theorem node_eq_link : tree.node path = some (.link absolute target) ↔
      ∃ entry, tree.find path = some entry ∧ entry.node = .link absolute target := by
  unfold node
  cases hfind : tree.find path with
  | none => simp
  | some entry => simp

theorem node_of_unchanged_link (h : Results base candidate changes blob)
    (hpath : ¬Changes changes path) (hlink : candidate.node path = some (.link absolute target)) :
    base.node path = some (.link absolute target) := by
  obtain ⟨entry, hfind, hnode⟩ := node_eq_link.mp hlink
  rw [find_of_unchanged h hpath] at hfind
  exact node_eq_link.mpr ⟨entry, hfind, hnode⟩

/-- A link of a changed path is relative or absolute, with the segments the check was given. -/
theorem changed_link {policy : ChangeSetCapturePolicyV3}
    (hacc : ∀ changed ∈ changes, Accepted policy blob changed)
    (h : Results base candidate changes blob) (hpath : Changes changes path)
    (hlink : candidate.node path = some (.link absolute target)) :
    ∃ changed : ChangedPath, splitSlash (stringBytes changed.path) = path ∧
      validateSymlinkTarget changed.path (blob changed.path) = .ok () ∧
        absolute = decide ((blob changed.path).head? = some 47) ∧
          target = (splitSlash (blob changed.path)).map Segment.parse := by
  obtain ⟨entry, hfind, hnode⟩ := node_eq_link.mp hlink
  obtain ⟨known, hknown, hsame⟩ := hpath
  have hres := h path
  split at hres
  · rename_i hnone
    have := List.find?_eq_none.mp hnone known hknown
    simp [hsame] at this
  · rename_i changed hchg
    have hmem := mem_of_find?_eq_some hchg
    have hat : splitSlash (stringBytes changed.path) = path := by
      simpa using List.find?_some hchg
    rw [hfind] at hres
    split at hres
    · cases hres
    · cases hres
      unfold TreeEntry.node at hnode
      split at hnode
      · cases hnode
      · split at hnode
        · rename_i hmode
          obtain ⟨habs, htgt⟩ := Node.ofTarget_eq_link hnode
          exact ⟨changed, hat, (hacc changed hmem).target hmode, habs, htgt⟩
        · cases hnode

end RepositoryTree

/-! ## Confinement -/

/-- The walk of a target's first segments meets another link, or a directory the change has made on
the way of a link it leaves alone. -/
def Unforeseen (base candidate : RepositoryTree) (changes : List ChangedPath) (start : List Bytes)
    (name : Bytes) (consumed : List (Segment Bytes)) : Prop :=
  ∃ place, candidate.files.Visits start consumed place ∧
    ((∃ absolute target, candidate.node place = some (.link absolute target)) ∨
      (¬Changes changes (start ++ [name]) ∧ candidate.node place = some .directory ∧
        base.node place ≠ some .directory))

/-- No target steps up from the top of the candidate where its check did not foresee it. -/
def Foreseen (base candidate : RepositoryTree) (changes : List ChangedPath) : Prop :=
  ∀ (start : List Bytes) (name : Bytes) (consumed left : List (Segment Bytes)),
    candidate.node (start ++ [name]) = some (.link false (consumed ++ .up :: left)) →
      Reaches candidate.files.step (.inside start consumed) (.inside [] []) →
        ¬Unforeseen base candidate changes start name consumed

section

variable {base candidate : RepositoryTree} {changes : List ChangedPath} {blob : String → Bytes}
  {policy : ChangeSetCapturePolicyV3}

theorem confined_iff_links : tree.Confined ↔
    (∀ directory name target, tree.node (directory ++ [name]) ≠ some (.link true target)) ∧
      ∀ (start : List Bytes) (name : Bytes) (consumed left : List (Segment Bytes)),
        tree.node (start ++ [name]) = some (.link false (consumed ++ .up :: left)) →
          ¬Reaches tree.files.step (.inside start consumed) (.inside [] []) := by
  have hleaves : (∃ path : List Bytes,
      Reaches tree.files.step (.inside [] (path.map .name)) .outside) ↔ _ := leaves_iff rfl
  rw [RepositoryTree.Confined, ← not_exists, hleaves, not_or]
  refine and_congr ?_ ?_
  · simp only [not_exists]
    rfl
  · simp only [not_exists, not_and]
    rfl

section

variable (hbase : base.Confined) (hacc : ∀ changed ∈ changes, Accepted policy blob changed)
  (hres : Results base candidate changes blob)

include hbase hacc hres

/-- A link of the candidate is relative: the check refuses others, and so would the base. -/
theorem not_absolute (directory : List Bytes) (name : Bytes) (target : List (Segment Bytes)) :
    candidate.node (directory ++ [name]) ≠ some (.link true target) := by
  intro hlink
  by_cases hchg : Changes changes (directory ++ [name])
  · obtain ⟨changed, -, hvalid, habs, -⟩ :=
      changed_link hacc hres hchg hlink
    exact (validateSymlinkTarget_eq_ok hvalid).1 (of_decide_eq_true habs.symm)
  · exact (confined_iff_links.mp hbase).1 _ _ _
      (node_of_unchanged_link hres hchg hlink)

/-- A target goes up from the top only along an unforeseen walk. -/
theorem unforeseen_of_up
    (hlink : candidate.node (start ++ [name]) = some (.link false (consumed ++ .up :: left)))
    (hwalk : Reaches candidate.files.step (.inside start consumed) (.inside [] [])) :
    Unforeseen base candidate changes start name consumed := by
  by_contra hforeseen
  have hlinks : ∀ place, candidate.files.Visits start consumed place →
      ∀ absolute target, candidate.files.lookup place ≠ some (.link absolute target) :=
    fun place hvisit absolute target hnode =>
      hforeseen ⟨place, hvisit, .inl ⟨absolute, target, hnode⟩⟩
  have hplain := plain_of_reaches rfl hwalk hlinks
  by_cases hchg : Changes changes (start ++ [name])
  · obtain ⟨changed, hpath, hvalid, -, htgt⟩ :=
      changed_link hacc hres hchg hlink
    exact not_plain_to_top hvalid hpath htgt.symm hplain
  · -- The base has every directory on the way, so its own link goes up from the top.
    have hbaseWalk : Reaches base.files.step (.inside start consumed) (.inside [] []) := by
      refine hplain.reaches fun place hplace => ?_
      by_contra hnew
      exact hforeseen ⟨place, hplace.1, .inr ⟨hchg, hplace.2, hnew⟩⟩
    exact (confined_iff_links.mp hbase).2 _ _ _ _
      (node_of_unchanged_link hres hchg hlink) hbaseWalk

end

/-- Whatever paths and targets are accepted, no path leads out of the candidate exactly when no
target steps up from its top unforeseen. -/
theorem confined_iff (hbase : base.Confined)
    (hacc : ∀ changed ∈ changes, Accepted policy blob changed)
    (hres : Results base candidate changes blob) :
    candidate.Confined ↔ Foreseen base candidate changes := by
  rw [confined_iff_links]
  constructor
  · rintro ⟨-, hinside⟩ start name consumed left hlink hwalk
    exact absurd hwalk (hinside start name consumed left hlink)
  · intro hforeseen
    refine ⟨not_absolute hbase hacc hres, ?_⟩
    intro start name consumed left hlink hwalk
    exact hforeseen start name consumed left hlink hwalk
      (unforeseen_of_up hbase hacc hres hlink hwalk)

/-- It is enough that no target passes a link or a new directory before one of its `..`. -/
theorem confined_of_targets (hbase : base.Confined)
    (hacc : ∀ changed ∈ changes, Accepted policy blob changed)
    (hres : Results base candidate changes blob)
    (htargets : ∀ start name consumed left,
      candidate.node (start ++ [name]) = some (.link false (consumed ++ .up :: left)) →
        ¬Unforeseen base candidate changes start name consumed) : candidate.Confined :=
  (confined_iff hbase hacc hres).mpr fun start name consumed left hlink _ =>
    htargets start name consumed left hlink

end

/-! ## Two links that lead out -/

section Sample

def samplePolicy : ChangeSetCapturePolicyV3 where
  allowedPathPrefixes := ["."]
  forbiddenControlPaths := []
  maxChangedPaths := 3
  maxFileBytes := 64
  maxTotalBytes := 128
  allowEmpty := false
  binaryPolicy := .reject
  forbiddenSecretPatterns := [.pemPrivateKey, .awsAccessKeyId]

def sampleFile : TreeEntry := ⟨splitSlash (stringBytes "x/f"), "100644", stringBytes "text"⟩

def sampleBase : RepositoryTree where
  entries := [sampleFile]
  separate := by decide

def sampleBlob (path : String) : Bytes :=
  if path = "d1/d2/link" then stringBytes "../../x"
  else if path = "y" then stringBytes "d1/d2/link/../.."
  else if path = "d1/link" then stringBytes "../x"
  else if path = "z" then stringBytes "d1/link/../x/f"
  else []

def sampleChange (path : String) : ChangedPath := ⟨"A", path, "000000", "120000", none⟩

def sampleEntry (path : String) : TreeEntry := ⟨splitSlash (stringBytes path), "120000", sampleBlob path⟩

def sampleCandidate : RepositoryTree where
  entries := [sampleEntry "d1/d2/link", sampleEntry "y", sampleFile]
  separate := by decide

theorem sampleBase_confined : sampleBase.Confined := by
  have hfile : ∀ path absolute target, sampleBase.node path ≠ some (.link absolute target) := by
    intro path absolute target hlink
    obtain ⟨entry, hfind, hnode⟩ := node_eq_link.mp hlink
    obtain ⟨hmem, -⟩ := find_eq_some.mp hfind
    rw [mem_singleton.mp hmem] at hnode
    cases hnode
  rw [confined_iff_links]
  exact ⟨fun _ _ _ => hfile _ _ _, fun _ _ _ _ hlink => absurd hlink (hfile _ _ _)⟩

theorem sample_accepted (path : String) (hpath : path ∈ ["d1/d2/link", "y", "d1/link", "z"]) :
    Accepted samplePolicy sampleBlob (sampleChange path) := by
  simp only [mem_cons, not_mem_nil, or_false] at hpath
  obtain rfl | rfl | rfl | rfl := hpath
  · exact ⟨by decide, fun _ => by decide⟩
  · exact ⟨by decide, fun _ => by decide⟩
  · exact ⟨by decide, fun _ => by decide⟩
  · exact ⟨by decide, fun _ => by decide⟩

theorem sample_results : Results sampleBase sampleCandidate
    [sampleChange "d1/d2/link", sampleChange "y"] sampleBlob := by
  intro path
  by_cases hlink : path = splitSlash (stringBytes "d1/d2/link")
  · rw [hlink]
    decide
  · by_cases hy : path = splitSlash (stringBytes "y")
    · rw [hy]
      decide
    · simp only [RepositoryTree.find, sampleCandidate, sampleBase, sampleEntry, sampleChange,
        List.find?_cons, Ne.symm hlink, Ne.symm hy, decide_false, List.find?_nil]

/-- The links are accepted one by one, and the second leads out through the first. -/
theorem sample_leaves : Reaches sampleCandidate.files.step
    (.inside [] ([stringBytes "y"].map .name)) .outside := by
  have hwalk : sampleCandidate.files.walk 12 (.inside [] ([stringBytes "y"].map .name)) = .outside := by
    decide
  rw [← hwalk]
  exact FileTree.reaches_walk 12 _

/-- The base with a link to its directory, and a link that goes up behind that one. -/
def sampleLinked : RepositoryTree where
  entries := [sampleEntry "d1/link", sampleEntry "z", sampleFile]
  separate := by decide

theorem sampleLinked_results :
    Results sampleBase sampleLinked [sampleChange "d1/link", sampleChange "z"] sampleBlob := by
  intro path
  by_cases hlink : path = splitSlash (stringBytes "d1/link")
  · rw [hlink]
    decide
  · by_cases hz : path = splitSlash (stringBytes "z")
    · rw [hz]
      decide
    · simp only [RepositoryTree.find, sampleLinked, sampleBase, sampleEntry, sampleChange,
        List.find?_cons, Ne.symm hlink, Ne.symm hz, decide_false, List.find?_nil]

/-- Either `..` of its targets is reached below the top. -/
theorem sampleLinked_foreseen :
    Foreseen sampleBase sampleLinked [sampleChange "d1/link", sampleChange "z"] := by
  intro start name consumed left hlink hwalk
  exfalso
  obtain ⟨entry, hfind, hnode⟩ := node_eq_link.mp hlink
  obtain ⟨hmem, hpath⟩ := find_eq_some.mp hfind
  obtain rfl | rfl | rfl : entry = sampleEntry "d1/link" ∨ entry = sampleEntry "z" ∨
      entry = sampleFile := by
    simpa [sampleLinked] using hmem
  · have hsegs : (sampleEntry "d1/link").node = .link false [.up, .name (stringBytes "x")] := by
      decide
    obtain ⟨-, hsame⟩ := Node.link.inj (hsegs.symm.trans hnode)
    obtain rfl : consumed = [] := by
      cases consumed with
      | nil => rfl
      | cons _ _ => simp [List.cons_eq_append_iff] at hsame
    cases FileTree.ends_eq .refl rfl hwalk rfl
    have hlen : (sampleEntry "d1/link").path.length ≠ 1 := by decide
    exact hlen (by rw [hpath]; rfl)
  · have hsegs : (sampleEntry "z").node =
        .link false ((["d1", "link"].map (.name ∘ stringBytes)) ++
          .up :: ["x", "f"].map (.name ∘ stringBytes)) := by decide
    obtain ⟨-, hsame⟩ := Node.link.inj (hsegs.symm.trans hnode)
    obtain rfl : consumed = ["d1", "link"].map (.name ∘ stringBytes) := by
      obtain _ | ⟨_, _ | ⟨_, _ | ⟨_, _⟩⟩⟩ := consumed <;> simp at hsame
      · rw [← hsame.1, ← hsame.2.1]
        rfl
      · simp [List.cons_eq_append_iff] at hsame
    have hthrough : sampleLinked.files.walk 6
        (.inside [] (["d1", "link"].map (.name ∘ stringBytes))) = .inside [stringBytes "x"] [] := by
      decide
    obtain rfl : start = [] := by
      have := congrArg dropLast hpath
      rw [dropLast_concat] at this
      exact this.symm
    cases FileTree.ends_eq (hthrough ▸ FileTree.reaches_walk 6 _) rfl hwalk rfl
  · cases hnode

end Sample

theorem confined_iff_linked : sampleLinked.Confined := by
  have hacc : ∀ changed ∈ [sampleChange "d1/link", sampleChange "z"],
      Accepted samplePolicy sampleBlob changed := by
    simpa using And.intro (sample_accepted "d1/link" (by simp)) (sample_accepted "z" (by simp))
  exact (confined_iff sampleBase_confined hacc sampleLinked_results).mpr sampleLinked_foreseen

/-- A link to a link deep in the tree, followed by `..`: each is accepted, `y` leads out. -/
theorem accepted_links_lead_out : sampleBase.Confined ∧
    (∀ changed ∈ [sampleChange "d1/d2/link", sampleChange "y"],
      Accepted samplePolicy sampleBlob changed) ∧
      Results sampleBase sampleCandidate [sampleChange "d1/d2/link", sampleChange "y"] sampleBlob ∧
        ¬sampleCandidate.Confined := by
  refine ⟨sampleBase_confined, ?_, sample_results, fun h => h _ sample_leaves⟩
  simpa using And.intro (sample_accepted "d1/d2/link" (by simp)) (sample_accepted "y" (by simp))

def sampleValidation : CandidateValidation where
  base := "base"
  isAncestor := .ok ()
  parent := .ok "base"
  materializedOwner _ := .ok ()
  blobSize path := .ok (some (sampleBlob path).length.toUInt64)
  blob path _ := .ok (sampleBlob path)
  sha256 bytes := (stringFromUtf8 bytes).getD ""

/-- Two links and a file that is gone. -/
theorem validateCandidate_accepts_linked :
    let removed : ChangedPath := ⟨"D", "x/f", "100644", "000000", none⟩
    let changes := [sampleChange "d1/link", removed, sampleChange "z"]
    ∃ inspection captures,
      validateCandidate sampleValidation samplePolicy changes = .ok (inspection, captures) ∧
        captures.map (·.contentSha256) = [some "../x", none, some "d1/link/../x/f"] ∧
        (∀ changed ∈ changes, Accepted samplePolicy (blobOf sampleValidation samplePolicy) changed ∧
          Clean sampleValidation samplePolicy changed) ∧
        (changes.map (sizeOf sampleValidation samplePolicy)).sum ≤ 128 := by
  intro removed changes
  have hok : (validateCandidate sampleValidation samplePolicy changes).isOk := by decide
  match h : validateCandidate sampleValidation samplePolicy changes with
  | .error _ =>
    rw [h] at hok
    cases hok
  | .ok (inspection, captures) =>
    obtain ⟨-, -, hall, hsum, rfl⟩ := validateCandidate_accepts h
    exact ⟨inspection, _, rfl, by decide, hall, hsum⟩

end OctaCity.ChangeSet
