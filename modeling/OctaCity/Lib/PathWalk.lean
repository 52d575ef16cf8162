/-
  OctaCity.Lib.PathWalk

  Resolution of paths in a tree of directories, files and symbolic links, one
  segment after the other.  A link puts its target in place of its name; `..` goes
  to the parent of the directory that was reached, through links or not.
-/
import Mathlib.Computability.StateTransition

namespace OctaCity.Lib

open List Relation
open StateTransition (Reaches)

/-- One segment of a path: empty or `.`, `..`, or a name. -/
inductive Segment (ν : Type)
  | stay
  | up
  | name (n : ν)
  deriving DecidableEq

inductive Node (ν : Type)
  | directory
  | file
  | link (absolute : Bool) (target : List (Segment ν))
  deriving DecidableEq

/-! ## Texts of paths -/

/-- A path cut at its slashes. -/
def splitSlash (text : List UInt8) : List (List UInt8) := text.splitOn 47

theorem not_mem_of_mem_splitSlash {text component : List UInt8} (h : component ∈ splitSlash text) :
    47 ∉ component := by
  unfold splitSlash List.splitOn at h
  induction text generalizing component with
  | nil =>
    rw [splitOnP_nil, mem_singleton] at h
    simp [h]
  | cons byte text ih =>
    rw [splitOnP_cons_eq_if_modifyHead] at h
    split at h
    · obtain rfl | h := mem_cons.mp h
      · simp
      · exact ih h
    · rename_i hbyte
      obtain ⟨first, rest, hsplit⟩ := exists_cons_of_ne_nil (splitOnP_ne_nil (· == 47) text)
      rw [hsplit, modifyHead_cons] at h
      obtain rfl | h := mem_cons.mp h
      · have hfirst := ih (by rw [hsplit]; exact mem_cons_self)
        rw [mem_cons, not_or]
        exact ⟨fun hsame => hbyte (by simp [← hsame]), hfirst⟩
      · exact ih (by rw [hsplit]; exact mem_cons_of_mem _ h)

/-- Components without slashes are what their joined text is cut into. -/
theorem splitSlash_intercalate {components : List (List UInt8)} (hsome : components ≠ [])
    (hslash : ∀ component ∈ components, 47 ∉ component) :
    splitSlash ([47].intercalate components) = components :=
  splitOn_intercalate 47 hslash hsome

def Segment.parse (text : List UInt8) : Segment (List UInt8) :=
  if text = [] ∨ text = [46] then .stay else if text = [46, 46] then .up else .name text

/-- A link with this text; an empty one leads nowhere. -/
def Node.ofTarget (target : List UInt8) : Node (List UInt8) :=
  if target = [] then .file
  else .link (target.head? = some 47) ((splitSlash target).map Segment.parse)

theorem Node.ofTarget_eq_link {text : List UInt8} {absolute : Bool}
    {target : List (Segment (List UInt8))} (h : ofTarget text = .link absolute target) :
    absolute = decide (text.head? = some 47) ∧ target = (splitSlash text).map Segment.parse := by
  unfold ofTarget at h
  split at h
  · cases h
  · cases h
    exact ⟨rfl, rfl⟩

/-! ## Walks -/

/-- What stands at each path below the top, always in directories, and whether there is nothing
above the top. -/
structure FileTree (ν : Type) where
  lookup : List ν → Option (Node ν)
  closed : Bool
  parents : ∀ (directory : List ν) (n : ν), lookup (directory ++ [n]) ≠ none → directory ≠ [] →
    lookup directory = some .directory

/-- A directory that was reached with what is left of the path, or outside of the tree. -/
inductive Position (ν : Type)
  | inside (directory : List ν) (remaining : List (Segment ν))
  | outside
  deriving DecidableEq

namespace FileTree

variable {ν : Type} (tree : FileTree ν)

/-- Back at the top of a closed tree, out of an open one. -/
def top (remaining : List (Segment ν)) : Position ν :=
  if tree.closed then .inside [] remaining else .outside

/-- The next segment, or nothing once the path is resolved or cannot be. -/
def step : Position ν → Option (Position ν)
  | .outside => none
  | .inside _ [] => none
  | .inside directory (.stay :: rest) => some (.inside directory rest)
  | .inside [] (.up :: rest) => some (tree.top rest)
  | .inside (first :: others) (.up :: rest) => some (.inside (first :: others).dropLast rest)
  | .inside directory (.name n :: rest) =>
    match tree.lookup (directory ++ [n]) with
    | none | some .file => none
    | some .directory => some (.inside (directory ++ [n]) rest)
    | some (.link absolute target) =>
      if absolute then some (tree.top (target ++ rest)) else some (.inside directory (target ++ rest))

/-- At most so many steps. -/
def walk : Nat → Position ν → Position ν
  | 0, position => position
  | fuel + 1, position =>
    match tree.step position with
    | none => position
    | some next => walk fuel next

variable {tree}

theorem reaches_walk (fuel : Nat) (position : Position ν) :
    Reaches tree.step position (tree.walk fuel position) := by
  induction fuel generalizing position with
  | zero => exact .refl
  | succ fuel ih =>
    rw [walk]
    split
    · exact .refl
    · rename_i next hstep
      exact (ih next).head hstep

/-- A walk ends in one way. -/
theorem ends_eq {position first second : Position ν} (hfirst : Reaches tree.step position first)
    (hdone : tree.step first = none) (hsnd : Reaches tree.step position second)
    (hdone' : tree.step second = none) : first = second := by
  obtain hmore | hmore := StateTransition.reaches_total hfirst hsnd
  · obtain hsame | ⟨next, hnext, -⟩ := ReflTransGen.cases_head hmore
    · exact hsame
    · rw [hdone] at hnext
      cases hnext
  · obtain hsame | ⟨next, hnext, -⟩ := ReflTransGen.cases_head hmore
    · exact hsame.symm
    · rw [hdone'] at hnext
      cases hnext

theorem step_up (directory : List ν) (n : ν) (rest : List (Segment ν)) :
    tree.step (.inside (directory ++ [n]) (.up :: rest)) = some (.inside directory rest) := by
  cases directory with
  | nil => rfl
  | cons first others =>
    rw [cons_append, step, ← cons_append, dropLast_concat]

/-- A step looks at the first segment only. -/
theorem step_append {directory directory' : List ν} {segments segments' : List (Segment ν)}
    (h : tree.step (.inside directory segments) = some (.inside directory' segments'))
    (rest : List (Segment ν)) : tree.step (.inside directory (segments ++ rest)) =
      some (.inside directory' (segments' ++ rest)) := by
  cases segments with
  | nil => cases h
  | cons segment segments =>
    cases segment with
    | stay =>
      cases h
      rfl
    | up =>
      cases directory with
      | cons first others =>
        cases h
        rfl
      | nil =>
        rw [step, top] at h
        rw [cons_append, step, top]
        split at h
        · rename_i hclos
          cases h
          rw [if_pos hclos]
        · cases h
    | name n =>
      rw [step] at h
      rw [cons_append, step]
      split at h
      · cases h
      · cases h
      · cases h
        rfl
      · rw [← append_assoc]
        split at h
        · rename_i habs
          rw [if_pos habs]
          rw [top] at h ⊢
          split at h
          · rename_i hclos
            cases h
            rw [if_pos hclos]
          · cases h
        · rename_i habs
          cases h
          rw [if_neg habs]

/-- A walk inside goes on as before when more of the path follows. -/
theorem reaches_append {directory directory' : List ν} {segments segments' : List (Segment ν)}
    (h : Reaches tree.step (.inside directory segments) (.inside directory' segments'))
    (rest : List (Segment ν)) : Reaches tree.step (.inside directory (segments ++ rest))
      (.inside directory' (segments' ++ rest)) := by
  generalize hend : Position.inside directory' segments' = last at h
  induction h generalizing directory' segments' with
  | refl =>
    cases hend
    exact .refl
  | tail hreach hstep ih =>
    subst hend
    rename_i middle
    cases middle with
    | outside => cases hstep
    | inside middle left => exact (ih rfl).tail (step_append hstep rest)

/-! ## Links on the way -/

/-- The rest of a path, told apart by the links whose targets it comes from: each target's walk so
far leads to the directory with the segments above it still to go, and the last part has no `..`. -/
inductive Stacked (tree : FileTree ν) (directory : List ν) :
    List (Segment ν) → List (Segment ν) → Prop
  | path {above tail : List (Segment ν)} (names : Segment.up ∉ tail) : Stacked tree directory above tail
  | target {above left rest : List (Segment ν)} (start : List ν) (n : ν)
      (consumed : List (Segment ν))
      (found : tree.lookup (start ++ [n]) = some (.link false (consumed ++ left)))
      (walked : Reaches tree.step (.inside start consumed) (.inside directory above))
      (more : Stacked tree directory (above ++ left) rest) :
      Stacked tree directory above (left ++ rest)

/-- A step over the first segment above keeps the parts below. -/
theorem Stacked.advance {directory directory' : List ν} {segment : Segment ν}
    {above rest new : List (Segment ν)}
    (hstep : tree.step (.inside directory [segment]) = some (.inside directory' new))
    (h : Stacked tree directory (segment :: above) rest) :
    Stacked tree directory' (new ++ above) rest := by
  generalize hwhole : segment :: above = whole at h
  induction h generalizing above with
  | path names => exact .path names
  | @target whole left rest start n consumed found walked more ih =>
    subst hwhole
    refine .target start n consumed found ?_ ?_
    · exact walked.tail (step_append hstep above)
    · rw [append_assoc]
      exact ih rfl

theorem Stacked.push {directory : List ν} {segment : Segment ν} {rest : List (Segment ν)}
    (h : Stacked tree directory [] (segment :: rest)) : Stacked tree directory [segment] rest := by
  generalize habove : ([] : List (Segment ν)) = above at h
  generalize hwhole : segment :: rest = whole at h
  induction h with
  | path names =>
    subst hwhole
    exact .path fun hmem => names (mem_cons_of_mem _ hmem)
  | @target above left below start n consumed found walked more ih =>
    subst habove
    cases left with
    | nil => exact ih rfl hwhole
    | cons first left =>
      obtain ⟨rfl, rfl⟩ := List.cons.inj hwhole
      refine .target start n (consumed ++ [segment]) ?_ (reaches_append walked [segment]) more
      rw [append_assoc]
      exact found

/-- What is left is told apart again after a step. -/
theorem Stacked.step (hopen : tree.closed = false) {directory directory' : List ν}
    {segments segments' : List (Segment ν)}
    (hstep : tree.step (.inside directory segments) = some (.inside directory' segments'))
    (h : Stacked tree directory [] segments) : Stacked tree directory' [] segments' := by
  cases segments with
  | nil => cases hstep
  | cons segment rest =>
    cases segment with
    | stay =>
      cases hstep
      exact h.push.advance rfl
    | up =>
      cases directory with
      | nil => simp [FileTree.step, top, hopen] at hstep
      | cons first others =>
        cases hstep
        exact h.push.advance rfl
    | name n =>
      rw [FileTree.step] at hstep
      split at hstep
      · cases hstep
      · cases hstep
      · rename_i hlook
        cases hstep
        have hmore : Stacked tree (directory ++ [n]) ([] ++ []) segments' :=
          h.push.advance (by rw [FileTree.step, hlook])
        exact hmore
      · rename_i absolute target hlook
        cases absolute with
        | true => simp [top, hopen] at hstep
        | false =>
          cases hstep
          have hmore : Stacked tree directory ((target ++ []) ++ []) rest :=
            h.push.advance (by rw [FileTree.step, hlook]; simp)
          rw [append_nil, append_nil] at hmore
          exact .target directory n [] hlook .refl hmore

theorem stacked_of_reaches (hopen : tree.closed = false) {path rest : List (Segment ν)}
    {directory : List ν} (hpath : .up ∉ path)
    (h : Reaches tree.step (.inside [] path) (.inside directory rest)) :
    Stacked tree directory [] rest := by
  generalize hend : Position.inside directory rest = last at h
  induction h generalizing directory rest with
  | refl =>
    cases hend
    exact .path hpath
  | @tail middle _ hreach hstep ih =>
    subst hend
    cases middle with
    | outside => cases hstep
    | inside middle left => exact (ih rfl).step hopen hstep

/-- The `..` a stacked path goes on with is part of a link's target. -/
theorem Stacked.up {directory : List ν} {rest : List (Segment ν)}
    (h : Stacked tree directory [] (.up :: rest)) : ∃ (start : List ν) (n : ν)
      (consumed left : List (Segment ν)),
      tree.lookup (start ++ [n]) = some (.link false (consumed ++ .up :: left)) ∧
        Reaches tree.step (.inside start consumed) (.inside directory []) := by
  generalize habove : ([] : List (Segment ν)) = above at h
  generalize hwhole : Segment.up :: rest = whole at h
  induction h with
  | path names =>
    subst hwhole
    exact absurd mem_cons_self names
  | @target above left below start n consumed found walked more ih =>
    subst habove
    cases left with
    | nil => exact ih rfl hwhole
    | cons first left =>
      obtain ⟨rfl, rfl⟩ := List.cons.inj hwhole
      exact ⟨start, n, consumed, left, found, walked⟩

/-! ## Leaving an open tree -/

/-- A tree is left from its top or through an absolute link. -/
theorem step_outside {directory : List ν} {segments : List (Segment ν)}
    (h : tree.step (.inside directory segments) = some .outside) :
    (∃ rest, directory = [] ∧ segments = .up :: rest) ∨
      ∃ n target, tree.lookup (directory ++ [n]) = some (.link true target) := by
  cases segments with
  | nil => cases h
  | cons segment rest =>
    cases segment with
    | stay => cases h
    | up =>
      cases directory with
      | nil => exact .inl ⟨rest, rfl, rfl⟩
      | cons first others => cases h
    | name n =>
      rw [step] at h
      split at h
      · cases h
      · cases h
      · cases h
      · rename_i absolute target hlook
        cases absolute with
        | true => exact .inr ⟨n, target, hlook⟩
        | false => cases h

/-- What stands in a tree is reached by its own names. -/
theorem reaches_names {directory : List ν} {n : ν} (h : tree.lookup (directory ++ [n]) ≠ none)
    (rest : List (Segment ν)) :
    Reaches tree.step (.inside [] (directory.map .name ++ rest)) (.inside directory rest) := by
  induction directory using List.reverseRecOn generalizing n rest with
  | nil => exact .refl
  | append_singleton directory last ih =>
    have hdir : tree.lookup (directory ++ [last]) = some .directory :=
      tree.parents _ n h (by simp)
    have hbef := ih (n := last) (by rw [hdir]; nofun) (.name last :: rest)
    rw [map_append, append_assoc]
    refine hbef.tail ?_
    show tree.step _ = _
    rw [step, hdir]

/-- A link of the tree sends the path that names it on along its target. -/
theorem reaches_target {directory : List ν} {n : ν} {target : List (Segment ν)}
    (h : tree.lookup (directory ++ [n]) = some (.link false target)) :
    Reaches tree.step (.inside [] ((directory ++ [n]).map .name)) (.inside directory target) := by
  rw [map_append]
  refine (reaches_names (by rw [h]; nofun) _).tail ?_
  show tree.step (.inside directory [.name n]) = _
  rw [step, h]
  simp

/-- Paths of names lead out of an open tree exactly when a link is absolute or its target goes up
from the top. -/
theorem leaves_iff (hopen : tree.closed = false) :
    (∃ path : List ν, Reaches tree.step (.inside [] (path.map .name)) .outside) ↔
      (∃ directory n target, tree.lookup (directory ++ [n]) = some (.link true target)) ∨
        ∃ (start : List ν) (n : ν) (consumed left : List (Segment ν)),
          tree.lookup (start ++ [n]) = some (.link false (consumed ++ .up :: left)) ∧
            Reaches tree.step (.inside start consumed) (.inside [] []) := by
  constructor
  · rintro ⟨path, h⟩
    obtain hsame | ⟨position, hreach, hstep⟩ := ReflTransGen.cases_tail h
    · cases hsame
    · cases position with
      | outside => cases hstep
      | inside directory segments =>
        obtain ⟨rest, rfl, rfl⟩ | ⟨n, target, hlook⟩ := step_outside hstep
        · exact .inr (stacked_of_reaches hopen (by simp) hreach).up
        · exact .inl ⟨directory, n, target, hlook⟩
  · rintro (⟨directory, n, target, hlook⟩ | ⟨start, n, consumed, left, hlook, hreach⟩)
    · refine ⟨directory ++ [n], ?_⟩
      rw [map_append]
      refine (reaches_names (by rw [hlook]; nofun) _).tail ?_
      show tree.step (.inside directory [.name n]) = _
      rw [step, hlook]
      simp [top, hopen]
    · refine ⟨start ++ [n], ((reaches_target hlook).trans (reaches_append hreach _)).tail ?_⟩
      show tree.step (.inside [] (.up :: left)) = _
      rw [step, top, hopen]
      simp

/-! ## Walks that meet no link -/

/-- The walk looks up what stands at `place`. -/
def Visits (tree : FileTree ν) (directory : List ν) (segments : List (Segment ν)) (place : List ν) :
    Prop :=
  ∃ (before : List ν) (n : ν) (rest : List (Segment ν)),
    Reaches tree.step (.inside directory segments) (.inside before (.name n :: rest)) ∧
      before ++ [n] = place

theorem Visits.head {directory directory' : List ν} {segments segments' : List (Segment ν)}
    {place : List ν}
    (hstep : tree.step (.inside directory segments) = some (.inside directory' segments'))
    (h : tree.Visits directory' segments' place) : tree.Visits directory segments place := by
  obtain ⟨before, n, rest, hreach, hplace⟩ := h
  exact ⟨before, n, rest, hreach.head hstep, hplace⟩

/-- A walk that takes every segment as it stands, through places that `enters` lets it into. -/
inductive Plain (enters : List ν → Prop) : List ν → List (Segment ν) → List ν → Prop
  | done (directory : List ν) : Plain enters directory [] directory
  | stay {directory last : List ν} {rest : List (Segment ν)} (more : Plain enters directory rest last) :
      Plain enters directory (.stay :: rest) last
  | up {directory last : List ν} {n : ν} {rest : List (Segment ν)}
      (more : Plain enters directory rest last) : Plain enters (directory ++ [n]) (.up :: rest) last
  | name {directory last : List ν} {n : ν} {rest : List (Segment ν)}
      (entered : enters (directory ++ [n])) (more : Plain enters (directory ++ [n]) rest last) :
      Plain enters directory (.name n :: rest) last

theorem Plain.mono {enters enters' : List ν → Prop} {directory last : List ν}
    {segments : List (Segment ν)} (h : Plain enters directory segments last)
    (himp : ∀ place, enters place → enters' place) : Plain enters' directory segments last := by
  induction h with
  | done directory => exact .done directory
  | stay _ ih => exact .stay ih
  | up _ ih => exact .up ih
  | name entered _ ih => exact .name (himp _ entered) ih

/-- A plain walk through directories is a walk of the tree. -/
theorem Plain.reaches {enters : List ν → Prop} {directory last : List ν}
    {segments : List (Segment ν)} (h : Plain enters directory segments last)
    (hdirectories : ∀ place, enters place → tree.lookup place = some .directory) :
    Reaches tree.step (.inside directory segments) (.inside last []) := by
  induction h with
  | done directory => exact .refl
  | stay _ ih => exact ih.head rfl
  | @up directory _ n rest _ ih =>
    refine ih.head ?_
    show tree.step (.inside (directory ++ [n]) (.up :: rest)) = some (.inside directory rest)
    rw [step_up]
  | @name directory _ n rest entered _ ih =>
    refine ih.head ?_
    show tree.step (.inside directory (.name n :: rest)) = some (.inside (directory ++ [n]) rest)
    rw [step, hdirectories _ entered]

/-- A walk in an open tree that meets no link takes every segment as it stands. -/
theorem plain_of_reaches (hopen : tree.closed = false) {directory last : List ν}
    {segments : List (Segment ν)}
    (h : Reaches tree.step (.inside directory segments) (.inside last []))
    (hlinks : ∀ place, tree.Visits directory segments place →
      ∀ absolute target, tree.lookup place ≠ some (.link absolute target)) :
    Plain (fun place => tree.Visits directory segments place ∧ tree.lookup place = some .directory)
      directory segments last := by
  induction segments generalizing directory with
  | nil =>
    obtain hsame | ⟨next, hstep, -⟩ := ReflTransGen.cases_head h
    · cases hsame
      exact .done last
    · cases hstep
  | cons segment rest ih =>
    obtain hsame | ⟨next, hstep, hreach⟩ := ReflTransGen.cases_head h
    · cases hsame
    · have hnext : ∀ {directory'}, tree.step (.inside directory (segment :: rest)) =
          some (.inside directory' rest) → Plain (fun place =>
            tree.Visits directory (segment :: rest) place ∧ tree.lookup place = some .directory)
              directory' rest last := by
        intro directory' hto
        have hsame : next = .inside directory' rest := Option.some.inj (hstep.symm.trans hto)
        subst hsame
        refine (ih hreach fun place hvisit => hlinks place (hvisit.head hto)).mono ?_
        exact fun place hplace => ⟨hplace.1.head hto, hplace.2⟩
      cases segment with
      | stay => exact .stay (hnext rfl)
      | up =>
        obtain rfl | ⟨before, n, rfl⟩ := eq_nil_or_concat directory
        · have hstep : tree.step (.inside [] (.up :: rest)) = some next := hstep
          have hout : next = .outside := by simpa [step, top, hopen] using hstep.symm
          subst hout
          obtain hsame | ⟨_, hstep, -⟩ := ReflTransGen.cases_head hreach
          · cases hsame
          · cases hstep
        · rw [concat_eq_append] at hnext ⊢
          exact .up (hnext (step_up before n rest))
      | name n =>
        have hvisit : tree.Visits directory (.name n :: rest) (directory ++ [n]) :=
          ⟨directory, n, rest, .refl, rfl⟩
        cases hlook : tree.lookup (directory ++ [n]) with
        | none =>
          have hstep : tree.step (.inside directory (.name n :: rest)) = some next := hstep
          simp [step, hlook] at hstep
        | some node =>
          cases node with
          | file =>
            have hstep : tree.step (.inside directory (.name n :: rest)) = some next := hstep
            simp [step, hlook] at hstep
          | link absolute target => exact absurd hlook (hlinks _ hvisit absolute target)
          | directory => exact .name ⟨hvisit, hlook⟩ (hnext (by rw [step, hlook]))

end FileTree

/-! # Copies of a part of a tree

Paths in a copy of the part of a tree below one directory.  The copy has the
same names, with links whose targets lost their empty segments, and nothing of
what was above.

Main result: `resolves_copy_iff`, a path that led below the directory leads to
the same place of the copy exactly when it never took `..` at that directory.
-/

variable {ν : Type}

/-- Without the segments that stay where they are. -/
def tidy : List (Segment ν) → List (Segment ν)
  | [] => []
  | .stay :: rest => tidy rest
  | .up :: rest => .up :: tidy rest
  | .name n :: rest => .name n :: tidy rest

theorem tidy_append (segments rest : List (Segment ν)) :
    tidy (segments ++ rest) = tidy segments ++ tidy rest := by
  induction segments with
  | nil => rfl
  | cons segment segments ih => cases segment <;> simp [tidy, ih]

def Node.tidy : Node ν → Node ν
  | .directory => .directory
  | .file => .file
  | .link absolute target => .link absolute (Lib.tidy target)

namespace FileTree

/-- The path leads to `place`: to a directory, or to a file it ends with. -/
def Resolves (tree : FileTree ν) (directory : List ν) (segments : List (Segment ν))
    (place : List ν) : Prop :=
  Reaches tree.step (.inside directory segments) (.inside place []) ∨
    ∃ (before : List ν) (n : ν), place = before ++ [n] ∧ tree.lookup place = some .file ∧
      Reaches tree.step (.inside directory segments) (.inside before [.name n])

/-- Where a walk of at most so many steps leads. -/
def resolve [DecidableEq ν] (tree : FileTree ν) (fuel : Nat) (directory : List ν)
    (segments : List (Segment ν)) : Option (List ν) :=
  match tree.walk fuel (.inside directory segments) with
  | .inside place [] => some place
  | .inside before [.name n] =>
    if tree.lookup (before ++ [n]) = some .file then some (before ++ [n]) else none
  | _ => none

theorem resolves_of_resolve [DecidableEq ν] {tree : FileTree ν} {fuel : Nat}
    {directory place : List ν} {segments : List (Segment ν)}
    (h : tree.resolve fuel directory segments = some place) :
    tree.Resolves directory segments place := by
  have hreach : Reaches tree.step _ _ := reaches_walk fuel (.inside directory segments)
  unfold resolve at h
  split at h
  · rename_i last hwalk
    cases h
    rw [hwalk] at hreach
    exact .inl hreach
  · rename_i before n hwalk
    split at h
    · rename_i hfile
      cases h
      rw [hwalk] at hreach
      exact .inr ⟨before, n, rfl, hfile, hreach⟩
    · cases h
  · cases h

/-- `copy` stands by itself and has what is below `root`, where no link is absolute. -/
structure Copies (tree copy : FileTree ν) (root : List ν) : Prop where
  isOpen : copy.closed = false
  lookup : ∀ directory n, copy.lookup (directory ++ [n]) =
    (tree.lookup (root ++ (directory ++ [n]))).map Node.tidy
  relative : ∀ directory n target,
    tree.lookup (root ++ (directory ++ [n])) ≠ some (.link true target)

variable {tree copy : FileTree ν} {root : List ν}

/-- A step below the root is one of the copy or none, unless it goes up from the root. -/
theorem Copies.step (h : Copies tree copy root) {directory : List ν} {segments : List (Segment ν)}
    {next : Position ν} (hstep : tree.step (.inside (root ++ directory) segments) = some next) :
    (∃ rest, directory = [] ∧ segments = .up :: rest) ∨
      ∃ (directory' : List ν) (segments' : List (Segment ν)),
        next = .inside (root ++ directory') segments' ∧
          Reaches copy.step (.inside directory (tidy segments))
            (.inside directory' (tidy segments')) := by
  cases segments with
  | nil => simp [FileTree.step] at hstep
  | cons segment rest =>
    cases segment with
    | stay =>
      simp only [FileTree.step, Option.some.injEq] at hstep
      exact .inr ⟨directory, rest, hstep.symm, .refl⟩
    | up =>
      obtain rfl | ⟨before, n, rfl⟩ := eq_nil_or_concat directory
      · exact .inl ⟨rest, rfl, rfl⟩
      · rw [concat_eq_append] at hstep ⊢
        rw [← append_assoc, step_up, Option.some.injEq] at hstep
        refine .inr ⟨before, rest, hstep.symm, .single ?_⟩
        show copy.step (.inside (before ++ [n]) (.up :: tidy rest)) = _
        rw [step_up]
    | name n =>
      have hcopy := h.lookup directory n
      have hrelative := h.relative directory n
      rw [FileTree.step, append_assoc] at hstep
      refine .inr ?_
      cases hlook : tree.lookup (root ++ (directory ++ [n])) with
      | none => simp [hlook] at hstep
      | some node =>
        rw [hlook] at hcopy
        cases node with
        | file => simp [hlook] at hstep
        | directory =>
          simp only [hlook, Option.some.injEq] at hstep
          refine ⟨directory ++ [n], rest, hstep.symm, .single ?_⟩
          show copy.step (.inside directory (.name n :: tidy rest)) = _
          rw [FileTree.step, hcopy]
          rfl
        | link absolute target =>
          cases absolute with
          | true => exact absurd hlook (hrelative target)
          | false =>
            simp only [hlook, Bool.false_eq_true, if_false, Option.some.injEq] at hstep
            refine ⟨directory, target ++ rest, hstep.symm, .single ?_⟩
            show copy.step (.inside directory (.name n :: tidy rest)) = _
            rw [FileTree.step, hcopy, tidy_append]
            rfl

/-- A walk from below the root is one of the copy, up to where it goes up from the root. -/
theorem Copies.reaches (h : Copies tree copy root) {directory : List ν}
    {segments : List (Segment ν)} {position : Position ν}
    (hreach : Reaches tree.step (.inside (root ++ directory) segments) position) :
    (∃ (directory' : List ν) (segments' : List (Segment ν)),
      position = .inside (root ++ directory') segments' ∧
        Reaches copy.step (.inside directory (tidy segments)) (.inside directory' (tidy segments'))) ∨
      ((∃ rest, Reaches tree.step (.inside (root ++ directory) segments) (.inside root (.up :: rest))) ∧
        Reaches copy.step (.inside directory (tidy segments)) .outside) := by
  induction hreach with
  | refl => exact .inl ⟨directory, segments, rfl, .refl⟩
  | tail hbef hstep ih =>
    obtain ⟨directory', segments', rfl, hcopy⟩ | hleft := ih
    · obtain ⟨rest, rfl, rfl⟩ | ⟨directory'', segments'', hnext, hcopy'⟩ := h.step hstep
      · rw [append_nil] at hbef
        refine .inr ⟨⟨rest, hbef⟩, hcopy.tail ?_⟩
        show copy.step (.inside [] (.up :: tidy rest)) = _
        rw [FileTree.step, top, h.isOpen]
        rfl
      · exact .inl ⟨directory'', segments'', hnext, hcopy.trans hcopy'⟩
    · exact .inr hleft

/-- Where a path leads it ends. -/
theorem Resolves.not_outside {directory place : List ν} {segments : List (Segment ν)}
    (h : copy.Resolves directory segments place) :
    ¬Reaches copy.step (.inside directory segments) .outside := by
  intro hout
  obtain hreach | ⟨before, n, rfl, hfile, hreach⟩ := h
  · cases ends_eq hreach rfl hout rfl
  · cases ends_eq hreach (by rw [FileTree.step, hfile]) hout rfl

/-- A path that leads below the root leads to the same place of the copy exactly when its walk does
not go up from the root. -/
theorem resolves_copy_iff (h : Copies tree copy root) {directory place : List ν}
    {segments : List (Segment ν)} (hresolves : tree.Resolves (root ++ directory) segments (root ++ place)) :
    copy.Resolves directory (tidy segments) place ↔
      ¬∃ rest, Reaches tree.step (.inside (root ++ directory) segments) (.inside root (.up :: rest)) := by
  constructor
  · rintro hcopy ⟨rest, hup⟩
    obtain ⟨directory', segments', hsame, hreach⟩ | ⟨-, hout⟩ := h.reaches hup
    · obtain ⟨hroot, rfl⟩ := Position.inside.inj hsame
      rw [self_eq_append_right] at hroot
      subst hroot
      refine hcopy.not_outside (hreach.tail ?_)
      show copy.step (.inside [] (.up :: tidy rest)) = _
      rw [FileTree.step, top, h.isOpen]
      rfl
    · exact hcopy.not_outside hout
  · intro hstays
    obtain hreach | ⟨before, n, hplace, hfile, hreach⟩ := hresolves
    · obtain ⟨directory', segments', hsame, hcopy⟩ | ⟨hup, -⟩ := h.reaches hreach
      · obtain ⟨hdir, rfl⟩ := Position.inside.inj hsame
        rw [append_cancel_left hdir]
        exact .inl hcopy
      · exact absurd hup hstays
    · obtain ⟨directory', segments', hsame, hcopy⟩ | ⟨hup, -⟩ := h.reaches hreach
      · obtain ⟨rfl, rfl⟩ := Position.inside.inj hsame
        rw [append_assoc] at hplace
        have hplace : place = directory' ++ [n] := append_cancel_left hplace
        subst hplace
        refine .inr ⟨directory', n, rfl, ?_, hcopy⟩
        rw [h.lookup, hfile]
        rfl
      · exact absurd hup hstays

end FileTree

end OctaCity.Lib
