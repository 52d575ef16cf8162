/-
  OctaCity.Lib.DepthFirst

  Depth-first traversal of a tree that is given by its paths.  Paths are ordered
  component by component: a directory comes before what is in it, and everything
  in it before what is in the next name.
-/
import Mathlib.Data.List.Induction
import Mathlib.Data.List.Lex
import Mathlib.Order.Lattice

namespace OctaCity.Lib

open List

variable {ν : Type} [LinearOrder ν]

/-! ## The order of paths -/

theorem lt_append_singleton (path : List ν) (n : ν) : path < path ++ [n] := by
  induction path with
  | nil => exact nil_lt_cons _ _
  | cons first path ih =>
    rw [cons_append, cons_lt_cons_iff]
    exact .inr ⟨rfl, ih⟩

/-- What comes after a directory and is not in it comes after all of it. -/
theorem append_lt_of_not_prefix {path other : List ν} (h : path < other) (hin : ¬path <+: other)
    (rest : List ν) : path ++ rest < other := by
  induction path generalizing other with
  | nil => exact absurd nil_prefix hin
  | cons first path ih =>
    cases other with
    | nil => exact absurd h (not_lt_nil _)
    | cons first' other =>
      rw [cons_append, cons_lt_cons_iff]
      obtain hless | ⟨rfl, hrest⟩ := cons_lt_cons_iff.mp h
      · exact .inl hless
      · refine .inr ⟨rfl, ih hrest fun hprefix => hin ?_⟩
        exact (prefix_cons_inj first).mpr hprefix

/-! ## The frontier of a traversal -/

/-- The paths emitted so far and those whose subtrees are to come, among all that exist. -/
structure Frontier (Exists : List ν → Prop) (emitted pending : List (List ν)) : Prop where
  ordered : (emitted ++ pending).Pairwise (· < ·)
  apart : ∀ path ∈ pending, ∀ other ∈ pending, path <+: other → path = other
  present : ∀ path ∈ emitted ++ pending, path ≠ [] ∧ Exists path
  covered : ∀ path, path ≠ [] → Exists path → path ∈ emitted ∨ ∃ above ∈ pending, above <+: path

namespace Frontier

variable {Exists : List ν → Prop} {emitted pending : List (List ν)}

omit [LinearOrder ν] in
theorem exists_of_prefix (hparents : ∀ path n, path ≠ [] → Exists (path ++ [n]) → Exists path)
    {path : List ν} (hpath : path ≠ []) {rest : List ν} (h : Exists (path ++ rest)) : Exists path := by
  induction rest using List.reverseRecOn with
  | nil => simpa using h
  | append_singleton rest n ih =>
    rw [← append_assoc] at h
    exact ih (hparents _ n (by simp [hpath]) h)

/-- The frontier in front of everything. -/
theorem start (hparents : ∀ path n, path ≠ [] → Exists (path ++ [n]) → Exists path)
    {names : List ν} (hsort : names.Pairwise (· < ·)) (hnames : ∀ n, n ∈ names ↔ Exists [n]) :
    Frontier Exists [] (names.map ([·])) where
  ordered := by
    rw [nil_append, pairwise_map]
    exact hsort.imp fun h => cons_lt_cons_iff.mpr (.inl h)
  apart := by
    simp only [mem_map]
    rintro _ ⟨n, -, rfl⟩ _ ⟨m, -, rfl⟩ hprefix
    exact hprefix.eq_of_length rfl
  present := by
    simp only [nil_append, mem_map]
    rintro _ ⟨n, hn, rfl⟩
    exact ⟨by simp, (hnames n).mp hn⟩
  covered := by
    intro path hpath hexists
    cases path with
    | nil => exact absurd rfl hpath
    | cons n rest =>
      have hfirst : Exists [n] := exists_of_prefix hparents (by simp) hexists
      exact .inr ⟨[n], mem_map_of_mem ((hnames n).mpr hfirst), prefix_append [n] rest⟩

/-- What else is pending comes after the first path and is not in it. -/
theorem after {path : List ν} (h : Frontier Exists emitted (path :: pending)) {other : List ν}
    (hother : other ∈ pending) : path < other ∧ ¬path <+: other := by
  have hless : path < other :=
    (pairwise_cons.mp (pairwise_append.mp h.ordered).2.1).1 other hother
  refine ⟨hless, fun hprefix => hless.ne ?_⟩
  exact h.apart path mem_cons_self other (mem_cons_of_mem _ hother) hprefix

theorem le_of_emitted {path : List ν} (h : Frontier Exists emitted (path :: pending))
    {earlier : List ν} (hearl : earlier ∈ emitted ++ [path]) : earlier ≤ path := by
  obtain hearl | hearl := mem_append.mp hearl
  · exact ((pairwise_append.mp h.ordered).2.2 earlier hearl path mem_cons_self).le
  · rw [mem_singleton.mp hearl]

theorem ordered_advance {path : List ν} (h : Frontier Exists emitted (path :: pending))
    {names : List ν} (hsort : names.Pairwise (· < ·)) :
    ((emitted ++ [path]) ++ (names.map (path ++ [·]) ++ pending)).Pairwise (· < ·) := by
  refine pairwise_append.mpr ⟨h.ordered.sublist (by simp), pairwise_append.mpr ⟨?_, ?_, ?_⟩, ?_⟩
  · rw [pairwise_map]
    exact hsort.imp fun hless => append_left_lt (cons_lt_cons_iff.mpr (.inl hless))
  · exact h.ordered.sublist (by simp)
  · intro child hchild other hother
    obtain ⟨n, -, rfl⟩ := mem_map.mp hchild
    exact append_lt_of_not_prefix (h.after hother).1 (h.after hother).2 [n]
  · intro earlier hearl later hlater
    refine (h.le_of_emitted hearl).trans_lt ?_
    obtain hchild | hother := mem_append.mp hlater
    · obtain ⟨n, -, rfl⟩ := mem_map.mp hchild
      exact lt_append_singleton path n
    · exact (h.after hother).1

theorem apart_advance {path : List ν} (h : Frontier Exists emitted (path :: pending))
    (names : List ν) : ∀ one ∈ names.map (path ++ [·]) ++ pending,
      ∀ other ∈ names.map (path ++ [·]) ++ pending, one <+: other → one = other := by
  intro one hone other hother hprefix
  obtain hone | hone := mem_append.mp hone
  · obtain ⟨n, -, rfl⟩ := mem_map.mp hone
    obtain hother | hother := mem_append.mp hother
    · obtain ⟨m, -, rfl⟩ := mem_map.mp hother
      exact hprefix.eq_of_length (by simp)
    · exact absurd ((prefix_append path [n]).trans hprefix) (h.after hother).2
  · obtain hother | hother := mem_append.mp hother
    · obtain ⟨n, -, rfl⟩ := mem_map.mp hother
      obtain heq | hshort := prefix_concat_iff.mp hprefix
      · exact absurd (by rw [heq]; exact prefix_append _ _) (h.after hone).2
      · have hsame := h.apart one (mem_cons_of_mem _ hone) path mem_cons_self hshort
        exact absurd hsame (h.after hone).1.ne'
    · exact h.apart one (mem_cons_of_mem _ hone) other (mem_cons_of_mem _ hother) hprefix

/-- The first pending path is emitted and its children take its place. -/
theorem advance (hparents : ∀ path n, path ≠ [] → Exists (path ++ [n]) → Exists path)
    {path : List ν} (h : Frontier Exists emitted (path :: pending)) {names : List ν}
    (hsort : names.Pairwise (· < ·)) (hnames : ∀ n, n ∈ names ↔ Exists (path ++ [n])) :
    Frontier Exists (emitted ++ [path]) (names.map (path ++ [·]) ++ pending) where
  ordered := h.ordered_advance hsort
  apart := h.apart_advance names
  present := by
    intro one hone
    simp only [mem_append, mem_cons, not_mem_nil, or_false, mem_map] at hone
    obtain (hone | rfl) | ⟨n, hn, rfl⟩ | hone := hone
    · exact h.present one (by simp [hone])
    · exact h.present one (by simp)
    · exact ⟨by simp, (hnames n).mp hn⟩
    · exact h.present one (by simp [hone])
  covered := by
    intro one hone hexists
    obtain hemitted | ⟨above, habove, hprefix⟩ := h.covered one hone hexists
    · exact .inl (by simp [hemitted])
    · obtain rfl | habove := mem_cons.mp habove
      · obtain ⟨rest, rfl⟩ := hprefix
        cases rest with
        | nil => exact .inl (by simp)
        | cons n rest =>
          rw [append_cons] at hexists
          have hchild : Exists (above ++ [n]) := exists_of_prefix hparents (by simp) hexists
          refine .inr ⟨above ++ [n], ?_, by simp⟩
          exact mem_append_left _ (mem_map_of_mem ((hnames n).mpr hchild))
      · exact .inr ⟨above, mem_append_right _ habove, hprefix⟩

/-- When nothing is pending everything was emitted. -/
theorem mem_emitted (h : Frontier Exists emitted []) {path : List ν} :
    path ∈ emitted ↔ path ≠ [] ∧ Exists path := by
  constructor
  · intro hpath
    exact h.present path (by simpa using hpath)
  · rintro ⟨hpath, hexists⟩
    obtain hemitted | ⟨above, habove, -⟩ := h.covered path hpath hexists
    · exact hemitted
    · cases habove

end Frontier

end OctaCity.Lib
