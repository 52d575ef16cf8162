/-
  OctaCity.Lib.Numbering

  Rows numbered without gaps.  A set of numbers from `first` on that contains
  the predecessor of each of its members is an interval; sorted, it reads
  `first`, `first + 1`, and so on, and neighbouring rows carry neighbouring
  numbers.
-/
import Mathlib.Data.List.Range
import Mathlib.Data.List.Sort

namespace OctaCity.Lib

open List

/-- Strictly ascending numbers without a gap above `first`. -/
theorem eq_range'_of_pairwise {numbers : List Nat} {first : Nat}
    (hsort : numbers.Pairwise (· < ·)) (hfirst : ∀ n ∈ numbers, first ≤ n)
    (hclos : ∀ n ∈ numbers, first < n → n - 1 ∈ numbers) :
    numbers = List.range' first numbers.length := by
  induction numbers generalizing first with
  | nil => rfl
  | cons n rest ih =>
    obtain ⟨hhead, htail⟩ := pairwise_cons.mp hsort
    -- The least number has no predecessor in the list, so it is the first one.
    have hn : n = first := by
      have hle : first ≤ n := hfirst n (mem_cons_self ..)
      by_contra hne
      have hlt : first < n := by omega
      rcases mem_cons.mp (hclos n (mem_cons_self ..) hlt) with heq | hmem
      · omega
      · have := hhead _ hmem
        omega
    subst hn
    have hrest : rest = List.range' (n + 1) rest.length := by
      refine ih htail (fun m hm => hhead m hm) ?_
      intro m hm hlt
      rcases mem_cons.mp (hclos m (mem_cons_of_mem _ hm) (by omega)) with heq | hmem
      · omega
      · exact hmem
    rw [length_cons, List.range'_succ, ← hrest]

/-- Neighbours in a numbered list have neighbouring numbers. -/
theorem isChain_of_map_eq_range' {α : Type} {number : α → Nat} {rows : List α} {first : Nat}
    (h : rows.map number = List.range' first rows.length) :
    rows.IsChain fun previous next => number next = number previous + 1 := by
  rw [isChain_iff_getElem]
  intro i hi
  have hat : ∀ j (hj : j < rows.length), number rows[j] = first + j := by
    intro j hj
    have hget := congrArg (fun l => l[j]?) h
    simpa [hj] using hget
  rw [hat i (by omega), hat (i + 1) hi]
  omega

theorem pairwise_lt_insertionSort {α κ : Type} [LinearOrder κ] {number : α → κ} {rows : List α}
    (hnodup : (rows.map number).Nodup) :
    (rows.insertionSort fun a b => number a ≤ number b).Pairwise
      fun a b => number a < number b := by
  have hsort := pairwise_insertionSort (fun a b => number a ≤ number b) rows
  have hperm := perm_insertionSort (fun a b => number a ≤ number b) rows
  have hne : (rows.insertionSort fun a b => number a ≤ number b).Pairwise
      fun a b => number a ≠ number b := by
    rw [← pairwise_map, ← nodup_iff_pairwise_ne]
    exact (hperm.map number).nodup_iff.mpr hnodup
  exact hsort.imp₂ (fun _ _ hle hne => lt_of_le_of_ne hle hne) hne

/-- Neighbours of a list, `windows(2)`. -/
def windows {α : Type} (rows : List α) : List (α × α) := rows.zip rows.tail

theorem windows_cons {α : Type} (a b : α) (rest : List α) :
    windows (a :: b :: rest) = (a, b) :: windows (b :: rest) := rfl

/-- In a sorted list, equal keys are neighbours. -/
theorem nodup_iff_windows {α κ : Type} [LinearOrder κ] {key : α → κ} {rows : List α}
    (hsort : rows.Pairwise fun a b => key a ≤ key b) :
    (rows.map key).Nodup ↔ ∀ pair ∈ windows rows, key pair.1 ≠ key pair.2 := by
  induction rows with
  | nil => simp [windows]
  | cons a rest ih =>
    cases rest with
    | nil => simp [windows]
    | cons b rest =>
      obtain ⟨hhead, htail⟩ := pairwise_cons.mp hsort
      rw [windows_cons, forall_mem_cons, ← ih htail, map_cons, nodup_cons]
      refine and_congr_left fun hnodup => ⟨fun h heq => h ?_, fun hne hmem => hne ?_⟩
      · exact heq ▸ mem_map_of_mem mem_cons_self
      · obtain ⟨c, hc, heq⟩ := mem_map.mp hmem
        rcases mem_cons.mp hc with rfl | hrest
        · exact heq.symm
        · have hle : key b ≤ key c := (pairwise_cons.mp htail).1 c hrest
          have hge : key a ≤ key b := hhead b mem_cons_self
          exact le_antisymm hge (heq ▸ hle)

end OctaCity.Lib
