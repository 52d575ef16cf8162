/-
  OctaCity.Lib.Sorting

  Stable sorting by a key that tells the sorted values apart: the result does
  not depend on the order the values arrive in.
-/
import Mathlib.Data.List.Sort

namespace OctaCity.Lib

variable {α κ : Type} [LinearOrder κ]

theorem mergeSort_key_perm {key : α → κ} {values values' : List α} (hperm : values'.Perm values)
    (hkey : ∀ a ∈ values, ∀ b ∈ values, key a = key b → a = b) :
    values'.mergeSort (fun a b => decide (key a ≤ key b)) =
      values.mergeSort fun a b => decide (key a ≤ key b) := by
  have hsame : (values'.mergeSort fun a b => decide (key a ≤ key b)).Perm
      (values.mergeSort fun a b => decide (key a ≤ key b)) :=
    (List.mergeSort_perm _ _).trans (hperm.trans (List.mergeSort_perm _ _).symm)
  have hsort := List.pairwise_mergeSort' fun a b => key a ≤ key b
  refine hsame.eq_of_pairwise ?_ (hsort values') (hsort values)
  intro a b ha hb hab hba
  have hmem : a ∈ values := hperm.mem_iff.mp (List.mem_mergeSort.mp ha)
  exact hkey a hmem b (List.mem_mergeSort.mp hb) (le_antisymm hab hba)

end OctaCity.Lib
