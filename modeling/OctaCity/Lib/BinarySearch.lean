/-
  OctaCity.Lib.BinarySearch

  Binary search of a sorted list by halving a window, without an early exit.

  Main result: `binarySearch_iff`, on a strictly sorted list the search finds
  exactly the members.
-/
import Mathlib.Data.List.Sort

namespace OctaCity.Lib

variable {α : Type} [LinearOrder α]

/-- Where the window of `size` values from `base` closes. -/
def bisect (values : List α) (x : α) : (fuel base size : Nat) → Nat
  | 0, base, _ => base
  | fuel + 1, base, size =>
    if size ≤ 1 then base
    else
      let half := size / 2
      bisect values x fuel
        (if values[base + half]?.any (x < ·) then base else base + half) (size - half)

/-- Whether the value is found. -/
def binarySearch (values : List α) (x : α) : Bool :=
  values[bisect values x values.length 0 values.length]? = some x

theorem getElem_lt_iff {values : List α} (hsort : values.Pairwise (· < ·)) {i j : Nat}
    (hi : i < values.length) (hj : j < values.length) : values[i] < values[j] ↔ i < j := by
  have hmono := List.pairwise_iff_getElem.mp hsort
  refine ⟨fun h => ?_, hmono i j hi hj⟩
  by_contra hle
  obtain heq | hlt := Nat.eq_or_lt_of_le (Nat.le_of_not_lt hle)
  · subst heq
    exact lt_irrefl _ h
  · exact lt_asymm h (hmono j i hj hi hlt)

/-- A value in the window stays in it until the window closes. -/
theorem bisect_eq {values : List α} (hsort : values.Pairwise (· < ·)) {i : Nat}
    (hi : i < values.length) : ∀ {fuel base size : Nat}, size ≤ fuel + 1 →
      base + size ≤ values.length → base ≤ i → i < base + size →
      bisect values values[i] fuel base size = i := by
  intro fuel
  induction fuel with
  | zero =>
    intro base size hfuel _ hbase hwin
    rw [bisect]
    omega
  | succ fuel ih =>
    intro base size hfuel hlen hbase hwin
    rw [bisect]
    split
    · omega
    · rename_i hlarge
      have hmiddle : base + size / 2 < values.length := by omega
      dsimp only
      simp only [List.getElem?_eq_getElem hmiddle, Option.any_some, decide_eq_true_eq,
        getElem_lt_iff hsort hi hmiddle]
      -- The half that is kept is the one the value is in.
      split
      · exact ih (by omega) (by omega) hbase (by omega)
      · exact ih (by omega) (by omega) (by omega) (by omega)

/-- On a strictly sorted list exactly the members are found. -/
theorem binarySearch_iff {values : List α} (hsort : values.Pairwise (· < ·)) {x : α} :
    binarySearch values x = true ↔ x ∈ values := by
  unfold binarySearch
  rw [decide_eq_true_eq]
  constructor
  · exact List.mem_of_getElem?
  · intro hmem
    obtain ⟨i, hi, rfl⟩ := List.getElem_of_mem hmem
    rw [bisect_eq hsort hi (by omega) (by omega) (by omega) (by omega)]
    exact List.getElem?_eq_getElem hi

end OctaCity.Lib
