/-
  OctaCity.Lib.Occurrences

  Where a pattern stands in a text, and how it may lie across a mark that is put
  into the text: a pattern that matches the mark nowhere occurs only in what
  stands beside it.
-/
import Mathlib.Data.List.Infix

namespace OctaCity.Lib

open List

variable {α : Type} {pattern text : List α} {x : Nat}

/-! ## Occurrences -/

/-- The pattern stands at this position of the text. -/
def OccursAt (pattern : List α) (x : Nat) (text : List α) : Prop :=
  (text.drop x).take pattern.length = pattern

theorem OccursAt.le_length (h : OccursAt pattern x text) (hne : pattern ≠ []) :
    x + pattern.length ≤ text.length := by
  have hlen := congrArg List.length h
  rw [length_take, length_drop] at hlen
  have hpos := length_pos_of_ne_nil hne
  omega

theorem infix_iff_occursAt : pattern <:+: text ↔ ∃ x, OccursAt pattern x text := by
  constructor
  · rintro ⟨before, after, rfl⟩
    refine ⟨before.length, ?_⟩
    rw [OccursAt, append_assoc, drop_left, take_left]
  · rintro ⟨x, h⟩
    rw [OccursAt] at h
    rw [← h]
    exact ( take_prefix _ _).isInfix.trans (drop_suffix _ _).isInfix

/-- An occurrence, symbol by symbol. -/
theorem occursAt_iff_getElem? :
    OccursAt pattern x text ↔ ∀ i < pattern.length, text[x + i]? = pattern[i]? := by
  unfold OccursAt
  constructor
  · intro h i hi
    rw [← h, List.getElem?_take, if_pos hi, List.getElem?_drop]
  · intro h
    apply ext_getElem?
    intro i
    rw [List.getElem?_take]
    by_cases hi : i < pattern.length
    · rw [if_pos hi, List.getElem?_drop, h i hi]
    · rw [if_neg hi, List.getElem?_eq_none (by omega)]

/-! ## Marks -/

/-- Shifted by some number of places, the pattern lies across the mark and agrees with it there. -/
def Overlaps (pattern mark : List α) : Prop :=
  ∃ shift < pattern.length + mark.length - 1, ∀ i < pattern.length, ∀ k < mark.length,
    i + mark.length = k + shift + 1 → pattern[i]? = mark[k]?

instance [DecidableEq α] (pattern mark : List α) : Decidable (Overlaps pattern mark) :=
  inferInstanceAs (Decidable (∃ shift < _, _))

/-- What does not overlap the mark occurs before it or after it. -/
theorem infix_of_not_overlaps {mark before after : List α} (happart : ¬Overlaps pattern mark)
    (h : pattern <:+: before ++ (mark ++ after)) : pattern <:+: before ∨ pattern <:+: after := by
  obtain ⟨x, hx⟩ := infix_iff_occursAt.mp h
  have hget := occursAt_iff_getElem?.mp hx
  by_cases hbef : x + pattern.length ≤ before.length
  · refine .inl (infix_iff_occursAt.mpr ⟨x, occursAt_iff_getElem?.mpr fun i hi => ?_⟩)
    rw [← hget i hi, List.getElem?_append_left (by omega)]
  · by_cases hafter : before.length + mark.length ≤ x
    · refine .inr (infix_iff_occursAt.mpr
        ⟨x - before.length - mark.length, occursAt_iff_getElem?.mpr fun i hi => ?_⟩)
      rw [← hget i hi, List.getElem?_append_right (by omega),
        List.getElem?_append_right (by omega)]
      exact congrArg (after[·]?) (by omega)
    · refine absurd ⟨before.length + mark.length - x - 1, by omega, fun i hi k hk hik => ?_⟩ happart
      rw [← hget i hi, List.getElem?_append_right (by omega), List.getElem?_append_left (by omega)]
      exact congrArg (mark[·]?) (by omega)

end OctaCity.Lib
