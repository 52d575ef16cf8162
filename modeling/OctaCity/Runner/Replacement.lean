/-
  OctaCity.Runner.Replacement

  One redaction, replacement by replacement.  Where no value has a byte in common
  with a marker laid across it, a marker completes nothing; where the values are
  text, their occurrences begin and end at characters.
-/
import OctaCity.Lib.Occurrences
import OctaCity.Runner.RedactedDocument

namespace OctaCity.Runner

open Lib List

variable {needle rest bytes : Bytes} {values : List Bytes}

/-! ## What is found -/

/-- What is found stands there, and nowhere before. -/
theorem findNeedle_eq_some {position : Nat} (h : findNeedle needle rest = some position) :
    OccursAt needle position rest ∧ ∀ x, OccursAt needle x rest → position ≤ x := by
  induction rest generalizing position with
  | nil =>
    rw [findNeedle] at h
    split at h
    · rename_i hempty
      cases h
      rw [isEmpty_iff.mp hempty]
      exact ⟨rfl, fun x _ => Nat.zero_le x⟩
    · cases h
  | cons byte rest ih =>
    rw [findNeedle] at h
    split at h
    · rename_i hprefix
      cases h
      obtain ⟨after, hafter⟩ := isPrefixOf_iff_prefix.mp hprefix
      refine ⟨?_, fun x _ => Nat.zero_le x⟩
      rw [OccursAt, drop_zero, ← hafter, take_left]
    · rename_i hprefix
      obtain ⟨found, hfound, rfl⟩ := Option.map_eq_some_iff.mp h
      obtain ⟨hoccur, hfirst⟩ := ih hfound
      refine ⟨hoccur, fun x hx => ?_⟩
      cases x with
      | succ x => exact Nat.succ_le_succ (hfirst x hx)
      | zero =>
        rw [OccursAt, drop_zero] at hx
        exact absurd ( isPrefixOf_iff_prefix.mpr (hx ▸ take_prefix _ _)) hprefix

theorem findNeedle_isSome (h : needle <:+: rest) :
    ∃ position, findNeedle needle rest = some position := by
  induction rest with
  | nil =>
    have hnil := infix_nil.mp h
    subst hnil
    exact ⟨0, rfl⟩
  | cons byte rest ih =>
    rw [findNeedle]
    split
    · exact ⟨0, rfl⟩
    · rename_i hprefix
      obtain hhead | htail := infix_cons_iff.mp h
      · exact absurd ( isPrefixOf_iff_prefix.mpr hhead) hprefix
      · obtain ⟨position, hpos⟩ := ih htail
        exact ⟨position + 1, by rw [hpos]; rfl⟩

/-- The text around what is found. -/
theorem findNeedle_split {position : Nat} (h : findNeedle needle rest = some position) :
    rest = rest.take position ++ (needle ++ rest.drop (position + needle.length)) := by
  have hoccur := (findNeedle_eq_some h).1
  rw [OccursAt] at hoccur
  calc rest = rest.take position ++ rest.drop position := (take_append_drop _ _).symm
    _ = rest.take position ++ ((rest.drop position).take needle.length ++
        rest.drop (position + needle.length)) :=
      congrArg (rest.take position ++ ·) (by rw [← drop_drop, take_append_drop])
    _ = rest.take position ++ (needle ++ rest.drop (position + needle.length)) :=
      congrArg (fun part => rest.take position ++ (part ++ _)) hoccur

/-! ## Values in the result -/

theorem redactBytes_cons (needle : Bytes) (values : List Bytes) (bytes : Bytes) :
    redactBytes bytes (needle :: values) =
      redactBytes (replaceNeedle needle bytes.length bytes) values := rfl

/-- No value has a byte in common with a marker that one of the values leaves, however the two lie
across each other. -/
def Unmarked (values : List Bytes) : Prop :=
  ∀ value ∈ values, ∀ needle ∈ values, ¬Overlaps value (marker needle.length)

instance (values : List Bytes) : Decidable (Unmarked values) :=
  inferInstanceAs (Decidable (∀ value ∈ values, ∀ needle ∈ values, ¬_))

/-- A pass completes no value that its marker has nothing in common with. -/
theorem infix_of_replaceNeedle {value : Bytes} (hapart : ¬Overlaps value (marker needle.length))
    (fuel : Nat) (h : value <:+: replaceNeedle needle fuel rest) : value <:+: rest := by
  induction fuel generalizing rest with
  | zero => exact h
  | succ fuel ih =>
    rw [replaceNeedle] at h
    cases hfind : findNeedle needle rest with
    | none => rwa [hfind] at h
    | some position =>
      simp only [hfind, append_assoc] at h
      obtain hbef | hafter := infix_of_not_overlaps hapart h
      · exact hbef.trans ( take_prefix _ _).isInfix
      · exact (ih hafter).trans (drop_suffix _ _).isInfix

/-- A pass leaves no occurrence of its own value. -/
theorem not_infix_replaceNeedle (hapart : ¬Overlaps needle (marker needle.length))
    (hne : needle ≠ []) {fuel : Nat} (hfuel : rest.length ≤ fuel) :
    ¬needle <:+: replaceNeedle needle fuel rest := by
  have hpositive := length_pos_of_ne_nil hne
  induction fuel generalizing rest with
  | zero =>
    intro h
    have hle := h.length_le
    rw [replaceNeedle] at hle
    omega
  | succ fuel ih =>
    intro h
    rw [replaceNeedle] at h
    cases hfind : findNeedle needle rest with
    | none =>
      rw [hfind] at h
      obtain ⟨position, hpos⟩ := findNeedle_isSome h
      rw [hfind] at hpos
      cases hpos
    | some position =>
      simp only [hfind, append_assoc] at h
      obtain ⟨hoccur, hfirst⟩ := findNeedle_eq_some hfind
      have hle := hoccur.le_length hne
      obtain hbef | hafter := infix_of_not_overlaps hapart h
      · -- Nothing stands before the first occurrence.
        obtain ⟨x, hx⟩ := infix_iff_occursAt.mp hbef
        have hend := hx.le_length hne
        rw [length_take] at hend
        have hearl := hfirst x (occursAt_iff_getElem?.mpr fun i hi => by
          rw [← occursAt_iff_getElem?.mp hx i hi, List.getElem?_take, if_pos (by omega)])
        omega
      · exact ih (by rw [length_drop]; omega) hafter

theorem infix_of_redactBytes {value : Bytes}
    (hapart : ∀ needle ∈ values, ¬Overlaps value (marker needle.length))
    (h : value <:+: redactBytes bytes values) : value <:+: bytes := by
  induction values generalizing bytes with
  | nil => exact h
  | cons needle values ih =>
    rw [redactBytes_cons] at h
    obtain ⟨hhead, htail⟩ := forall_mem_cons.mp hapart
    exact infix_of_replaceNeedle hhead _ (ih htail h)

/-- Redaction leaves none of the values. -/
theorem avoids_redactBytes (hapart : Unmarked values) (hne : ∀ value ∈ values, value ≠ [])
    (bytes : Bytes) : Avoids values (redactBytes bytes values) := by
  intro value hvalue h
  obtain ⟨first, last, rfl⟩ := append_of_mem hvalue
  -- The value's own pass comes between the others, and later ones do not complete it.
  have hmiddle : redactBytes bytes (first ++ value :: last) =
      redactBytes (replaceNeedle value (redactBytes bytes first).length (redactBytes bytes first))
        last := by
    rw [redactBytes, foldl_append, foldl_cons]
    rfl
  rw [hmiddle] at h
  refine not_infix_replaceNeedle (hapart value hvalue value hvalue) (hne value hvalue) le_rfl
    (infix_of_redactBytes (fun needle hneedle => ?_) h)
  exact hapart value hvalue needle (mem_append_right _ (mem_cons_of_mem _ hneedle))

/-! ## Text -/

/-- The bytes are the UTF-8 encoding of some characters. -/
def IsText (bytes : Bytes) : Prop := (stringFromUtf8 bytes).isSome = true

instance (bytes : Bytes) : Decidable (IsText bytes) := inferInstanceAs (Decidable (_ = true))

theorem isText_iff : IsText bytes ↔ ByteArray.IsValidUTF8 ⟨bytes.toArray⟩ := by
  unfold IsText stringFromUtf8 String.fromUTF8?
  split <;> simp [*]

theorem isText_stringBytes (text : String) : IsText (stringBytes text) := by
  rw [IsText, stringFromUtf8_stringBytes]
  rfl

theorem IsText.append {before after : Bytes} (hbef : IsText before) (hafter : IsText after) :
    IsText (before ++ after) := by
  rw [isText_iff] at *
  have hbytes : (⟨(before ++ after).toArray⟩ : ByteArray) =
      ⟨before.toArray⟩ ++ ⟨after.toArray⟩ := ByteArray.ext (by simp)
  exact hbytes ▸ ByteArray.IsValidUTF8.append hbef hafter

/-- Text inside of text begins and ends at characters. -/
theorem IsText.split {before value after : Bytes} (htext : IsText (before ++ (value ++ after)))
    (hvalue : IsText value) (hne : value ≠ []) : IsText before ∧ IsText after := by
  simp only [isText_iff] at *
  have hpositive := length_pos_of_ne_nil hne
  let text : String := ⟨_, htext⟩
  have hsize : text.utf8ByteSize = before.length + value.length + after.length := by
    show (before ++ (value ++ after)).toArray.size = _
    simp [Nat.add_assoc]
  have hbytes : ∀ i j, text.toByteArray.extract i j =
      ⟨(((before ++ (value ++ after)).take j).drop i).toArray⟩ :=
    fun i j => ByteArray.ext (by simp [text, drop_take])
  have hend : (⟨before.length + value.length⟩ : String.Pos.Raw) ≤ text.rawEndPos := by
    rw [String.Pos.Raw.le_iff, String.byteIdx_rawEndPos, hsize]
    exact Nat.le_add_right _ _
  -- Both ends of the value are positions of characters.
  obtain h | ⟨hfirst, hlast⟩ := (String.Pos.Raw.isValidUTF8_extract_iff (s := text)
      ⟨before.length⟩ ⟨before.length + value.length⟩ (Nat.le_add_right _ _) hend).mp (by
    rw [hbytes]
    simpa [take_append, take_of_length_le] using hvalue)
  · have h := congrArg String.Pos.Raw.byteIdx h
    dsimp only at h
    omega
  · have hfirst := hfirst.isValidUTF8_extract_zero
    have hlast := hlast.isValidUTF8_extract_utf8ByteSize
    rw [hbytes] at hfirst hlast
    rw [hsize] at hlast
    refine ⟨by simpa using hfirst, ?_⟩
    simpa [take_of_length_le, drop_append, drop_eq_nil_of_le, Nat.add_assoc]
      using hlast

theorem isText_marker (removedBytes : Nat) : IsText (marker removedBytes) := by
  unfold marker
  split
  · rename_i h
    clear h
    induction removedBytes with
    | zero => decide
    | succ count ih => exact IsText.append (show IsText [starByte] by decide) ih
  · decide

theorem isText_replaceNeedle (hneedle : IsText needle) (hne : needle ≠ []) (fuel : Nat)
    (h : IsText rest) : IsText (replaceNeedle needle fuel rest) := by
  induction fuel generalizing rest with
  | zero => exact h
  | succ fuel ih =>
    rw [replaceNeedle]
    cases hfind : findNeedle needle rest with
    | none => exact h
    | some position =>
      rw [findNeedle_split hfind] at h
      obtain ⟨hbef, hafter⟩ := h.split hneedle hne
      exact (hbef.append (isText_marker _)).append (ih hafter)

/-- Where the values are text, a redacted text is still text. -/
theorem isText_redactBytes (hvals : ∀ value ∈ values, IsText value)
    (hne : ∀ value ∈ values, value ≠ []) (h : IsText bytes) : IsText (redactBytes bytes values) := by
  induction values generalizing bytes with
  | nil => exact h
  | cons needle values ih =>
    rw [forall_mem_cons] at hvals hne
    exact ih hvals.2 hne.2 (isText_replaceNeedle hvals.1 hne.1 _ h)

theorem isText_whitespace {byte : UInt8} (h : isAsciiWhitespace byte = true) : IsText [byte] := by
  simp only [isAsciiWhitespace, Bool.or_eq_true, decide_eq_true_eq] at h
  obtain (((rfl | rfl) | rfl) | rfl) | rfl := h <;> decide

/-- Text without the white space around it is text. -/
theorem IsText.trimAscii (h : IsText bytes) : IsText (trimAscii bytes) := by
  have hfront : IsText (bytes.dropWhile isAsciiWhitespace) := by
    induction bytes with
    | nil => exact h
    | cons byte bytes ih =>
      rw [dropWhile_cons]
      split
      · rename_i hspace
        exact ih (IsText.split (show IsText ([] ++ ([byte] ++ bytes)) from h)
          (isText_whitespace hspace) (by simp)).2
      · exact h
  have hback : ∀ bytes : Bytes, IsText bytes.reverse →
      IsText (bytes.dropWhile isAsciiWhitespace).reverse := by
    intro bytes h
    induction bytes with
    | nil => exact h
    | cons byte bytes ih =>
      rw [dropWhile_cons]
      split
      · rename_i hspace
        rw [reverse_cons, ← append_nil [byte]] at h
        exact ih (h.split (isText_whitespace hspace) (by simp)).1
      · exact h
  exact hback _ (by rwa [reverse_reverse])

end OctaCity.Runner
