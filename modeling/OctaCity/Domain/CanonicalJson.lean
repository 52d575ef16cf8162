/-
  OctaCity.Domain.CanonicalJson

  Canonical JSON values (octacity-server-domain, `canonicalize_json`): the
  fields of every object are listed by name, and nesting is bounded.

  Main result: a canonical value is canonicalized to itself.
-/
import OctaCity.Lib.Json
import Mathlib.Data.List.Sort

namespace OctaCity.Domain

open Lib List

inductive JsonCanonicalizationError
  | tooDeep

def maxCanonicalJsonDepth : Nat := 128

/-- The entries of a map, by name. -/
def sortFields (fields : List (String × Json)) : List (String × Json) :=
  fields.insertionSort fun left right => left.1 ≤ right.1

mutual

-- The fields are sorted after their values are canonical, which leaves the names alone.
def canonicalizeAt : Json → Nat → Except JsonCanonicalizationError Json
  | value, depth =>
    if depth > maxCanonicalJsonDepth then .error .tooDeep
    else
      match value with
      | .array values => (canonicalizeItems values (depth + 1)).map .array
      | .object values =>
        (canonicalizeFields values (depth + 1)).map fun fields => .object (sortFields fields)
      | scalar => .ok scalar
termination_by structural value => value

def canonicalizeItems : List Json → Nat → Except JsonCanonicalizationError (List Json)
  | [], _ => .ok []
  | value :: values, depth => do
    let value ← canonicalizeAt value depth
    let values ← canonicalizeItems values depth
    .ok (value :: values)
termination_by structural values => values

def canonicalizeFields :
    List (String × Json) → Nat → Except JsonCanonicalizationError (List (String × Json))
  | [], _ => .ok []
  | (name, value) :: fields, depth => do
    let value ← canonicalizeAt value depth
    let fields ← canonicalizeFields fields depth
    .ok ((name, value) :: fields)
termination_by structural fields => fields

end

def canonicalizeJson (value : Json) : Except JsonCanonicalizationError Json :=
  canonicalizeAt value 0

/-! ## Canonical values -/

theorem canonicalizeItems_eq_ok {items canonical : List Json} {depth : Nat} :
    canonicalizeItems items depth = .ok canonical ↔
      List.Forall₂ (fun item item' => canonicalizeAt item depth = .ok item') items canonical := by
  induction items generalizing canonical with
  | nil =>
    cases canonical <;> simp [canonicalizeItems]
  | cons item items ih =>
    simp only [canonicalizeItems, bind_eq_ok, Except.ok.injEq, forall₂_cons_left_iff, ih]
    constructor
    · rintro ⟨item', hitem, items', hitems, rfl⟩
      exact ⟨item', items', hitem, hitems, rfl⟩
    · rintro ⟨item', items', hitem, hitems, rfl⟩
      exact ⟨item', hitem, items', hitems, rfl⟩

theorem canonicalizeFields_eq_ok {fields canonical : List (String × Json)} {depth : Nat} :
    canonicalizeFields fields depth = .ok canonical ↔
      List.Forall₂ (fun field field' => field.1 = field'.1 ∧
        canonicalizeAt field.2 depth = .ok field'.2) fields canonical := by
  induction fields generalizing canonical with
  | nil =>
    cases canonical <;> simp [canonicalizeFields]
  | cons field fields ih =>
    simp only [canonicalizeFields, bind_eq_ok, Except.ok.injEq, forall₂_cons_left_iff, ih]
    constructor
    · rintro ⟨value, hvalue, rest, hrest, rfl⟩
      exact ⟨(field.1, value), rest, ⟨rfl, hvalue⟩, hrest, rfl⟩
    · rintro ⟨⟨name, value⟩, rest, ⟨hname, hvalue⟩, hrest, rfl⟩
      cases hname
      exact ⟨value, hvalue, rest, hrest, rfl⟩

theorem sortFields_sorted (fields : List (String × Json)) :
    (sortFields fields).Pairwise fun left right => left.1 ≤ right.1 :=
  pairwise_insertionSort _ _

theorem sortFields_perm (fields : List (String × Json)) : (sortFields fields).Perm fields :=
  perm_insertionSort _ _

theorem sortFields_of_sorted {fields : List (String × Json)}
    (h : fields.Pairwise fun left right => left.1 ≤ right.1) : sortFields fields = fields :=
  h.insertionSort_eq

/-- A canonical value stays as it is. -/
theorem canonicalizeAt_idempotent {value canonical : Json} {depth : Nat}
    (h : canonicalizeAt value depth = .ok canonical) :
    canonicalizeAt canonical depth = .ok canonical := by
  induction value using Json.ind generalizing canonical depth with
  | null | bool | number | string =>
    unfold canonicalizeAt at h ⊢
    split at h
    · cases h
    · rename_i hdepth
      cases h
      exact if_neg hdepth
  | array items ih =>
    rw [canonicalizeAt] at h
    split at h
    · cases h
    · rename_i hdepth
      obtain ⟨items', hitems, rfl⟩ := map_eq_ok.mp h
      rw [canonicalizeAt, if_neg hdepth]
      have hsame : canonicalizeItems items' (depth + 1) = .ok items' := by
        rw [canonicalizeItems_eq_ok] at hitems ⊢
        refine forall₂_same.mpr fun item' hitem' => ?_
        obtain ⟨item, hitem, hcanon⟩ := forall₂_exists_left hitems hitem'
        exact ih item hitem hcanon
      rw [hsame]
      rfl
  | object fields ih =>
    rw [canonicalizeAt] at h
    split at h
    · cases h
    · rename_i hdepth
      obtain ⟨fields', hflds, rfl⟩ := map_eq_ok.mp h
      rw [canonicalizeAt, if_neg hdepth]
      have hsame : canonicalizeFields (sortFields fields') (depth + 1) = .ok (sortFields fields') := by
        rw [canonicalizeFields_eq_ok] at hflds ⊢
        refine forall₂_same.mpr fun field' hfield' => ⟨rfl, ?_⟩
        have hmem : field' ∈ fields' := (sortFields_perm fields').mem_iff.mp hfield'
        obtain ⟨field, hfield, -, hcanon⟩ := forall₂_exists_left hflds hmem
        exact ih field hfield hcanon
      rw [hsame]
      show Except.ok (Json.object (sortFields (sortFields fields'))) = _
      rw [sortFields_of_sorted (sortFields_sorted fields')]

theorem canonicalizeJson_idempotent {value canonical : Json}
    (h : canonicalizeJson value = .ok canonical) : canonicalizeJson canonical = .ok canonical :=
  canonicalizeAt_idempotent h

end OctaCity.Domain
