/-
  OctaCity.LogArchive.Redactor

  The server-side pass over build logs (`log_archive.rs`): protected values are
  overwritten with `*` one after another, then the query of every URL.  A range
  outside of the bytes, which panics, is `none`.
-/
import OctaCity.Lib.Masking
import OctaCity.Runner.Replacement

namespace OctaCity.LogArchive

open Lib List Nat Option Runner

/-! ## Protected values -/

def maxProtectedValues : Nat := 256
def maxProtectedValueBytes : Nat := 64 * 1024
def maxProtectedTotalBytes : Nat := 1024 * 1024

abbrev ProtectedValue := { bytes : Bytes // bytes ≠ [] }

structure LogRedactor where
  protectedValues : List ProtectedValue

/-- The checks of `LogRedactor::new` on each value in turn, with the bytes counted so far. -/
def admitValues : List Bytes → Nat → List ProtectedValue → Option (List ProtectedValue)
  | [], _, kept => some kept
  | value :: values, total, kept =>
    if hempty : value = [] then none
    else if value.length > maxProtectedValueBytes ∨ kept.length ≥ maxProtectedValues then none
    else if total + value.length > maxProtectedTotalBytes then none
    else if kept.any (·.val = value) then admitValues values (total + value.length) kept
    else admitValues values (total + value.length) (kept ++ [⟨value, hempty⟩])

/-- A bounded set of exact byte values, the longer ones first. -/
def LogRedactor.new (values : List Bytes) : Option LogRedactor :=
  (admitValues values 0 []).map fun kept =>
    ⟨kept.mergeSort fun a b => b.val.length ≤ a.val.length⟩

/-! ## Masking loops -/

/-- A round of `mask_occurrences`. -/
def occurrenceRound (pattern : Bytes) : FindRound UInt8 := fun bytes offset =>
  -- `windows` panics for a length of zero.
  if bytes.length < offset ∨ pattern = [] then none
  else some ((findNeedle pattern (bytes.drop offset)).map fun found =>
    let start := offset + found
    ⟨some ⟨start, start + pattern.length⟩, start + pattern.length⟩)

def maskOccurrences (bytes pattern : Bytes) : Option Bytes :=
  maskPass starByte (occurrenceRound pattern) bytes

/-- `b'?'` -/
def queryByte : UInt8 := 63

/-- The next whitespace, or the end of the bytes. -/
def urlEnd (bytes : Bytes) (start : Nat) : Nat :=
  match (bytes.drop start).findIdx? isAsciiWhitespace with
  | some length => start + length
  | none => bytes.length

/-- A round of `mask_url_queries` for one scheme. -/
def queryRound (scheme : Bytes) : FindRound UInt8 := fun bytes offset =>
  if bytes.length < offset ∨ scheme = [] then none
  else
    match findNeedle scheme (bytes.drop offset) with
    | none => some none
    | some found =>
      let start := offset + found + scheme.length
      if bytes.length < start then none
      else
        let last := urlEnd bytes start
        let query := ((bytes.drop start).take (last - start)).findIdx? (· = queryByte)
        some (some ⟨query.map fun query => ⟨start + query + 1, last⟩, last⟩)

def schemes : List Bytes := [stringBytes "https://", stringBytes "http://"]

def maskUrlQueries (bytes : Bytes) : Option Bytes :=
  maskPasses starByte (schemes.map queryRound) bytes

def LogRedactor.redact (redactor : LogRedactor) (bytes : Bytes) : Option Bytes := do
  let bytes ← redactor.protectedValues.foldlM (fun bytes value => maskOccurrences bytes value.val)
    bytes
  maskUrlQueries bytes

/-! ## Rounds advance -/

theorem findNeedle_le {needle rest : Bytes} {found : Nat} (hne : needle ≠ [])
    (h : findNeedle needle rest = some found) : found + needle.length ≤ rest.length :=
  (findNeedle_eq_some h).1.le_length hne

variable {pattern bytes scheme bytes' : Bytes} {offset fuel i : Nat} {round : Round}
  {values : List ProtectedValue} {byte : UInt8}

theorem occurrenceRound_eq_some (h : occurrenceRound pattern bytes offset = some (some round)) :
    ∃ found, findNeedle pattern (bytes.drop offset) = some found ∧
      round = ⟨some ⟨offset + found, offset + found + pattern.length⟩,
        offset + found + pattern.length⟩ := by
  unfold occurrenceRound at h
  split at h
  · cases h
  · obtain ⟨found, hfound, hround⟩ := map_eq_some_iff.mp (Option.some.inj h)
    exact ⟨found, hfound, hround.symm⟩

theorem advances_occurrenceRound (hne : pattern ≠ []) : Advances (occurrenceRound pattern) := by
  have hpos := length_pos_of_ne_nil hne
  refine ⟨fun bytes offset hoff => ?_, fun bytes offset round hoff h => ?_,
    fun bytes offset round span hoff h hspan => ?_⟩
  · rw [occurrenceRound, if_neg (by simp [hne]; omega)]
    rfl
  · obtain ⟨found, hfound, rfl⟩ := occurrenceRound_eq_some h
    have hle := findNeedle_le hne hfound
    rw [length_drop] at hle
    exact ⟨by show offset < offset + found + pattern.length; omega,
      by show offset + found + pattern.length ≤ bytes.length; omega⟩
  · obtain ⟨found, -, rfl⟩ := occurrenceRound_eq_some h
    cases hspan
    exact ⟨le_add_right _ _, le_add_right _ _, le_refl _⟩

/-- The end of a URL is the end of the bytes or the first whitespace. -/
theorem urlEnd_spec {start : Nat} (hstart : start ≤ bytes.length) :
    start ≤ urlEnd bytes start ∧ urlEnd bytes start ≤ bytes.length ∧
      (∀ i byte, start ≤ i → i < urlEnd bytes start → bytes[i]? = some byte →
        isAsciiWhitespace byte = false) ∧ (urlEnd bytes start < bytes.length →
        ∃ byte, bytes[urlEnd bytes start]? = some byte ∧ isAsciiWhitespace byte = true) := by
  have hindex : ∀ i, start ≤ i → (bytes.drop start)[i - start]? = bytes[i]? := by
    intro i hi
    rw [List.getElem?_drop]
    exact congrArg (bytes[·]?) (by omega)
  unfold urlEnd
  cases hfind : (bytes.drop start).findIdx? isAsciiWhitespace with
  | none =>
    have hnone := List.findIdx?_eq_none_iff.mp hfind
    refine ⟨hstart, le_refl _, fun i byte hi _ hbyte => ?_, fun h => absurd h (by simp)⟩
    exact hnone byte (mem_of_getElem? ((hindex i hi).trans hbyte))
  | some length =>
    obtain ⟨hlen, hspace, hbef⟩ := List.findIdx?_eq_some_iff_getElem.mp hfind
    rw [length_drop] at hlen
    refine ⟨le_add_right _ _, ?_, fun i byte hi hlt hbyte => ?_, fun _ => ?_⟩
    · show start + length ≤ bytes.length
      omega
    · have hlt : i < start + length := hlt
      have hnot := hbef (i - start) (by omega)
      rw [← hindex i hi] at hbyte
      obtain ⟨_, hget⟩ := List.getElem?_eq_some_iff.mp hbyte
      rw [hget] at hnot
      simpa using hnot
    · refine ⟨_, ?_, hspace⟩
      show bytes[start + length]? = _
      rw [← List.getElem?_drop, List.getElem?_eq_getElem]

theorem queryRound_eq_some (h : queryRound scheme bytes offset = some (some round)) :
    ∃ found, findNeedle scheme (bytes.drop offset) = some found ∧
      round.next = urlEnd bytes (offset + found + scheme.length) ∧
      round.span = (((bytes.drop (offset + found + scheme.length)).take
        (round.next - (offset + found + scheme.length))).findIdx? (· = queryByte)).map
          fun query => ⟨offset + found + scheme.length + query + 1, round.next⟩ := by
  unfold queryRound at h
  split at h
  · cases h
  · split at h
    · cases h
    · rename_i found hfound
      dsimp only at h
      split at h
      · cases h
      · cases h
        exact ⟨found, hfound, rfl, rfl⟩

theorem advances_queryRound (hne : scheme ≠ []) : Advances (queryRound scheme) := by
  have hpos := length_pos_of_ne_nil hne
  have hstart : ∀ bytes : Bytes, ∀ offset found, offset ≤ bytes.length →
      findNeedle scheme (bytes.drop offset) = some found →
        offset + found + scheme.length ≤ bytes.length := by
    intro bytes offset found hoff hfound
    have hle := findNeedle_le hne hfound
    rw [length_drop] at hle
    omega
  refine ⟨fun bytes offset hoff => ?_, fun bytes offset round hoff h => ?_,
    fun bytes offset round span hoff h hspan => ?_⟩
  · rw [queryRound, if_neg (by simp [hne]; omega)]
    split
    · rfl
    · rename_i found hfound
      have hinside := hstart bytes offset found hoff hfound
      rw [if_neg (by omega)]
      rfl
  · obtain ⟨found, hfound, hnext, -⟩ := queryRound_eq_some h
    obtain ⟨hle, hinside, -⟩ := urlEnd_spec (hstart bytes offset found hoff hfound)
    omega
  · obtain ⟨found, hfound, hnext, hround⟩ := queryRound_eq_some h
    obtain ⟨hle, hinside, -⟩ := urlEnd_spec (hstart bytes offset found hoff hfound)
    rw [hround] at hspan
    obtain ⟨query, hquery, rfl⟩ := map_eq_some_iff.mp hspan
    obtain ⟨hlt, -⟩ := List.findIdx?_eq_some_iff_getElem.mp hquery
    rw [length_take, length_drop] at hlt
    show offset ≤ offset + found + scheme.length + query + 1 ∧
      offset + found + scheme.length + query + 1 ≤ round.next ∧ round.next ≤ round.next
    omega

/-! ## Passes -/

def LogRedactor.passes (redactor : LogRedactor) : List (FindRound UInt8) :=
  redactor.protectedValues.map (occurrenceRound ·.val) ++ schemes.map queryRound

theorem schemes_ne_nil : ∀ scheme ∈ schemes, scheme ≠ [] := by decide

theorem advances_valuePasses (values : List ProtectedValue) :
    ∀ find ∈ values.map (occurrenceRound ·.val), Advances find := by
  intro find hfind
  obtain ⟨value, -, rfl⟩ := mem_map.mp hfind
  exact advances_occurrenceRound value.property

theorem advances_urlPasses : ∀ find ∈ schemes.map queryRound, Advances find := by
  intro find hfind
  obtain ⟨scheme, hschem, rfl⟩ := mem_map.mp hfind
  exact advances_queryRound (schemes_ne_nil scheme hschem)

theorem LogRedactor.advances_passes (redactor : LogRedactor) :
    ∀ find ∈ redactor.passes, Advances find := by
  intro find hfind
  rcases mem_append.mp hfind with h | h
  · exact advances_valuePasses _ find h
  · exact advances_urlPasses find h

theorem maskPasses_values (values : List ProtectedValue) (bytes : Bytes) :
    maskPasses starByte (values.map (occurrenceRound ·.val)) bytes =
      values.foldlM (fun bytes value => maskOccurrences bytes value.val) bytes := by
  induction values generalizing bytes with
  | nil => rfl
  | cons value values ih =>
    rw [map_cons, maskPasses, foldlM_cons]
    exact congrArg _ (funext ih)

theorem LogRedactor.redact_eq (redactor : LogRedactor) (bytes : Bytes) :
    redactor.redact bytes = maskPasses starByte redactor.passes bytes := by
  rw [passes, maskPasses_append, maskPasses_values]
  rfl

/-- Every pass ends, with all ranges inside the bytes. -/
theorem LogRedactor.redact_total (redactor : LogRedactor) (bytes : Bytes) :
    ∃ bytes', redactor.redact bytes = some bytes' ∧ bytes'.length = bytes.length := by
  rw [redact_eq]
  exact maskPasses_total redactor.advances_passes bytes

/-! ## Protected values in the result -/

/-- Behind the offset the loop leaves no occurrence of a pattern without `*`. -/
theorem not_occursAt_occurrenceLoop (hne : pattern ≠ []) (hstar : starByte ∉ pattern)
    (hoff : offset ≤ bytes.length)
    (h : maskLoop starByte (occurrenceRound pattern) fuel bytes offset = some bytes') {x : Nat}
    (hx : offset ≤ x) : ¬OccursAt pattern x bytes' := by
  have hadvs := advances_occurrenceRound hne
  have hpos := length_pos_of_ne_nil hne
  induction fuel generalizing bytes offset with
  | zero => cases h
  | succ fuel ih =>
    intro hoccur
    have hbef := (masked_maskLoop hadvs hoff h).occursAt hstar hoccur
    have hrest : OccursAt pattern (x - offset) (bytes.drop offset) := by
      rw [OccursAt, drop_drop]
      exact (congrArg (fun i => (bytes.drop i).take pattern.length) (by omega)).trans hbef
    obtain ⟨found, hfound⟩ := findNeedle_isSome (infix_iff_occursAt.mpr ⟨_, hrest⟩)
    have hfirst := (findNeedle_eq_some hfound).2 _ hrest
    have hle := findNeedle_le hne hfound
    rw [length_drop] at hle
    rcases hadvs.maskLoop_cases hoff h with
      ⟨hnone, -⟩ | ⟨round, middle, hsome, happly, hlen, hloop⟩
    · rw [occurrenceRound, if_neg (by simp [hne]; omega), hfound] at hnone
      cases hnone
    · obtain ⟨found', hfound', rfl⟩ := occurrenceRound_eq_some hsome
      cases hfound.symm.trans hfound'
      have hfits : Span.Fits ⟨offset + found, offset + found + pattern.length⟩ bytes.length :=
        ⟨le_add_right _ _, by show offset + found + pattern.length ≤ _; omega⟩
      rw [Round.apply_some hfits] at happly
      cases happly
      have hinside : offset + found + pattern.length ≤ bytes.length := hfits.2
      by_cases hafter : offset + found + pattern.length ≤ x
      · exact ih (hlen ▸ hinside) hloop hafter hoccur
      · -- The first byte of the occurrence would be one that was overwritten.
        have hget := (masked_maskLoop hadvs (hlen ▸ hinside) hloop).getElem?
          ((getElem?_fill hfits x).trans (if_pos ⟨by show offset + found ≤ x; omega,
            by show x < offset + found + pattern.length; omega⟩))
        rw [← add_zero x, occursAt_iff_getElem?.mp hoccur 0 hpos] at hget
        exact hstar (mem_of_getElem? hget)

theorem passes_cons (value : ProtectedValue) (values : List ProtectedValue) :
    (LogRedactor.mk (value :: values)).passes =
      occurrenceRound value.val :: (LogRedactor.mk values).passes := rfl

section

variable {value : ProtectedValue}
  (h : (LogRedactor.mk (value :: values)).redact bytes = some bytes')

include h

theorem redact_cons : ∃ middle, maskOccurrences bytes value.val = some middle ∧
      (LogRedactor.mk values).redact middle = some bytes' := by
  rw [LogRedactor.redact_eq, passes_cons, maskPasses] at h
  obtain ⟨middle, hpass, h⟩ := bind_eq_some_iff.mp h
  exact ⟨middle, hpass, (LogRedactor.redact_eq _ _).trans h⟩

end

/-- Redaction leaves none of the values without `*`. -/
theorem redact_avoids (hstar : ∀ value ∈ values, starByte ∉ value.val)
    (h : (LogRedactor.mk values).redact bytes = some bytes') :
    ∀ value ∈ values, ¬value.val <:+: bytes' := by
  induction values generalizing bytes with
  | nil => exact fun _ hvalue => absurd hvalue not_mem_nil
  | cons value values ih =>
    obtain ⟨middle, hpass, hrest⟩ := redact_cons h
    rw [forall_mem_cons] at hstar
    refine forall_mem_cons.mpr ⟨fun hvalue => ?_, ih hstar.2 hrest⟩
    obtain ⟨x, hx⟩ := infix_iff_occursAt.mp hvalue
    rw [LogRedactor.redact_eq] at hrest
    have hmasked := masked_maskPasses (LogRedactor.mk values).advances_passes hrest
    exact not_occursAt_occurrenceLoop value.property hstar.1 (zero_le _) hpass (zero_le x)
      (hmasked.occursAt hstar.1 hx)

/-! ## URL queries in the result -/

/-- Every byte after a `?` of a URL is `*`, up to the next whitespace. -/
def QueriesMasked (scheme bytes : Bytes) : Prop :=
  ∀ p q r, OccursAt scheme p bytes → p ≤ q → bytes[q]? = some queryByte → q < r →
    r < bytes.length →
    (∀ i byte, p ≤ i → i ≤ r → bytes[i]? = some byte → isAsciiWhitespace byte = false) →
      bytes[r]? = some starByte

/-- Some bytes were masked, none of them whitespace. -/
structure Starred (bytes bytes' : Bytes) : Prop where
  length : bytes'.length = bytes.length
  byte : ∀ i : Nat, bytes'[i]? = bytes[i]? ∨
    bytes'[i]? = some starByte ∧ ∀ byte, bytes[i]? = some byte → isAsciiWhitespace byte = false

theorem Starred.refl (bytes : Bytes) : Starred bytes bytes := ⟨rfl, fun _ => .inl rfl⟩

section

variable (h : Starred bytes bytes')

include h

theorem Starred.trans {bytes'' : Bytes} (h' : Starred bytes' bytes'') : Starred bytes bytes'' := by
  refine ⟨h'.length.trans h.length, fun i => ?_⟩
  rcases h.byte i with hsame | ⟨hstar, hspace⟩
  · rw [← hsame]
    exact h'.byte i
  · refine .inr ⟨?_, hspace⟩
    rcases h'.byte i with hsame' | ⟨hstar', -⟩
    · exact hsame'.trans hstar
    · exact hstar'

theorem Starred.star (hstar : bytes[i]? = some starByte) : bytes'[i]? = some starByte := by
  rcases h.byte i with hsame | ⟨hstar', -⟩
  · exact hsame.trans hstar
  · exact hstar'

theorem Starred.before (hbyte : bytes'[i]? = some byte) (hne : byte ≠ starByte) :
    bytes[i]? = some byte := by
  rcases h.byte i with hsame | ⟨hstar, -⟩
  · exact hsame.symm.trans hbyte
  · exact absurd (Option.some.inj (hbyte.symm.trans hstar)) hne

theorem Starred.space (hbyte : bytes[i]? = some byte) (hspace : isAsciiWhitespace byte = true) :
    bytes'[i]? = some byte := by
  rcases h.byte i with hsame | ⟨-, hnot⟩
  · exact hsame.trans hbyte
  · rw [hnot byte hbyte] at hspace
    cases hspace

theorem Starred.not_space
    (hspace : ∀ byte, bytes'[i]? = some byte → isAsciiWhitespace byte = false)
    (hbyte : bytes[i]? = some byte) : isAsciiWhitespace byte = false := by
  rcases h.byte i with hsame | ⟨-, hnot⟩
  · exact hspace byte (hsame.trans hbyte)
  · exact hnot byte hbyte

theorem Starred.masked : Masked starByte bytes bytes' := fun i => (h.byte i).imp_right And.left

end

theorem QueriesMasked.starred (hmasked : QueriesMasked scheme bytes)
    (h : Starred bytes bytes') (hschem : starByte ∉ scheme) : QueriesMasked scheme bytes' := by
  intro p q r hoccur hpq hquery hqr hr hspace
  refine h.star (hmasked p q r (h.masked.occursAt hschem hoccur) hpq (h.before hquery (by decide)) hqr
    (h.length ▸ hr) fun i byte hpi hir hbyte => h.not_space (hspace i · hpi hir ·) hbyte)

theorem starred_fill {span : Span} (h : span.Fits bytes.length)
    (hspace : ∀ i byte, span.first ≤ i → i < span.last → bytes[i]? = some byte →
      isAsciiWhitespace byte = false) : Starred bytes (fill starByte span bytes) := by
  refine ⟨length_fill h, fun i => ?_⟩
  rw [getElem?_fill h]
  split
  · rename_i hinside
    exact .inr ⟨rfl, fun byte => hspace i byte hinside.1 hinside.2⟩
  · exact .inl rfl

/-- What a round for one scheme finds, and what it does. -/
structure QueryStep (scheme bytes : Bytes) (offset : Nat) (round : Round) (middle : Bytes) (p : Nat) :
    Prop where
  occurs : OccursAt scheme p bytes
  first : ∀ x, offset ≤ x → OccursAt scheme x bytes → p ≤ x
  start : offset ≤ p ∧ p + scheme.length ≤ round.next ∧ round.next ≤ bytes.length
  inside : ∀ i byte, p + scheme.length ≤ i → i < round.next → bytes[i]? = some byte →
    isAsciiWhitespace byte = false
  ends : round.next < bytes.length →
    ∃ byte, bytes[round.next]? = some byte ∧ isAsciiWhitespace byte = true
  starred : Starred bytes middle
  masked : ∀ q r, p + scheme.length ≤ q → bytes[q]? = some queryByte → q < r → r < round.next →
    middle[r]? = some starByte
  unchanged : (∀ q r, p + scheme.length ≤ q → bytes[q]? = some queryByte → q < r →
    r < round.next → bytes[r]? = some starByte) → middle = bytes

theorem queryStep {middle : Bytes} (hne : scheme ≠ [])
    (hoff : offset ≤ bytes.length) (h : queryRound scheme bytes offset = some (some round))
    (happly : round.apply starByte bytes = some middle) :
    ∃ p, QueryStep scheme bytes offset round middle p := by
  obtain ⟨span, next⟩ := round
  obtain ⟨found, hfound, hnext, hspan⟩ := queryRound_eq_some h
  obtain ⟨hoccur, hfirst⟩ := findNeedle_eq_some hfound
  have hle := findNeedle_le hne hfound
  rw [length_drop] at hle
  have hoccur' : OccursAt scheme (offset + found) bytes := by
    rw [OccursAt, drop_drop] at hoccur
    exact hoccur
  have hfirst' : ∀ x, offset ≤ x → OccursAt scheme x bytes → offset + found ≤ x := by
    intro x hx hoccursx
    have hle := hfirst (x - offset) (by
      rw [OccursAt, drop_drop]
      exact (congrArg (fun i => (bytes.drop i).take scheme.length) (by omega)).trans hoccursx)
    omega
  obtain ⟨hstart, hend, hspace, hends⟩ :=
    urlEnd_spec (show offset + found + scheme.length ≤ bytes.length by omega)
  dsimp only at hnext hspan
  rw [← hnext] at hstart hend hspace hends
  refine ⟨offset + found, ?_⟩
  have hoff' : offset ≤ offset + found := le_add_right _ _
  generalize hp : offset + found = p at *
  generalize hbegin : p + scheme.length = start at *
  -- The part of the URL that is searched for a query.
  have hpart : ∀ i, start ≤ i → i < next →
      ((bytes.drop start).take (next - start))[i - start]? = bytes[i]? := by
    intro i hi hlt
    rw [List.getElem?_take, if_pos (by omega), List.getElem?_drop]
    exact congrArg (bytes[·]?) (by omega)
  cases hquery : ((bytes.drop start).take (next - start)).findIdx? (· = queryByte) with
  | none =>
    rw [hquery, map_none] at hspan
    subst hspan
    cases happly
    refine ⟨hoccur', hfirst', ⟨hoff', hbegin ▸ hstart, hend⟩, hbegin ▸ hspace, hends,
      Starred.refl _, fun q r hq hbyte hqr hr => ?_, fun _ => rfl⟩
    have hr : r < next := hr
    have hnot := List.findIdx?_eq_none_iff.mp hquery queryByte
      (mem_of_getElem? ((hpart q (by omega) (by omega)).trans hbyte))
    exact absurd hnot (by decide)
  | some query =>
    rw [hquery, map_some] at hspan
    subst hspan
    obtain ⟨hlen, hbyte, hbef⟩ := List.findIdx?_eq_some_iff_getElem.mp hquery
    have hbyte' : bytes[start + query]? = some queryByte := by
      have hinside := hlen
      rw [length_take, length_drop] at hinside
      have hget := hpart (start + query) (by omega) (by omega)
      rw [← hget, Nat.add_sub_cancel_left, List.getElem?_eq_getElem hlen]
      exact congrArg some (by simpa using hbyte)
    rw [length_take, length_drop] at hlen
    have hfits : Span.Fits ⟨start + query + 1, next⟩ bytes.length :=
      ⟨by show start + query + 1 ≤ next; omega, hend⟩
    rw [Round.apply_some hfits] at happly
    cases happly
    refine ⟨hoccur', hfirst', ⟨hoff', hbegin ▸ hstart, hend⟩, hbegin ▸ hspace, hends,
      ?_, ?_, ?_⟩
    · refine starred_fill hfits fun i byte hi hlt hbyte => hspace i byte ?_ hlt hbyte
      have hi : start + query + 1 ≤ i := hi
      omega
    · intro q r hq hqbyte hqr hr
      have hr : r < next := hr
      -- The query found is the first one.
      have hle : query ≤ q - start := by
        by_contra hlater
        have hnot := hbef (q - start) (by omega)
        have hget := (hpart q (by omega) (by omega)).trans hqbyte
        obtain ⟨_, hget⟩ := List.getElem?_eq_some_iff.mp hget
        rw [hget] at hnot
        simp at hnot
      have hbehind : start + query + 1 ≤ r := by omega
      rw [getElem?_fill hfits, if_pos ⟨hbehind, hr⟩]
    · intro hall
      refine fill_eq_self hfits fun i hi hlt => ?_
      have hi : start + query + 1 ≤ i := hi
      exact hall (start + query) i (by omega) hbyte' (by omega) hlt

/-- A scheme, by the bytes it does not hold. -/
structure IsScheme (scheme : Bytes) : Prop where
  nonempty : scheme ≠ []
  star : starByte ∉ scheme
  query : queryByte ∉ scheme
  space : ∀ byte ∈ scheme, isAsciiWhitespace byte = false

theorem isScheme_of_mem : ∀ scheme ∈ schemes, IsScheme scheme := by
  have hparts : ∀ scheme ∈ schemes, scheme ≠ [] ∧ starByte ∉ scheme ∧ queryByte ∉ scheme ∧
      ∀ byte ∈ scheme, isAsciiWhitespace byte = false := by decide +kernel
  intro scheme hmem
  obtain ⟨hne, hstar, hquery, hspace⟩ := hparts scheme hmem
  exact ⟨hne, hstar, hquery, hspace⟩

section Scheme

variable {scheme : Bytes} (hschem : IsScheme scheme)

include hschem

variable {p : Nat}

theorem IsScheme.le_query {q : Nat} (hoccur : OccursAt scheme p bytes)
    (hpq : p ≤ q) (hbyte : bytes[q]? = some queryByte) : p + scheme.length ≤ q := by
  by_contra hlt
  have hget := occursAt_iff_getElem?.mp hoccur (q - p) (by omega)
  rw [Nat.add_sub_cancel' hpq, hbyte] at hget
  exact hschem.query (mem_of_getElem? hget.symm)

theorem IsScheme.not_space (hoccur : OccursAt scheme p bytes)
    (hpi : p ≤ i) (hi : i < p + scheme.length) (hbyte : bytes[i]? = some byte) :
    isAsciiWhitespace byte = false := by
  have hget := occursAt_iff_getElem?.mp hoccur (i - p) (by omega)
  rw [Nat.add_sub_cancel' hpi, hbyte] at hget
  exact hschem.space byte (mem_of_getElem? hget.symm)

section

variable (hoff : offset ≤ bytes.length)
  (h : maskLoop starByte (queryRound scheme) fuel bytes offset = some bytes')

include hoff h

theorem starred_queryLoop : Starred bytes bytes' := by
  have hadvs := advances_queryRound hschem.nonempty
  induction fuel generalizing bytes offset with
  | zero => cases h
  | succ fuel ih =>
    rcases hadvs.maskLoop_cases hoff h with
      ⟨-, rfl⟩ | ⟨round, middle, hround, happly, hlen, hloop⟩
    · exact Starred.refl _
    · obtain ⟨p, hstep⟩ := queryStep hschem.nonempty hoff hround happly
      exact hstep.starred.trans (ih (hlen ▸ hstep.start.2.2) hloop)

/-- Behind the offset the loop leaves no query. -/
theorem masked_queryLoop {q r : Nat} (hp : offset ≤ p) (hoccur : OccursAt scheme p bytes')
    (hpq : p ≤ q) (hquery : bytes'[q]? = some queryByte) (hqr : q < r) (hr : r < bytes'.length)
    (hspace : ∀ i byte, p ≤ i → i ≤ r → bytes'[i]? = some byte → isAsciiWhitespace byte = false) :
    bytes'[r]? = some starByte := by
  have hadvs := advances_queryRound hschem.nonempty
  induction fuel generalizing bytes offset with
  | zero => cases h
  | succ fuel ih =>
    have hstarred := starred_queryLoop hschem hoff h
    have hoccurs₀ := hstarred.masked.occursAt hschem.star hoccur
    rcases hadvs.maskLoop_cases hoff h with
      ⟨hround, rfl⟩ | ⟨round, middle, hround, happly, hlen, hloop⟩
    · -- There is no URL behind the offset.
      have hrest : OccursAt scheme (p - offset) (bytes'.drop offset) := by
        rw [OccursAt, drop_drop]
        exact (congrArg (fun i => (bytes'.drop i).take scheme.length) (by omega)).trans hoccur
      obtain ⟨found, hfound⟩ := findNeedle_isSome (infix_iff_occursAt.mpr ⟨_, hrest⟩)
      have hle := findNeedle_le hschem.nonempty hfound
      rw [length_drop] at hle
      rw [queryRound, if_neg (by simp [hschem.nonempty]; omega), hfound] at hround
      dsimp only at hround
      rw [if_neg (by omega)] at hround
      cases hround
    · obtain ⟨p₀, hstep⟩ := queryStep hschem.nonempty hoff hround happly
      have hnext := hstep.start.2.2
      have hrest := starred_queryLoop hschem (by omega) hloop
      by_cases hbehind : round.next ≤ p
      · exact ih (by omega) hloop hbehind
      · have hfirst := hstep.first p hp hoccurs₀
        have hle := hschem.le_query hoccur hpq hquery
        -- The whitespace that ends the URL found is still there.
        have hinside : r < round.next := by
          by_contra hout
          have hlen' := hstarred.length
          obtain ⟨byte, hbyte, hend⟩ := hstep.ends (by omega)
          rw [hspace round.next byte (by omega) (by omega) (hstarred.space hbyte hend)] at hend
          cases hend
        have hquery₀ := hstarred.before hquery (by decide)
        exact hrest.star (hstep.masked q r (by omega) hquery₀ hqr hinside)

end

theorem queriesMasked_pass (h : maskPass starByte (queryRound scheme) bytes = some bytes') :
    QueriesMasked scheme bytes' :=
  fun p _ _ => masked_queryLoop hschem (zero_le _) h (zero_le p)

/-- A text without queries stays as it is. -/
theorem unchanged_queryLoop (hmasked : QueriesMasked scheme bytes) (hoff : offset ≤ bytes.length)
    (h : maskLoop starByte (queryRound scheme) fuel bytes offset = some bytes') :
    bytes' = bytes := by
  have hadvs := advances_queryRound hschem.nonempty
  induction fuel generalizing offset with
  | zero => cases h
  | succ fuel ih =>
    rcases hadvs.maskLoop_cases hoff h with
      ⟨-, rfl⟩ | ⟨round, middle, hround, happly, -, hloop⟩
    · rfl
    · obtain ⟨p, hstep⟩ := queryStep hschem.nonempty hoff hround happly
      have hnext := hstep.start.2.2
      have hmiddle : middle = bytes := by
        refine hstep.unchanged fun q r hq hquery hqr hr => ?_
        refine hmasked p q r hstep.occurs (by omega) hquery hqr (by omega) fun i byte hpi hir hbyte => ?_
        by_cases hi : i < p + scheme.length
        · exact hschem.not_space hstep.occurs hpi hi hbyte
        · exact hstep.inside i byte (by omega) (by omega) hbyte
      subst hmiddle
      exact ih hnext hloop

end Scheme

section

variable {later : List Bytes} (hlater : ∀ scheme ∈ later, IsScheme scheme)

include hlater

/-- What a later pass masks keeps the queries of an earlier scheme masked. -/
theorem queriesMasked_passes (h : maskPasses starByte (later.map queryRound) bytes = some bytes') :
    Starred bytes bytes' ∧ ∀ scheme ∈ later, QueriesMasked scheme bytes' := by
  induction later generalizing bytes with
  | nil =>
    cases h
    exact ⟨Starred.refl _, fun _ hschem => absurd hschem not_mem_nil⟩
  | cons scheme later ih =>
    rw [map_cons, maskPasses] at h
    obtain ⟨middle, hpass, h⟩ := bind_eq_some_iff.mp h
    have hschem := hlater scheme mem_cons_self
    obtain ⟨hstarred, hmasked⟩ :=
      ih (fun scheme hmem => hlater scheme (mem_cons_of_mem _ hmem)) h
    refine ⟨(starred_queryLoop hschem (zero_le _) hpass).trans hstarred, ?_⟩
    exact forall_mem_cons.mpr
      ⟨(queriesMasked_pass hschem hpass).starred hstarred hschem.star, hmasked⟩

theorem passes_unchanged (hmasked : ∀ scheme ∈ later, QueriesMasked scheme bytes) :
    maskPasses starByte (later.map queryRound) bytes = some bytes := by
  induction later with
  | nil => rfl
  | cons scheme later ih =>
    have hschem := hlater scheme mem_cons_self
    obtain ⟨middle, hpass, -⟩ : ∃ middle, maskPass starByte (queryRound scheme) bytes = some middle ∧
        middle.length = bytes.length := maskPass_total (advances_queryRound hschem.nonempty) bytes
    have hsame := unchanged_queryLoop hschem (hmasked scheme mem_cons_self)
      (zero_le _) hpass
    subst hsame
    rw [map_cons, maskPasses, hpass, bind_some]
    exact ih (fun scheme hmem => hlater scheme (mem_cons_of_mem _ hmem))
      fun scheme hmem => hmasked scheme (mem_cons_of_mem _ hmem)

end

/-! ## One redaction -/

theorem maskOccurrences_unchanged (hne : pattern ≠ [])
    (h : ¬ pattern <:+: bytes) : maskOccurrences bytes pattern = some bytes := by
  rw [maskOccurrences, maskPass, maskLoop, occurrenceRound,
    if_neg (by simp [hne]), drop_zero, findNeedle_eq_none h]
  rfl

theorem LogRedactor.queriesMasked_redact {redactor : LogRedactor}
    (h : redactor.redact bytes = some bytes') : ∀ scheme ∈ schemes, QueriesMasked scheme bytes' := by
  obtain ⟨middle, -, h⟩ := bind_eq_some_iff.mp h
  exact (queriesMasked_passes isScheme_of_mem h).2

/-- Bytes with no protected value and no query stay as they are. -/
theorem LogRedactor.redact_unchanged {redactor : LogRedactor}
    (havoid : ∀ value ∈ redactor.protectedValues, ¬ value.val <:+: bytes)
    (hmasked : ∀ scheme ∈ schemes, QueriesMasked scheme bytes) :
    redactor.redact bytes = some bytes := by
  have hvals : redactor.protectedValues.foldlM
      (fun bytes value => maskOccurrences bytes value.val) bytes = some bytes := by
    generalize redactor.protectedValues = values at havoid
    induction values with
    | nil => rfl
    | cons value values ih =>
      rw [foldlM_cons,
        maskOccurrences_unchanged value.property (havoid value mem_cons_self)]
      exact ih fun value hmem => havoid value (mem_cons_of_mem _ hmem)
  exact bind_eq_some_iff.mpr ⟨bytes, hvals, passes_unchanged isScheme_of_mem hmasked⟩

end OctaCity.LogArchive
