/-
  OctaCity.Runner.Matching

  The streaming matcher keeps its automata in step with the text it has emitted
  and still holds.  `Follows` says what each row of states means; every
  operation keeps it, also when a match is taken back, so the kept text never
  contains a protected value and no index runs past its end.
-/
import OctaCity.Runner.RedactionStream

namespace OctaCity.Runner

open Lib List

/-- Values are not empty and each has its prefix table. -/
def Prepared (values : List Bytes) (prefixTables : List (List Nat)) : Prop :=
  List.Forall₂ (fun value table => value ≠ [] ∧ TableUpTo value table value.length)
    values prefixTables

/-- The states of all automata after a text. -/
def statesOf (values : List Bytes) (text : Bytes) : List Nat :=
  values.map fun value => prefixLength value text

/-- The rows of states after each byte that follows a released text. -/
def rowsFrom (values : List Bytes) (released : Bytes) : Bytes → List (List Nat)
  | [] => []
  | byte :: rest => statesOf values (released ++ [byte]) :: rowsFrom values (released ++ [byte]) rest

/-- The matcher's rows are those of the text it released and still holds. -/
structure Follows (values : List Bytes) (released : Bytes) (stream : RedactionStream) : Prop where
  base : stream.baseStates = statesOf values released
  history : stream.stateHistory = rowsFrom values released stream.pending
  states : stream.states = statesOf values (released ++ stream.pending)

variable {values : List Bytes} {prefixTables : List (List Nat)} {released text : Bytes}
  {stream : RedactionStream}

/-! ## Rows of states -/

theorem Prepared.ne_nil (h : Prepared values prefixTables) : ∀ value ∈ values, value ≠ [] := by
  intro value hvalue
  obtain ⟨table, -, hne, -⟩ := forall₂_exists_right h hvalue
  exact hne

theorem rowsFrom_length (released pending : Bytes) :
    (rowsFrom values released pending).length = pending.length := by
  induction pending generalizing released with
  | nil => rfl
  | cons byte rest ih => simp [rowsFrom, ih]

theorem rowsFrom_append (released pending later : Bytes) :
    rowsFrom values released (pending ++ later) =
      rowsFrom values released pending ++ rowsFrom values (released ++ pending) later := by
  induction pending generalizing released with
  | nil => simp [rowsFrom]
  | cons byte rest ih => simp [rowsFrom, ih]

theorem rowsFrom_take (released pending : Bytes) (count : Nat) :
    (rowsFrom values released pending).take count =
      rowsFrom values released (pending.take count) := by
  conv_lhs => rw [← take_append_drop count pending, rowsFrom_append]
  rcases le_total count pending.length with hle | hge
  · rw [take_append_of_le_length (by rw [rowsFrom_length, length_take]; omega)]
    rw [take_of_length_le (by rw [rowsFrom_length, length_take]; omega)]
  · rw [drop_eq_nil_of_le hge, rowsFrom, append_nil]
    rw [take_of_length_le (by rw [rowsFrom_length, length_take]; omega)]

theorem rowsFrom_getLast? (released : Bytes) {pending : Bytes} (hne : pending ≠ []) :
    (rowsFrom values released pending).getLast? = some (statesOf values (released ++ pending)) := by
  obtain ⟨front, byte, rfl⟩ : ∃ front byte, pending = front ++ [byte] :=
    ⟨_, _, (dropLast_append_getLast hne).symm⟩
  rw [rowsFrom_append, List.getLast?_append]
  simp [rowsFrom]

/-- A row advances to the row of the longer text while no value is complete. -/
theorem advanceStates_statesOf (hprepd : Prepared values prefixTables) {byte : UInt8}
    (hend : ∀ value ∈ values, ¬ value <:+ text) :
    advanceStates (statesOf values text) byte values prefixTables =
      some (statesOf values (text ++ [byte])) := by
  induction hprepd with
  | nil => rfl
  | @cons value table values prefixTables hpair _ ih =>
    have hlt : prefixLength value text < value.length := by
      refine lt_of_le_of_ne prefixLength_le ?_
      rw [ne_eq, prefixLength_eq_length]
      exact hend value mem_cons_self
    have hadv : advancePrefix (prefixLength value text) byte value table =
        some (prefixLength value (text ++ [byte])) :=
      advancePrefix_eq hlt (hpair.2.mono prefixLength_le)
    have hrest := ih (fun v hv => hend v (mem_cons_of_mem _ hv))
    simp only [statesOf, map_cons, advanceStates] at hrest ⊢
    rw [hadv, hrest]
    rfl

theorem zip_statesOf (values : List Bytes) (text : Bytes) :
    (statesOf values text).zip values = values.map fun value => (prefixLength value text, value) := by
  unfold statesOf
  induction values with
  | nil => rfl
  | cons value rest ih => rw [map_cons, zip_cons_cons, ih, map_cons]

theorem completed_statesOf_eq_some {matched : Nat}
    (h : completed (statesOf values text) values = some matched) :
    ∃ value ∈ values, value <:+ text ∧ matched = value.length := by
  obtain ⟨⟨state, value⟩, hfind, rfl⟩ := Option.map_eq_some_iff.mp h
  have hmem := mem_of_find?_eq_some hfind
  have hstate : state = value.length := by simpa using List.find?_some hfind
  rw [zip_statesOf] at hmem
  obtain ⟨value', hvalue', heq⟩ := mem_map.mp hmem
  obtain ⟨hpre, rfl⟩ := Prod.mk.inj heq
  exact ⟨value', hvalue', prefixLength_eq_length.mp (hpre.trans hstate), hstate⟩

theorem completed_statesOf_eq_none (h : completed (statesOf values text) values = none) :
    ∀ value ∈ values, ¬ value <:+ text := by
  intro value hvalue hsuf
  have hnone := List.find?_eq_none.mp (Option.map_eq_none_iff.mp h)
    (prefixLength value text, value) ?_
  · exact hnone (by simpa using prefixLength_eq_length.mpr hsuf)
  · rw [zip_statesOf]
    exact mem_map_of_mem hvalue

/-! ## Operations on the pending bytes -/

section

variable (hprepd : Prepared values prefixTables) (hfol : Follows values released stream)

include hprepd hfol

theorem Follows.pushByte (havoid : Avoids values (released ++ stream.pending)) (byte : UInt8) :
    ∃ stream', stream.pushByte values prefixTables byte = some stream' ∧
      Follows values released stream' ∧ stream'.pending = stream.pending ++ [byte] ∧
      stream'.anchor = stream.anchor := by
  have hadv : advanceStates stream.states byte values prefixTables =
      some (statesOf values (released ++ stream.pending ++ [byte])) := by
    rw [hfol.states]
    exact advanceStates_statesOf hprepd
      (fun value hvalue hsuf => havoid value hvalue hsuf.isInfix)
  unfold RedactionStream.pushByte
  rw [hadv]
  refine ⟨_, rfl, ?_, rfl, rfl⟩
  constructor
  · exact hfol.base
  · rw [hfol.history, rowsFrom_append]
    rfl
  · exact congrArg (statesOf values) (append_assoc released stream.pending [byte])

/-- A safe marker is pushed byte by byte. -/
theorem Follows.pushBytes {bytes : Bytes}
    (havoid : Avoids values (released ++ stream.pending ++ bytes)) :
    ∃ stream', bytes.foldlM (RedactionStream.pushByte values prefixTables) stream = some stream' ∧
      Follows values released stream' ∧ stream'.pending = stream.pending ++ bytes ∧
      stream'.anchor = stream.anchor := by
  induction bytes generalizing stream with
  | nil => exact ⟨stream, rfl, hfol, (append_nil _).symm, rfl⟩
  | cons byte rest ih =>
    have hhead : Avoids values (released ++ stream.pending) :=
      havoid.of_part (prefix_append _ _).isInfix
    obtain ⟨next, hpush, hnext, hpend, hanch⟩ := hfol.pushByte hprepd hhead byte
    have hrest : Avoids values (released ++ next.pending ++ rest) := by
      rw [hpend, ← append_assoc, append_assoc, singleton_append]
      exact havoid
    obtain ⟨stream', hfold, hfol', hpend', hanch'⟩ := ih hnext hrest
    refine ⟨stream', ?_, hfol', ?_, hanch'.trans hanch⟩
    · rw [foldlM_cons, hpush]
      exact hfold
    · rw [hpend', hpend, append_assoc, singleton_append]

end

/-- Taking bytes back restores the row of the text that is left. -/
theorem Follows.removeMatch (hfol : Follows values released stream) (matchedBytes : Nat) :
    ∃ stream', stream.removeMatch matchedBytes = some stream' ∧ Follows values released stream' ∧
      stream'.pending = stream.pending.take (stream.pending.length - matchedBytes) ∧
      stream'.anchor = stream.anchor := by
  have hhistory : stream.stateHistory.take (stream.stateHistory.length - matchedBytes) =
      rowsFrom values released (stream.pending.take (stream.pending.length - matchedBytes)) := by
    rw [hfol.history, rowsFrom_length, rowsFrom_take]
  unfold RedactionStream.removeMatch
  rw [hhistory]
  generalize stream.pending.take (stream.pending.length - matchedBytes) = pending
  cases pending with
  | nil =>
    exact ⟨_, if_pos rfl, ⟨hfol.base, rfl, by rw [append_nil]; exact hfol.base⟩,
      rfl, rfl⟩
  | cons byte rest =>
    have hlast : (rowsFrom values released (byte :: rest)).getLast? =
        some (statesOf values (released ++ byte :: rest)) :=
      rowsFrom_getLast? released (cons_ne_nil byte rest)
    simp only [hlast]
    exact ⟨_, rfl, ⟨hfol.base, rfl, rfl⟩, rfl, rfl⟩

theorem releaseWhile_rowsFrom (retained : Nat) (released pending : Bytes) :
    ∃ output rest, RedactionStream.releaseWhile retained pending (rowsFrom values released pending)
        (statesOf values released) = some (output, rest, rowsFrom values (released ++ output) rest,
          statesOf values (released ++ output)) ∧ pending = output ++ rest := by
  induction pending generalizing released with
  | nil => exact ⟨[], [], by simp [RedactionStream.releaseWhile, rowsFrom], rfl⟩
  | cons byte pending ih =>
    by_cases hlt : retained < pending.length + 1
    · obtain ⟨output, rest, hrel, hsplit⟩ := ih (released ++ [byte])
      refine ⟨byte :: output, rest, ?_, by rw [hsplit, cons_append]⟩
      rw [rowsFrom, RedactionStream.releaseWhile, if_pos hlt]
      simp only [hrel, append_assoc, singleton_append]
      rfl
    · refine ⟨[], byte :: pending, ?_, rfl⟩
      rw [rowsFrom, RedactionStream.releaseWhile, if_neg hlt, append_nil]
      rfl

theorem Follows.releaseSafePrefix (hfol : Follows values released stream) :
    ∃ output stream', stream.releaseSafePrefix = some (output, stream') ∧
      Follows values (released ++ output) stream' ∧ stream.pending = output ++ stream'.pending ∧
      stream'.anchor = stream.anchor := by
  obtain ⟨output, rest, hrel, hsplit⟩ :
      ∃ output rest, RedactionStream.releaseWhile (stream.states.max?.getD 0) stream.pending
          (rowsFrom values released stream.pending) (statesOf values released) =
          some (output, rest, rowsFrom values (released ++ output) rest,
            statesOf values (released ++ output)) ∧ stream.pending = output ++ rest :=
    releaseWhile_rowsFrom _ released stream.pending
  unfold RedactionStream.releaseSafePrefix
  rw [hfol.history, hfol.base, hrel]
  refine ⟨output, _, rfl, ⟨rfl, rfl, ?_⟩, hsplit, rfl⟩
  show stream.states = statesOf values (released ++ output ++ rest)
  rw [hfol.states, hsplit, append_assoc]

/-! ## Markers -/

/-- The safety check reads the automata of the text it is asked about. -/
theorem markerIsSafe_spec (hprepd : Prepared values prefixTables)
    (havoid : Avoids values text) (bytes : Bytes) :
    ∃ safe, RedactionStream.markerIsSafe values prefixTables (statesOf values text) bytes =
        some safe ∧ (safe = true → Avoids values (text ++ bytes)) := by
  induction bytes generalizing text with
  | nil => exact ⟨true, rfl, fun _ => by rwa [append_nil]⟩
  | cons byte rest ih =>
    have hadv : advanceStates (statesOf values text) byte values prefixTables =
        some (statesOf values (text ++ [byte])) :=
      advanceStates_statesOf hprepd
        fun value hvalue hsuf => havoid value hvalue hsuf.isInfix
    rw [RedactionStream.markerIsSafe, hadv]
    show ∃ safe, (if (completed (statesOf values (text ++ [byte])) values).isSome then _ else _) =
      _ ∧ _
    cases hcompd : completed (statesOf values (text ++ [byte])) values with
    | some matched => exact ⟨false, rfl, fun h => absurd h Bool.false_ne_true⟩
    | none =>
      have hnext : Avoids values (text ++ [byte]) :=
        avoids_concat_iff.mpr ⟨havoid, completed_statesOf_eq_none hcompd⟩
      obtain ⟨safe, hsafe, hall⟩ := ih hnext
      refine ⟨safe, hsafe, fun h => ?_⟩
      have := hall h
      rwa [append_assoc, singleton_append] at this

theorem safeMarker_spec (hprepd : Prepared values prefixTables)
    (havoid : Avoids values text) (removedBytes : Nat) :
    ∃ bytes, RedactionStream.safeMarker values prefixTables (statesOf values text) removedBytes =
        some bytes ∧ Avoids values (text ++ bytes) := by
  obtain ⟨preferred, hpreferred, hpreferredSafe⟩ :=
    markerIsSafe_spec hprepd havoid (marker removedBytes)
  obtain ⟨fallback, hfallback, hfallbackSafe⟩ :=
    markerIsSafe_spec hprepd havoid fallbackMarker
  unfold RedactionStream.safeMarker
  rw [hpreferred]
  cases preferred with
  | true => exact ⟨_, rfl, hpreferredSafe rfl⟩
  | false =>
    show ∃ bytes, (RedactionStream.markerIsSafe _ _ _ _).bind _ = _ ∧ _
    rw [hfallback]
    cases fallback with
    | true => exact ⟨_, rfl, hfallbackSafe rfl⟩
    | false => exact ⟨[], rfl, by rwa [append_nil]⟩

/-! ## Chunks -/

section

variable (hprepd : Prepared values prefixTables) (hfol : Follows values released stream)

include hprepd hfol

theorem appendSafeMarker_spec (havoid : Avoids values (released ++ stream.pending))
    (removedBytes : Nat) :
    ∃ stream', stream.appendSafeMarker values prefixTables removedBytes = some stream' ∧
      Follows values released stream' ∧ Avoids values (released ++ stream'.pending) ∧
      stream'.anchor = stream.anchor := by
  obtain ⟨bytes, hmarker, hsafe⟩ := safeMarker_spec hprepd havoid removedBytes
  obtain ⟨stream', hpush, hfol', hpend, hanch⟩ := hfol.pushBytes hprepd hsafe
  refine ⟨stream', ?_, hfol', ?_, hanch⟩
  · unfold RedactionStream.appendSafeMarker
    rw [hfol.states, hmarker]
    exact hpush
  · rw [hpend, ← append_assoc]
    exact hsafe

/-- After a byte: a value that ends there is taken back and replaced by a safe
    marker; otherwise the byte stays. -/
theorem replaceMatch_spec {before : Bytes} {byte : UInt8}
    (hpend : stream.pending = before ++ [byte]) (havoid : Avoids values (released ++ before)) :
    ∃ stream', stream.replaceMatch values prefixTables = some stream' ∧
      Follows values released stream' ∧ Avoids values (released ++ stream'.pending) ∧
      stream'.anchor = stream.anchor ∧
      (Avoids values (released ++ stream.pending) → stream' = stream) := by
  unfold RedactionStream.replaceMatch
  rw [hfol.states]
  cases hcompd : completed (statesOf values (released ++ stream.pending)) values with
  | none =>
    have hend := completed_statesOf_eq_none hcompd
    refine ⟨stream, rfl, hfol, ?_, rfl, fun _ => rfl⟩
    rw [hpend, ← append_assoc] at hend ⊢
    exact avoids_concat_iff.mpr ⟨havoid, hend⟩
  | some matched =>
    obtain ⟨value, hvalue, hsuf, hmatched⟩ := completed_statesOf_eq_some hcompd
    obtain ⟨removed, hremove, hremoved, hleft, hanch⟩ := hfol.removeMatch matched
    have hpos : 0 < matched := by
      rw [hmatched]
      exact length_pos_of_ne_nil (hprepd.ne_nil value hvalue)
    -- The byte that completed the value is gone, so what is left was clean before.
    have hpre : removed.pending <+: before := by
      rw [hleft, hpend, length_append, length_singleton,
        take_append_of_le_length (by omega)]
      exact take_prefix _ _
    have hclean : Avoids values (released ++ removed.pending) :=
      havoid.of_part ((prefix_append_right_inj released).mpr hpre).isInfix
    obtain ⟨marked, hmark, hmarked, hmarkedClean, hanch'⟩ :=
      appendSafeMarker_spec hprepd hremoved hclean matched
    refine ⟨marked, ?_, hmarked, hmarkedClean, hanch'.trans hanch, ?_⟩
    · show (stream.removeMatch matched).bind _ = _
      rw [hremove]
      exact hmark
    · intro hall
      exact absurd hsuf.isInfix (hall value hvalue)

/-- One byte keeps the matcher in step and the text free of values; a byte that
    completes no value is kept as it is. -/
theorem pushOne_spec (havoid : Avoids values (released ++ stream.pending)) (byte : UInt8) :
    ∃ output stream', stream.pushOne values prefixTables byte = some (output, stream') ∧
      Follows values (released ++ output) stream' ∧
      Avoids values (released ++ output ++ stream'.pending) ∧ stream'.anchor = stream.anchor ∧
      (Avoids values (released ++ (stream.pending ++ [byte])) →
        output ++ stream'.pending = stream.pending ++ [byte]) := by
  obtain ⟨pushed, hpush, hpushed, hpend, hanch⟩ := hfol.pushByte hprepd havoid byte
  obtain ⟨replaced, hreplace, hreplaced, hclean, hanch', hsame⟩ :=
    replaceMatch_spec hprepd hpushed hpend havoid
  obtain ⟨output, stream', hrel, hfol', hsplit, hanch''⟩ := hreplaced.releaseSafePrefix
  refine ⟨output, stream', ?_, hfol', ?_, hanch''.trans (hanch'.trans hanch), ?_⟩
  · unfold RedactionStream.pushOne
    rw [hpush]
    show (pushed.replaceMatch values prefixTables).bind _ = _
    rw [hreplace]
    exact hrel
  · rwa [append_assoc, ← hsplit]
  · intro hall
    rw [← hpend] at hall
    rw [← hsplit, hsame hall, hpend]

/-- A chunk keeps the matcher in step and the text free of values; a chunk that
    completes no value passes unchanged. -/
theorem push_spec (havoid : Avoids values (released ++ stream.pending)) (bytes : Bytes) :
    ∃ output stream', stream.push values prefixTables bytes = some (output, stream') ∧
      Follows values (released ++ output) stream' ∧
      Avoids values (released ++ output ++ stream'.pending) ∧ stream'.anchor = stream.anchor ∧
      (Avoids values (released ++ (stream.pending ++ bytes)) →
        output ++ stream'.pending = stream.pending ++ bytes) := by
  induction bytes generalizing stream released with
  | nil =>
    refine ⟨[], stream, rfl, ?_, ?_, rfl, ?_⟩
    · rwa [append_nil]
    · rwa [append_nil]
    · simp
  | cons byte rest ih =>
    obtain ⟨output, next, hone, hnext, hclean, hanch, hsame⟩ :=
      pushOne_spec hprepd hfol havoid byte
    obtain ⟨outputs, stream', hpush, hfol', hclean', hanch', hsame'⟩ := ih hnext hclean
    refine ⟨output ++ outputs, stream', ?_, ?_, ?_, hanch'.trans hanch, ?_⟩
    · rw [RedactionStream.push, hone]
      show (next.push values prefixTables rest).bind _ = _
      rw [hpush]
      rfl
    · rwa [← append_assoc]
    · rwa [← append_assoc]
    · intro hall
      have hbyte := hsame (hall.of_part (List.IsPrefix.isInfix ⟨rest, by simp⟩))
      have hrest := hsame' (by
        rw [append_assoc, ← append_assoc output, hbyte]
        simpa using hall)
      rw [append_assoc, hrest, ← append_assoc, hbyte, append_assoc,
        singleton_append]

end

/-! ## Starting and letting go -/

theorem follows_new (anchor : Nat) :
    Follows values [] (RedactionStream.new anchor values.length) := by
  have hstart : statesOf values [] = List.replicate values.length 0 := by
    simp [statesOf]
  exact ⟨hstart.symm, rfl, hstart.symm⟩

/-- Masking leaves a text without values that starts with what was released. -/
theorem masked_spec (hprepd : Prepared values prefixTables)
    (hfol : Follows values released stream)
    (havoid : Avoids values (released ++ stream.pending)) :
    ∃ stream', stream.masked values prefixTables = some stream' ∧
      Follows values released stream' ∧ Avoids values (released ++ stream'.pending) ∧
      stream'.anchor = stream.anchor := by
  obtain ⟨removed, hremove, hremoved, hleft, hanch⟩ :=
    hfol.removeMatch stream.pending.length
  have hclean : Avoids values (released ++ removed.pending) := by
    rw [hleft, Nat.sub_self, take_zero, append_nil]
    exact havoid.of_part (prefix_append _ _).isInfix
  obtain ⟨marked, hmark, hmarked, hmarkedClean, hanch'⟩ :=
    appendSafeMarker_spec hprepd hremoved hclean stream.pending.length
  refine ⟨marked, ?_, hmarked, hmarkedClean, hanch'.trans hanch⟩
  unfold RedactionStream.masked
  show (stream.removeMatch stream.pending.length).bind _ = _
  rw [hremove]
  exact hmark

/-- A matcher that is not live may be dropped: its text starts no value at the end. -/
theorem Follows.unstarted (hfol : Follows values released stream)
    (hlive : stream.isLive = false) : Unstarted values (released ++ stream.pending) := by
  intro value hvalue
  unfold RedactionStream.isLive at hlive
  rw [hfol.states, any_eq_false] at hlive
  have := hlive _ (mem_map_of_mem hvalue)
  simpa using this

end OctaCity.Runner
