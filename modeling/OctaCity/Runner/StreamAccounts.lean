/-
  OctaCity.Runner.StreamAccounts

  One stream's bytes on their way through the queue.  `written` holds, for each
  event of the run so far, the piece of the stream's text that was written into
  it; `reads` says how the queued or emitted event reads.
-/
import OctaCity.Runner.RedactedDocument

namespace OctaCity.Runner

open Lib List Option

/-! ## Pieces -/

variable {index : Nat}

theorem set_getElem?_eq {α : Type} {l : List α} {a : α} (h : l[index]? = some a) :
    l.set index a = l := by
  apply ext_getElem?
  intro i
  by_cases hi : index = i
  · subst hi
    rw [List.getElem?_set_self (List.getElem?_eq_some_iff.mp h).1, h]
  · rw [List.getElem?_set_ne hi]

/-- A suffix appended to the last piece that is not empty is appended to the text. -/
theorem flatten_set_append {α : Type} {pieces : List (List α)}
    {piece suffix : List α} (hpiece : pieces[index]? = some piece)
    (hlast : ∀ i later, index < i → pieces[i]? = some later → later = []) :
    (pieces.set index (piece ++ suffix)).flatten = pieces.flatten ++ suffix := by
  induction pieces generalizing index with
  | nil => cases hpiece
  | cons head rest ih =>
    cases index with
    | zero =>
      cases hpiece
      have hrest : rest.flatten = [] := by
        rw [flatten_eq_nil_iff]
        intro later hlater
        obtain ⟨i, hi⟩ := mem_iff_getElem?.mp hlater
        exact hlast (i + 1) later (Nat.succ_pos i) hi
      simp [hrest]
    | succ index =>
      have hrest := ih hpiece fun i later hi hlater =>
        hlast (i + 1) later (Nat.succ_lt_succ hi) hlater
      simp [hrest]

theorem piece_infix_flatten {α : Type} {pieces : List (List α)} {piece : List α}
    (h : piece ∈ pieces) : piece <:+: pieces.flatten := by
  obtain ⟨before, after, rfl⟩ := append_of_mem h
  exact ⟨before.flatten, after.flatten, by simp⟩

namespace RunnerRedactions

/-- A console output event of one stream; lines count where they are asked for. -/
def IsOutput (codec : Codec) (lines : Bool) (key : StreamKey) (event : RunnerEvent) : Prop :=
  ∃ format bytes, outputPayload codec event = some (key, format, bytes) ∧
    (format = .line → lines = true)

/-- How an event reads once a piece of an allowed text is written into it:
    `Reads format piece event` for an input of that format. -/
structure Reading (codec : Codec) (values : List Bytes) (key : StreamKey)
    (Input : RunnerEvent → Prop) (Allowed : Bytes → Prop)
    (Reads : OutputFormat → Bytes → RunnerEvent → Prop) : Prop where
  chunk : ∀ {input event : RunnerEvent} {format : OutputFormat} {bytes piece : Bytes}
    {data : Fields}, Input input → outputPayload codec input = some (key, format, bytes) →
    format ≠ .line → setOutputData codec input piece format = .ok event → Allowed piece →
    redactMap codec values event.data = .ok data → Reads format piece { event with data := data }
  tail : ∀ {output event : RunnerEvent} {key' : StreamKey} {format format' : OutputFormat}
    {bytes piece suffix : Bytes} {data : Fields}, format ≠ .line → Reads format piece output →
    outputPayload codec output = some (key', format', bytes) →
    setOutputData codec output (bytes ++ suffix) format' = .ok event →
    Allowed (piece ++ suffix) → redactMap codec values event.data = .ok data →
    Reads format (piece ++ suffix) { event with data := data }
  line : ∀ {input : RunnerEvent} {bytes : Bytes} {data : Fields}, Input input →
    outputPayload codec input = some (key, .line, bytes) →
    redactMap codec values input.data = .ok data → Reads .line bytes { input with data := data }

/-- The account of one stream over the events of a run so far. -/
structure Accounts (codec : Codec) (lines : Bool) (key : StreamKey)
    (Reads : OutputFormat → Bytes → RunnerEvent → Prop) (inputs emitted : List RunnerEvent)
    (state : RunnerRedactions) (written : List Bytes) : Prop where
  length : written.length = inputs.length
  queued : emitted.length + state.pending.length = inputs.length
  other : ∀ (i : Nat) input, inputs[i]? = some input → ¬ IsOutput codec lines key input → written[i]? = some []
  reads : ∀ (i : Nat) input format bytes piece output, inputs[i]? = some input →
    outputPayload codec input = some (key, format, bytes) → (format = .line → lines = true) →
    written[i]? = some piece → (emitted ++ state.pending.map PendingEvent.event)[i]? = some output →
    Reads format piece output
  anchors : ∀ row ∈ state.streams.rows, ∃ input format bytes,
    inputs[emitted.length + row.2.anchor]? = some input ∧
      outputPayload codec input = some (row.1, format, bytes) ∧ format ≠ .line
  last : ∀ row, state.streams.find? key = some row → ∀ (i : Nat) input,
    emitted.length + row.2.anchor < i → inputs[i]? = some input → ¬ IsOutput codec lines key input

/-- The stream's matcher is the same up to its anchor. -/
def SameMatcher (key : StreamKey) (state state' : RunnerRedactions) : Prop :=
  ((state'.streams.find? key).map fun row => { row.2 with anchor := 0 }) =
    (state.streams.find? key).map fun row => { row.2 with anchor := 0 }

variable {key k : StreamKey} {state state' : RunnerRedactions} {input : RunnerEvent}
  {bytes : Bytes} {tail : RedactionStream → Option Bytes}

theorem SameMatcher.of_eq
    (h : state'.streams.find? key = state.streams.find? key) : SameMatcher key state state' := by
  unfold SameMatcher
  rw [h]

section

variable (h : SameMatcher key state state')

include h

theorem SameMatcher.trans {state'' : RunnerRedactions} (h' : SameMatcher key state' state'') :
    SameMatcher key state state'' :=
  Eq.trans h' h

/-- The same matcher holds the same bytes back and has followed the same texts. -/
theorem SameMatcher.elim : (state.streams.find? key = none ∧ state'.streams.find? key = none) ∨
      ∃ row row', state.streams.find? key = some row ∧ state'.streams.find? key = some row' ∧
        row'.2.pending = row.2.pending ∧
        ∀ values seen, Follows values seen row.2 → Follows values seen row'.2 := by
  unfold SameMatcher at h
  cases hfind' : state'.streams.find? key with
  | none =>
    rw [hfind', map_none, eq_comm, map_eq_none_iff] at h
    exact Or.inl ⟨h, rfl⟩
  | some row' =>
    rw [hfind', map_some, eq_comm, map_eq_some_iff] at h
    obtain ⟨row, hfind, heq⟩ := h
    obtain ⟨-, hpend, hhistory, hbase, hstates⟩ := RedactionStream.mk.inj heq
    refine Or.inr ⟨row, row', hfind, rfl, hpend.symm, fun values seen hfol => ⟨?_, ?_, ?_⟩⟩
    · rw [← hbase, hfol.base]
    · rw [← hhistory, ← hpend, hfol.history]
    · rw [← hstates, ← hpend, hfol.states]

theorem SameMatcher.none (hnone : state.streams.find? key = none) :
    state'.streams.find? key = none := by
  rcases h.elim with ⟨-, hnone'⟩ | ⟨row, _, hfind, -⟩
  · exact hnone'
  · rw [hnone] at hfind
    cases hfind

end

variable {codec : Codec} {lines : Bool} {key : StreamKey} {values : List Bytes}
  {Input : RunnerEvent → Prop} {Allowed : Bytes → Prop}
  {Reads : OutputFormat → Bytes → RunnerEvent → Prop} {inputs emitted : List RunnerEvent}
  {state : RunnerRedactions} {written : List Bytes}

/-- A run begins without events. -/
theorem Accounts.start (hstrs : state.streams.rows = []) (hpend : state.pending = []) :
    Accounts codec lines key Reads [] [] state [] where
  length := rfl
  queued := by rw [hpend]; rfl
  other _ _ hinput := by cases hinput
  reads _ _ _ _ _ _ hinput := by cases hinput
  anchors row hrow := by
    rw [hstrs] at hrow
    cases hrow
  last row hrow := by
    have hmem := ((Table.find?_eq_some_iff _ _ _).mp hrow).1
    rw [hstrs] at hmem
    cases hmem

/-! ## Releasing -/

theorem Accounts.releaseResolved (h : Accounts codec lines key Reads inputs emitted state written)
    (hwell : state.WellFormed) {out : List RunnerEvent}
    (hrel : state.releaseResolved = .ok (out, state')) :
    Accounts codec lines key Reads inputs (emitted ++ out) state' written ∧
      SameMatcher key state state' := by
  rw [releaseResolved_eq hwell] at hrel
  cases hrel
  have hcount := releaseCount_le_length hwell
  have hlen : ((state.pending.take state.releaseCount).map PendingEvent.event).length =
      state.releaseCount := by
    rw [length_map, length_take, min_eq_left hcount]
  have hsame : emitted ++ (state.pending.take state.releaseCount).map PendingEvent.event ++
      (state.pending.drop state.releaseCount).map PendingEvent.event =
      emitted ++ state.pending.map PendingEvent.event := by
    rw [append_assoc, ← map_append, take_append_drop]
  have hshift : ∀ row ∈ state.streams.rows,
      (emitted ++ (state.pending.take state.releaseCount).map PendingEvent.event).length +
        (row.2.anchor - state.releaseCount) = emitted.length + row.2.anchor := by
    intro row hrow
    have hle := releaseCount_le_anchor hrow
    rw [length_append, hlen]
    omega
  have hfind : ∀ k, (state.released state.releaseCount).streams.find? k =
      (state.streams.find? k).map (shiftAnchor state.releaseCount) :=
    fun k => Table.mapRows_find? state.streams (shiftAnchor state.releaseCount) (fun _ => rfl) k
  refine ⟨⟨h.length, ?_, h.other, ?_, ?_, ?_⟩, ?_⟩
  · have hq := h.queued
    show (emitted ++ _).length + (state.pending.drop state.releaseCount).length = _
    rw [length_append, hlen, length_drop]
    omega
  · intro i input format bytes piece output hinput hpay hlines hpiece houtput
    refine h.reads i input format bytes piece output hinput hpay hlines hpiece ?_
    rw [← hsame]
    exact houtput
  · intro row hrow
    obtain ⟨row', hrow', rfl⟩ := mem_map.mp hrow
    obtain ⟨input, format, bytes, hinput, hpay⟩ := h.anchors row' hrow'
    refine ⟨input, format, bytes, ?_, hpay⟩
    show inputs[_ + (row'.2.anchor - state.releaseCount)]? = some input
    rw [hshift row' hrow']
    exact hinput
  · intro row hrow i input hi hinput
    rw [hfind] at hrow
    obtain ⟨row', hrow', rfl⟩ := map_eq_some_iff.mp hrow
    refine h.last row' hrow' i input ?_ hinput
    have hlt : _ + (row'.2.anchor - state.releaseCount) < i := hi
    rwa [hshift row' (find_mem hrow').1] at hlt
  · unfold SameMatcher
    rw [hfind, Option.map_map]
    rfl

/-! ## Changing a queued event -/

section

variable (h : Accounts codec lines key Reads inputs emitted state written)

include h

/-- A queued event is replaced by one that reads as the given piece. -/
theorem Accounts.replace {event : RunnerEvent} {piece : Bytes}
    (hrepl : Replaces state index event state')
    (hinput : inputs[emitted.length + index]? = some input)
    (hreads : ∀ format bytes, outputPayload codec input = some (key, format, bytes) →
      (format = .line → lines = true) → Reads format piece event)
    (hother : ¬ IsOutput codec lines key input → piece = []) :
    Accounts codec lines key Reads inputs emitted state' (written.set (emitted.length + index) piece) := by
  obtain ⟨bytes, hpend⟩ := hrepl.pending
  have hwrit : emitted.length + index < written.length := by
    rw [h.length]
    exact (List.getElem?_eq_some_iff.mp hinput).1
  constructor
  · rw [length_set, h.length]
  · rw [hpend, length_set]
    exact h.queued
  · intro i input' hinput' hnot
    by_cases hi : emitted.length + index = i
    · subst hi
      rw [hinput] at hinput'
      cases hinput'
      rw [List.getElem?_set_self hwrit, hother hnot]
    · rw [List.getElem?_set_ne hi]
      exact h.other i input' hinput' hnot
  · intro i input' format bytes' piece' output hinput' hpay hlines hpiece houtput
    rw [hpend] at houtput
    by_cases hi : emitted.length + index = i
    · subst hi
      rw [hinput] at hinput'
      cases hinput'
      rw [List.getElem?_set_self hwrit] at hpiece
      cases hpiece
      have hlt : index < state.pending.length := by
        have := h.queued
        rw [h.length] at hwrit
        omega
      rw [List.getElem?_append_right (Nat.le_add_right _ _), Nat.add_sub_cancel_left,
        map_set, List.getElem?_set_self (by rwa [length_map])] at houtput
      cases houtput
      exact hreads format bytes' hpay hlines
    · rw [List.getElem?_set_ne hi] at hpiece
      refine h.reads i input' format bytes' piece' output hinput' hpay hlines hpiece ?_
      rcases lt_or_ge i emitted.length with hlt | hge
      · rw [List.getElem?_append_left hlt] at houtput ⊢
        exact houtput
      · rw [List.getElem?_append_right hge] at houtput ⊢
        rw [map_set, List.getElem?_set_ne (by omega)] at houtput
        exact houtput
  · rw [hrepl.streams]
    exact h.anchors
  · rw [hrepl.streams]
    exact h.last

theorem Accounts.erase (k : StreamKey) : Accounts codec lines key Reads inputs emitted
      { state with streams := state.streams.erase k } written where
  length := h.length
  queued := h.queued
  other := h.other
  reads := h.reads
  anchors row hrow := h.anchors row (Table.mem_erase.mp hrow).1
  last row hrow := by
    have hmem := (Table.find?_eq_some_iff _ _ _).mp hrow
    exact h.last row ((Table.find?_eq_some_iff _ _ _).mpr
      ⟨(Table.mem_erase.mp hmem.1).1, hmem.2⟩)

end

/-! ## Tails -/

theorem Accounts.written_at (h : Accounts codec lines key Reads inputs emitted state written) {i : Nat}
    (hinput : inputs[i]? = some input) : ∃ piece, written[i]? = some piece := by
  have hlt : i < written.length := by
    rw [h.length]
    exact (List.getElem?_eq_some_iff.mp hinput).1
  exact ⟨_, List.getElem?_eq_getElem hlt⟩

theorem Accounts.anchor_lt (h : Accounts codec lines key Reads inputs emitted state written)
    {row : StreamKey × RedactionStream} (hfind : state.streams.find? key = some row) :
    emitted.length + row.2.anchor < written.length := by
  obtain ⟨_, _, _, hinput, -⟩ := h.anchors row (find_mem hfind).1
  rw [h.length]
  exact (List.getElem?_eq_some_iff.mp hinput).1

theorem getElem?_queued {entry : PendingEvent} (hentry : state.pending[index]? = some entry) :
    (emitted ++ state.pending.map PendingEvent.event)[emitted.length + index]? =
      some entry.event := by
  rw [List.getElem?_append_right (Nat.le_add_right _ _), Nat.add_sub_cancel_left,
    List.getElem?_map, hentry]
  rfl

section

variable (h : Accounts codec lines key Reads inputs emitted state written)

include h

/-- A tail of another stream leaves the account alone. -/
theorem Accounts.attachTail_other (hinput : inputs[emitted.length + index]? = some input)
    (hother : ¬ IsOutput codec lines key input)
    (hattach : state.attachTail codec index bytes = .ok state') :
    Accounts codec lines key Reads inputs emitted state' written := by
  rcases attachTail_eq_ok hattach with ⟨-, rfl⟩ | ⟨_, _, _, _, _, _, -, -, -, -, hrepl⟩
  · exact h
  · have hpiece := h.other _ _ hinput hother
    have hset : Accounts codec lines key Reads inputs emitted state'
        (written.set (emitted.length + index) []) := h.replace hrepl hinput
      (fun format bytes hpay hlines => absurd ⟨format, bytes, hpay, hlines⟩ hother) (fun _ => rfl)
    rwa [set_getElem?_eq hpiece] at hset

/-- What is appended to the stream's last piece is appended to its text. -/
theorem Accounts.flatten_append {piece : Bytes} (hpiece : written[emitted.length + index]? = some piece)
    (hlast : ∀ (i : Nat) input, emitted.length + index < i → inputs[i]? = some input →
      ¬ IsOutput codec lines key input) (suffix : Bytes) :
    (written.set (emitted.length + index) (piece ++ suffix)).flatten = written.flatten ++ suffix := by
  refine flatten_set_append hpiece fun i later hi hlater => ?_
  have hlt : i < inputs.length := by
    rw [← h.length]
    exact (List.getElem?_eq_some_iff.mp hlater).1
  have hinput' : inputs[i]? = some inputs[i] := List.getElem?_eq_getElem hlt
  rw [h.other i _ hinput' (hlast i _ hi hinput')] at hlater
  exact (Option.some.inj hlater).symm

/-- The piece at the matcher's anchor ends the stream's text. -/
theorem Accounts.anchored_infix {row : StreamKey × RedactionStream} {piece : Bytes}
    (hfind : state.streams.find? key = some row)
    (hpiece : written[emitted.length + row.2.anchor]? = some piece) (suffix : Bytes) :
    piece ++ suffix <:+: written.flatten ++ suffix := by
  rw [← h.flatten_append hpiece (h.last row hfind) suffix]
  exact piece_infix_flatten (mem_iff_getElem?.mpr ⟨emitted.length + row.2.anchor,
    List.getElem?_set_self (List.getElem?_eq_some_iff.mp hpiece).1⟩)

/-- The stream's own tail is appended to its text. -/
theorem Accounts.attachTail_own (hreadg : Reading codec values key Input Allowed Reads)
    (hvals : state.values = values) {payload : Bytes} {format : OutputFormat}
    (hinput : inputs[emitted.length + index]? = some input)
    (hpay : outputPayload codec input = some (key, format, payload)) (hfmt : format ≠ .line)
    (hlast : ∀ (i : Nat) input, emitted.length + index < i → inputs[i]? = some input →
      ¬ IsOutput codec lines key input)
    (hallow : ∀ piece, written[emitted.length + index]? = some piece → Allowed (piece ++ bytes))
    (hattach : state.attachTail codec index bytes = .ok state') :
    ∃ written', Accounts codec lines key Reads inputs emitted state' written' ∧
      written'.flatten = written.flatten ++ bytes := by
  obtain ⟨piece, hpiece⟩ := h.written_at hinput
  rcases attachTail_eq_ok hattach with ⟨rfl, rfl⟩ |
    ⟨entry, key', format', read, event, data, hentry, hread, hset, hredact, hrepl⟩
  · exact ⟨written, h, (append_nil _).symm⟩
  have hflat := h.flatten_append hpiece hlast bytes
  refine ⟨_, h.replace hrepl hinput ?_ fun hnot =>
    absurd ⟨format, payload, hpay, fun hline => absurd hline hfmt⟩ hnot, hflat⟩
  intro format₀ bytes₀ hpayload₀ hlines
  rw [hpay] at hpayload₀
  cases hpayload₀
  have hreads := h.reads _ _ _ _ _ _ hinput hpay hlines hpiece (getElem?_queued hentry)
  rw [hvals] at hredact
  exact hreadg.tail hfmt hreads hread hset (hallow piece hpiece) hredact

end

/-- A matcher is dropped and its tail attached, if the stream has one. -/
def DropsTail (codec : Codec) (tail : RedactionStream → Option Bytes) (state : RunnerRedactions)
    (k : StreamKey) (state' : RunnerRedactions) : Prop :=
  (state.streams.find? k = none ∧ state' = state) ∨
    ∃ row bytes, state.streams.find? k = some row ∧ tail row.2 = some bytes ∧
      attachTail codec { state with streams := state.streams.erase k } row.2.anchor bytes =
        .ok state'

theorem flushKey_drops (h : state.flushKey codec k = .ok state') :
    DropsTail codec (fun stream => some stream.finish) state k state' := by
  unfold flushKey at h
  cases hfind : state.streams.find? k with
  | none =>
    rw [hfind] at h
    cases h
    exact Or.inl ⟨hfind, rfl⟩
  | some row =>
    rw [hfind] at h
    exact Or.inr ⟨row, _, hfind, rfl, h⟩

theorem maskKey_drops (h : state.maskKey codec k = .ok state') :
    DropsTail codec (fun stream => stream.finishMasked state.values state.prefixTables)
      state k state' := by
  unfold maskKey at h
  cases hfind : state.streams.find? k with
  | none =>
    rw [hfind] at h
    cases h
    exact Or.inl ⟨hfind, rfl⟩
  | some row =>
    rw [hfind] at h
    obtain ⟨bytes, hbytes, h⟩ := bind_eq_ok.mp h
    exact Or.inr ⟨row, bytes, hfind, orFault_eq_ok.mp hbytes, h⟩

theorem DropsTail.other_find {k' : StreamKey}
    (h : DropsTail codec tail state k state') (hne : k' ≠ k) :
    state'.streams.find? k' = state.streams.find? k' := by
  rcases h with ⟨-, rfl⟩ | ⟨row, bytes, -, -, hattach⟩
  · rfl
  · rw [attachTail_streams hattach]
    exact Table.find?_erase_of_ne hne

section

variable (h : Accounts codec lines key Reads inputs emitted state written)

include h

/-- Dropping another stream's matcher. -/
theorem Accounts.drop_other (hne : k ≠ key) (hdrop : DropsTail codec tail state k state') :
    Accounts codec lines key Reads inputs emitted state' written := by
  rcases hdrop with ⟨-, rfl⟩ | ⟨row, bytes, hfind, -, hattach⟩
  · exact h
  · obtain ⟨hrow, hkey⟩ := find_mem hfind
    obtain ⟨input, format, payload, hinput, hpay, -⟩ := h.anchors row hrow
    refine (h.erase k).attachTail_other hinput ?_ hattach
    rintro ⟨format', bytes', hpay', -⟩
    rw [hpay] at hpay'
    cases hpay'
    exact hne hkey.symm

/-- Dropping the stream's own matcher appends its tail. -/
theorem Accounts.drop_own (hreadg : Reading codec values key Input Allowed Reads)
    (hvals : state.values = values) {row : StreamKey × RedactionStream}
    (hfind : state.streams.find? key = some row) (htail : tail row.2 = some bytes)
    (hallow : ∀ piece, written[emitted.length + row.2.anchor]? = some piece →
      Allowed (piece ++ bytes)) (hdrop : DropsTail codec tail state key state') :
    ∃ written', Accounts codec lines key Reads inputs emitted state' written' ∧
      written'.flatten = written.flatten ++ bytes ∧ state'.streams.find? key = none := by
  rcases hdrop with ⟨hnone, -⟩ | ⟨row', bytes', hfind', htail', hattach⟩
  · rw [hfind] at hnone
    cases hnone
  · rw [hfind] at hfind'
    cases hfind'
    rw [htail] at htail'
    cases htail'
    obtain ⟨hrow, hkey⟩ := find_mem hfind
    obtain ⟨input, format, payload, hinput, hpay, hfmt⟩ := h.anchors row hrow
    rw [hkey] at hpay
    obtain ⟨written', haccs, hflat⟩ := (h.erase key).attachTail_own hreadg hvals hinput
      hpay hfmt (h.last row hfind) hallow hattach
    refine ⟨written', haccs, hflat, ?_⟩
    rw [attachTail_streams hattach]
    exact Table.find?_erase_self

end

theorem DropsTail.kept_values (h : DropsTail codec tail state k state') :
    state'.values = state.values ∧ state'.prefixTables = state.prefixTables := by
  rcases h with ⟨-, rfl⟩ | ⟨row, bytes, -, -, hattach⟩
  · exact ⟨rfl, rfl⟩
  · rcases attachTail_eq_ok hattach with ⟨-, rfl⟩ | ⟨_, _, _, _, _, _, -, -, -, -, hrepl⟩
    · exact ⟨rfl, rfl⟩
    · exact ⟨hrepl.values, hrepl.prefixTables⟩

/-- What dropping several matchers does to one stream: nothing, or its tail is
    appended and its matcher is gone. -/
def TailDropped (key : StreamKey) (tail : RedactionStream → Option Bytes)
    (state : RunnerRedactions) (written : List Bytes) (state' : RunnerRedactions)
    (written' : List Bytes) : Prop :=
  (written'.flatten = written.flatten ∧ state'.streams.find? key = state.streams.find? key) ∨
    ∃ row bytes, state.streams.find? key = some row ∧ tail row.2 = some bytes ∧
      written'.flatten = written.flatten ++ bytes ∧ state'.streams.find? key = none

/-- Dropping the matchers of a list of streams. -/
theorem Accounts.drop_all (hreadg : Reading codec values key Input Allowed Reads)
    {tables : List (List Nat)}
    {step : RunnerRedactions → StreamKey → Except RedactionFault RunnerRedactions}
    (hstep : ∀ {s s' k}, s.values = values → s.prefixTables = tables → step s k = .ok s' →
      DropsTail codec tail s k s')
    {keys : List StreamKey} (h : Accounts codec lines key Reads inputs emitted state written)
    (hvals : state.values = values) (htables : state.prefixTables = tables)
    (hallow : key ∈ keys → ∀ row bytes, state.streams.find? key = some row →
      tail row.2 = some bytes → ∀ piece, written[emitted.length + row.2.anchor]? = some piece →
        Allowed (piece ++ bytes)) (hfold : keys.foldlM step state = .ok state') :
    ∃ written', Accounts codec lines key Reads inputs emitted state' written' ∧
      TailDropped key tail state written state' written' ∧
      (key ∉ keys → written'.flatten = written.flatten ∧
        state'.streams.find? key = state.streams.find? key) := by
  induction keys generalizing state written with
  | nil =>
    cases hfold
    exact ⟨written, h, Or.inl ⟨rfl, rfl⟩, fun _ => ⟨rfl, rfl⟩⟩
  | cons k rest ih =>
    rw [foldlM_cons] at hfold
    obtain ⟨state₁, hfirst, hlater⟩ := bind_eq_ok.mp hfold
    have hdrop := hstep hvals htables hfirst
    obtain ⟨hvalues₁, htables₁⟩ := hdrop.kept_values
    by_cases hk : k = key
    · subst hk
      cases hfind : state.streams.find? k with
      | none =>
        -- The stream has no matcher: the step does nothing, nor do the later ones.
        rcases hdrop with ⟨-, rfl⟩ | ⟨row, _, hsome, -, -⟩
        · obtain ⟨written', haccs, hdropped, -⟩ := ih h hvals htables
            (fun _ row bytes hrow => by rw [hfind] at hrow; cases hrow) hlater
          exact ⟨written', haccs, hdropped, fun hnot => absurd mem_cons_self hnot⟩
        · rw [hfind] at hsome
          cases hsome
      | some row =>
        obtain ⟨row', bytes, hrow', htail, -⟩ : ∃ row' bytes, state.streams.find? k = some row' ∧
            tail row'.2 = some bytes ∧ True := by
          rcases hdrop with ⟨hnone, -⟩ | ⟨row', bytes, hrow', htail, -⟩
          · rw [hfind] at hnone
            cases hnone
          · exact ⟨row', bytes, hrow', htail, trivial⟩
        obtain ⟨written₁, haccounts₁, hflatten₁, hnone₁⟩ := h.drop_own hreadg hvals hrow' htail
          (hallow mem_cons_self row' bytes hrow' htail) hdrop
        obtain ⟨written', haccs, hdropped, -⟩ := ih haccounts₁ (hvalues₁.trans hvals)
          (htables₁.trans htables) (fun _ row bytes hrow => by rw [hnone₁] at hrow; cases hrow) hlater
        refine ⟨written', haccs, Or.inr ⟨row', bytes, hrow', htail, ?_⟩,
          fun hnot => absurd mem_cons_self hnot⟩
        rcases hdropped with ⟨hsame, hfind'⟩ | ⟨row, bytes', hsome, -⟩
        · exact ⟨hsame.trans hflatten₁, hfind'.trans hnone₁⟩
        · rw [hnone₁] at hsome
          cases hsome
    · have haccounts₁ := h.drop_other hk hdrop
      have hfind₁ := hdrop.other_find (Ne.symm hk)
      obtain ⟨written', haccs, hdropped, hkeep⟩ := ih haccounts₁ (hvalues₁.trans hvals)
        (htables₁.trans htables) (fun hin row bytes hrow => hallow (mem_cons_of_mem _ hin)
          row bytes (by rwa [hfind₁] at hrow)) hlater
      unfold TailDropped at hdropped ⊢
      rw [hfind₁] at hdropped hkeep
      exact ⟨written', haccs, hdropped, fun hnot =>
        hkeep fun hin => hnot (mem_cons_of_mem _ hin)⟩

/-- Pressure masks the stream's tail if it has one. -/
theorem Accounts.relieveIf (hreadg : Reading codec values key Input Allowed Reads)
    (h : Accounts codec lines key Reads inputs emitted state written) (hwell : state.WellFormed)
    (hvals : state.values = values) {reached : Bool}
    (hallow : reached = true → ∀ row bytes, state.streams.find? key = some row →
      row.2.finishMasked state.values state.prefixTables = some bytes →
      ∀ piece, written[emitted.length + row.2.anchor]? = some piece → Allowed (piece ++ bytes))
    {out : List RunnerEvent} (hrelv : state.relieveIf codec reached = .ok (out, state')) :
    ∃ written', Accounts codec lines key Reads inputs (emitted ++ out) state' written' ∧
      ((written'.flatten = written.flatten ∧ SameMatcher key state state') ∨
        reached = true ∧ ∃ row bytes, state.streams.find? key = some row ∧
          row.2.finishMasked state.values state.prefixTables = some bytes ∧
          written'.flatten = written.flatten ++ bytes ∧ state'.streams.find? key = none) := by
  cases reached with
  | false =>
    cases hrelv
    exact ⟨written, by rwa [append_nil], Or.inl ⟨rfl, SameMatcher.of_eq rfl⟩⟩
  | true =>
    obtain ⟨state₁, hfold, hrel⟩ := bind_eq_ok.mp hrelv
    have hstep : ∀ {s s' k}, s.values = values → s.prefixTables = state.prefixTables →
        maskKey codec s k = .ok s' →
        DropsTail codec (fun stream => stream.finishMasked values state.prefixTables) s k s' := by
      intro s s' k hv ht hmask
      have := maskKey_drops hmask
      rwa [hv, ht] at this
    rw [hvals] at hallow
    obtain ⟨written', haccs, hdropped, -⟩ := h.drop_all hreadg hstep hvals rfl
      (fun _ => hallow rfl) hfold
    have hkeeps : Keeps state state₁ :=
      (Ensures.foldlM (fun _ hkeeps k _ => (maskKey_ensures hkeeps.wellFormed k).mono
        fun _ _ => hkeeps.trans) (Keeps.refl hwell)).of_ok hfold
    obtain ⟨haccs', hsame⟩ := haccs.releaseResolved hkeeps.wellFormed hrel
    refine ⟨written', haccs', ?_⟩
    rcases hdropped with ⟨hflat, hfind⟩ | ⟨row, bytes, hrow, hbytes, hflat, hnone⟩
    · exact Or.inl ⟨hflat, (SameMatcher.of_eq hfind).trans hsame⟩
    · refine Or.inr ⟨rfl, row, bytes, hrow, by rwa [hvals], hflat, ?_⟩
      have := hsame
      unfold SameMatcher at this
      rw [hnone] at this
      exact map_eq_none_iff.mp this

end RunnerRedactions

end OctaCity.Runner
