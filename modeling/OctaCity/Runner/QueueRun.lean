/-
  OctaCity.Runner.QueueRun

  A run of the filter as its elementary steps: releasing, relieving pressure and
  queueing one event.  A property of the events so far, the events emitted and
  the queue that every such step keeps holds along the whole run.
-/
import Mathlib.Data.List.Dedup
import OctaCity.Runner.StreamEvents

namespace OctaCity.Runner

open Lib List

namespace RunnerRedactions

/-! ## The new filter -/

variable {value : Bytes} {values : List Bytes} {event : RunnerEvent} {allocated : Allocation}

theorem trimmed_ne_nil {selected : Bytes}
    (h : selected ∈ if !(trimAscii value).isEmpty ∧ trimAscii value ≠ value
      then [value, trimAscii value] else [value]) (hne : value ≠ []) : selected ≠ [] := by
  split at h
  · rename_i htrimmed
    rcases mem_pair.mp h with rfl | rfl
    · exact hne
    · simpa using htrimmed.1
  · rw [mem_singleton.mp h]
    exact hne

theorem sensitiveValues_ne_nil (h : value ∈ sensitiveValues values) : value ≠ [] := by
  unfold sensitiveValues at h
  rw [mem_dedup, mem_insertionSort, mem_flatMap] at h
  obtain ⟨given, hgiven, hsel⟩ := h
  refine trimmed_ne_nil hsel ?_
  simpa using (mem_filter.mp hgiven).2

theorem mem_sensitiveValues (h : value ∈ values)
    (hne : value ≠ []) : value ∈ sensitiveValues values := by
  unfold sensitiveValues
  rw [mem_dedup, mem_insertionSort, mem_flatMap]
  refine ⟨value, mem_filter.mpr ⟨h, by simpa using hne⟩, ?_⟩
  show value ∈ if _ then _ else _
  split <;> exact mem_cons_self

/-- What is kept is a given value or one without the white space around it. -/
theorem given_of_sensitiveValues (h : value ∈ sensitiveValues values) :
    ∃ given ∈ values, value = given ∨ value = trimAscii given := by
  unfold sensitiveValues at h
  rw [mem_dedup, mem_insertionSort, mem_flatMap] at h
  obtain ⟨given, hgiven, hsel⟩ := h
  refine ⟨given, (mem_filter.mp hgiven).1, ?_⟩
  dsimp only at hsel
  split at hsel
  · simpa using hsel
  · exact .inl (mem_singleton.mp hsel)

theorem prepared_mapM (hne : ∀ value ∈ values, value ≠ []) :
    ∃ tables, values.mapM prefixTable = some tables ∧ Prepared values tables := by
  induction values with
  | nil => exact ⟨[], rfl, List.Forall₂.nil⟩
  | cons value rest ih =>
    obtain ⟨table, htable, hspec⟩ := prefixTable_spec (hne value mem_cons_self)
    obtain ⟨tables, htables, hprepd⟩ := ih fun v hv => hne v (mem_cons_of_mem _ hv)
    refine ⟨table :: tables, ?_, List.Forall₂.cons ⟨hne value mem_cons_self, hspec⟩ hprepd⟩
    rw [mapM_cons, htable, htables]
    rfl

/-- A filter is built for every set of values, and none of them is lost. -/
theorem new_spec (values : List Bytes) :
    ∃ state, new values = some state ∧ state.WellFormed ∧ state.pending = [] ∧
      state.streams.rows = [] ∧ (∀ value ∈ values, value ≠ [] → value ∈ state.values) ∧
      ∀ value ∈ state.values, ∃ given ∈ values, value = given ∨ value = trimAscii given := by
  have hne : ∀ value ∈ (sensitiveValues values).insertionSort
      (fun left right => right.length ≤ left.length), value ≠ [] :=
    fun value hvalue => sensitiveValues_ne_nil ((mem_insertionSort _).mp hvalue)
  obtain ⟨tables, htables, hprepd⟩ := prepared_mapM hne
  refine ⟨⟨(sensitiveValues values).insertionSort (fun left right => right.length ≤ left.length),
    tables, Table.empty, [], 0⟩, ?_, ?_, rfl, rfl, ?_, fun value hvalue => ?_⟩
  · unfold new
    simp only [htables]
    rfl
  · exact ⟨hprepd, fun row hrow => absurd hrow not_mem_nil, rfl,
      fun row hrow => absurd hrow not_mem_nil⟩
  · intro value hvalue hvalueNe
    exact (mem_insertionSort _).mpr (mem_sensitiveValues hvalue hvalueNe)
  · exact given_of_sensitiveValues ((mem_insertionSort _).mp hvalue)

/-! ## Elementary steps -/

/-- What happens to the queue in a state of it. -/
inductive QueueStep
  | relief (before : RunnerRedactions)
  | enqueue (before : RunnerRedactions) (event : RunnerEvent)

def reliefSteps (state : RunnerRedactions) (reached : Bool) : List QueueStep :=
  if reached then [.relief state] else []

section Steps

variable (codec : Codec)

/-- The steps of `makeRoom`. -/
def admitSteps (state : RunnerRedactions) (event : RunnerEvent) (allocated : Allocation) :
    Except RedactionFault (List QueueStep) := do
  let (_, state) ← state.releaseResolved
  let full := state.streamsFull (outputPayload codec event)
  let (_, relieved) ← state.relieveIf codec full
  let eventBytes ← eventWireBytes codec event
  .ok (state.reliefSteps full ++ relieved.reliefSteps
    (maxRedactionPendingBytes < relieved.totalBytes (allocated 0) + eventBytes))

def eventSteps (state : RunnerRedactions) (event : RunnerEvent) (allocated : Allocation) :
    Except RedactionFault (List QueueStep) := do
  let steps ← state.admitSteps codec event allocated
  let (_, admitted, eventBytes) ← state.makeRoom codec event allocated
  let queued ← admitted.enqueue codec event eventBytes
  .ok (steps ++ [.enqueue admitted event] ++ queued.reliefSteps
    (maxRedactionPendingBytes < queued.totalBytes (allocated 1)))

/-- The steps of a whole run, up to the final flush. -/
def runSteps (state : RunnerRedactions) :
    List (RunnerEvent × Allocation) → Except RedactionFault (List QueueStep)
  | [] => .ok []
  | (event, allocated) :: rest => do
    let steps ← state.eventSteps codec event allocated
    let (_, next) ← state.events codec event allocated
    let later ← runSteps next rest
    .ok (steps ++ later)

variable {codec} {state : RunnerRedactions}

/-- The steps of what succeeds are known. -/
theorem admitSteps_isOk {result : List RunnerEvent × RunnerRedactions × Nat}
    (h : state.makeRoom codec event allocated = .ok result) :
    ∃ steps, state.admitSteps codec event allocated = .ok steps := by
  obtain ⟨⟨released, state₁⟩, hrel, h⟩ := bind_eq_ok.mp h
  obtain ⟨⟨relieved, state₂⟩, hrelv, h⟩ := bind_eq_ok.mp h
  obtain ⟨eventBytes, hbytes, -⟩ := bind_eq_ok.mp h
  exact ⟨_, bind_eq_ok.mpr ⟨_, hrel, bind_eq_ok.mpr ⟨_, hrelv,
    bind_eq_ok.mpr ⟨_, hbytes, rfl⟩⟩⟩⟩

variable {result : List RunnerEvent × RunnerRedactions}

theorem eventSteps_isOk (h : state.events codec event allocated = .ok result) :
    ∃ steps, state.eventSteps codec event allocated = .ok steps := by
  obtain ⟨⟨admitted, state₁, eventBytes⟩, hadm, h⟩ := bind_eq_ok.mp h
  obtain ⟨state₂, henq, -⟩ := bind_eq_ok.mp h
  obtain ⟨steps, hsteps⟩ := admitSteps_isOk hadm
  exact ⟨_, bind_eq_ok.mpr ⟨_, hsteps, bind_eq_ok.mpr ⟨_, hadm,
    bind_eq_ok.mpr ⟨_, henq, rfl⟩⟩⟩⟩

theorem runSteps_isOk {events : List (RunnerEvent × Allocation)}
    (h : state.runEvents codec events = .ok result) :
    ∃ steps, state.runSteps codec events = .ok steps := by
  induction events generalizing state result with
  | nil => exact ⟨[], rfl⟩
  | cons input rest ih =>
    obtain ⟨event, allocated⟩ := input
    rw [runEvents] at h
    obtain ⟨⟨out, next⟩, hevs, h⟩ := bind_eq_ok.mp h
    obtain ⟨result', hrest, -⟩ := bind_eq_ok.mp h
    obtain ⟨steps, hsteps⟩ := eventSteps_isOk hevs
    obtain ⟨later, hlater⟩ := ih hrest
    rw [runSteps]
    exact ⟨_, bind_eq_ok.mpr ⟨_, hsteps, bind_eq_ok.mpr ⟨_, hevs,
      bind_eq_ok.mpr ⟨_, hlater, rfl⟩⟩⟩⟩

end Steps

/-! ## Invariants of a run -/

/-- `Inv inputs emitted state` is kept by every elementary step that is allowed. -/
structure RunInvariant (codec : Codec) (values : List Bytes) (Allows : QueueStep → Prop)
    (Inv : List RunnerEvent → List RunnerEvent → RunnerRedactions → Prop) : Prop where
  release : ∀ {inputs emitted out : List RunnerEvent} {state state' : RunnerRedactions},
    state.WellFormed → state.values = values → Inv inputs emitted state →
    state.releaseResolved = .ok (out, state') → Inv inputs (emitted ++ out) state'
  relief : ∀ {inputs emitted out : List RunnerEvent} {state state' : RunnerRedactions},
    state.WellFormed → state.values = values → Inv inputs emitted state →
    Allows (.relief state) → state.relieveIf codec true = .ok (out, state') →
    Inv inputs (emitted ++ out) state'
  enqueue : ∀ {inputs emitted : List RunnerEvent} {event : RunnerEvent} {eventBytes : Nat}
    {state state' : RunnerRedactions}, state.WellFormed → state.values = values →
    Inv inputs emitted state → Allows (.enqueue state event) →
    state.enqueue codec event eventBytes = .ok state' → Inv (inputs ++ [event]) emitted state'

namespace RunInvariant

variable {codec : Codec} {values : List Bytes} {Allows : QueueStep → Prop}
  {Inv : List RunnerEvent → List RunnerEvent → RunnerRedactions → Prop}
  {inputs emitted out : List RunnerEvent} {state state' : RunnerRedactions}

theorem relieveIf (hinv : RunInvariant codec values Allows Inv) (hwell : state.WellFormed)
    (hvals : state.values = values) (h : Inv inputs emitted state) {reached : Bool}
    (hallows : ∀ step ∈ state.reliefSteps reached, Allows step)
    (hrelv : state.relieveIf codec reached = .ok (out, state')) :
    Inv inputs (emitted ++ out) state' := by
  cases reached with
  | false =>
    cases hrelv
    rwa [append_nil]
  | true => exact hinv.relief hwell hvals h (hallows _ mem_cons_self) hrelv

variable {steps : List QueueStep}

section

variable (hinv : RunInvariant codec values Allows Inv) (hwell : state.WellFormed)
  (hvals : state.values = values) (h : Inv inputs emitted state)

include hinv hwell hvals h

theorem makeRoom {eventBytes : Nat} (hsteps : state.admitSteps codec event allocated = .ok steps)
    (hallows : ∀ step ∈ steps, Allows step)
    (hadm : state.makeRoom codec event allocated = .ok (out, state', eventBytes)) :
    Inv inputs (emitted ++ out) state' := by
  obtain ⟨⟨released, state₁⟩, hrel, hadm⟩ := bind_eq_ok.mp hadm
  obtain ⟨⟨relieved, state₂⟩, hrelv, hadm⟩ := bind_eq_ok.mp hadm
  obtain ⟨bytes, hbytes, hadm⟩ := bind_eq_ok.mp hadm
  obtain ⟨⟨relieved', state₃⟩, hrelv', hadm⟩ := bind_eq_ok.mp hadm
  cases hadm
  -- The steps are those of the same run.
  obtain ⟨_, hrel', hsteps⟩ := bind_eq_ok.mp hsteps
  rw [hrel] at hrel'
  cases hrel'
  obtain ⟨_, hrelieve₂, hsteps⟩ := bind_eq_ok.mp hsteps
  rw [hrelv] at hrelieve₂
  cases hrelieve₂
  obtain ⟨_, hbytes', hsteps⟩ := bind_eq_ok.mp hsteps
  rw [hbytes] at hbytes'
  cases hbytes'
  cases hsteps
  have h₁ := (releaseResolved_ensures hwell).of_ok hrel
  have h₂ := (relieveIf_ensures h₁.wellFormed _).of_ok hrelv
  have hinv₁ := hinv.release hwell hvals h hrel
  have hinv₂ := hinv.relieveIf h₁.wellFormed (h₁.values.trans hvals) hinv₁
    (fun step hstep => hallows step (mem_append_left _ hstep)) hrelv
  have hinv₃ := hinv.relieveIf h₂.wellFormed (h₂.values.trans (h₁.values.trans hvals)) hinv₂
    (fun step hstep => hallows step (mem_append_right _ hstep)) hrelv'
  rwa [append_assoc, append_assoc, ← append_assoc released] at hinv₃

theorem events (hsteps : state.eventSteps codec event allocated = .ok steps)
    (hallows : ∀ step ∈ steps, Allows step)
    (hevs : state.events codec event allocated = .ok (out, state')) :
    Inv (inputs ++ [event]) (emitted ++ out) state' := by
  obtain ⟨⟨admitted, state₁, eventBytes⟩, hadm, hevs⟩ := bind_eq_ok.mp hevs
  obtain ⟨state₂, henq, hevs⟩ := bind_eq_ok.mp hevs
  obtain ⟨⟨relieved, state₃⟩, hrelv, hevs⟩ := bind_eq_ok.mp hevs
  change (if _ then _ else _) = _ at hevs
  split at hevs
  · cases hevs
  obtain ⟨⟨released, state₄⟩, hrel, hevs⟩ := bind_eq_ok.mp hevs
  cases hevs
  obtain ⟨first, hfirst, hsteps⟩ := bind_eq_ok.mp hsteps
  obtain ⟨_, hadm', hsteps⟩ := bind_eq_ok.mp hsteps
  rw [hadm] at hadm'
  cases hadm'
  obtain ⟨_, henq', hsteps⟩ := bind_eq_ok.mp hsteps
  change state₁.enqueue codec event eventBytes = _ at henq'
  rw [henq] at henq'
  cases henq'
  cases hsteps
  have h₁ := (admit_ensures hwell event allocated).of_ok hadm
  have h₂ := (enqueue_ensures h₁.wellFormed event eventBytes).of_ok henq
  have h₃ := (relieveIf_ensures h₂.wellFormed _).of_ok hrelv
  have hvalues₁ : state₁.values = values := h₁.values.trans hvals
  have hvalues₂ : state₂.values = values := h₂.values.trans hvalues₁
  have hvalues₃ : state₃.values = values := h₃.values.trans hvalues₂
  have hinv₁ := hinv.makeRoom hwell hvals h hfirst
    (fun step hstep => hallows step (mem_append_left _ (mem_append_left _ hstep))) hadm
  have hinv₂ := hinv.enqueue h₁.wellFormed hvalues₁ hinv₁
    (hallows _ (mem_append_left _ (mem_append_right _ mem_cons_self))) henq
  have hinv₃ := hinv.relieveIf h₂.wellFormed hvalues₂ hinv₂
    (fun step hstep => hallows step (mem_append_right _ hstep)) hrelv
  have hinv₄ := hinv.release h₃.wellFormed hvalues₃ hinv₃ hrel
  rwa [append_assoc, append_assoc, ← append_assoc admitted] at hinv₄

/-- The invariant holds after every event of a run. -/
theorem runEvents {later : List (RunnerEvent × Allocation)}
    (hsteps : state.runSteps codec later = .ok steps) (hallows : ∀ step ∈ steps, Allows step)
    (hrun : state.runEvents codec later = .ok (out, state')) :
    Inv (inputs ++ later.map Prod.fst) (emitted ++ out) state' := by
  induction later generalizing inputs emitted out state steps with
  | nil =>
    cases hrun
    rwa [map_nil, append_nil, append_nil]
  | cons input rest ih =>
    obtain ⟨event, allocated⟩ := input
    rw [RunnerRedactions.runEvents] at hrun
    obtain ⟨⟨out₁, state₁⟩, hevs, hrun⟩ := bind_eq_ok.mp hrun
    obtain ⟨⟨out₂, state₂⟩, hrest, hrun⟩ := bind_eq_ok.mp hrun
    cases hrun
    rw [RunnerRedactions.runSteps] at hsteps
    obtain ⟨first, hfirst, hsteps⟩ := bind_eq_ok.mp hsteps
    obtain ⟨_, hevs', hsteps⟩ := bind_eq_ok.mp hsteps
    rw [hevs] at hevs'
    cases hevs'
    obtain ⟨second, hsnd, hsteps⟩ := bind_eq_ok.mp hsteps
    cases hsteps
    have h₁ := (events_ensures hwell event allocated).of_ok hevs
    have hinv₁ := hinv.events hwell hvals h hfirst
      (fun step hstep => hallows step (mem_append_left _ hstep)) hevs
    have hinv₂ := ih h₁.wellFormed (h₁.values.trans hvals) hinv₁ hsnd
      (fun step hstep => hallows step (mem_append_right _ hstep)) hrest
    rwa [append_assoc, append_assoc, singleton_append] at hinv₂

end

end RunInvariant

/-! ## The end of a run -/

section Finish

variable {codec : Codec} {lines : Bool} {key : StreamKey} {values : List Bytes}
  {Input : RunnerEvent → Prop} {Allowed : Bytes → Prop} {Reads : OutputFormat → Bytes → RunnerEvent → Prop}
  {inputs emitted out : List RunnerEvent} {state state' : RunnerRedactions} {written : List Bytes}

/-- The last flush appends what the stream's matcher still held. -/
theorem Accounts.finishEvents (hreadg : Reading codec values key Input Allowed Reads)
    (h : Accounts codec lines key Reads inputs emitted state written) (hwell : state.WellFormed)
    (hvals : state.values = values) (hallow : ∀ row, state.streams.find? key = some row →
      ∀ piece, written[emitted.length + row.2.anchor]? = some piece → Allowed (piece ++ row.2.finish))
    (hfin : state.finishEvents codec = .ok (out, state')) :
    ∃ written', Accounts codec lines key Reads inputs (emitted ++ out) state' written' ∧
      written'.flatten = written.flatten ++
        ((state.streams.find? key).map fun row => row.2.finish).getD [] := by
  have hempty : state'.streams.rows = [] := ((finishEvents_ensures hwell).of_ok hfin).2.1
  obtain ⟨state₁, hflush, hrel⟩ := bind_eq_ok.mp hfin
  have hkeeps := (flushKeys_ensures hwell state.keys).of_ok hflush
  obtain ⟨written', haccs', hdrop, -⟩ := h.drop_all hreadg
    (fun _ _ hstep => flushKey_drops hstep) hvals rfl
    (fun _ row bytes hfind hbytes => by
      cases hbytes
      exact hallow row hfind) hflush
  obtain ⟨haccs, hsame⟩ := haccs'.releaseResolved hkeeps.wellFormed hrel
  refine ⟨written', haccs, ?_⟩
  -- No matcher is left, so the stream's own was dropped.
  have hgone : state₁.streams.find? key = none := by
    have hnone : state'.streams.find? key = none :=
      Table.find?_eq_none_iff.mpr fun row hrow => by rw [hempty] at hrow; cases hrow
    unfold SameMatcher at hsame
    rw [hnone] at hsame
    exact Option.map_eq_none_iff.mp hsame.symm
  rcases hdrop with ⟨hflat, hfind⟩ | ⟨row, bytes, hfind, hbytes, hflat, -⟩
  · rw [hflat, ← hfind, hgone]
    exact (append_nil _).symm
  · cases hbytes
    rw [hflat, hfind]
    rfl

/-! ## The payloads of a stream -/

def isOutput (codec : Codec) (lines : Bool) (key : StreamKey) (event : RunnerEvent) : Bool :=
  match outputPayload codec event with
  | some (key', format, _) => key' = key && (lines || format ≠ .line)
  | none => false

/-- The decoded payloads of the events emitted for the outputs of a stream. -/
def payloadsOf (codec : Codec) (lines : Bool) (key : StreamKey) :
    List RunnerEvent → List RunnerEvent → List (Option Bytes)
  | input :: inputs, output :: outputs =>
    if isOutput codec lines key input then
      (outputPayload codec output).map (fun payload => payload.2.2) ::
        payloadsOf codec lines key inputs outputs
    else payloadsOf codec lines key inputs outputs
  | _, _ => []

theorem isOutput_iff : isOutput codec lines key event = true ↔ IsOutput codec lines key event := by
  unfold isOutput IsOutput
  rcases outputPayload codec event with _ | ⟨key', format, bytes⟩
  · simp
  · constructor
    · intro h
      obtain ⟨hkey, hfmt⟩ := Bool.and_eq_true_iff.mp h
      have hkey' : key' = key := by simpa using hkey
      exact ⟨format, bytes, by rw [hkey'], fun hline => by simpa [hline] using hfmt⟩
    · rintro ⟨format', bytes', hpay, hline⟩
      cases hpay
      cases format <;> simp_all

/-- The payloads are the pieces, where no event holds any other piece. -/
theorem payloadsOf_pieces {pieces : List Bytes}
    (hemitted : emitted.length = inputs.length) (hpieces : pieces.length = inputs.length)
    (hreads : ∀ (i : Nat) input output piece, inputs[i]? = some input → emitted[i]? = some output →
      pieces[i]? = some piece → (isOutput codec lines key input = true →
        (outputPayload codec output).map (fun payload => payload.2.2) = some piece) ∧
      (isOutput codec lines key input = false → piece = [])) :
    ∃ pieces' : List Bytes, payloadsOf codec lines key inputs emitted = pieces'.map some ∧
      pieces'.flatten = pieces.flatten := by
  induction inputs generalizing emitted pieces with
  | nil =>
    rw [length_eq_zero_iff.mp hpieces]
    exact ⟨[], by cases emitted <;> rfl, rfl⟩
  | cons input rest ih =>
    obtain ⟨output, outputs, rfl⟩ := exists_cons_of_length_eq_add_one hemitted
    obtain ⟨piece, later, rfl⟩ := exists_cons_of_length_eq_add_one hpieces
    obtain ⟨hchunk, hother⟩ := hreads 0 input output piece rfl rfl rfl
    obtain ⟨pieces', hpays, hflat⟩ := ih (Nat.succ.inj hemitted) (Nat.succ.inj hpieces)
      fun i => hreads (i + 1)
    rw [payloadsOf]
    cases hinput : isOutput codec lines key input with
    | true =>
      refine ⟨piece :: pieces', ?_, by rw [flatten_cons, flatten_cons, hflat]⟩
      rw [if_pos rfl, hchunk hinput, hpays, map_cons]
    | false =>
      rw [if_neg Bool.false_ne_true, hother hinput]
      exact ⟨pieces', hpays, hflat⟩

/-- Once the queue is empty the stream's payloads are its text, piece by piece. -/
theorem Accounts.payloadsOf
    (h : Accounts codec lines key Reads inputs emitted state written) (hempty : state.pending = [])
    (hreads : ∀ format piece output, (format = .line → lines = true) → Reads format piece output →
      (outputPayload codec output).map (fun payload => payload.2.2) = some piece) :
    ∃ pieces : List Bytes, payloadsOf codec lines key inputs emitted = pieces.map some ∧
      pieces.flatten = written.flatten := by
  have hlen : emitted.length = inputs.length := by
    have hqueue := h.queued
    rw [hempty] at hqueue
    exact hqueue
  refine payloadsOf_pieces hlen h.length fun i input output piece hinput houtput hpiece =>
    ⟨fun hyes => ?_, fun hno => ?_⟩
  · obtain ⟨format, bytes, hpay, hline⟩ := isOutput_iff.mp hyes
    refine hreads format piece output hline
      (h.reads i input format bytes piece output hinput hpay hline hpiece ?_)
    rw [hempty, map_nil, append_nil]
    exact houtput
  · have hnone := h.other i input hinput fun hyes =>
      absurd (isOutput_iff.mpr hyes) (by rw [hno]; exact Bool.false_ne_true)
    rw [hnone] at hpiece
    exact (Option.some.inj hpiece).symm

end Finish

namespace Console

def stdout : StreamKey := ⟨7, some 9, "command-1", "stdout"⟩

/-- A chunk of the standard output, as the runner sends it. -/
def outputEvent (sequence : UInt64) (bytes : Bytes) : RunnerEvent where
  schemaVersion := 4
  sequence := sequence
  timestamp := "2026-09-14T00:00:00Z"
  category := "execution"
  data := [
    ("type", .string "output"),
    ("run_id", .number (.posInt 7)),
    ("scope", .object [("id", .number (.posInt 1)), ("parent_id", .null), ("name", .string "build")]),
    ("step_id", .number (.posInt 9)),
    ("command_id", .string "command-1"),
    ("stream", .string "stdout"),
    ("payload", .object [("format", .string "bytes"), ("data", .string (encodeBytes bytes))])]

/-- An allocator that gives a matcher just what it uses. -/
def exactAllocation : Allocation := fun _ _ stream =>
  stream.pending.length +
    8 * (stream.stateHistory.flatten.length + stream.baseStates.length + stream.states.length)

/-- The chunks of one stream. -/
def chunks (pieces : List Bytes) : List (RunnerEvent × Allocation) :=
  pieces.map fun bytes => (outputEvent 1 bytes, exactAllocation)

/-- What is emitted for the chunks under a set of values. -/
def emittedFor (lines : Bool) (values pieces : List Bytes) : Option (List (Option Bytes)) := do
  let state ← new values
  let (emitted, _) ← (state.run standard (chunks pieces)).toOption
  some (payloadsOf standard lines stdout ((chunks pieces).map Prod.fst) emitted)

end Console

end RunnerRedactions

end OctaCity.Runner
