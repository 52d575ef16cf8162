/-
  OctaCity.Trigger.Occurrences

  What a sequence of schedule claims returns.  The calendar is the one set of
  instants the library searches; `dueOccurrences` succeeds exactly when it finds
  the successor it has to persist, and a sequence of successful claims walks the
  calendar without losing or repeating a due occurrence.
-/
import OctaCity.Trigger.Schedule

namespace OctaCity.Trigger

open Domain Lib List

/-- The calendar search returns the least instant after a point of one fixed set
    for each schedule and timezone. -/
def CalendarLibrary.SearchesInstants (library : CalendarLibrary)
    (instants : library.Schedule → library.Tz → Set Int) : Prop :=
  ∀ schedule timezone, FindsNext (instants schedule timezone) (library.after schedule timezone)

/-- The supported instants of a definition's calendar. -/
def ScheduleDefinition.calendar (library : CalendarLibrary)
    (instants : library.Schedule → library.Tz → Set Int) (definition : ScheduleDefinition) :
    Set Timestamp :=
  {t | ∃ schedule timezone, definition.parsed library = .ok (schedule, timezone) ∧
    t.unixMillis ∈ instants schedule timezone}

namespace ScheduleDefinition

variable {library : CalendarLibrary} {instants : library.Schedule → library.Tz → Set Int}
  {definition : ScheduleDefinition}

theorem validate_eq_ok : definition.validate library = .ok () ↔
      (∃ parsed, definition.parsed library = .ok parsed) ∧
        ∃ limit, definition.missedRunPolicy.limit = .ok limit := by
  unfold validate
  rw [bind_eq_ok]
  constructor
  · rintro ⟨parsed, hparsed, hrest⟩
    obtain ⟨limit, hlimit, -⟩ := bind_eq_ok.mp hrest
    exact ⟨⟨parsed, hparsed⟩, limit, hlimit⟩
  · rintro ⟨⟨parsed, hparsed⟩, limit, hlimit⟩
    exact ⟨parsed, hparsed, bind_eq_ok.mpr ⟨limit, hlimit, rfl⟩⟩

variable {next t : Timestamp}

variable {schedule : library.Schedule} {timezone : library.Tz}

theorem nextTimestamp_eq_ok {instant : Timestamp} :
    nextTimestamp library schedule timezone instant = .ok next ↔
      library.after schedule timezone instant.unixMillis = some next.unixMillis := by
  unfold nextTimestamp
  rw [bind_eq_ok]
  simp only [okOr_eq_ok, Timestamp.fromUnixMillis_eq_some]
  constructor
  · rintro ⟨millis, hafter, rfl⟩
    exact hafter
  · intro hafter
    exact ⟨_, hafter, rfl⟩

theorem nextAfter_eq (hvalid : definition.validate library = .ok ()) :
    ∃ schedule timezone, definition.parsed library = .ok (schedule, timezone) ∧
      definition.nextAfter library = nextTimestamp library schedule timezone := by
  obtain ⟨⟨⟨schedule, timezone⟩, hparsed⟩, -⟩ := validate_eq_ok.mp hvalid
  refine ⟨schedule, timezone, hparsed, ?_⟩
  funext instant
  unfold nextAfter
  rw [hparsed]
  rfl

theorem mem_calendar_iff (hparsed : definition.parsed library = .ok (schedule, timezone)) :
    t ∈ definition.calendar library instants ↔ t.unixMillis ∈ instants schedule timezone := by
  constructor
  · rintro ⟨schedule', timezone', hparsed', hmem⟩
    rw [hparsed] at hparsed'
    cases hparsed'
    exact hmem
  · intro hmem
    exact ⟨schedule, timezone, hparsed, hmem⟩

/-- The definition's own search walks its calendar. -/
theorem findsNext_nextAfter (hlibrary : library.SearchesInstants instants)
    (hvalid : definition.validate library = .ok ()) :
    FindsNext (definition.calendar library instants)
      (fun t => (definition.nextAfter library t).toOption) := by
  obtain ⟨schedule, timezone, hparsed, hnext⟩ := nextAfter_eq hvalid
  have hsrch := hlibrary schedule timezone
  rw [hnext]
  constructor
  · intro t n hn
    have hok : nextTimestamp library schedule timezone t = .ok n := by
      revert hn
      cases nextTimestamp library schedule timezone t <;> simp [Except.toOption]
    have hleast := hsrch.isLeast (nextTimestamp_eq_ok.mp hok)
    refine ⟨⟨(mem_calendar_iff hparsed).mpr hleast.1.1, Timestamp.lt_iff.mpr hleast.1.2⟩, ?_⟩
    rintro i ⟨hi, hlt⟩
    exact hleast.2 ⟨(mem_calendar_iff hparsed).mp hi, Timestamp.lt_iff.mp hlt⟩
  · intro t hn i hi
    by_contra hlt
    have hlt : t.unixMillis < i.unixMillis := Timestamp.lt_iff.mp (not_le.mp hlt)
    have hmem := (mem_calendar_iff hparsed).mp hi
    -- The search finds an instant no later than `i`, which is a supported one.
    obtain ⟨millis, hmillis⟩ := Option.isSome_iff_exists.mp
      ((hsrch.isSome_iff t.unixMillis).mpr ⟨i.unixMillis, hmem, hlt⟩)
    have hleast := hsrch.isLeast hmillis
    have hle : millis ≤ i.unixMillis := hleast.2 ⟨hmem, hlt⟩
    have hafter : t.unixMillis < millis := hleast.1.2
    have hsupp : minTimestampMillis ≤ millis ∧ millis ≤ maxTimestampMillis := by
      have := t.supported.1
      have := i.supported.2
      omega
    have hok : nextTimestamp library schedule timezone t = .ok ⟨millis, hsupp⟩ :=
      nextTimestamp_eq_ok.mpr hmillis
    rw [hok] at hn
    cases hn

section Search

variable {S : Set Timestamp}
  (hsrch : FindsNext S (fun t => (definition.nextAfter library t).toOption))

include hsrch

theorem isLeast_of_nextAfter {n : Timestamp} (h : definition.nextAfter library t = .ok n) :
    IsLeast {i | i ∈ S ∧ t < i} n :=
  hsrch.isLeast (by rw [h]; rfl)

theorem le_of_nextAfter_error {e : ScheduleInputError}
    (h : definition.nextAfter library t = .error e) : ∀ i ∈ S, i ≤ t :=
  hsrch.le_of_none (by rw [h]; rfl)

/-! ## One catch-up batch -/

variable {observedAt : Timestamp} {occurrences : List Timestamp} {room : Nat}

/-- The batch continues the listing of the calendar and stops at an instant that
    is not due or at the limit. -/
theorem catchUpLoop_enumerates {first : Timestamp} {due : DueScheduleOccurrences} (hnext : next ∈ S)
    (hfirst : first ≤ next) (hlist : Enumerates S first next occurrences)
    (hok : definition.catchUpLoop library observedAt room occurrences next = .ok due) :
    Enumerates S first due.nextOccurrenceAt due.occurrences ∧ due.nextOccurrenceAt ∈ S ∧
      next ≤ due.nextOccurrenceAt ∧ due.occurrences.length ≤ occurrences.length + room ∧
      (next ≤ observedAt → 0 < room → next < due.nextOccurrenceAt) := by
  induction room generalizing occurrences next with
  | zero =>
    simp only [catchUpLoop, Except.ok.injEq] at hok
    subst hok
    exact ⟨hlist, hnext, le_rfl, le_rfl, fun _ h => absurd h (lt_irrefl 0)⟩
  | succ room ih =>
    rw [catchUpLoop] at hok
    by_cases hdue : next ≤ observedAt
    · rw [if_pos hdue] at hok
      obtain ⟨successor, hsucc, hrest⟩ := bind_eq_ok.mp hok
      have hleast := isLeast_of_nextAfter hsrch hsucc
      have hlt : next < successor := hleast.1.2
      obtain ⟨hall, hmem, hle, hlen, -⟩ := ih hleast.1.1 (hfirst.trans hlt.le)
        (hlist.concat hfirst hnext hleast) hrest
      refine ⟨hall, hmem, hlt.le.trans hle, ?_, fun _ _ => hlt.trans_le hle⟩
      rw [length_append, length_singleton] at hlen
      omega
    · rw [if_neg hdue] at hok
      cases hok
      exact ⟨hlist, hnext, le_rfl, Nat.le_add_right _ _, fun h => absurd h hdue⟩

/-- A batch fails only when it exhausts the calendar: every instant up to the
    observation fits into it and none follows. -/
theorem catchUpLoop_isOk_iff (hnext : next ∈ S) :
    (∃ due, definition.catchUpLoop library observedAt room occurrences next = .ok due) ↔
      observedAt < next ∨ (∃ i ∈ S, observedAt < i) ∨
        room < (S ∩ Set.Icc next observedAt).ncard := by
  induction room generalizing occurrences next with
  | zero =>
    simp only [catchUpLoop, Except.ok.injEq, exists_eq', true_iff]
    rcases lt_or_ge observedAt next with hlt | hle
    · exact Or.inl hlt
    · refine Or.inr (Or.inr ((Set.ncard_pos (Set.toFinite _)).mpr ?_))
      exact ⟨next, hnext, le_rfl, hle⟩
  | succ room ih =>
    rw [catchUpLoop]
    by_cases hdue : next ≤ observedAt
    · rw [if_pos hdue]
      cases hsucc : definition.nextAfter library next with
      | error e =>
        -- The cursor is the last instant, so it alone is due.
        have hmax := le_of_nextAfter_error hsrch hsucc
        have hone := ncard_Icc_last hnext hdue hmax
        constructor
        · rintro ⟨due, hok⟩
          cases hok
        · rintro (hlt | ⟨i, hi, hlt⟩ | hlt)
          · exact absurd hlt (not_lt.mpr hdue)
          · exact absurd ((hmax i hi).trans hdue) (not_le.mpr hlt)
          · omega
      | ok successor =>
        have hleast := isLeast_of_nextAfter hsrch hsucc
        have hcount := ncard_Icc_next hnext hdue hleast
        show (∃ due, definition.catchUpLoop library observedAt room (occurrences ++ [next])
          successor = .ok due) ↔ _
        rw [ih hleast.1.1, hcount]
        constructor
        · rintro (hlt | hlater | hlt)
          · exact Or.inr (Or.inl ⟨successor, hleast.1.1, hlt⟩)
          · exact Or.inr (Or.inl hlater)
          · exact Or.inr (Or.inr (Nat.succ_lt_succ hlt))
        · rintro (hlt | hlater | hlt)
          · exact absurd hlt (not_lt.mpr hdue)
          · exact Or.inr (Or.inl hlater)
          · exact Or.inr (Or.inr (Nat.lt_of_succ_lt_succ hlt))
    · rw [if_neg hdue]
      exact ⟨fun _ => Or.inl (not_le.mp hdue), fun _ => ⟨_, rfl⟩⟩

end Search

end ScheduleDefinition

open ScheduleDefinition
/-! ## One claim -/

/-- The claim finds the successor it has to persist: nothing is due, the calendar goes on
    after the observation, or more are due than a catch-up batch takes. -/
def HasSuccessor (S : Set Timestamp) (policy : MissedRunPolicy) (cursor observedAt : Timestamp) :
    Prop :=
  observedAt < cursor ∨ (∃ i ∈ S, observedAt < i) ∨
    ∃ maximum, policy = .catchUp maximum ∧
      maximum.toNat < (S ∩ Set.Icc cursor observedAt).ncard

variable {maximum : UInt16}

section Claims

variable {library : CalendarLibrary} {definition : ScheduleDefinition} {S : Set Timestamp}
  {cursor observedAt : Timestamp}
  (hvalid : definition.validate library = .ok ())
  (hsrch : FindsNext S (fun t => (definition.nextAfter library t).toOption))

include hvalid

/-- An accepted catch-up limit is the stated one, and at least one. -/
theorem catchUp_limit (hpol : definition.missedRunPolicy = .catchUp maximum) :
    (MissedRunPolicy.catchUp maximum).limit = .ok maximum.toNat ∧ 0 < maximum.toNat := by
  obtain ⟨-, limit, hlimit⟩ := validate_eq_ok.mp hvalid
  rw [hpol, MissedRunPolicy.limit] at hlimit
  rw [MissedRunPolicy.limit]
  by_cases hrange : 1 ≤ maximum.toNat ∧ maximum.toNat ≤ maxScheduleCatchUp
  · exact ⟨if_pos hrange, hrange.1⟩
  · rw [if_neg hrange] at hlimit
    cases hlimit

theorem dueOccurrences_of_lt (hlt : observedAt < cursor) :
    definition.dueOccurrences library cursor observedAt = .ok ⟨[], cursor⟩ := by
  unfold dueOccurrences
  rw [hvalid]
  exact if_pos hlt

theorem dueOccurrences_runOnce (hpol : definition.missedRunPolicy = .runOnce)
    (hdue : cursor ≤ observedAt) : definition.dueOccurrences library cursor observedAt =
      (definition.nextAfter library observedAt >>= fun next => .ok ⟨[cursor], next⟩) := by
  unfold dueOccurrences
  rw [hvalid]
  show (if observedAt < cursor then _ else _) = _
  rw [if_neg (not_lt.mpr hdue), hpol]

theorem dueOccurrences_catchUp
    (hpol : definition.missedRunPolicy = .catchUp maximum) (hdue : cursor ≤ observedAt) :
    definition.dueOccurrences library cursor observedAt =
      definition.catchUpLoop library observedAt maximum.toNat [] cursor := by
  unfold dueOccurrences
  rw [hvalid]
  show (if observedAt < cursor then _ else _) = _
  rw [if_neg (not_lt.mpr hdue), hpol]
  show (MissedRunPolicy.limit _ >>= fun limit => _) = _
  rw [(catchUp_limit hvalid hpol).1]
  rfl

include hsrch

/-- A claim succeeds exactly when it finds its successor. -/
theorem dueOccurrences_isOk_iff (hcurs : cursor ∈ S) :
    (∃ due, definition.dueOccurrences library cursor observedAt = .ok due) ↔
      HasSuccessor S definition.missedRunPolicy cursor observedAt := by
  rcases lt_or_ge observedAt cursor with hlt | hdue
  · exact ⟨fun _ => Or.inl hlt, fun _ => ⟨_, dueOccurrences_of_lt hvalid hlt⟩⟩
  unfold HasSuccessor
  cases hpol : definition.missedRunPolicy with
  | runOnce =>
    rw [dueOccurrences_runOnce hvalid hpol hdue]
    cases hnext : definition.nextAfter library observedAt with
    | error e =>
      have hmax := le_of_nextAfter_error hsrch hnext
      constructor
      · rintro ⟨due, hok⟩
        cases hok
      · rintro (hlt | ⟨i, hi, hlt⟩ | ⟨_, hother, -⟩)
        · exact absurd hlt (not_lt.mpr hdue)
        · exact absurd (hmax i hi) (not_le.mpr hlt)
        · cases hother
    | ok next =>
      have hleast := isLeast_of_nextAfter hsrch hnext
      exact ⟨fun _ => Or.inr (Or.inl ⟨next, hleast.1.1, hleast.1.2⟩), fun _ => ⟨_, rfl⟩⟩
  | catchUp maximum =>
    rw [dueOccurrences_catchUp hvalid hpol hdue,
      catchUpLoop_isOk_iff hsrch hcurs]
    simp only [MissedRunPolicy.catchUp.injEq, exists_eq_left']

/-- A catch-up claim lists the calendar from its cursor to the cursor it persists. -/
theorem claimAt_catchUp
    (hpol : definition.missedRunPolicy = .catchUp maximum) (hcurs : cursor ∈ S)
    (hsucc : HasSuccessor S definition.missedRunPolicy cursor observedAt) :
    let claim := claimAt library definition cursor observedAt
    Enumerates S cursor claim.nextCursor claim.occurrences ∧ claim.nextCursor ∈ S ∧
      cursor ≤ claim.nextCursor ∧ claim.occurrences.length ≤ maximum.toNat ∧
      (cursor ≤ observedAt → cursor < claim.nextCursor) := by
  obtain ⟨due, hok⟩ := (dueOccurrences_isOk_iff hvalid hsrch hcurs).mpr hsucc
  simp only [claimAt, ScheduleClaim.nextCursor, ScheduleClaim.occurrences, hok]
  rcases lt_or_ge observedAt cursor with hlt | hdue
  · rw [dueOccurrences_of_lt hvalid hlt] at hok
    cases hok
    exact ⟨Enumerates.nil, hcurs, le_rfl, Nat.zero_le _, fun h => absurd h (not_le.mpr hlt)⟩
  · rw [dueOccurrences_catchUp hvalid hpol hdue] at hok
    obtain ⟨hall, hmem, hle, hlen, hprog⟩ :=
      catchUpLoop_enumerates hsrch hcurs le_rfl Enumerates.nil hok
    rw [length_nil, Nat.zero_add] at hlen
    exact ⟨hall, hmem, hle, hlen, fun h => hprog h (catchUp_limit hvalid hpol).2⟩

/-- A run-once claim returns its due cursor and advances past the observation. -/
theorem claimAt_runOnce (hpol : definition.missedRunPolicy = .runOnce) (hcurs : cursor ∈ S)
    (hdue : cursor ≤ observedAt)
    (hsucc : HasSuccessor S definition.missedRunPolicy cursor observedAt) :
    let claim := claimAt library definition cursor observedAt
    claim.occurrences = [cursor] ∧ IsLeast {i | i ∈ S ∧ observedAt < i} claim.nextCursor := by
  obtain ⟨due, hok⟩ := (dueOccurrences_isOk_iff hvalid hsrch hcurs).mpr hsucc
  simp only [claimAt, ScheduleClaim.nextCursor, ScheduleClaim.occurrences, hok]
  rw [dueOccurrences_runOnce hvalid hpol hdue] at hok
  obtain ⟨next, hnext, hrest⟩ := bind_eq_ok.mp hok
  cases hrest
  exact ⟨rfl, isLeast_of_nextAfter hsrch hnext⟩

omit hsrch in
/-- A claim before its cursor is due changes nothing. -/
theorem claimAt_of_lt (hlt : observedAt < cursor) :
    let claim := claimAt library definition cursor observedAt
    claim.occurrences = [] ∧ claim.nextCursor = cursor := by
  simp only [claimAt, ScheduleClaim.nextCursor, ScheduleClaim.occurrences,
    dueOccurrences_of_lt hvalid hlt, and_self]

/-- In both modes a claim returns a due cursor and moves on along the calendar. -/
theorem claimAt_progress (hcurs : cursor ∈ S)
    (hsucc : HasSuccessor S definition.missedRunPolicy cursor observedAt) :
    let claim := claimAt library definition cursor observedAt
    claim.nextCursor ∈ S ∧ cursor ≤ claim.nextCursor ∧
      (cursor ≤ observedAt → cursor ∈ claim.occurrences ∧ cursor < claim.nextCursor) := by
  rcases lt_or_ge observedAt cursor with hlt | hdue
  · obtain ⟨-, hnext⟩ := claimAt_of_lt hvalid hlt
    simp only [hnext]
    exact ⟨hcurs, le_rfl, fun h => absurd h (not_le.mpr hlt)⟩
  cases hpol : definition.missedRunPolicy with
  | runOnce =>
    obtain ⟨hoccurrences, hleast⟩ := claimAt_runOnce hvalid hsrch hpol hcurs hdue hsucc
    have hlt := hdue.trans_lt hleast.1.2
    exact ⟨hleast.1.1, hlt.le, fun _ => ⟨by simp [hoccurrences], hlt⟩⟩
  | catchUp maximum =>
    obtain ⟨hall, hmem, hle, -, hprog⟩ :=
      claimAt_catchUp hvalid hsrch hpol hcurs hsucc
    refine ⟨hmem, hle, fun h => ⟨?_, hprog h⟩⟩
    exact (hall.mem_iff cursor).mpr ⟨hcurs, le_rfl, hprog h⟩

end Claims

/-! ## Sequences of claims -/

/-- The latest of the creation time and the observations so far. -/
def latestObserved (createdAt : Timestamp) (observations : List Timestamp) : Timestamp :=
  observations.foldl max createdAt

/-- No due occurrence of the calendar `S` is lost or repeated by the claims that
    follow a schedule's creation with the cursor `first`. -/
structure KeepsOccurrences (library : CalendarLibrary) (definition : ScheduleDefinition)
    (S : Set Timestamp) (createdAt first : Timestamp) (observations : List Timestamp) : Prop where
  /-- Catching up lists the calendar from the first cursor without a gap, in
      batches within the limit, and reaches every instant up to a time once
      there were enough claims at or after it. -/
  catchUp : ∀ maximum, definition.missedRunPolicy = .catchUp maximum →
    Enumerates S first (cursorAfter library definition first observations)
        (returned library definition first observations) ∧
      (∀ claim ∈ claims library definition first observations,
        claim.occurrences.length ≤ maximum.toNat) ∧
      ∀ time, (S ∩ Set.Icc first time).ncard ≤ observations.countP (time ≤ ·) →
        ∀ i ∈ S, first ≤ i → i ≤ time → i ∈ returned library definition first observations
  /-- Running once returns the oldest instant that became due since the latest
      earlier observation, and the cursor is the first instant after this one;
      a clock that went back leaves it where it is. -/
  runOnce : definition.missedRunPolicy = .runOnce →
    ∀ earlier observedAt later, observations = earlier ++ observedAt :: later →
      let cursor := cursorAfter library definition first earlier
      let claim := claimAt library definition cursor observedAt
      let passed := latestObserved createdAt earlier
      claim.occurrences.length ≤ 1 ∧
        (∀ t, t ∈ claim.occurrences ↔ IsLeast {i | i ∈ S ∧ passed < i ∧ i ≤ observedAt} t) ∧
        (claim.occurrences ≠ [] ∨ passed ≤ observedAt →
          IsLeast {i | i ∈ S ∧ observedAt < i} claim.nextCursor)
  /-- In both modes a cursor a claim finds due is returned by some claim. -/
  due : ∀ claim ∈ claims library definition first observations,
    claim.cursor ≤ claim.observedAt →
      ∃ returning ∈ claims library definition first observations,
        claim.cursor ∈ returning.occurrences

section Runs

variable {library : CalendarLibrary} {definition : ScheduleDefinition} {S : Set Timestamp}
  {cursor : Timestamp}
  (hvalid : definition.validate library = .ok ())
  (hsrch : FindsNext S (fun t => (definition.nextAfter library t).toOption))

theorem claims_append (cursor : Timestamp) (earlier later : List Timestamp) :
    claims library definition cursor (earlier ++ later) =
      claims library definition cursor earlier ++
        claims library definition (cursorAfter library definition cursor earlier) later := by
  induction earlier generalizing cursor with
  | nil => rfl
  | cons observedAt earlier ih =>
    simp only [cons_append, claims, cursorAfter]
    rw [ih]

include hvalid hsrch

variable {observations : List Timestamp}

/-- Every claim of a run starts from a calendar instant and returns it when due. -/
theorem claims_progress (hcurs : cursor ∈ S)
    (hsucc : ∀ claim ∈ claims library definition cursor observations,
      HasSuccessor S definition.missedRunPolicy claim.cursor claim.observedAt) :
    (∀ claim ∈ claims library definition cursor observations,
        claim.cursor ≤ claim.observedAt → claim.cursor ∈ claim.occurrences) ∧
      cursorAfter library definition cursor observations ∈ S ∧
      cursor ≤ cursorAfter library definition cursor observations := by
  induction observations generalizing cursor with
  | nil => exact ⟨fun _ h => absurd h not_mem_nil, hcurs, le_rfl⟩
  | cons observedAt later ih =>
    rw [claims] at hsucc ⊢
    obtain ⟨hmem, hle, hdue⟩ :=
      claimAt_progress hvalid hsrch hcurs (hsucc _ mem_cons_self)
    obtain ⟨hclaims, hmem', hle'⟩ := ih hmem
      (fun claim hclaim => hsucc claim (mem_cons_of_mem _ hclaim))
    refine ⟨?_, hmem', hle.trans hle'⟩
    intro claim hclaim hclaimDue
    rcases mem_cons.mp hclaim with rfl | hclaim
    · exact (hdue hclaimDue).1
    · exact hclaims claim hclaim hclaimDue

/-- Each claim at or after `time` passes one of the instants up to it. -/
theorem ncard_after_claims (hcurs : cursor ∈ S) (time : Timestamp)
    (hsucc : ∀ claim ∈ claims library definition cursor observations,
      HasSuccessor S definition.missedRunPolicy claim.cursor claim.observedAt) :
    (S ∩ Set.Icc (cursorAfter library definition cursor observations) time).ncard ≤
      (S ∩ Set.Icc cursor time).ncard - observations.countP (time ≤ ·) := by
  induction observations generalizing cursor with
  | nil => simp [cursorAfter]
  | cons observedAt later ih =>
    rw [claims] at hsucc
    have hhead : HasSuccessor S definition.missedRunPolicy cursor observedAt :=
      hsucc _ mem_cons_self
    obtain ⟨hmem, hle, hdue⟩ := claimAt_progress hvalid hsrch hcurs hhead
    have hrest := ih hmem (fun claim hclaim => hsucc claim (mem_cons_of_mem _ hclaim))
    rw [cursorAfter]
    generalize (claimAt library definition cursor observedAt).nextCursor = successor
      at hle hdue hrest ⊢
    have hsub : S ∩ Set.Icc successor time ⊆ S ∩ Set.Icc cursor time :=
      Set.inter_subset_inter_right S (Set.Icc_subset_Icc_left hle)
    have hmono := Set.ncard_le_ncard hsub (Set.toFinite _)
    by_cases htime : time ≤ observedAt
    · rw [countP_cons_of_pos (by simpa using htime)]
      rcases lt_or_ge time cursor with hlt | hcursorTime
      · -- The cursor is past `time` already.
        have hempty : S ∩ Set.Icc cursor time = ∅ := by
          rw [Set.Icc_eq_empty (not_le.mpr hlt), Set.inter_empty]
        rw [hempty, Set.ncard_empty] at hmono ⊢
        omega
      · have hadv := (hdue (hcursorTime.trans htime)).2
        have hstrict : S ∩ Set.Icc successor time ⊂ S ∩ Set.Icc cursor time := by
          refine (Set.ssubset_iff_of_subset hsub).mpr ⟨cursor, ⟨hcurs, le_rfl, hcursorTime⟩, ?_⟩
          rintro ⟨-, hge, -⟩
          exact absurd hge (not_le.mpr hadv)
        have hfewer := Set.ncard_lt_ncard hstrict (Set.toFinite _)
        omega
    · rw [countP_cons_of_neg (by simpa using htime)]
      omega

/-- A catch-up run lists the calendar up to the cursor it ends with. -/
theorem returned_catchUp
    (hpol : definition.missedRunPolicy = .catchUp maximum) (hcurs : cursor ∈ S)
    (hsucc : ∀ claim ∈ claims library definition cursor observations,
      HasSuccessor S definition.missedRunPolicy claim.cursor claim.observedAt) :
    Enumerates S cursor (cursorAfter library definition cursor observations)
        (returned library definition cursor observations) ∧
      ∀ claim ∈ claims library definition cursor observations,
        claim.occurrences.length ≤ maximum.toNat := by
  induction observations generalizing cursor with
  | nil => exact ⟨Enumerates.nil, fun _ h => absurd h not_mem_nil⟩
  | cons observedAt later ih =>
    rw [claims] at hsucc
    obtain ⟨hall, hmem, hle, hlen, -⟩ :=
      claimAt_catchUp hvalid hsrch hpol hcurs (hsucc _ mem_cons_self)
    have hlater : ∀ claim ∈ claims library definition
        (claimAt library definition cursor observedAt).nextCursor later,
        HasSuccessor S definition.missedRunPolicy claim.cursor claim.observedAt :=
      fun claim hclaim => hsucc claim (mem_cons_of_mem _ hclaim)
    obtain ⟨hrest, hlengths⟩ := ih hmem hlater
    have hle' := (claims_progress hvalid hsrch hmem hlater).2.2
    refine ⟨hall.append hrest hle hle', ?_⟩
    intro claim hclaim
    rcases mem_cons.mp hclaim with rfl | hclaim
    · exact hlen
    · exact hlengths claim hclaim

/-- Running once keeps the cursor at the first instant after the latest observation. -/
theorem cursorAfter_runOnce (hpol : definition.missedRunPolicy = .runOnce)
    {passed : Timestamp} (hcurs : IsLeast {i | i ∈ S ∧ passed < i} cursor)
    (hsucc : ∀ claim ∈ claims library definition cursor observations,
      HasSuccessor S definition.missedRunPolicy claim.cursor claim.observedAt) :
    IsLeast {i | i ∈ S ∧ latestObserved passed observations < i}
      (cursorAfter library definition cursor observations) := by
  induction observations generalizing cursor passed with
  | nil => exact hcurs
  | cons observedAt later ih =>
    rw [claims] at hsucc
    refine ih ?_ (fun claim hclaim => hsucc claim (mem_cons_of_mem _ hclaim))
    rcases lt_or_ge observedAt cursor with hlt | hdue
    · -- Nothing is due: no instant lies between the observation and the cursor.
      rw [(claimAt_of_lt hvalid hlt).2]
      refine ⟨⟨hcurs.1.1, max_lt hcurs.1.2 hlt⟩, ?_⟩
      rintro i ⟨hi, hpass⟩
      exact hcurs.2 ⟨hi, (le_max_left _ _).trans_lt hpass⟩
    · have hnext := (claimAt_runOnce hvalid hsrch hpol hcurs.1.1 hdue
        (hsucc _ mem_cons_self)).2
      rw [max_eq_right (hcurs.1.2.le.trans hdue)]
      exact hnext

end Runs

/-- A run whose claims all find their successor loses and repeats no due
    occurrence. -/
theorem claims_keep_occurrences {library : CalendarLibrary}
    {instants : library.Schedule → library.Tz → Set Int}
    (hlibrary : library.SearchesInstants instants) {definition : ScheduleDefinition}
    (hvalid : definition.validate library = .ok ()) {createdAt first : Timestamp}
    (hfirst : definition.nextAfter library createdAt = .ok first) (observations : List Timestamp)
    (hsucc : ∀ claim ∈ claims library definition first observations,
      HasSuccessor (definition.calendar library instants) definition.missedRunPolicy
        claim.cursor claim.observedAt) :
    KeepsOccurrences library definition (definition.calendar library instants) createdAt first
      observations := by
  have hsrch := findsNext_nextAfter hlibrary hvalid
  generalize definition.calendar library instants = S at hsrch hsucc ⊢
  have hstart := isLeast_of_nextAfter hsrch hfirst
  have hmem : first ∈ S := hstart.1.1
  constructor
  · intro maximum hpol
    obtain ⟨hall, hlengths⟩ := returned_catchUp hvalid hsrch hpol hmem hsucc
    refine ⟨hall, hlengths, ?_⟩
    intro time henough i hi hfrom hto
    refine (hall.mem_iff i).mpr ⟨hi, hfrom, ?_⟩
    -- With enough claims no instant up to `time` is left at the final cursor.
    have hleft := ncard_after_claims hvalid hsrch hmem time hsucc
    have hempty : (S ∩ Set.Icc (cursorAfter library definition first observations) time).ncard
        = 0 := by omega
    rw [Set.ncard_eq_zero (Set.toFinite _)] at hempty
    by_contra hge
    have hin : i ∈ S ∩ Set.Icc (cursorAfter library definition first observations) time :=
      ⟨hi, not_lt.mp hge, hto⟩
    rw [hempty] at hin
    exact hin
  · intro hpol earlier observedAt later hsplit
    rw [hsplit, claims_append] at hsucc
    have hearl := cursorAfter_runOnce hvalid hsrch hpol hstart
      (fun claim hclaim => hsucc claim (mem_append_left _ hclaim))
    have hhead : HasSuccessor S definition.missedRunPolicy
        (cursorAfter library definition first earlier) observedAt :=
      hsucc _ (mem_append_right _ mem_cons_self)
    have hcurs : cursorAfter library definition first earlier ∈ S := hearl.1.1
    show (claimAt library definition (cursorAfter library definition first earlier)
        observedAt).occurrences.length ≤ 1 ∧ _
    generalize cursorAfter library definition first earlier = cursor at *
    rcases lt_or_ge observedAt cursor with hlt | hdue
    · obtain ⟨hnone, hnext⟩ := claimAt_of_lt hvalid hlt
      simp only [hnone, hnext]
      refine ⟨Nat.zero_le _, ?_, ?_⟩
      · intro t
        simp only [not_mem_nil, false_iff]
        rintro ⟨⟨hi, hpass, hle⟩, -⟩
        exact absurd ((hearl.2 ⟨hi, hpass⟩).trans hle) (not_le.mpr hlt)
      · rintro (habsurd | hpass)
        · exact absurd rfl habsurd
        · exact ⟨⟨hcurs, hlt⟩, fun i hi => hearl.2 ⟨hi.1, hpass.trans_lt hi.2⟩⟩
    · obtain ⟨hone, hnext⟩ := claimAt_runOnce hvalid hsrch hpol hcurs hdue hhead
      have holdest : IsLeast {i | i ∈ S ∧ latestObserved createdAt earlier < i ∧ i ≤ observedAt}
          cursor :=
        ⟨⟨hcurs, hearl.1.2, hdue⟩, fun i hi => hearl.2 ⟨hi.1, hi.2.1⟩⟩
      simp only [hone]
      refine ⟨le_rfl, ?_, fun _ => hnext⟩
      intro t
      rw [mem_singleton]
      constructor
      · rintro rfl
        exact holdest
      · intro ht
        exact ht.unique holdest
  · intro claim hclaim hdue
    exact ⟨claim, hclaim, (claims_progress hvalid hsrch hmem hsucc).1 claim hclaim hdue⟩

/-! ## Finite calendars -/

namespace Finite

/-- A calendar of finitely many instants. -/
def FiniteSchedule : Type :=
  {instants : List Int // instants.Pairwise (· < ·)}

/-- Midnight UTC on 2 and 3 January 2026. -/
def january2 : Timestamp := ⟨1767312000000, by decide⟩

def january3 : Timestamp := ⟨1767398400000, by decide⟩

def createdAt : Timestamp := ⟨1767225600000, by decide⟩

def bothDays : FiniteSchedule :=
  ⟨[january2.unixMillis, january3.unixMillis], by decide⟩

/-- The libraries on the one expression of the sample. -/
def library : CalendarLibrary where
  Schedule := FiniteSchedule
  Tz := Unit
  scheduleFromStr expression :=
    if expression = "0 0 0 2,3 1 * 2026" then some bothDays else none
  tzFromStr timezone := if timezone = "UTC" then some () else none
  after schedule _ instant := schedule.val.find? (instant < ·)

def instants (schedule : FiniteSchedule) (_ : Unit) : Set Int :=
  {i | i ∈ schedule.val}

theorem library_searchesInstants : library.SearchesInstants instants := by
  rintro ⟨members, hsort⟩ ⟨⟩
  constructor
  · intro t n hn
    obtain ⟨hlt, before, rest, rfl, hbef⟩ := List.find?_eq_some_iff_append.mp hn
    refine ⟨⟨mem_append_right _ mem_cons_self, of_decide_eq_true hlt⟩, ?_⟩
    rintro i ⟨hi, hti⟩
    rcases mem_append.mp hi with hi | hi
    · exact absurd (decide_eq_true hti) (by simpa using hbef i hi)
    · rcases mem_cons.mp hi with rfl | hi
      · exact le_rfl
      · exact ((pairwise_cons.mp (pairwise_append.mp hsort).2.1).1 i hi).le
  · intro t hn i hi
    have hnot := List.find?_eq_none.mp hn i hi
    simpa using hnot

def definition (policy : MissedRunPolicy) : ScheduleDefinition where
  expression := "0 0 0 2,3 1 * 2026"
  timezone := "UTC"
  missedRunPolicy := policy

theorem parsed_definition (policy : MissedRunPolicy) :
    (definition policy).parsed library = .ok (bothDays, ()) := by
  show (definition .runOnce).parsed library = .ok (bothDays, ())
  unfold parsed definition
  rw [if_neg (by decide), if_neg (by decide)]
  rfl

theorem validate_definition {policy : MissedRunPolicy} {limit : Nat}
    (hlimit : policy.limit = .ok limit) : (definition policy).validate library = .ok () :=
  validate_eq_ok.mpr ⟨⟨_, parsed_definition policy⟩, limit, hlimit⟩

theorem nextAfter_definition (policy : MissedRunPolicy) (instant : Timestamp) :
    (definition policy).nextAfter library instant = nextTimestamp library bothDays () instant := by
  unfold nextAfter
  rw [parsed_definition]
  rfl

theorem nextAfter_createdAt (policy : MissedRunPolicy) :
    (definition policy).nextAfter library createdAt = .ok january2 := by
  rw [nextAfter_definition]
  rfl

theorem nextAfter_january2 (policy : MissedRunPolicy) :
    (definition policy).nextAfter library january2 = .ok january3 := by
  rw [nextAfter_definition]
  rfl

theorem january3_mem_calendar (policy : MissedRunPolicy) :
    january3 ∈ (definition policy).calendar library instants := by
  refine ⟨bothDays, (), parsed_definition policy, ?_⟩
  exact mem_cons_of_mem _ mem_cons_self

/-- Claims on 1 and on 2 January: the second occurrence still lies ahead. -/
theorem first_occurrence_kept : (definition (.catchUp 2)).validate library = .ok () ∧
      (definition (.catchUp 2)).nextAfter library createdAt = .ok january2 ∧
      returned library (definition (.catchUp 2)) january2 [createdAt, january2] = [january2] ∧
      KeepsOccurrences library (definition (.catchUp 2))
        ((definition (.catchUp 2)).calendar library instants) createdAt january2
        [createdAt, january2] := by
  have hvalid := validate_definition (show (MissedRunPolicy.catchUp 2).limit = .ok 2 from rfl)
  have hfirst := nextAfter_createdAt (.catchUp 2)
  refine ⟨hvalid, hfirst, ?_, claims_keep_occurrences library_searchesInstants hvalid hfirst _ ?_⟩
  · decide
  intro claim hclaim
  have hahead : claim.observedAt < january3 := by
    rcases mem_cons.mp hclaim with rfl | hclaim
    · exact by decide
    · rw [mem_singleton.mp hclaim]
      exact by decide
  exact Or.inr (Or.inl ⟨january3, january3_mem_calendar _, hahead⟩)

/-- A claim on 3 January fails: it returns neither occurrence and leaves the cursor. -/
theorem claimAt_last (policy : MissedRunPolicy) (hpol : policy = .runOnce ∨ policy = .catchUp 2) :
    (claimAt library (definition policy) january2 january3).occurrences = [] ∧
      (claimAt library (definition policy) january2 january3).nextCursor = january2 := by
  rcases hpol with rfl | rfl
  · decide
  · decide

theorem returned_last (policy : MissedRunPolicy)
    (hpol : policy = .runOnce ∨ policy = .catchUp 2) (count : Nat) :
    returned library (definition policy) january2 (List.replicate count january3) = [] := by
  induction count with
  | zero => rfl
  | succ count ih =>
    obtain ⟨hnone, hcurs⟩ := claimAt_last policy hpol
    rw [replicate_succ]
    unfold returned claims
    rw [flatMap_cons, hnone, hcurs]
    exact ih

theorem not_keepsOccurrences_last (policy : MissedRunPolicy)
    (hpol : policy = .runOnce ∨ policy = .catchUp 2) :
    ¬ KeepsOccurrences library (definition policy)
      ((definition policy).calendar library instants) createdAt january2 [january3] := by
  intro hkeeps
  obtain ⟨claim, hclaim, hmem⟩ := hkeeps.due
    (claimAt library (definition policy) january2 january3) mem_cons_self
    (show january2 ≤ january3 by decide)
  rw [mem_singleton.mp hclaim, (claimAt_last policy hpol).1] at hmem
  exact absurd hmem not_mem_nil

/-- The schedule has two occurrences and is accepted.  From 3 January on both are due, and
    no number of claims returns either, in both modes. -/
theorem last_occurrences_lost : (definition .runOnce).validate library = .ok () ∧
      (definition (.catchUp 2)).validate library = .ok () ∧
      (definition .runOnce).nextAfter library createdAt = .ok january2 ∧
      (definition .runOnce).nextAfter library january2 = .ok january3 ∧
      (∀ count, returned library (definition .runOnce) january2
        (List.replicate count january3) = []) ∧
      (∀ count, returned library (definition (.catchUp 2)) january2
        (List.replicate count january3) = []) ∧ ¬ KeepsOccurrences library (definition .runOnce)
        ((definition .runOnce).calendar library instants) createdAt january2 [january3] ∧
      ¬ KeepsOccurrences library (definition (.catchUp 2))
        ((definition (.catchUp 2)).calendar library instants) createdAt january2 [january3] :=
  ⟨validate_definition rfl, validate_definition rfl, nextAfter_createdAt _, nextAfter_january2 _,
    returned_last _ (Or.inl rfl), returned_last _ (Or.inr rfl),
    not_keepsOccurrences_last _ (Or.inl rfl), not_keepsOccurrences_last _ (Or.inr rfl)⟩

end Finite

end OctaCity.Trigger
