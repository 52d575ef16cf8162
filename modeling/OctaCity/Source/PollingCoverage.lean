/-
  OctaCity.Source.PollingCoverage

  What every written history of a polled target has covered: the windows of its
  finished incremental passes leave no gap, a retained page is settled before
  anything else is read, and a suspended lane goes on where it was.
-/
import OctaCity.Source.PollingHistory

namespace OctaCity.Source

open Domain Lib List Option

variable {digest : PassDigest} {initial : Option WorkSourceProgress}

/-! ## Single saves -/

namespace PollingProgress

variable {policy : SourcePollingPolicy} {lease : SourcePollingLease} {now : Timestamp}
  {before after : PollingProgress}

@[simp] theorem bind_pendingPage (progress : PollingProgress) :
    (some progress.toProgress).bind (·.pendingPage) = progress.pendingPage := rfl

/-- A position that has just started over. -/
structure Fresh (after : PollingProgress) (now : Timestamp) : Prop where
  start : after.windowStart = epoch
  lane : after.reconciliation = false
  other : after.state.otherPass = none
  finished : after.state.finished = false
  page : after.pendingPage = none
  unswitched : after.state.switchAfterPage = false
  ends : after.windowEnd = now

theorem restart_fresh (h : restart digest policy lease now = .ok after) : Fresh after now := by
  unfold restart at h
  obtain ⟨due, -, h⟩ := bind_eq_ok.mp h
  cases h
  exact ⟨rfl, rfl, rfl, rfl, rfl, rfl, rfl⟩

/-- A page that has been put behind the position. -/
structure Passed (before after : PollingProgress) (page : WorkSourcePendingPage) : Prop where
  capture : after.capture =
    { before.capture with continuation := page.nextCursor, finished := page.nextCursor.isNone }
  other : after.state.otherPass = before.state.otherPass
  page : after.pendingPage = none
  switched : after.state.switchAfterPage = true

theorem covered_passed {page : WorkSourcePendingPage}
    (h : before.covered policy page now = .ok after) : Passed before after page := by
  unfold covered at h
  obtain ⟨due, -, h⟩ := bind_eq_ok.mp h
  cases h
  exact ⟨rfl, rfl, rfl, rfl⟩

variable {progress : PollingProgress}

theorem toProgress_window
    (h : progress.toProgress.isValid = true) : progress.windowStart ≤ progress.windowEnd := by
  unfold WorkSourceProgress.isValid at h
  exact (of_decide_eq_true h).1

/-! ## Windows -/

/-- The incremental lane, active or suspended. -/
def incremental (progress : PollingProgress) : Option WorkSourcePollPass :=
  if progress.reconciliation then progress.state.otherPass else some progress.capture

theorem incremental_of_active
    (h : progress.reconciliation = false) : progress.incremental = some progress.capture := by
  unfold incremental
  rw [h]
  rfl

theorem incremental_of_suspended
    (h : progress.reconciliation = true) : progress.incremental = progress.state.otherPass := by
  unfold incremental
  rw [h]
  rfl

/-- Positions whose lanes are the same have the same incremental lane. -/
theorem incremental_congr (hcap : after.capture = before.capture)
    (hother : after.state.otherPass = before.state.otherPass) :
    after.incremental = before.incremental := by
  have hlane : after.reconciliation = before.reconciliation :=
    congrArg (·.reconciliation) hcap
  unfold incremental
  rw [hlane, hcap, hother]

end PollingProgress

open PollingProgress

/-- The windows of the finished incremental passes, in order. -/
def finishedWindows (log : List PollingEntry) : List (Timestamp × Timestamp) :=
  log.filterMap (·.finishedWindow)

/-- An incremental pass that starts within what the finished windows cover. -/
structure PassJoins (windows : List (Timestamp × Timestamp)) (pass : WorkSourcePollPass) :
    Prop where
  low : epoch ≤ pass.windowStart
  high : pass.windowStart ≤ frontier epoch windows
  first : windows = [] → pass.windowStart = epoch
  finished : pass.finished = true → frontier epoch windows = pass.windowEnd

/-- A position with two different lanes, of which the incremental one joins the windows. -/
structure LaneJoins (windows : List (Timestamp × Timestamp)) (progress : PollingProgress) :
    Prop where
  lanes : ∀ other ∈ progress.state.otherPass, other.reconciliation ≠ progress.reconciliation
  incremental : ∃ pass, progress.incremental = some pass ∧ PassJoins windows pass

/-- Windows without a gap that begin at the epoch. -/
structure CoveredFromEpoch (windows : List (Timestamp × Timestamp)) : Prop where
  gapless : Gapless epoch windows
  low : epoch ≤ frontier epoch windows
  head : ∀ window ∈ windows.head?, window.1 = epoch

variable {windows : List (Timestamp × Timestamp)} {before after : PollingProgress}

theorem epoch_le_overlap (end_ : Timestamp) (millis : Nat) : epoch ≤ overlap end_ millis := by
  rw [Timestamp.le_iff]
  exact Int.le_max_right _ _

theorem overlap_le {end_ : Timestamp} (h : epoch ≤ end_) (millis : Nat) :
    overlap end_ millis ≤ end_ := by
  rw [Timestamp.le_iff] at *
  show max (end_.unixMillis - millis) 0 ≤ end_.unixMillis
  have hend : 0 ≤ end_.unixMillis := h
  omega

theorem PassJoins.next {pass next : WorkSourcePollPass} {overlapMillis : Nat}
    (hwins : CoveredFromEpoch windows) (hpass : PassJoins windows pass)
    (hfin : pass.finished = true) (hnext : next.finished = false)
    (hstart : next.windowStart = overlap pass.windowEnd overlapMillis) :
    PassJoins windows next := by
  have hend : frontier epoch windows = pass.windowEnd := hpass.finished hfin
  have hlow : epoch ≤ pass.windowEnd := hend ▸ hwins.low
  have hhigh : overlap pass.windowEnd overlapMillis ≤ pass.windowEnd := overlap_le hlow _
  refine ⟨?_, ?_, ?_, ?_⟩
  · rw [hstart]
    exact epoch_le_overlap _ _
  · rw [hstart, hend]
    exact hhigh
  · intro hempty
    rw [hempty] at hend
    rw [hstart]
    exact le_antisymm (hend ▸ hhigh) (epoch_le_overlap _ _)
  · intro h
    rw [hnext] at h
    cases h

theorem LaneJoins.congr (h : LaneJoins windows before) (hcap : after.capture = before.capture)
    (hother : after.state.otherPass = before.state.otherPass) : LaneJoins windows after := by
  have hlane : after.reconciliation = before.reconciliation :=
    congrArg (·.reconciliation) hcap
  refine ⟨?_, ?_⟩
  · rw [hother, hlane]
    exact h.lanes
  · rw [incremental_congr hcap hother]
    exact h.incremental

theorem LaneJoins.turn {now : Timestamp} (hwins : CoveredFromEpoch windows)
    (h : LaneJoins windows before) (hturn : Turn now before after) (hread : Readable before after) :
    LaneJoins windows after := by
  obtain ⟨pass, hincr, hjoins⟩ := h.incremental
  cases hturn with
  | stayed hcap hother => exact h.congr hcap hother
  | next hlane hfin _ hwin hact hother =>
    rw [incremental_of_active hlane] at hincr
    cases hincr
    refine ⟨?_, after.capture, incremental_of_active hact.1, ?_⟩
    · rw [hother, hact.1, ← hlane]
      exact h.lanes
    · exact hjoins.next hwins hfin hread.finished hwin.1
  | @resumed suspended hpass hunfin hcap hother =>
    have hdiffer : suspended.reconciliation ≠ before.reconciliation := h.lanes _ hpass
    have hlane : after.reconciliation = suspended.reconciliation :=
      congrArg (·.reconciliation) hcap
    refine ⟨?_, pass, ?_, hjoins⟩
    · intro other hmem
      rw [hother] at hmem
      cases hmem
      rw [hlane]
      exact hdiffer.symm
    · cases hbef : before.reconciliation with
      | false =>
        have hafter : after.reconciliation = true := by
          rw [hlane]
          simpa [hbef] using hdiffer
        rw [incremental_of_suspended hafter, hother, ← hincr,
          incremental_of_active hbef]
      | true =>
        have hafter : after.reconciliation = false := by
          rw [hlane]
          simpa [hbef] using hdiffer
        rw [incremental_of_active hafter, hcap, ← hincr,
          incremental_of_suspended hbef, hpass]
  | incremental hlane hpass hfin _ hwin hact hother =>
    rw [incremental_of_suspended hlane, hpass] at hincr
    cases hincr
    refine ⟨?_, after.capture, incremental_of_active hact.1, ?_⟩
    · intro other hmem
      rw [hother] at hmem
      cases hmem
      rw [hact.1]
      show before.reconciliation ≠ false
      rw [hlane]
      exact Bool.noConfusion
    · exact hjoins.next hwins hfin hread.finished hwin.1
  | reconcile hlane _ _ hact hother =>
    rw [incremental_of_active hlane] at hincr
    refine ⟨?_, pass, ?_, hjoins⟩
    · intro other hmem
      rw [hother] at hmem
      cases hmem
      rw [hact.1]
      show before.reconciliation ≠ true
      rw [hlane]
      exact Bool.noConfusion
    · rw [incremental_of_suspended hact.1, hother]
      exact hincr

/-- A position that is stored belongs to lanes that join the windows. -/
def StoredJoins (windows : List (Timestamp × Timestamp)) (stored : Option WorkSourceProgress) :
    Prop :=
  ∀ progress : PollingProgress, stored = some progress.toProgress → LaneJoins windows progress

theorem finishedWindows_append_singleton (log : List PollingEntry) (entry : PollingEntry) :
    finishedWindows (log ++ [entry]) = finishedWindows log ++ entry.finishedWindow.toList := by
  unfold finishedWindows
  rw [filterMap_append]
  cases h : entry.finishedWindow <;> simp [h]

/-- The incremental pass that an entry finishes ends the covered time. -/
theorem CoveredFromEpoch.append (hwins : CoveredFromEpoch windows) {pass : WorkSourcePollPass}
    (hpass : PassJoins windows pass) (hwin : pass.windowStart ≤ pass.windowEnd) :
    CoveredFromEpoch (windows ++ [(pass.windowStart, pass.windowEnd)]) := by
  refine ⟨gapless_append_singleton.mpr ⟨hwins.gapless, hpass.high⟩, ?_, ?_⟩
  · rw [frontier_append_singleton]
    exact hpass.low.trans hwin
  · intro window hmem
    cases windows with
    | nil =>
      cases hmem
      exact hpass.first rfl
    | cons first rest => exact hwins.head window hmem

/-- A save that does not end an incremental pass finishes no window. -/
theorem finishedWindow_eq_none {before : Option WorkSourceProgress}
    (h : before.bind (·.pendingPage) = none ∨ after.pendingPage ≠ none ∨
      after.state.finished = false ∨ after.reconciliation = true) :
    (PollingEntry.committed before after).finishedWindow = none := by
  show (if _ then _ else _) = none
  rw [if_neg]
  rintro ⟨hpres, hpage, hfin, hact⟩
  rcases h with h | h | h | h
  · rw [h] at hpres
    cases hpres
  · exact h hpage
  · rw [h] at hfin
    cases hfin
  · exact hact h

/-- A page put behind the position: the one save that may finish a window. -/
theorem LaneJoins.pass (hwins : CoveredFromEpoch windows) (h : LaneJoins windows before)
    {page : WorkSourcePendingPage} (hpage : before.pendingPage = some page)
    (hpassed : Passed before after page) (hwin : after.windowStart ≤ after.windowEnd) :
    let windows' := windows ++
      (PollingEntry.committed (some before.toProgress) after).finishedWindow.toList
    CoveredFromEpoch windows' ∧ LaneJoins windows' after := by
  obtain ⟨pass, hincr, hjoins⟩ := h.incremental
  have hpres : ((some before.toProgress).bind (·.pendingPage)).isSome = true := by
    rw [bind_pendingPage, hpage]
    rfl
  have hlane : after.reconciliation = before.reconciliation :=
    congrArg (·.reconciliation) hpassed.capture
  have hlanes : ∀ other ∈ after.state.otherPass, other.reconciliation ≠ after.reconciliation := by
    rw [hpassed.other, hlane]
    exact h.lanes
  cases hrecon : before.reconciliation with
  | true =>
    -- the incremental lane is suspended and stays as it is
    rw [hrecon] at hlane
    have hsame : after.incremental = before.incremental := by
      rw [incremental_of_suspended hlane, incremental_of_suspended hrecon, hpassed.other]
    rw [finishedWindow_eq_none (.inr (.inr (.inr hlane)))]
    simp only [toList_none, append_nil]
    exact ⟨hwins, hlanes, pass, hsame.trans hincr, hjoins⟩
  | false =>
    rw [hrecon] at hlane
    rw [incremental_of_active hrecon] at hincr
    cases hincr
    have hstart : after.capture.windowStart = before.capture.windowStart := by rw [hpassed.capture]
    have hact := incremental_of_active hlane
    cases hfin : after.state.finished with
    | false =>
      rw [finishedWindow_eq_none (.inr (.inr (.inl hfin)))]
      simp only [toList_none, append_nil]
      refine ⟨hwins, hlanes, after.capture, hact, ?_, ?_, ?_, ?_⟩
      · exact hstart ▸ hjoins.low
      · exact hstart ▸ hjoins.high
      · exact fun hempty => hstart.trans (hjoins.first hempty)
      · intro hdone
        rw [show after.capture.finished = false from hfin] at hdone
        cases hdone
    | true =>
      have hsome : (PollingEntry.committed (some before.toProgress) after).finishedWindow =
          some (after.windowStart, after.windowEnd) := by
        show (if _ then _ else _) = _
        exact if_pos ⟨hpres, hpassed.page, hfin, by rw [hlane]; exact Bool.noConfusion⟩
      have hend : after.windowEnd = before.windowEnd :=
        congrArg (·.windowEnd) hpassed.capture
      have hwin' : before.capture.windowStart ≤ before.capture.windowEnd := by
        show before.windowStart ≤ before.windowEnd
        rw [← hend, show before.windowStart = after.windowStart from hstart.symm]
        exact hwin
      have hwindowEq : (after.windowStart, after.windowEnd) =
          (before.capture.windowStart, before.capture.windowEnd) := by
        rw [← hstart]
        exact congrArg _ hend
      rw [hsome, hwindowEq]
      simp only [toList_some]
      refine ⟨hwins.append hjoins hwin', hlanes, after.capture, hact, ?_, ?_, ?_, ?_⟩
      · exact hstart ▸ hjoins.low
      · rw [frontier_append_singleton, hstart]
        exact hwin'
      · intro hempty
        exact absurd hempty (by simp)
      · intro _
        rw [frontier_append_singleton]
        exact hend.symm

/-- One save keeps the windows without a gap. -/
theorem StoredJoins.commit {last : Option PollingEntry} {stored : Option WorkSourceProgress}
    (hwins : CoveredFromEpoch windows) (h : StoredJoins windows stored)
    (hcmt : Commit digest last stored after) (hvalid : after.toProgress.isValid = true) :
    let windows' := windows ++ (PollingEntry.committed stored after).finishedWindow.toList
    CoveredFromEpoch windows' ∧ LaneJoins windows' after := by
  cases hcmt with
  | restarted _ hrestart =>
    have hfresh := restart_fresh hrestart
    rw [finishedWindow_eq_none (.inr (.inr (.inl hfresh.finished)))]
    simp only [toList_none, append_nil]
    refine ⟨hwins, ?_, after.capture, incremental_of_active hfresh.lane, ?_, ?_, ?_, ?_⟩
    · intro other hmem
      rw [hfresh.other] at hmem
      cases hmem
    · exact hfresh.start.ge
    · exact hfresh.start.le.trans hwins.low
    · exact fun _ => hfresh.start
    · intro hdone
      rw [show after.capture.finished = false from hfresh.finished] at hdone
      cases hdone
  | turned hpage hadv =>
    obtain ⟨hturn, hread⟩ := advancePhase_turns hadv
    rw [finishedWindow_eq_none (.inl ((bind_pendingPage _).trans hpage))]
    simp only [toList_none, append_nil]
    exact ⟨hwins, (h _ rfl).turn hwins hturn hread⟩
  | retained hpage _ =>
    rw [finishedWindow_eq_none (.inl ((bind_pendingPage _).trans hpage))]
    simp only [toList_none, append_nil]
    exact ⟨hwins, (h _ rfl).congr rfl rfl⟩
  | settled =>
    rw [finishedWindow_eq_none (.inr (.inl (by nofun)))]
    simp only [toList_none, append_nil]
    exact ⟨hwins, (h _ rfl).congr rfl rfl⟩
  | covered hpage _ hcov =>
    exact (h _ rfl).pass hwins hpage (covered_passed hcov) (toProgress_window hvalid)

/-- Every written history covers the provider's time from the epoch on. -/
theorem Written.covers {log : List PollingEntry} (hinit : initial.bind (·.live) = none)
    (h : Written digest initial log) : CoveredFromEpoch (finishedWindows log) ∧
      StoredJoins (finishedWindows log) (replay initial log) := by
  induction h with
  | nil =>
    refine ⟨⟨gapless_nil _, le_rfl, ?_⟩, ?_⟩
    · intro window hmem
      cases hmem
    · intro progress hstor
      have hlive : initial.bind (·.live) = some progress := by
        rw [show initial = some progress.toProgress from hstor]
        exact live_eq_some.mpr rfl
      rw [hinit] at hlive
      cases hlive
  | @snoc log entry _ hentry ih =>
    obtain ⟨hwins, hstor⟩ := ih
    rw [finishedWindows_append_singleton, replay_append_singleton]
    cases entry with
    | committed expected after =>
      obtain ⟨rfl, hvalid, hcmt⟩ := hentry
      obtain ⟨hwins', hjoins⟩ := hstor.commit hwins hcmt hvalid
      refine ⟨hwins', ?_⟩
      intro progress heq
      cases toProgress_injective (Option.some.inj heq)
      exact hjoins
    | reset =>
      show CoveredFromEpoch (finishedWindows log ++ []) ∧
        StoredJoins (finishedWindows log ++ []) none
      rw [append_nil]
      exact ⟨hwins, fun progress heq => by cases heq⟩
    | read request page =>
      show CoveredFromEpoch (finishedWindows log ++ []) ∧
        StoredJoins (finishedWindows log ++ []) (replay initial log)
      rw [append_nil]
      exact ⟨hwins, hstor⟩
    | settled candidate =>
      show CoveredFromEpoch (finishedWindows log ++ []) ∧
        StoredJoins (finishedWindows log ++ []) (replay initial log)
      rw [append_nil]
      exact ⟨hwins, hstor⟩
    | returned policy outcome =>
      show CoveredFromEpoch (finishedWindows log ++ []) ∧
        StoredJoins (finishedWindows log ++ []) (replay initial log)
      rw [append_nil]
      exact ⟨hwins, hstor⟩

/-! # Pages

What stays of a retained page and of a suspended lane along a written history:
the page goes only candidate by candidate, each of them settled, and the lane
comes back as it was left.
-/

variable {pre mid : List PollingEntry}

/-- The last entry of a history is the marked one or comes after it. -/
theorem eq_or_mem_of_getLast? {entry last : PollingEntry}
    (h : (pre ++ entry :: mid).getLast? = some last) : last = entry ∨ last ∈ mid := by
  rw [List.getLast?_append_of_ne_nil _ (cons_ne_nil _ _)] at h
  have hmem := mem_of_getLast? h
  exact mem_cons.mp hmem

/-- The stored position after a marked save. -/
theorem replay_committed {stored : Option WorkSourceProgress} :
    replay initial (pre ++ [.committed stored after]) = some after.toProgress := by
  rw [replay_append_singleton]
  rfl

theorem append_cons_append_singleton (entry last : PollingEntry) :
    pre ++ entry :: (mid ++ [last]) = (pre ++ entry :: mid) ++ [last] := by
  rw [append_assoc, cons_append]

/-- A save that starts over leaves a page behind. -/
theorem startsOver_of_page {page : WorkSourcePendingPage} {now : Timestamp}
    (hpage : before.pendingPage = some page) (hfresh : Fresh after now) :
    (PollingEntry.committed (some before.toProgress) after).startsOver = true := by
  have hpres : ((some before.toProgress).bind (·.pendingPage)).isSome = true := by
    rw [bind_pendingPage, hpage]
    rfl
  exact decide_eq_true ⟨hpres, hfresh.page, hfresh.unswitched⟩

/-- What is left of a page: a retained rest behind settled candidates, or nothing. -/
def PageKept (page : WorkSourcePendingPage) (mid : List PollingEntry)
    (stored : Option WorkSourceProgress) : Prop :=
  (∃ (progress : PollingProgress) (rest : WorkSourcePendingPage) (done : List JsonValue),
    stored = some progress.toProgress ∧ progress.pendingPage = some rest ∧
      page.candidates = done ++ rest.candidates ∧
      ∀ candidate ∈ done, PollingEntry.settled candidate ∈ mid) ∨
    ∀ candidate ∈ page.candidates, PollingEntry.settled candidate ∈ mid

variable {page : WorkSourcePendingPage}

theorem PageKept.weaken {stored : Option WorkSourceProgress} {entry : PollingEntry}
    (h : PageKept page mid stored) (hstor : entry.stored stored = stored) :
    PageKept page (mid ++ [entry]) (entry.stored stored) := by
  rw [hstor]
  rcases h with ⟨progress, rest, done, heq, hrest, hcands, hdone⟩ | hall
  · exact .inl ⟨progress, rest, done, heq, hrest, hcands, fun candidate hmem =>
      mem_append_left _ (hdone candidate hmem)⟩
  · exact .inr fun candidate hmem => mem_append_left _ (hall candidate hmem)

theorem PageKept.commit {stored : Option WorkSourceProgress} {marked : PollingEntry}
    (hmarked : ∀ candidate, marked ≠ .settled candidate) (h : PageKept page mid stored)
    (hcmt : Commit digest (pre ++ marked :: mid).getLast? stored after)
    (hover : (PollingEntry.committed stored after).startsOver = false) :
    PageKept page (mid ++ [.committed stored after]) (some after.toProgress) := by
  have hset : ∀ candidate, (pre ++ marked :: mid).getLast? = some (.settled candidate) →
      PollingEntry.settled candidate ∈ mid := by
    intro candidate hlast
    rcases eq_or_mem_of_getLast? hlast with heq | hmem
    · exact absurd heq.symm (hmarked candidate)
    · exact hmem
  rcases h with ⟨progress, rest, done, rfl, hrest, hcands, hdone⟩ | hall
  · have hdone' : ∀ candidate ∈ done,
        PollingEntry.settled candidate ∈ mid ++ [.committed (some progress.toProgress) after] :=
      fun candidate hmem => mem_append_left _ (hdone candidate hmem)
    generalize hexp : some progress.toProgress = expected at hcmt
    cases hcmt with
    | restarted _ hrestart =>
      subst hexp
      rw [startsOver_of_page hrest (restart_fresh hrestart)] at hover
      cases hover
    | turned hpage =>
      cases toProgress_injective (Option.some.inj hexp)
      rw [hrest] at hpage
      cases hpage
    | retained hpage =>
      cases toProgress_injective (Option.some.inj hexp)
      rw [hrest] at hpage
      cases hpage
    | @settled _ page' candidate remaining hpage hfirst _ hlast =>
      cases toProgress_injective (Option.some.inj hexp)
      cases hrest.symm.trans hpage
      refine .inl ⟨_, { rest with candidates := remaining }, done ++ [candidate], rfl, rfl, ?_, ?_⟩
      · rw [hcands, hfirst, append_assoc, singleton_append]
      · intro other hmem
        rcases mem_append.mp hmem with hmem | hmem
        · exact hdone' other hmem
        · cases mem_singleton.mp hmem
          exact mem_append_left _ (hset _ hlast)
    | covered hpage hlast _ =>
      cases toProgress_injective (Option.some.inj hexp)
      cases hrest.symm.trans hpage
      refine .inr ?_
      intro other hmem
      rw [hcands] at hmem
      rcases mem_append.mp hmem with hmem | hmem
      · exact hdone' other hmem
      · rcases hlast with hempty | ⟨candidate, hone, hlast⟩
        · rw [hempty] at hmem
          cases hmem
        · rw [hone] at hmem
          cases mem_singleton.mp hmem
          exact mem_append_left _ (hset _ hlast)
  · exact .inr fun candidate hmem => mem_append_left _ (hall candidate hmem)

/-- Nothing of a retained page is lost unless the position starts over. -/
theorem Written.keeps_page {stored : Option WorkSourceProgress}
    (h : Written digest initial (pre ++ .committed stored after :: mid))
    (hpage : after.pendingPage = some page) (hover : ∀ entry ∈ mid, entry.startsOver = false) :
    PageKept page mid (replay initial (pre ++ .committed stored after :: mid)) := by
  induction mid using List.reverseRecOn with
  | nil =>
    rw [replay_committed]
    exact .inl ⟨after, page, [], rfl, hpage, rfl, fun candidate hmem => by cases hmem⟩
  | append_singleton mid entry ih =>
    rw [append_cons_append_singleton] at h ⊢
    obtain ⟨hearl, hentry⟩ := h.last
    have hkept := ih hearl fun other hmem => hover other (mem_append_left _ hmem)
    have hlast : entry.startsOver = false :=
      hover entry (mem_append_right _ (mem_singleton_self _))
    rw [replay_append_singleton]
    cases entry with
    | committed expected next =>
      obtain ⟨rfl, -, hcmt⟩ := hentry
      exact hkept.commit (fun candidate => PollingEntry.noConfusion) hcmt hlast
    | reset => cases hlast
    | read request page => exact hkept.weaken rfl
    | settled candidate => exact hkept.weaken rfl
    | returned policy outcome => exact hkept.weaken rfl

/-! ## Lanes -/

/-- A save either stays in its lane, or suspends it and goes on with the other one. -/
theorem Commit.lanes {last : Option PollingEntry}
    (h : Commit digest last (some before.toProgress) after)
    (hover : (PollingEntry.committed (some before.toProgress) after).startsOver = false) :
    (after.reconciliation = before.reconciliation ∧
        after.state.otherPass = before.state.otherPass) ∨
      (after.state.otherPass = some before.capture ∧
        ∀ pass ∈ before.state.otherPass, pass.finished = false → after.capture = pass) := by
  generalize hexp : some before.toProgress = expected at h
  cases h with
  | restarted hstart hrestart =>
    subst hexp
    obtain ⟨page, hpage, -⟩ := PollingRun.startsOver_live.mp hstart
    rw [startsOver_of_page hpage (restart_fresh hrestart)] at hover
    cases hover
  | turned _ hadv =>
    cases toProgress_injective (Option.some.inj hexp)
    cases (advancePhase_turns hadv).1 with
    | stayed hcap hother => exact .inl ⟨congrArg (·.reconciliation) hcap, hother⟩
    | next hlane _ _ _ hact hother => exact .inl ⟨hact.1.trans hlane.symm, hother⟩
    | resumed hpass _ hcap hother =>
      refine .inr ⟨hother, ?_⟩
      intro pass hmem _
      cases hpass.symm.trans hmem
      exact hcap
    | incremental _ hpass hfin _ _ _ hother =>
      refine .inr ⟨hother, ?_⟩
      intro pass hmem hunfin
      cases hpass.symm.trans hmem
      rw [hfin] at hunfin
      cases hunfin
    | reconcile _ hpass _ _ hother =>
      refine .inr ⟨hother, ?_⟩
      intro pass hmem hunfin
      rw [hpass pass hmem] at hunfin
      cases hunfin
  | retained =>
    cases toProgress_injective (Option.some.inj hexp)
    exact .inl ⟨rfl, rfl⟩
  | settled =>
    cases toProgress_injective (Option.some.inj hexp)
    exact .inl ⟨rfl, rfl⟩
  | covered _ _ hcov =>
    cases toProgress_injective (Option.some.inj hexp)
    have hpassed := covered_passed hcov
    exact .inl ⟨congrArg (·.reconciliation) hpassed.capture, hpassed.other⟩

/-- The other lane is active and the given pass waits. -/
def Suspended (pass : WorkSourcePollPass) (stored : Option WorkSourceProgress) : Prop :=
  ∃ progress : PollingProgress, stored = some progress.toProgress ∧
    progress.state.otherPass = some pass ∧ progress.reconciliation ≠ pass.reconciliation

/-- A suspended pass waits until its lane is active again. -/
theorem Suspended.commit {last : Option PollingEntry} {stored : Option WorkSourceProgress}
    {pass : WorkSourcePollPass} (h : Suspended pass stored) (hpass : pass.finished = false)
    (hcmt : Commit digest last stored after)
    (hover : (PollingEntry.committed stored after).startsOver = false) :
    Suspended pass (some after.toProgress) ∨ after.capture = pass := by
  obtain ⟨progress, rfl, hother, hlane⟩ := h
  rcases hcmt.lanes hover with ⟨hsame, hkept⟩ | ⟨-, hresume⟩
  · refine .inl ⟨after, rfl, hkept.trans hother, ?_⟩
    rw [hsame]
    exact hlane
  · exact .inr (hresume pass hother hpass)

/-- A lane left unfinished stays suspended while only the other lane is written. -/
theorem Written.keeps_suspended
    (h : Written digest initial (pre ++ .committed (some before.toProgress) after :: mid))
    (hswitch : after.reconciliation ≠ before.reconciliation)
    (hunfin : before.state.finished = false)
    (hover : ∀ entry ∈ PollingEntry.committed (some before.toProgress) after :: mid,
      entry.startsOver = false)
    (hlane : ∀ expected next, PollingEntry.committed expected next ∈ mid →
      next.reconciliation ≠ before.reconciliation) : Suspended before.capture
      (replay initial (pre ++ .committed (some before.toProgress) after :: mid)) := by
  induction mid using List.reverseRecOn with
  | nil =>
    obtain ⟨-, -, -, hcmt⟩ := h.last
    rw [replay_committed]
    rcases hcmt.lanes (hover _ (mem_cons_self ..)) with ⟨hsame, -⟩ | ⟨hother, -⟩
    · exact absurd hsame hswitch
    · exact ⟨after, rfl, hother, hswitch⟩
  | append_singleton mid entry ih =>
    rw [append_cons_append_singleton] at h ⊢
    obtain ⟨hearl, hentry⟩ := h.last
    have hwaits := ih hearl
      (fun other hmem => hover other (cons_append ▸ mem_append_left _ hmem))
      (fun expected next hmem => hlane expected next (mem_append_left _ hmem))
    have hmem : entry ∈ mid ++ [entry] := mem_append_right _ (mem_singleton_self _)
    have hlast : entry.startsOver = false := hover entry (mem_cons_of_mem _ hmem)
    rw [replay_append_singleton]
    cases entry with
    | committed expected next =>
      obtain ⟨rfl, -, hcmt⟩ := hentry
      rcases hwaits.commit hunfin hcmt hlast with hwaits | hresumed
      · exact hwaits
      · exact absurd (congrArg (·.reconciliation) hresumed) (hlane _ _ hmem)
    | reset => cases hlast
    | read request page => exact hwaits
    | settled candidate => exact hwaits
    | returned policy outcome => exact hwaits

end OctaCity.Source
