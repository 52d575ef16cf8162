/-
  OctaCity.Source.PollingRuns

  Runs of a polled target: what holds of its history, of each invocation's
  budgets and of the positions it saves, after any sequence of events.
-/
import OctaCity.Source.PollingSystem

namespace OctaCity.Source

open Domain Lib PollingProgress

variable {digest : PassDigest} {initial : Option WorkSourceProgress} {σ : PollingSystem}

/-! ## Histories -/

variable {run : PollingRun}

namespace PollingSystem

theorem PollingSound.advance (h : PollingSound digest initial σ)
    (hrun : RunSound digest σ.stored σ.log run) (event : PollingEvent) :
    PollingSound digest initial (σ.advance digest run event) := by
  cases event with
  | loop checkedAt advancedAt =>
    simp only [PollingSystem.advance]
    split
    · rename_i hawait
      split
      · exact h.finish
      · rename_i hloop
        exact h.loop hrun hawait hloop
      · exact h.idle
    · exact h
  | read page readAt =>
    simp only [PollingSystem.advance]
    split
    · rename_i hawait
      exact h.read hrun hawait
    · exact h
  | settle expiryAt checkedAt =>
    simp only [PollingSystem.advance]
    split
    · rename_i hawait
      split
      · rename_i hset
        exact h.settle hrun hawait hset
      · exact h.idle
    · exact h
  | cover coveredAt =>
    simp only [PollingSystem.advance]
    split
    · rename_i hawait
      cases hcover : run.cover coveredAt with
      | error error => exact h.idle
      | ok next => exact h.cover hrun hawait hcover
    · exact h
  | save outcome =>
    simp only [PollingSystem.advance]
    split
    · rename_i hsaving
      exact h.save hrun hsaving
    · exact h
  | complete done =>
    simp only [PollingSystem.advance]
    split
    · rename_i hawait
      split
      · exact h.finish
      · obtain ⟨hsaving, -⟩ := of_decide_eq_true hawait
        have hexp := PollingSound.expected_of_awaits hrun hawait nofun
        refine h.goes ⟨fun _ _ => hexp, ?_, nofun,
          nofun⟩
        intro htrue
        exact absurd (hsaving.symm.trans htrue) Bool.noConfusion
    · exact h
  | start policy lease now => exact h
  | fail => exact h
  | reset => exact h

theorem step_sound (h : PollingSound digest initial σ) (event : PollingEvent) :
    PollingSound digest initial (σ.step digest event) := by
  have hadv : PollingSound digest initial
      (σ.run.elim σ fun run => σ.advance digest run event) := by
    cases hrun : σ.run with
    | none => exact h
    | some run => exact PollingSound.advance h (h.run run hrun) event
  cases event with
  | start policy lease now =>
    cases hstart : PollingRun.start digest policy lease σ.stored now with
    | error error =>
      show PollingSound digest initial
        { σ with run := (PollingRun.start digest policy lease σ.stored now).toOption }
      rw [hstart]
      exact h.idle
    | ok run =>
      show PollingSound digest initial
        { σ with run := (PollingRun.start digest policy lease σ.stored now).toOption }
      rw [hstart]
      exact h.start hstart
  | fail => exact h.idle
  | reset => exact h.reset
  | _ => exact hadv

theorem foldl_sound (events : List PollingEvent) (h : PollingSound digest initial σ) :
    PollingSound digest initial (events.foldl (step digest) σ) := by
  induction events generalizing σ with
  | nil => exact h
  | cons event rest ih => exact ih (step_sound h event)

theorem runAll_sound (initial : Option WorkSourceProgress) (events : List PollingEvent) :
    PollingSound digest initial (runAll digest initial events) :=
  foldl_sound events ⟨.nil, rfl, fun run hmem => by cases hmem⟩

end PollingSystem

/-! ## Invariants of the invocations -/

/-- A property of the local variables that every part of `run_once` keeps. -/
structure RunInvariant (digest : PassDigest) (Lawful : PollingEvent → Prop)
    (Stored : Option WorkSourceProgress → Prop) (P : PollingRun → Prop) : Prop where
  start : ∀ {policy lease now stored run}, Lawful (.start policy lease now) → Stored stored →
    PollingRun.start digest policy lease stored now = .ok run → P run
  loop : ∀ {checkedAt advancedAt run next}, Lawful (.loop checkedAt advancedAt) → P run →
    run.loop digest checkedAt advancedAt = .ok (some next) → P next
  read : ∀ {page readAt run next}, Lawful (.read page readAt) → P run → run.phase = .read →
    run.accept page readAt = .ok next → P next
  settle : ∀ {expiryAt checkedAt run next candidate}, P run → run.phase = .settle →
    run.settle expiryAt checkedAt = .ok (next, candidate) → P next
  cover : ∀ {coveredAt run next}, P run → run.cover coveredAt = .ok next → P next
  save : ∀ {run expected}, P run → P { run with expected, saving := false }
  complete : ∀ {run}, P run → P { run with phase := .loop }

namespace RunInvariant

variable {Lawful : PollingEvent → Prop} {Stored : Option WorkSourceProgress → Prop}
  {P : PollingRun → Prop}

theorem advance (hP : RunInvariant digest Lawful Stored P) (hrun : P run)
    (hσ : ∀ run ∈ σ.run, P run) {event : PollingEvent} (hlawful : Lawful event) :
    ∀ next ∈ (σ.advance digest run event).run, P next := by
  cases event with
  | loop checkedAt advancedAt =>
    simp only [PollingSystem.advance]
    split
    · split
      · intro next hmem
        cases hmem
      · rename_i hloop
        intro next hmem
        cases hmem
        exact hP.loop hlawful hrun hloop
      · intro next hmem
        cases hmem
    · exact hσ
  | read page readAt =>
    simp only [PollingSystem.advance]
    split
    · rename_i hawait
      intro next hmem
      exact hP.read hlawful hrun (of_decide_eq_true hawait).2 (toOption_eq_some.mp hmem)
    · exact hσ
  | settle expiryAt checkedAt =>
    simp only [PollingSystem.advance]
    split
    · rename_i hawait
      split
      · rename_i hset
        intro next hmem
        cases hmem
        exact hP.settle hrun (of_decide_eq_true hawait).2 hset
      · intro next hmem
        cases hmem
    · exact hσ
  | cover coveredAt =>
    simp only [PollingSystem.advance]
    split
    · intro next hmem
      exact hP.cover hrun (toOption_eq_some.mp hmem)
    · exact hσ
  | save outcome =>
    simp only [PollingSystem.advance, PollingSystem.save]
    split
    · split
      · intro next hmem
        dsimp only at hmem
        split at hmem
        · cases hmem
          exact hP.save hrun
        · cases hmem
      · intro next hmem
        cases hmem
    · exact hσ
  | complete done =>
    simp only [PollingSystem.advance]
    split
    · split
      · intro next hmem
        cases hmem
      · intro next hmem
        cases hmem
        exact hP.complete hrun
    · exact hσ
  | start policy lease now => exact hσ
  | fail => exact hσ
  | reset => exact hσ

theorem step (hP : RunInvariant digest Lawful Stored P) (hstor : Stored σ.stored)
    (hσ : ∀ run ∈ σ.run, P run) {event : PollingEvent} (hlawful : Lawful event) :
    ∀ next ∈ (σ.step digest event).run, P next := by
  have hadv : ∀ next ∈ (σ.run.elim σ fun run => σ.advance digest run event).run, P next := by
    cases hrun : σ.run with
    | none =>
      intro next hmem
      exact hσ next hmem
    | some run => exact hP.advance (hσ run hrun) hσ hlawful
  cases event with
  | start policy lease now =>
    intro next hmem
    exact hP.start hlawful hstor (toOption_eq_some.mp hmem)
  | fail =>
    intro next hmem
    cases hmem
  | reset => exact hσ
  | _ => exact hadv

end RunInvariant

/-! ## Budgets -/

/-- The counters of an invocation next to its policy. -/
structure WithinBudget (run : PollingRun) : Prop where
  items : run.outcome.itemsProcessed ≤ run.policy.maxItems
  pages : run.outcome.pagesRead ≤ run.policy.maxPages
  bytes : run.outcome.bytesExamined ≤ run.policy.maxBytes
  /-- A page that is being read fits what is left. -/
  reading : run.phase = .read → run.outcome.pagesRead < run.policy.maxPages ∧
    run.outcome.bytesExamined + run.policy.maxPageBytes ≤ run.policy.maxBytes
  settling : run.phase = .read ∨ run.phase = .settle →
    run.outcome.itemsProcessed < run.policy.maxItems

theorem budgetInvariant : RunInvariant digest (fun _ => True) (fun _ => True) WithinBudget where
  start := by
    intro policy lease now stored run _ _ h
    have hzero : run.policy = policy ∧ run.outcome = ⟨0, 0, 0⟩ ∧ run.phase = .loop := by
      unfold PollingRun.start at h
      obtain ⟨-, h⟩ := check_eq_ok.mp h
      split at h
      · obtain ⟨progress, -, h⟩ := bind_eq_ok.mp h
        cases h
        exact ⟨rfl, rfl, rfl⟩
      · split at h
        · obtain ⟨progress, -, h⟩ := bind_eq_ok.mp h
          cases h
          exact ⟨rfl, rfl, rfl⟩
        · cases h
          exact ⟨rfl, rfl, rfl⟩
    obtain ⟨-, hout, hphase⟩ := hzero
    refine ⟨?_, ?_, ?_, ?_, ?_⟩
    · rw [hout]
      exact Nat.zero_le _
    · rw [hout]
      exact Nat.zero_le _
    · rw [hout]
      exact Nat.zero_le _
    · intro hread
      rw [hphase] at hread
      cases hread
    · intro hsettling
      rw [hphase] at hsettling
      rcases hsettling with h | h <;> cases h
  loop := by
    intro checkedAt advancedAt run next _ hrun h
    unfold PollingRun.loop at h
    split at h
    · cases h
    · rename_i hitems
      have hleft : run.outcome.itemsProcessed < run.policy.maxItems := by omega
      obtain ⟨-, h⟩ := check_eq_ok.mp h
      split at h
      · cases h
        exact ⟨hrun.items, hrun.pages, hrun.bytes, nofun, fun _ => hleft⟩
      · split at h
        · cases h
        · rename_i hbud
          obtain ⟨advanced, -, h⟩ := bind_eq_ok.mp h
          cases advanced with
          | none => cases h
          | some progress =>
            cases h
            refine ⟨hrun.items, hrun.pages, hrun.bytes, fun _ => ⟨?_, ?_⟩, fun _ => hleft⟩
            · show run.outcome.pagesRead < run.policy.maxPages
              omega
            · show run.outcome.bytesExamined + run.policy.maxPageBytes ≤ run.policy.maxBytes
              omega
  read := by
    intro page readAt run next _ hrun hphase h
    obtain ⟨hpages, hbytes⟩ := hrun.reading hphase
    have hleft := hrun.settling (.inl hphase)
    unfold PollingRun.accept at h
    obtain ⟨hfits, h⟩ := guard_eq_ok.mp h
    obtain ⟨retention, -, h⟩ := bind_eq_ok.mp h
    cases h
    refine ⟨hrun.items, hpages, ?_, nofun, fun _ => hleft⟩
    show run.outcome.bytesExamined + page.encodedSize ≤ run.policy.maxBytes
    omega
  settle := by
    intro expiryAt checkedAt run next candidate hrun hphase h
    have hleft := hrun.settling (.inr hphase)
    unfold PollingRun.settle at h
    split at h
    · cases h
    · rename_i page _
      obtain ⟨charged, hchrg, h⟩ := bind_eq_ok.mp h
      have hcharged : charged.policy = run.policy ∧
          charged.outcome.itemsProcessed = run.outcome.itemsProcessed ∧
          charged.outcome.pagesRead = run.outcome.pagesRead ∧
          charged.outcome.bytesExamined ≤ run.policy.maxBytes := by
        unfold PollingRun.charge at hchrg
        split at hchrg
        · cases hchrg
          exact ⟨rfl, rfl, rfl, hrun.bytes⟩
        · obtain ⟨hfits, hchrg⟩ := guard_eq_ok.mp hchrg
          cases hchrg
          refine ⟨rfl, rfl, rfl, ?_⟩
          show page.encodedPayloadBytes ≤ run.policy.maxBytes
          omega
      obtain ⟨hpol, hitems, hpages, hbytes⟩ := hcharged
      have hkept := hrun.pages
      split at h
      · cases h
        refine ⟨?_, ?_, ?_, nofun, ?_⟩
        · show charged.outcome.itemsProcessed ≤ charged.policy.maxItems
          rw [hitems, hpol]
          exact hrun.items
        · show charged.outcome.pagesRead ≤ charged.policy.maxPages
          rw [hpages, hpol]
          exact hrun.pages
        · show charged.outcome.bytesExamined ≤ charged.policy.maxBytes
          rw [hpol]
          exact hbytes
        · rintro (h | h) <;> cases h
      · obtain ⟨-, h⟩ := guard_eq_ok.mp h
        obtain ⟨-, h⟩ := check_eq_ok.mp h
        cases h
        refine ⟨?_, ?_, ?_, nofun, ?_⟩
        · show charged.outcome.itemsProcessed + 1 ≤ charged.policy.maxItems
          rw [hitems, hpol]
          exact hleft
        · show charged.outcome.pagesRead ≤ charged.policy.maxPages
          rw [hpages, hpol]
          exact hrun.pages
        · show charged.outcome.bytesExamined ≤ charged.policy.maxBytes
          rw [hpol]
          exact hbytes
        · rintro (h | h) <;> cases h
  cover := by
    intro coveredAt run next hrun h
    unfold PollingRun.cover at h
    split at h
    · cases h
    · split at h
      · obtain ⟨progress, -, h⟩ := bind_eq_ok.mp h
        cases h
        refine ⟨hrun.items, hrun.pages, hrun.bytes, nofun, ?_⟩
        rintro (h | h) <;> cases h
      · cases h
        refine ⟨hrun.items, hrun.pages, hrun.bytes, nofun, ?_⟩
        rintro (h | h) <;> cases h
  save := fun hrun => ⟨hrun.items, hrun.pages, hrun.bytes, hrun.reading, hrun.settling⟩
  complete := by
    intro run hrun
    refine ⟨hrun.items, hrun.pages, hrun.bytes, nofun, ?_⟩
    rintro (h | h) <;> cases h

/-! ## Saved positions -/

/-- An event whose clock does not stand before the epoch and whose page the store can hold. -/
def PollingEvent.Lawful : PollingEvent → Prop
  | .start _ _ now => epoch ≤ now
  | .loop _ advancedAt => epoch ≤ advancedAt
  | .read page _ => LawfulPage page
  | _ => True

/-- A stored position that an invocation can resume is valid. -/
def ResumesValid (stored : Option WorkSourceProgress) : Prop :=
  ∀ progress : PollingProgress, stored = some progress.toProgress → ValidProgress progress

/-- A page is retained only by an unfinished lane. -/
theorem ValidProgress.unfinished {progress : PollingProgress} {page : WorkSourcePendingPage}
    (h : ValidProgress progress) (hpage : progress.pendingPage = some page) :
    progress.state.finished = false := by
  by_contra hfin
  rw [Bool.not_eq_false] at hfin
  rw [h.consumed hfin] at hpage
  cases hpage

/-- The position of an invocation, which reads only into an unfinished lane. -/
structure ValidRun (run : PollingRun) : Prop where
  progress : ValidProgress run.progress
  reading : run.phase = .read → run.progress.state.finished = false

theorem validInvariant : RunInvariant digest PollingEvent.Lawful ResumesValid ValidRun where
  start := by
    intro policy lease now stored run hnow hstor h
    unfold PollingRun.start at h
    obtain ⟨-, h⟩ := check_eq_ok.mp h
    split at h
    · obtain ⟨progress, hrest, h⟩ := bind_eq_ok.mp h
      cases h
      exact ⟨.restart hnow hrest, nofun⟩
    · rename_i progress hlive
      split at h
      · obtain ⟨progress, hrest, h⟩ := bind_eq_ok.mp h
        cases h
        exact ⟨.restart hnow hrest, nofun⟩
      · cases h
        obtain ⟨document, heq, hdocument⟩ := Option.bind_eq_some_iff.mp hlive
        refine ⟨hstor progress ?_, nofun⟩
        rw [heq, live_eq_some.mp hdocument]
  loop := by
    intro checkedAt advancedAt run next hnow hrun h
    unfold PollingRun.loop at h
    split at h
    · cases h
    · obtain ⟨-, h⟩ := check_eq_ok.mp h
      split at h
      · cases h
        exact ⟨hrun.progress, nofun⟩
      · split at h
        · cases h
        · obtain ⟨advanced, hadv, h⟩ := bind_eq_ok.mp h
          cases advanced with
          | none => cases h
          | some progress =>
            cases h
            obtain ⟨hturn, hreadable⟩ := advancePhase_turns hadv
            exact ⟨hrun.progress.turn hnow hturn hreadable, fun _ => hreadable.finished⟩
  read := by
    intro page readAt run next hpage hrun hphase h
    unfold PollingRun.accept at h
    obtain ⟨hfits, h⟩ := guard_eq_ok.mp h
    obtain ⟨retention, -, h⟩ := bind_eq_ok.mp h
    cases h
    obtain ⟨hsize, hitems⟩ := not_or.mp hfits
    have hvalid : (page.retain retention).isValid = true :=
      retain_isValid hpage (not_lt.mp hsize) (not_lt.mp hitems)
    exact ⟨hrun.progress.withPage (hrun.reading hphase) hvalid, nofun⟩
  settle := by
    intro expiryAt checkedAt run next candidate hrun _ h
    unfold PollingRun.settle at h
    split at h
    · cases h
    · rename_i page hpage
      obtain ⟨charged, hchrg, h⟩ := bind_eq_ok.mp h
      obtain ⟨hprog, -⟩ := PollingSound.charge_eq_ok hchrg
      split at h
      · cases h
        refine ⟨?_, nofun⟩
        show ValidProgress charged.progress
        rw [hprog]
        exact hrun.progress
      · rename_i first rest hcands
        obtain ⟨-, h⟩ := guard_eq_ok.mp h
        obtain ⟨-, h⟩ := check_eq_ok.mp h
        cases h
        refine ⟨?_, nofun⟩
        show ValidProgress (charged.progress.withPage _)
        rw [hprog]
        exact hrun.progress.withPage (hrun.progress.unfinished hpage)
          (isValid_rest (hrun.progress.page page hpage) hcands)
  cover := by
    intro coveredAt run next hrun h
    unfold PollingRun.cover at h
    split at h
    · cases h
    · rename_i page hpage
      split at h
      · obtain ⟨progress, hcov, h⟩ := bind_eq_ok.mp h
        cases h
        exact ⟨hrun.progress.covered (hrun.progress.page page hpage) (covered_passed hcov),
          nofun⟩
      · cases h
        exact ⟨hrun.progress, nofun⟩
  save := fun hrun => ⟨hrun.progress, hrun.reading⟩
  complete := fun hrun => ⟨hrun.progress, nofun⟩

/-! ## Runs -/

/-- What is stored is what was valid when it was saved. -/
theorem resumesValid_step (hstor : ResumesValid σ.stored) (event : PollingEvent) :
    ResumesValid (σ.step digest event).stored := by
  have hadv : ResumesValid (σ.run.elim σ fun run => σ.advance digest run event).stored := by
    cases hrun : σ.run with
    | none => exact hstor
    | some run =>
      show ResumesValid (σ.advance digest run event).stored
      cases event with
      | save outcome =>
        simp only [PollingSystem.advance, PollingSystem.save]
        split
        · split
          · rename_i hacc
            intro progress heq
            cases toProgress_injective (Option.some.inj heq)
            exact isValid_iff.mp hacc.2.2
          · exact hstor
        · exact hstor
      | _ =>
        simp only [PollingSystem.advance]
        repeat' split
        all_goals exact hstor
  cases event with
  | reset =>
    intro progress heq
    cases heq
  | start policy lease now => exact hstor
  | fail => exact hstor
  | _ => exact hadv

/-- The counters an invocation reports are within its policy. -/
def ReportsBudgets (log : List PollingEntry) : Prop :=
  ∀ policy outcome, PollingEntry.returned policy outcome ∈ log →
    outcome.itemsProcessed ≤ policy.maxItems ∧ outcome.pagesRead ≤ policy.maxPages ∧
      outcome.bytesExamined ≤ policy.maxBytes

theorem ReportsBudgets.append {log : List PollingEntry} {entries : List PollingEntry}
    (h : ReportsBudgets log) (hents : ReportsBudgets entries) :
    ReportsBudgets (log ++ entries) := by
  intro policy outcome hmem
  rcases List.mem_append.mp hmem with hmem | hmem
  · exact h policy outcome hmem
  · exact hents policy outcome hmem

/-- Entries other than a return report nothing. -/
theorem reportsBudgets_of_no_return {entries : List PollingEntry}
    (h : ∀ policy outcome, PollingEntry.returned policy outcome ∉ entries) :
    ReportsBudgets entries :=
  fun policy outcome hmem => absurd hmem (h policy outcome)

theorem ReportsBudgets.finish (h : ReportsBudgets σ.log)
    (hrun : WithinBudget run) : ReportsBudgets (σ.finish run).log := by
  refine h.append ?_
  intro policy outcome hmem
  cases List.mem_singleton.mp hmem
  exact ⟨hrun.items, hrun.pages, hrun.bytes⟩

theorem ReportsBudgets.advance (h : ReportsBudgets σ.log)
    (hrun : WithinBudget run) (event : PollingEvent) :
    ReportsBudgets (σ.advance digest run event).log := by
  cases event with
  | loop checkedAt advancedAt =>
    simp only [PollingSystem.advance]
    split
    · split
      · exact h.finish hrun
      · exact h
      · exact h
    · exact h
  | read page readAt =>
    simp only [PollingSystem.advance]
    split
    · exact h.append (reportsBudgets_of_no_return (by simp))
    · exact h
  | settle expiryAt checkedAt =>
    simp only [PollingSystem.advance]
    split
    · split
      · rename_i candidate _
        refine h.append (reportsBudgets_of_no_return ?_)
        cases candidate <;> simp
      · exact h
    · exact h
  | cover coveredAt =>
    simp only [PollingSystem.advance]
    split
    · exact h
    · exact h
  | save outcome =>
    simp only [PollingSystem.advance, PollingSystem.save]
    split
    · split
      · exact h.append (reportsBudgets_of_no_return (by simp))
      · exact h
    · exact h
  | complete done =>
    simp only [PollingSystem.advance]
    split
    · split
      · exact h.finish hrun
      · exact h
    · exact h
  | start policy lease now => exact h
  | fail => exact h
  | reset => exact h

theorem ReportsBudgets.step (h : ReportsBudgets σ.log) (hrun : ∀ run ∈ σ.run, WithinBudget run)
    (event : PollingEvent) : ReportsBudgets (σ.step digest event).log := by
  have hadv : ReportsBudgets (σ.run.elim σ fun run => σ.advance digest run event).log := by
    cases heq : σ.run with
    | none => exact h
    | some run => exact h.advance (hrun run heq) event
  cases event with
  | reset => exact h.append (reportsBudgets_of_no_return (by simp))
  | start policy lease now => exact h
  | fail => exact h
  | _ => exact hadv

/-- Every run keeps its invocations within their budgets. -/
theorem foldl_budgets (events : List PollingEvent) (hrun : ∀ run ∈ σ.run, WithinBudget run)
    (hreports : ReportsBudgets σ.log) :
    (∀ run ∈ (events.foldl (PollingSystem.step digest) σ).run, WithinBudget run) ∧
      ReportsBudgets (events.foldl (PollingSystem.step digest) σ).log := by
  induction events generalizing σ with
  | nil => exact ⟨hrun, hreports⟩
  | cons event rest ih =>
    exact ih (budgetInvariant.step trivial hrun trivial) (hreports.step hrun event)

/-- Lawful runs save valid positions only. -/
theorem foldl_valid (events : List PollingEvent) (hlawful : ∀ event ∈ events, event.Lawful)
    (hstor : ResumesValid σ.stored) (hrun : ∀ run ∈ σ.run, ValidRun run) :
    ∀ run ∈ (events.foldl (PollingSystem.step digest) σ).run, ValidRun run := by
  induction events generalizing σ with
  | nil => exact hrun
  | cons event rest ih =>
    have hfirst : event.Lawful := hlawful event (List.mem_cons_self ..)
    exact ih (fun other hmem => hlawful other (List.mem_cons_of_mem _ hmem))
      (resumesValid_step hstor event) (validInvariant.step hstor hrun hfirst)

end OctaCity.Source
